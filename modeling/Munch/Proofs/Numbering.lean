import Munch.Proofs.Dumping
import Munch.Proofs.FirstMention
import Munch.Proofs.Warnings

/-!
# Numbers and what they name

The numbers in a table are places in its list of names. Dumps, reviews and scanners look names up by
number, and for a number beyond the list they would make one up. Each of them is written here once
more so that it gives up at such a number, and none ever does: all numbers that are looked up stand
at edges or belong to accepting states, and `Numbered` holds of all tables that steps build. Further
steps make the list longer at its end only, so what a number names stays the same.
-/

namespace Munch

/-- Reading a list with a function that always succeeds. -/
theorem mapM_eq_some_of_forall {α β : Type} {f : α → Option β} {g : α → β} {l : List α}
    (h : ∀ a ∈ l, f a = some (g a)) : l.mapM f = some (l.map g) := by
  induction l with
  | nil => rfl
  | cons a l ih =>
      obtain ⟨ha, hl⟩ := List.forall_mem_cons.mp h
      rw [List.mapM_cons, ha, ih hl]
      rfl

namespace Table

variable {t : Table} {s : StateId} {length : Nat} {text : List Char}

/-! ## Dumps -/

/-- The names of the accepting states, unless one of their numbers names nothing. -/
def acceptingNames? (t : Table) : Option (List String) :=
  (t.accepting.toList.mapM (t.names[·]?)).map fun names => (Std.ExtTreeSet.ofList names).toList

/-- An edge with the names of its states, unless one of their numbers names nothing. -/
def nameEdge? (t : Table) (e : (StateId × Char) × StateId) : Option ((String × Char) × String) := do
  let source ← t.names[e.1.1]?
  let target ← t.names[e.2]?
  return ((source, e.1.2), target)

/-- The edges between names, unless a number names nothing. -/
def namedEdges? (t : Table) : Option (Std.ExtTreeMap (String × Char) String) :=
  (t.edges.toList.mapM t.nameEdge?).map (Std.ExtTreeMap.ofList · compare)

/-- A table, written out, unless a number names nothing. -/
def dump? (t : Table) : Option String := do
  let accepting ← t.acceptingNames?
  let edges ← t.namedEdges?
  return "accepting: " ++ " ".intercalate accepting ++ "\n" ++
    "reserved: " ++ " ".intercalate t.reservedWords ++ "\n" ++
    String.join (edges.toList.map dumpEdge)

/-- All accepting states have names. -/
theorem Numbered.acceptingNames?_eq (ht : t.Numbered) :
    t.acceptingNames? = some t.acceptingNames := by
  have hnames : t.accepting.toList.mapM (t.names[·]?) = some (t.accepting.toList.map t.nameOf) :=
    mapM_eq_some_of_forall fun s hs =>
      getElem?_names_of_lt (ht.accepting s (Std.ExtTreeSet.mem_toList.mp hs))
  rw [acceptingNames?, hnames]
  rfl

/-- Both ends of an edge have names. -/
theorem Numbered.nameEdge?_eq (ht : t.Numbered) {e : (StateId × Char) × StateId}
    (he : e ∈ t.edges.toList) : t.nameEdge? e = some (t.nameEdge e) := by
  obtain ⟨⟨s, c⟩, s'⟩ := e
  have hnext : t.next? s c = some s' := Std.ExtTreeMap.mem_toList_iff_getElem?_eq_some.mp he
  obtain ⟨hs, hs'⟩ := ht.edges s c s' hnext
  simp only [nameEdge?, getElem?_names_of_lt hs, getElem?_names_of_lt hs']
  rfl

/-- All edges can be named. -/
theorem Numbered.namedEdges?_eq (ht : t.Numbered) : t.namedEdges? = some t.namedEdges := by
  have hedges : t.edges.toList.mapM t.nameEdge? = some (t.edges.toList.map t.nameEdge) :=
    mapM_eq_some_of_forall fun e he => ht.nameEdge?_eq he
  rw [namedEdges?, hedges, namedEdges_eq_ofList]
  rfl

/-- A dump makes no name up. -/
theorem Numbered.dump?_eq (ht : t.Numbered) : t.dump? = some t.dump := by
  rw [dump?, ht.acceptingNames?_eq, ht.namedEdges?_eq]
  rfl

/-! ## Reviews -/

/-- The warnings about a table, unless one would be about a number that names nothing. -/
def warnings? (t : Table) : Option (List String) :=
  if t.accepting.isEmpty then some [noAcceptingWarning]
  else (t.unreached.mapM fun s => t.names[s]?.map unreachedWarning).map
    fun warnings => (Std.ExtTreeSet.ofList warnings).toList

/-- What is logged of a finished table, unless a number names nothing. -/
def records? (t : Table) : Option (List Record) :=
  t.warnings?.map fun warnings => warnings.map (⟨.warn, ·⟩) ++ [⟨.debug, t.summary⟩]

/-- No warning makes a name up. -/
theorem Numbered.warnings?_eq (ht : t.Numbered) : t.warnings? = some t.warnings := by
  have hunreached : t.unreached.mapM (fun s => t.names[s]?.map unreachedWarning) =
      some (t.unreached.map fun s => unreachedWarning (t.nameOf s)) := by
    refine mapM_eq_some_of_forall fun s hs => ?_
    rw [getElem?_names_of_lt (ht.accepting s (mem_unreached_iff.mp hs).1)]
    rfl
  rw [warnings?, warnings, hunreached]
  split <;> rfl

/-- Nothing that a review logs makes a name up. -/
theorem Numbered.records?_eq (ht : t.Numbered) : t.records? = some t.records := by
  rw [records?, ht.warnings?_eq]
  rfl

/-! ## Tokens -/

/-- The kind of a text that ended in a state, unless its number is looked up and names nothing. -/
def kindOf? (t : Table) (value : String) (s : StateId) : Option TokenKind :=
  if t.isReserved value then some .keyword else t.names[s]?.map .accepted

/-- A token is named by a state that has a name. -/
theorem kindOf?_eq (hs : s < t.names.length) (value : String) :
    t.kindOf? value s = some (t.kindOf value s) := by
  rw [kindOf?, kindOf, getElem?_names_of_lt hs]
  split <;> rfl

/-- The state of the longest accepted text has a name, for an edge leads to it. -/
theorem Numbered.lt_of_walk (ht : t.Numbered) (h : (t.walk text).accepted? = some (length, s)) :
    s < t.names.length := by
  obtain ⟨-, -, -, hremembers⟩ := t.walk_spec text
  rw [h] at hremembers
  obtain ⟨value, hlongest, -, hdrive⟩ := hremembers
  obtain ⟨s', c, hnext⟩ := exists_edge_of_drive hlongest.ne_nil hdrive
  exact (ht.edges s' c s hnext).2

end Table

namespace Scanner

variable {s : Scanner}

/-- The token that the next characters make up, unless the number of their state names nothing. -/
def cut? (s : Scanner) (length : Nat) (state : StateId) : Option Token :=
  let value := String.ofList (s.rest.take length)
  (s.table.kindOf? value state).map
    fun kind => ⟨kind, value, ⟨s.location, (s.advance length).location⟩⟩

/-- Reads the longest accepted text, unless the number of its state names nothing. -/
def token? (s : Scanner) : Option (Except Diagnostic Token × Scanner) :=
  match s.halt? with
  | some d => some (.error d, s)
  | none =>
    let walk := s.table.walk s.rest
    match walk.accepted? with
    | some (length, state) => (s.cut? length state).map fun tok => (.ok tok, s.advance length)
    | none =>
      let after := s.advance walk.crossed
      some (.error after.failure, after.halt)

/-- A scanner makes no name up: it walks along edges, and these lead to states with names. -/
theorem token?_eq (ht : s.table.Numbered) : s.token? = some s.token := by
  cases hhalt : s.halt? with
  | some d => simp only [token?, token, hhalt]
  | none =>
      cases hwalk : (s.table.walk s.rest).accepted? with
      | none => simp only [token?, token, hhalt, hwalk]
      | some best =>
          -- the one case in which a name may be looked up
          obtain ⟨length, state⟩ := best
          have hkind := Table.kindOf?_eq (ht.lt_of_walk hwalk) (String.ofList (s.rest.take length))
          simp only [token?, token, hhalt, hwalk, cut?, hkind]
          rfl

end Scanner

namespace Table

/-! ## What steps number -/

/-- The states of a table that steps build are numbered in the order of first mention, from the
initial one on: the number of a state is its place in the list of names, and the one that a map
beside the list would hold. All numbers in the table are places in the list, so dumps, reviews and
scanners find a name for each number that they look up. Further steps change no number and no
name. -/
theorem ofSteps_numbers_are_places (ss : List Step)
    (hfits : (initialName :: ss.flatMap Step.mentioned).toFinset.card ≤ numberLimit) :
    let t := ofSteps ss
    let mentions := initialName :: ss.flatMap Step.mentioned
    t.names.Nodup ∧ t.names.head? = some initialName ∧ t.names = mentions.eraseDups ∧
    (∀ name s, t.state? name = some s ↔ t.names[s]? = some name) ∧
    ((Register.ofMentions mentions).names = t.names ∧
      ∀ name, (Register.ofMentions mentions).numbers[name]? = t.state? name) ∧
    (∀ s c s', t.next? s c = some s' → s < t.names.length ∧ s' < t.names.length) ∧
    (∀ s, t.isAccepting s → s < t.names.length) ∧
    t.dump? = some t.dump ∧ t.records? = some t.records ∧
    (∀ s : Scanner, s.table = t → s.token? = some s.token) ∧
    ∀ more : List Step, let u := ofSteps (ss ++ more)
      (∀ name s, t.state? name = some s → u.state? name = some s) ∧
      ∀ (s : StateId) name, t.names[s]? = some name → u.names[s]? = some name := by
  intro t mentions
  have ht : t.Numbered := numbered_ofSteps ss
  have hfits : t.Fits := (length_names_ofSteps ss).trans_le hfits
  have hmentions : t.names = mentions.eraseDups := names_ofSteps ss
  refine ⟨ht.nodup, ?first, hmentions, fun name s => state?_eq_some_iff ht hfits, ?register,
    ht.edges, ?accepting, ht.dump?_eq, ht.records?_eq, ?scanners, ?further⟩
  case first =>
    rw [List.head?_eq_getElem?]
    exact getElem?_names_initial ss
  case register =>
    exact ⟨(Register.names_ofMentions mentions).trans hmentions.symm,
      Register.numbers_eq_state? hmentions⟩
  case accepting =>
    exact fun s hs => ht.accepting s (Std.ExtTreeSet.contains_iff_mem.mp hs)
  case scanners =>
    exact fun s hs => Scanner.token?_eq (hs ▸ ht)
  case further =>
    intro more u
    have hnames : t.names <+: u.names := by
      have hsteps : u = t.steps more := ofSteps_append ss more
      rw [hsteps]
      exact names_prefix_steps t more
    exact ⟨fun name s => state?_of_isPrefix hnames, fun s name hs =>
      (getElem?_names_of_isPrefix hnames (List.getElem?_eq_some_iff.mp hs).1).trans hs⟩

/-- States that are mentioned as targets, as sources and only as accepting ones, and two rows that
fail and mention nothing. -/
def scattered : List Step :=
  [.line "start 0 zero" ⟨0, 3, 1⟩, .line "start digits one" ⟨13, 4, 1⟩, .line "zero one" ⟨30, 5, 1⟩,
    .connect "init" (.anyOf .letter) "start", .accept ["orphan", "zero", "init"]]

/-- Names come behind each other as they are mentioned, in whatever kind of step. -/
theorem ofSteps_numbers_are_places_scattered :
    let t := ofSteps scattered
    let u := ofSteps (scattered ++ [.connect "one" (.only '1') "orphan"])
    let s := Scanner.start t "a0 "
    (initialName :: scattered.flatMap Step.mentioned).toFinset.card ≤ numberLimit ∧
      t.names = ["init", "start", "zero", "orphan"] ∧ t.state? "orphan" = some 3 ∧
      (t.next? 1 '0' = some 2 ∧ 1 < t.names.length ∧ 2 < t.names.length) ∧
      (t.isAccepting 3 ∧ 3 < t.names.length) ∧
      (s.token.1 = .ok ⟨.accepted "zero", "a0", ⟨⟨0, 1, 1⟩, ⟨2, 1, 3⟩⟩⟩ ∧ s.token? = some s.token) ∧
      u.state? "orphan" = some 3 ∧ u.names[3]? = some "orphan" := by
  intro t u s
  have hfits : (initialName :: scattered.flatMap Step.mentioned).toFinset.card ≤ numberLimit := by
    decide +kernel
  obtain ⟨-, -, hnames, hstate, -, hedges, haccepting, -, -, hscanners, hfurther⟩ :=
    ofSteps_numbers_are_places scattered hfits
  have hmentions : (initialName :: scattered.flatMap Step.mentioned).eraseDups =
      ["init", "start", "zero", "orphan"] := by decide +kernel
  have horphan : t.names[3]? = some "orphan" :=
    (congrArg (·[3]?) (hnames.trans hmentions)).trans rfl
  have hnumber : t.state? "orphan" = some 3 := (hstate "orphan" 3).mpr horphan
  have hedge : t.next? 1 '0' = some 2 := by decide +kernel
  have haccepts : t.isAccepting 3 := by decide +kernel
  have htoken : s.token.1 = .ok ⟨.accepted "zero", "a0", ⟨⟨0, 1, 1⟩, ⟨2, 1, 3⟩⟩⟩ := by
    decide +kernel
  obtain ⟨hkept, hnamed⟩ := hfurther [.connect "one" (.only '1') "orphan"]
  exact ⟨hfits, hnames.trans hmentions, hnumber, ⟨hedge, hedges 1 '0' 2 hedge⟩,
    ⟨haccepts, haccepting 3 haccepts⟩, ⟨htoken, hscanners s rfl⟩, hkept "orphan" 3 hnumber,
    hnamed 3 "orphan" horphan⟩

end Table

end Munch
