import Munch.Command
import Munch.Proofs.Escaping
import Munch.Proofs.Failure
import Munch.Proofs.MaximalMunch
import Munch.Proofs.Simulation

/-!
# What a review warns about

A review looks for edges that lead to an accepting state, wherever they come from. A token is cut
where at least one edge was crossed, so `exists_edge_of_drive` gives an edge to the state of every
token, and a state that is warned about has none. In a table without accepting states nothing is
accepted at all.
-/

namespace Munch

namespace Table

variable {t : Table} {s state : StateId} {name : String} {value : List Char}

/-! ## States without edges to them -/

/-- The targets of the edges are listed in the order of the edges. -/
theorem values_eq_map_snd_toList (edges : Std.ExtTreeMap (StateId × Char) StateId) :
    edges.values = edges.toList.map Prod.snd := by
  have hfoldr : edges.values = edges.foldr (fun _ s states => s :: states) [] := by
    obtain ⟨inner⟩ := edges
    induction inner using Std.ExtDTreeMap.inductionOn with
    | _ edges => rfl
  rw [hfoldr, Std.ExtTreeMap.foldr_eq_foldr_toList]
  exact List.map_eq_foldr.symm

/-- A state is a target exactly if some edge leads to it. -/
theorem isTarget_iff : t.isTarget s ↔ ∃ s' c, t.next? s' c = some s := by
  simp only [isTarget, List.contains_iff_mem, values_eq_map_snd_toList, List.mem_map, Prod.exists,
    exists_eq_right, Std.ExtTreeMap.mem_toList_iff_getElem?_eq_some]
  rfl

/-- What is warned about, by number. -/
theorem mem_unreached_iff :
    s ∈ t.unreached ↔ s ∈ t.accepting ∧ s ≠ initial ∧ ¬ ∃ s' c, t.next? s' c = some s := by
  simp only [unreached, List.mem_filter, Std.ExtTreeSet.mem_toList, Bool.and_eq_true,
    decide_eq_true_eq, Bool.not_eq_true', ← Bool.not_eq_true, isTarget_iff]

/-- No state is listed twice. -/
theorem nodup_unreached (t : Table) : t.unreached.Nodup := by
  refine List.Nodup.filter _ (Std.ExtTreeSet.distinct_toList.imp fun hne heq => ?_)
  exact hne (Std.LawfulEqCmp.compare_eq_iff_eq.mpr heq)

/-- The names of the states that are warned about. -/
def unreachedNames (t : Table) : List String := t.unreached.map t.nameOf

/-- No name is listed twice, as no two states have the same. -/
theorem Numbered.nodup_unreachedNames (ht : t.Numbered) : t.unreachedNames.Nodup := by
  refine (nodup_unreached t).map_on fun s hs s' hs' heq => ?_
  have hname := getElem?_names_of_lt (ht.accepting s (mem_unreached_iff.mp hs).1)
  have hname' := getElem?_names_of_lt (ht.accepting s' (mem_unreached_iff.mp hs').1)
  exact ht.place_inj hname (heq ▸ hname')

/-- By its name, such a state is accepting and not the initial one, and no edge leads to it. -/
theorem Numbered.mem_unreachedNames (ht : t.Numbered)
    (hinitial : t.names[initial]? = some initialName) :
    name ∈ t.unreachedNames ↔ t.Marks name ∧ name ≠ initialName ∧ ∀ e, ¬ t.Leads e name := by
  simp only [unreachedNames, List.mem_map, mem_unreached_iff]
  constructor
  · rintro ⟨s, ⟨hs, hne, hnone⟩, rfl⟩
    have hname := getElem?_names_of_lt (ht.accepting s hs)
    refine ⟨⟨s, hs, hname⟩, fun heq => hne (ht.place_inj hname (heq ▸ hinitial)), ?_⟩
    rintro e ⟨s', s'', -, hnext, hs''⟩
    exact hnone ⟨s', e.2, ht.place_inj hname hs'' ▸ hnext⟩
  · rintro ⟨⟨s, hs, hname⟩, hne, hnone⟩
    refine ⟨s, ⟨hs, ?_, ?_⟩, nameOf_eq_of_getElem? hname⟩
    · rintro rfl
      exact hne (Option.some.inj (hname.symm.trans hinitial))
    · rintro ⟨s', c, hnext⟩
      have hs' := getElem?_names_of_lt (ht.edges s' c s hnext).1
      exact hnone (t.nameOf s', c) ⟨s', s, hs', hnext, hname⟩

/-! ## The warnings -/

/-- A warning names its state in quotes, between two fixed texts. -/
theorem toList_unreachedWarning (name : String) :
    (unreachedWarning name).toList = "accepting state ".toList ++
      ((Text.quote name).toList ++ " is never the target of a transition".toList) := by
  delta unreachedWarning
  rw [String.toList_append, String.toList_append, List.append_assoc]

/-- Warnings about different states are different, so no two of them fall together. -/
theorem unreachedWarning_injective : Function.Injective unreachedWarning := by
  intro name name' h
  have htext := congrArg String.toList h
  rw [toList_unreachedWarning, toList_unreachedWarning] at htext
  exact (Text.toList_quote_append_inj (List.append_cancel_left htext)).1

/-- No name makes the warning about a state the one about a table without accepting states. -/
theorem unreachedWarning_ne (name : String) : unreachedWarning name ≠ noAcceptingWarning := by
  intro h
  have hhead := congrArg (fun text => text.toList.head?) h
  simp [toList_unreachedWarning, noAcceptingWarning] at hhead

/-- Each state that nothing leads to has a warning of its own. -/
theorem Numbered.warnings_perm (ht : t.Numbered) :
    t.warnings.Perm ((if t.accepting.isEmpty then [noAcceptingWarning] else []) ++
      t.unreachedNames.map unreachedWarning) := by
  have hmap : t.unreached.map (fun s => unreachedWarning (t.nameOf s)) =
      t.unreachedNames.map unreachedWarning := by
    rw [unreachedNames, List.map_map]
    rfl
  have hnodup := ht.nodup_unreachedNames.map unreachedWarning_injective
  rw [warnings, hmap]
  split
  case isTrue hempty =>
    have hnil : t.unreachedNames = [] := by
      simp [unreachedNames, unreached, Std.ExtTreeSet.isEmpty_iff.mp hempty]
    simp [hnil]
  case isFalse =>
    -- in ascending order none is lost, since no two of them are the same
    have hdistinct : (Std.ExtTreeSet.ofList (t.unreachedNames.map unreachedWarning)).toList.Nodup :=
      Std.ExtTreeSet.distinct_toList.imp fun hne heq =>
        hne (Std.LawfulEqCmp.compare_eq_iff_eq.mpr heq)
    refine (List.perm_ext_iff_of_nodup hdistinct hnodup).mpr fun w => ?_
    rw [Std.ExtTreeSet.mem_toList, Std.ExtTreeSet.mem_ofList, List.contains_iff_mem]

/-- Those states are warned about that nothing leads to. -/
theorem Numbered.unreachedWarning_mem_warnings (ht : t.Numbered) :
    unreachedWarning name ∈ t.warnings ↔ name ∈ t.unreachedNames := by
  have hne : unreachedWarning name ∉ if t.accepting.isEmpty then [noAcceptingWarning] else [] := by
    split <;> simp [unreachedWarning_ne]
  rw [ht.warnings_perm.mem_iff, List.mem_append, or_iff_right hne]
  exact List.mem_map_of_injective unreachedWarning_injective

/-- A table is said to accept nothing exactly if it has no accepting states. -/
theorem Numbered.noAcceptingWarning_mem_warnings (ht : t.Numbered) :
    noAcceptingWarning ∈ t.warnings ↔ t.accepting.isEmpty := by
  have hne : noAcceptingWarning ∉ t.unreachedNames.map unreachedWarning := by
    simp [unreachedWarning_ne]
  rw [ht.warnings_perm.mem_iff, List.mem_append, or_iff_left hne]
  split <;> simp_all

/-- The messages of the warnings among records. -/
def warned (rs : List Record) : List String := (rs.filter (·.level = .warn)).map Record.message

/-- The records of a table warn of what its warnings say. -/
theorem warned_records (t : Table) : warned t.records = t.warnings := by
  simp [warned, records, List.filter_map, Function.comp_def]

/-! ## Tables that accept nothing -/

/-- A table without accepting states has none by name either. -/
theorem Numbered.isEmpty_accepting_iff (ht : t.Numbered) :
    t.accepting.isEmpty ↔ ∀ name, ¬ t.Marks name := by
  rw [← Std.ExtTreeSet.isEmpty_toList, List.isEmpty_iff, List.eq_nil_iff_forall_not_mem]
  simp only [Std.ExtTreeSet.mem_toList]
  constructor
  · rintro h name ⟨s, hs, -⟩
    exact h s hs
  · intro h s hs
    exact h (t.nameOf s) ⟨s, hs, getElem?_names_of_lt (ht.accepting s hs)⟩

/-- No name is listed as accepting exactly if there is no accepting state. -/
theorem Numbered.acceptingNames_eq_nil_iff (ht : t.Numbered) :
    t.acceptingNames = [] ↔ t.accepting.isEmpty := by
  simp only [ht.isEmpty_accepting_iff, List.eq_nil_iff_forall_not_mem, mem_acceptingNames ht]

/-- No text leads to an accepting state if there is none. -/
theorem rejects_of_isEmpty_accepting (h : t.accepting.isEmpty) (text : List Char) :
    t.Rejects text := by
  intro p _ haccepts
  obtain ⟨s, -, hs⟩ := accepts_eq_true_iff.mp haccepts
  rw [isAccepting, Std.ExtTreeSet.isEmpty_iff.mp h] at hs
  simp at hs

/-! ## The states of tokens -/

/-- A text that is not empty leads along an edge to the state in which it ends. -/
theorem exists_edge_of_drive (hne : value ≠ []) (h : t.drive s value = some state) :
    ∃ s' c, t.next? s' c = some state := by
  obtain ⟨front, c, rfl⟩ := (List.eq_nil_or_concat value).resolve_left hne
  rw [List.concat_eq_append, drive_append, Option.bind_eq_some_iff] at h
  obtain ⟨s', -, hnext⟩ := h
  exact ⟨s', c, by simpa using hnext⟩

end Table

/-- The token that an answer gives out, if it does. -/
def Answer.token? : Answer → Option Token
  | .token (.ok tok) => some tok
  | .next (some (.ok tok)) => some tok
  | _ => none

namespace Scanner

variable {s : Scanner} {tok : Token}

/-- The kind of a token is that of a state to which an edge leads. -/
theorem exists_edge_of_token (h : s.token.1 = .ok tok) :
    ∃ value state s' c,
      tok.kind = s.table.kindOf value state ∧ s.table.next? s' c = some state := by
  cases hhalt : s.halt? with
  | some d => simp [token_of_halted hhalt] at h
  | none =>
      obtain ⟨value, state, hlongest, hdrive, rfl, -⟩ := exists_longest_of_token hhalt h
      obtain ⟨s', c, hnext⟩ := Table.exists_edge_of_drive hlongest.ne_nil hdrive
      exact ⟨_, state, s', c, rfl, hnext⟩

/-- Skipping does not change the table. -/
theorem table_skipGap (s : Scanner) : s.skipGap.table = s.table := by
  unfold skipGap
  split <;> rfl

/-- The kind of a token that any operation answers with is that of a state to which an edge
leads. -/
theorem exists_edge_of_answer {o : Operation} (h : (s.perform o).1.token? = some tok) :
    ∃ value state s' c,
      tok.kind = s.table.kindOf value state ∧ s.table.next? s' c = some state := by
  cases o with
  | skip => simp [perform, Answer.token?] at h
  | peek => simp [perform, Answer.token?] at h
  | token =>
      refine exists_edge_of_token ?_
      cases hr : s.token.1 <;> simp_all [perform, Answer.token?]
  | next =>
      rw [← table_skipGap]
      refine exists_edge_of_token ?_
      obtain ⟨-, hnext⟩ | ⟨-, hnext⟩ := next_cases s
      · simp [perform, hnext, Answer.token?] at h
      · cases hr : s.skipGap.token.1 <;> simp_all [perform, Answer.token?]

/-- If a token is named by a state, and not a keyword, an edge leads to this state. -/
theorem exists_leads_of_answer {o : Operation} {name : String} (ht : s.table.Numbered)
    (h : (s.perform o).1.token? = some tok) (hkind : tok.kind = .accepted name) :
    ∃ e, s.table.Leads e name := by
  obtain ⟨value, state, s', c, hkind', hnext⟩ := exists_edge_of_answer h
  rw [hkind, Table.kindOf_eq] at hkind'
  split at hkind'
  · simp at hkind'
  · obtain ⟨hlt, hlt'⟩ := ht.edges s' c state hnext
    rw [TokenKind.accepted.inj hkind']
    exact ⟨(s.table.nameOf s', c), s', state, Table.getElem?_names_of_lt hlt, hnext,
      Table.getElem?_names_of_lt hlt'⟩

/-- No token is of a state that is warned about. -/
theorem kind_ne_of_unreached {o : Operation} {name : String} (ht : s.table.Numbered)
    (hinitial : s.table.names[Table.initial]? = some initialName)
    (hname : name ∈ s.table.unreachedNames) (h : (s.perform o).1.token? = some tok) :
    tok.kind ≠ .accepted name := by
  intro hkind
  obtain ⟨e, hleads⟩ := exists_leads_of_answer ht h hkind
  exact ((ht.mem_unreachedNames hinitial).mp hname).2.2 e hleads

/-- A scanner over a table that accepts nothing fails whenever it is asked for a token. -/
theorem exists_error_of_rejects (h : s.table.Rejects s.rest) : ∃ d, s.token.1 = .error d := by
  cases hhalt : s.halt? with
  | some d => exact ⟨d, by rw [token_of_halted hhalt]⟩
  | none => exact (exists_error_iff hhalt).mpr h

end Scanner

/-- What a scan logs comes behind the records of the table. -/
theorem Command.records_isPrefix_scan (printed : String) (t : Table) (source path : String) :
    t.records <+: (scan printed t source path).records := by
  simp only [scan]
  split
  · exact List.prefix_append _ _
  · split <;> exact List.prefix_append _ _

namespace Table

/-! ## What steps are warned about -/

variable {ss : List Step}

/-- The states that are warned about, by the steps that build the table. -/
theorem mem_unreachedNames_ofSteps_iff (hfits : (ofSteps ss).Fits) :
    name ∈ (ofSteps ss).unreachedNames ↔
      (∃ accepted, Step.accept accepted ∈ ss ∧ name ∈ accepted) ∧ name ≠ initialName ∧
        ∀ e, ¬ LastWritten ss e name := by
  rw [(numbered_ofSteps ss).mem_unreachedNames (getElem?_names_initial ss), marks_ofSteps_iff hfits]
  simp only [leads_ofSteps_iff hfits]

/-- A table has no accepting states if all lists of them are empty. -/
theorem isEmpty_accepting_ofSteps_iff (hfits : (ofSteps ss).Fits) :
    (ofSteps ss).accepting.isEmpty ↔ ∀ accepted, Step.accept accepted ∈ ss → accepted = [] := by
  simp only [(numbered_ofSteps ss).isEmpty_accepting_iff, marks_ofSteps_iff hfits]
  constructor
  · intro h accepted hmem
    exact List.eq_nil_iff_forall_not_mem.mpr fun name hname => h name ⟨accepted, hmem, hname⟩
  · rintro h name ⟨accepted, hmem, hname⟩
    simp [h accepted hmem] at hname

/-- A finished table is warned about once for each accepting state, other than the initial one, to
which no edge leads that is left in the end, and once if it has no accepting state. Whatever is
asked of a scanner, no token is of a state that was warned about, and every token that is asked for
fails if there is no accepting state. Reading a description keeps no log of its own: records are
made of the finished table, which the command logs before anything else. So the last clause is about
the order of its steps, by which a table that cannot be read leaves no records. -/
theorem warnings_hold (ss : List Step)
    (hfits : (initialName :: ss.flatMap Step.mentioned).toFinset.card ≤ numberLimit) :
    let t := ofSteps ss
    (∃ names : List String, names.Nodup ∧
      (∀ name, name ∈ names ↔ (∃ accepted, Step.accept accepted ∈ ss ∧ name ∈ accepted) ∧
        name ≠ initialName ∧ ∀ e, ¬ LastWritten ss e name) ∧
      (warned t.records).Perm
        ((if t.acceptingNames = [] then [noAcceptingWarning] else []) ++
          names.map unreachedWarning)) ∧
    (noAcceptingWarning ∈ warned t.records ↔
      ∀ accepted, Step.accept accepted ∈ ss → accepted = []) ∧
    (∀ name, unreachedWarning name ∈ warned t.records → ∀ source os o tok,
      (((Scanner.start t source).after os).perform o).1.token? = some tok →
        tok.kind ≠ .accepted name) ∧
    (noAcceptingWarning ∈ warned t.records → ∀ source os,
      ∃ d, ((Scanner.start t source).after os).token.1 = .error d) ∧
    ∀ files args tablePath path description, Command.paths args = [tablePath, path] →
      Files.read files tablePath = .ok description →
        (∀ d, ofDescription description = .error d → (Command.run files args).records = []) ∧
        ∀ t' text, ofDescription description = .ok t' → Files.read files path = .ok text →
          t'.records <+: (Command.run files args).records := by
  intro t
  have ht : t.Numbered := numbered_ofSteps ss
  have hfits : t.Fits := (length_names_ofSteps ss).trans_le hfits
  rw [warned_records, ht.noAcceptingWarning_mem_warnings]
  refine ⟨?once, ?nothing, ?unreached, ?rejected, ?unread⟩
  case once =>
    refine ⟨t.unreachedNames, ht.nodup_unreachedNames,
      fun name => mem_unreachedNames_ofSteps_iff hfits, ?_⟩
    simpa only [ht.acceptingNames_eq_nil_iff] using ht.warnings_perm
  case nothing =>
    exact isEmpty_accepting_ofSteps_iff hfits
  case unreached =>
    intro name hwarned source os o tok htok
    obtain ⟨done, hs⟩ := Scanner.behind_after t source os
    refine Scanner.kind_ne_of_unreached ?_ ?_ ?_ htok
    all_goals rw [hs.table_eq]
    · exact ht
    · exact getElem?_names_initial ss
    · exact ht.unreachedWarning_mem_warnings.mp hwarned
  case rejected =>
    intro hempty source os
    obtain ⟨done, hs⟩ := Scanner.behind_after t source os
    refine Scanner.exists_error_of_rejects ?_
    rw [hs.table_eq]
    exact rejects_of_isEmpty_accepting hempty _
  case unread =>
    intro files args tablePath path description hpaths htable
    constructor
    · intro d hd
      simp only [Command.run, hpaths, htable, hd]
      split <;> rfl
    · intro t' text hdescription hsource
      simp only [Command.run, hpaths, htable, hdescription, hsource]
      exact Command.records_isPrefix_scan _ t' _ path

/-- The edge to an accepting state is given another target. -/
def overwritten : List Step :=
  [.accept ["once"], .connect "init" (.only 'a') "once", .connect "init" (.only 'a') "twice"]

/-- Nothing leads to the accepting state any more once its only edge is overwritten, so it is warned
about. -/
theorem warnings_hold_overwritten :
    (initialName :: overwritten.flatMap Step.mentioned).toFinset.card ≤ numberLimit ∧
      unreachedWarning "once" ∈ warned (ofSteps overwritten).records ∧
      noAcceptingWarning ∉ warned (ofSteps overwritten).records := by
  have hfits : (initialName :: overwritten.flatMap Step.mentioned).toFinset.card ≤ numberLimit := by
    decide +kernel
  have hlast (e : String × Char) : ¬ LastWritten overwritten e "once" := by
    have haccept : (Step.accept ["once"]).written = [] := by decide +kernel
    have hfirst : (Step.connect "init" (.only 'a') "once").written = [(("init", 'a'), "once")] := by
      decide +kernel
    have hsecond :
        (Step.connect "init" (.only 'a') "twice").written = [(("init", 'a'), "twice")] := by
      decide +kernel
    have hwrites : overwritten = (([] ++ [.accept ["once"]]) ++
        [.connect "init" (.only 'a') "once"]) ++ [.connect "init" (.only 'a') "twice"] := rfl
    rw [hwrites]
    simp only [lastWritten_concat, haccept, hfirst, hsecond]
    simp [not_lastWritten_nil]
  obtain ⟨⟨names, -, hnames, hperm⟩, hnothing, -⟩ := warnings_hold overwritten hfits
  have hmem : "once" ∈ names :=
    (hnames "once").mpr ⟨⟨["once"], by decide +kernel, by simp⟩, by decide, hlast⟩
  refine ⟨hfits, hperm.mem_iff.mpr ?_, ?_⟩
  · exact List.mem_append_right _ (List.mem_map_of_mem hmem)
  · rw [hnothing]
    intro h
    simpa using h ["once"] (by decide +kernel)

end Table

end Munch
