import Munch.Proofs.Building
import Munch.Proofs.Grammar

/-!
# Steps that are repeated

Steps overwrite edges of one another, so a second pass over them undoes some of what the first pass
built before it builds it again. By the numbers that the states have in the end a pass is a list of
edges that are inserted one after the other, and in both passes the last one of each decides. All
states are numbered when the second pass begins, and accepting states and reserved words stay.
-/

namespace Munch

namespace Table

open Text (fileLines)

variable {t u : Table} {name : String} {ch : Change} {cs : List Change} {s : StateId}

/-- The edges that a change writes, by the numbers that the states have in a table. -/
def numberedEdges (u : Table) (ch : Change) : List ((StateId × Char) × StateId) :=
  ch.written.map fun e => (((u.mention e.1.1).2, e.1.2), (u.mention e.2).2)

/-! ## One change -/

/-- Edges that are inserted one by one are inserted as a list. -/
theorem foldl_insert_eq_insertMany (edges : Std.ExtTreeMap (StateId × Char) StateId)
    (cs : List Char) (s s' : StateId) :
    cs.foldl (fun edges c => edges.insert (s, c) s') edges =
      edges.insertMany (cs.map fun c => ((s, c), s')) := by
  induction cs generalizing edges with
  | nil => simp
  | cons c cs ih =>
      rw [List.foldl_cons, ih, List.map_cons, Std.ExtTreeMap.insertMany_cons]

/-- By the numbers of a later table, a change inserts a fixed list of edges. -/
theorem edges_apply (hnames : (t.apply ch).names <+: u.names) :
    (t.apply ch).edges = t.edges.insertMany (u.numberedEdges ch) := by
  cases ch with
  | accept name => simp [apply, accept, numberedEdges, Change.written]
  | reserve word => simp [apply, reserve, numberedEdges, Change.written]
  | connect source symbol target =>
      have hmore : (t.mention source).1.names <+: u.names :=
        (names_prefix_mention _ target).trans hnames
      have hsource : (u.mention source).2 = (t.mention source).2 := snd_mention_of_isPrefix hmore
      have htarget : (u.mention target).2 = ((t.mention source).1.mention target).2 :=
        snd_mention_of_isPrefix hnames
      simp only [apply, connect, edges_mention, foldl_insert_eq_insertMany, numberedEdges,
        Change.written, List.map_map, Function.comp_def, hsource, htarget]

/-- By the numbers of a later table, a change makes a fixed state accepting, or none. -/
theorem mem_accepting_apply (hnames : (t.apply ch).names <+: u.names) :
    s ∈ (t.apply ch).accepting ↔
      s ∈ t.accepting ∨ ∃ name, ch = .accept name ∧ s = (u.mention name).2 := by
  cases ch with
  | accept name =>
      have hnumber : (u.mention name).2 = (t.mention name).2 := snd_mention_of_isPrefix hnames
      simp [apply, mem_accepting_accept, hnumber, or_comm]
  | reserve word => simp [apply, reserve]
  | connect source symbol target => simp [apply, connect]

/-- States that are known are not numbered again. -/
theorem names_apply (h : ∀ name ∈ ch.mentioned, name ∈ t.names) : (t.apply ch).names = t.names := by
  cases ch with
  | accept name => exact (names_mention t name).trans (if_pos (h name (by simp [Change.mentioned])))
  | reserve word => rfl
  | connect source symbol target =>
      have hsource : (t.mention source).1.names = t.names :=
        (names_mention t source).trans (if_pos (h source (by simp [Change.mentioned])))
      have htarget : target ∈ (t.mention source).1.names :=
        hsource ▸ h target (by simp [Change.mentioned])
      exact ((names_mention _ target).trans (if_pos htarget)).trans hsource

/-! ## A list of changes -/

/-- A list of changes inserts their lists of edges one behind the other. -/
theorem edges_foldl_apply (hnames : (cs.foldl apply t).names <+: u.names) :
    (cs.foldl apply t).edges = t.edges.insertMany (cs.flatMap u.numberedEdges) := by
  induction cs generalizing t with
  | nil => simp
  | cons ch cs ih =>
      have hnames' : (t.apply ch).names <+: u.names := (names_prefix_foldl_apply _ cs).trans hnames
      rw [List.foldl_cons, ih hnames, edges_apply hnames', List.flatMap_cons,
        Std.ExtTreeMap.insertMany_append]

/-- A list of changes makes those states accepting that it names, by the later numbers. -/
theorem mem_accepting_foldl_apply (hnames : (cs.foldl apply t).names <+: u.names) :
    s ∈ (cs.foldl apply t).accepting ↔
      s ∈ t.accepting ∨ ∃ name, Change.accept name ∈ cs ∧ s = (u.mention name).2 := by
  induction cs generalizing t with
  | nil => simp
  | cons ch cs ih =>
      have hnames' : (t.apply ch).names <+: u.names := (names_prefix_foldl_apply _ cs).trans hnames
      rw [List.foldl_cons, ih hnames, mem_accepting_apply hnames', or_assoc]
      simp only [List.mem_cons, or_and_right, exists_or, eq_comm]

/-- A list of changes that mentions known states only leaves the names as they are. -/
theorem names_foldl_apply (h : ∀ ch ∈ cs, ∀ name ∈ ch.mentioned, name ∈ t.names) :
    (cs.foldl apply t).names = t.names := by
  induction cs generalizing t with
  | nil => rfl
  | cons ch cs ih =>
      have hnames : (t.apply ch).names = t.names := names_apply (h ch List.mem_cons_self)
      rw [List.foldl_cons, ih, hnames]
      intro ch' hch'
      rw [hnames]
      exact h ch' (List.mem_cons_of_mem _ hch')

/-- Inserting edges once more changes none of them: the last one of each counts in both passes. -/
theorem insertMany_insertMany (edges : Std.ExtTreeMap (StateId × Char) StateId)
    (es : List ((StateId × Char) × StateId)) :
    (edges.insertMany es).insertMany es = edges.insertMany es := by
  refine Std.ExtTreeMap.ext_getElem? fun k => ?_
  rw [Std.ExtTreeMap.getElem?_insertMany_list, Std.ExtTreeMap.getElem?_insertMany_list,
    ← Option.or_assoc, Option.or_self]

/-- Changes that are made once more change nothing. -/
theorem foldl_apply_foldl_apply (t : Table) (cs : List Change) :
    cs.foldl apply (cs.foldl apply t) = cs.foldl apply t := by
  generalize hu : cs.foldl apply t = u
  have hfirst : (cs.foldl apply t).names <+: u.names := hu ▸ List.prefix_refl _
  have hnames : (cs.foldl apply u).names = u.names := by
    refine names_foldl_apply fun ch hch name hname => ?_
    rw [← hu, mem_names_foldl_apply]
    exact Or.inr (List.mem_flatMap.mpr ⟨ch, hch, hname⟩)
  have hsecond : (cs.foldl apply u).names <+: u.names := hnames ▸ List.prefix_refl _
  -- both passes are told by the numbers of the table behind the first one
  have hedges : (cs.foldl apply u).edges = u.edges := by
    have hwritten := edges_foldl_apply hfirst
    rw [hu] at hwritten
    rw [edges_foldl_apply hsecond, hwritten, insertMany_insertMany]
  have haccepting : (cs.foldl apply u).accepting = u.accepting := by
    refine Std.ExtTreeSet.ext_mem fun s => ?_
    have hmarked := mem_accepting_foldl_apply (s := s) hfirst
    rw [hu] at hmarked
    rw [mem_accepting_foldl_apply hsecond, hmarked, or_assoc, or_self]
  have hreserved : (cs.foldl apply u).reserved = u.reserved := by
    refine Std.ExtTreeSet.ext_mem fun word => ?_
    rw [mem_reserved_foldl_apply, ← hu, mem_reserved_foldl_apply, or_assoc, or_self]
  calc cs.foldl apply u
      = ⟨u.names, u.edges, u.accepting, u.reserved⟩ := by
        rw [← hnames, ← hedges, ← haccepting, ← hreserved]
    _ = u := rfl

/-! ## Steps, and rows of a description -/

/-- A second pass over the same steps changes nothing. -/
theorem steps_steps (t : Table) (ss : List Step) : (t.steps ss).steps ss = t.steps ss := by
  simp only [steps_eq_foldl_apply, foldl_apply_foldl_apply]

/-- Lines behind the first one that cannot be read are not read. -/
theorem addLines_append_of_error {l : Location} {lines : List (List Char)} {d : Diagnostic}
    (h : t.addLines l lines = .error d) (more : List (List Char)) :
    t.addLines l (lines ++ more) = .error d := by
  induction lines generalizing t l with
  | nil => simp [addLines] at h
  | cons line rest ih =>
      rw [List.cons_append, addLines]
      rw [addLines] at h
      split at h
      case h_1 hline => exact ih h
      case h_2 hline => exact h

/-- Rows are made into steps part by part if they all have the same location. -/
theorem ofRows_append (l : Location) (rows rows' : List (List Char)) :
    Step.ofRows (fun _ => l) (rows ++ rows') =
      Step.ofRows (fun _ => l) rows ++ Step.ofRows (fun _ => l) rows' := by
  induction rows with
  | nil => rfl
  | cons row rows ih =>
      rw [List.cons_append, Step.ofRows_cons, Step.ofRows_cons, List.cons_append, ih]

/-- Rows that stand there once more add nothing, and no fault. -/
theorem addLines_append_again (t : Table) (i k : Nat) (front rows : List (List Char)) :
    t.addLines ⟨i, k, 1⟩ (front ++ rows ++ rows) = t.addLines ⟨i, k, 1⟩ (front ++ rows) := by
  rcases addLines_cases (front ++ rows) t i k with
    ⟨hrows, hok⟩ | ⟨before, line, after, cause, -, -, -, herror⟩
  · rcases addLines_cases (front ++ rows ++ rows) t i k with
      ⟨-, hok'⟩ | ⟨before, line, after, cause, hsplit, -, hfault, -⟩
    · -- a row is the same step wherever it stands, so the steps of `rows` are made twice
      rw [hok fun _ => .first, hok' fun _ => .first]
      simp only [List.map_append, ofRows_append, steps_append, steps_steps]
    · have hline : line ∈ front ++ rows := by
        have hmem : line ∈ front ++ rows ++ rows := by simp [hsplit]
        simpa [or_assoc] using hmem
      exact absurd (hrows _ (List.mem_map_of_mem hline)) hfault.not_legible
  · rw [herror, addLines_append_of_error herror]

/-! ## Descriptions with their rows twice -/

/-- A line that ends in a newline stands apart from what follows. -/
theorem fileLines_append_line (text rest : String) :
    fileLines (text ++ "\n" ++ rest).toList =
      text.toList.splitOn '\n' ++ fileLines rest.toList := by
  have hlist : (text ++ "\n" ++ rest).toList = text.toList ++ '\n' :: rest.toList := by simp
  rw [hlist, Text.fileLines_append]

/-- A newline at the end begins no further line. -/
theorem fileLines_line (text : String) :
    fileLines (text ++ "\n").toList = text.toList.splitOn '\n' := by
  have hempty := fileLines_append_line text ""
  rwa [String.append_empty, String.toList_empty, show fileLines [] = [] from rfl,
    List.append_nil] at hempty

/-- Two texts have two lines at least. -/
theorem exists_splitOn_append_splitOn (text text' : List Char) :
    ∃ first second front,
      text.splitOn '\n' ++ text'.splitOn '\n' = first :: second :: front := by
  obtain ⟨first, more, hfirst⟩ := List.exists_cons_of_ne_nil (List.splitOn_ne_nil '\n' text)
  obtain ⟨second, more', hsecond⟩ := List.exists_cons_of_ne_nil (List.splitOn_ne_nil '\n' text')
  cases more with
  | nil => exact ⟨first, second, more', by rw [hfirst, hsecond]; rfl⟩
  | cons line more => exact ⟨first, line, more ++ second :: more', by rw [hfirst, hsecond]; rfl⟩

/-- The same steps once more build nothing new, from whatever table on and however they overwrite
each other. So a description of which the rows, or the last of them, are there twice is read as the
same table, or it fails at the same place for the same reason. -/
theorem steps_again_build_nothing (t : Table) (ss : List Step) (accepting reserved rows : String) :
    let header := accepting ++ "\n" ++ reserved ++ "\n"
    let block := rows ++ "\n"
    (t.steps ss).steps ss = t.steps ss ∧
      ofDescription (header ++ block ++ block) = ofDescription (header ++ block) := by
  intro header block
  refine ⟨steps_steps t ss, ?_⟩
  -- what is behind the first two of these lines is rows already
  obtain ⟨first, second, front, hfront⟩ :=
    exists_splitOn_append_splitOn accepting.toList reserved.toList
  have hheader (rest : String) :
      fileLines (header ++ rest).toList = first :: second :: (front ++ fileLines rest.toList) := by
    have hassoc : header ++ rest = accepting ++ "\n" ++ (reserved ++ "\n" ++ rest) := by
      simp only [header, String.append_assoc]
    rw [hassoc, fileLines_append_line, fileLines_append_line, ← List.append_assoc, hfront]
    rfl
  have honce : fileLines (header ++ block).toList =
      first :: second :: (front ++ rows.toList.splitOn '\n') := by
    rw [hheader, fileLines_line]
  have htwice : fileLines (header ++ block ++ block).toList =
      first :: second :: (front ++ rows.toList.splitOn '\n' ++ rows.toList.splitOn '\n') := by
    rw [String.append_assoc, hheader, fileLines_append_line, fileLines_line, List.append_assoc]
  rw [ofDescription_eq_addLines htwice, ofDescription_eq_addLines honce, addLines_append_again]

end Table

end Munch
