import Munch.Proofs.Escaping
import Munch.Proofs.Words
import Munch.Table.Dump

/-!
# A dump tells its table

A dump holds one line for each edge between names, in ascending order, behind two lines for the
accepting states and the reserved words. Names may look like any part of such a line, but they are
words, and the first space ends the first of them; behind it the written form of the character can
be read back, whatever follows. So each line tells its edge, and the lines together tell the table.
-/

namespace Munch

open Text (IsWord isWhite cutLines fields escape)

/-! ## Lines that end -/

/-- A text that is one line with its ending. -/
def Text.IsLine (line : List Char) : Prop := ∃ body, '\n' ∉ body ∧ line = body ++ ['\n']

/-- Lines that are put one behind the other are cut apart again. -/
theorem Text.cutLines_flatten {lines : List (List Char)} (h : ∀ line ∈ lines, IsLine line) :
    cutLines lines.flatten = lines := by
  induction lines with
  | nil => rfl
  | cons line lines ih =>
      obtain ⟨⟨body, hbody, rfl⟩, hlines⟩ := List.forall_mem_cons.mp h
      rw [List.flatten_cons, List.append_assoc, List.singleton_append,
        cutLines_append_newline hbody, ih hlines]

/-- A word does not reach over the end of a line. -/
theorem Text.IsWord.newline_not_mem {s : String} (h : IsWord s) : '\n' ∉ s.toList :=
  h.not_mem (by decide)

/-- Words with spaces between them stay on one line. -/
theorem Text.newline_not_mem_intercalate {words : List String} (h : ∀ w ∈ words, IsWord w) :
    '\n' ∉ [' '].intercalate (words.map String.toList) := by
  induction words with
  | nil => simp
  | cons w words ih =>
      obtain ⟨hw, hwords⟩ := List.forall_mem_cons.mp h
      cases words with
      | nil => simpa using hw.newline_not_mem
      | cons w' words =>
          have hrest := ih hwords
          rw [List.map_cons] at hrest
          simp [List.intercalate_cons_cons, hw.newline_not_mem, hrest]

/-! ## Sorted pairs -/

/-- One pair stands before another one by its first part, and by its second one if these agree. -/
theorem compare_named_eq_lt_iff {a b : String × Char} :
    compare a b = .lt ↔ a.1 < b.1 ∨ a.1 = b.1 ∧ a.2 < b.2 := by
  have hfirst : compare a.1 b.1 = .lt ↔ a.1 < b.1 := compareOfLessAndEq_eq_lt
  have hsecond : compare a.2 b.2 = .lt ↔ a.2 < b.2 := compareOfLessAndEq_eq_lt
  have heq : compare a.1 b.1 = .eq ↔ a.1 = b.1 := Std.LawfulEqCmp.compare_eq_iff_eq
  rw [← hfirst, ← hsecond, ← heq]
  show (compare a.1 b.1).then (compare a.2 b.2) = .lt ↔ _
  rw [Ordering.then_eq_lt]

variable {l : List ((String × Char) × String)}

/-- Keys that are listed once differ for the order of the map as well. -/
theorem pairwise_compare_ne_eq (hl : (l.map Prod.fst).Nodup) :
    l.Pairwise fun a b => ¬ compare a.1 b.1 = .eq := by
  refine (List.pairwise_map.mp hl).imp fun hne heq => ?_
  exact hne (Std.LawfulEqCmp.compare_eq_iff_eq.mp heq)

/-- A map that pairs with different keys make up holds these pairs. -/
theorem mem_toList_ofList (hl : (l.map Prod.fst).Nodup) {e : String × Char} {target : String} :
    (e, target) ∈ (Std.ExtTreeMap.ofList l compare).toList ↔ (e, target) ∈ l := by
  have hdistinct := pairwise_compare_ne_eq hl
  have hget {target : String} (h : (e, target) ∈ l) :
      (Std.ExtTreeMap.ofList l compare)[e]? = some target :=
    Std.ExtTreeMap.getElem?_ofList_of_mem Std.ReflCmp.compare_self hdistinct h
  rw [Std.ExtTreeMap.mem_toList_iff_getElem?_eq_some]
  constructor
  · intro h
    cases hmem : (l.map Prod.fst).contains e with
    | false => simp [Std.ExtTreeMap.getElem?_ofList_of_contains_eq_false hmem] at h
    | true =>
        obtain ⟨⟨e', target'⟩, hpair, rfl⟩ := List.mem_map.mp (List.contains_iff_mem.mp hmem)
        rwa [Option.some.inj (h.symm.trans (hget hpair))]
  · exact hget

namespace Table

variable {t t' : Table} {e : String × Char} {target : String}

/-! ## Edges between names -/

/-- An edge, with the names of its states for their numbers. -/
def nameEdge (t : Table) (e : (StateId × Char) × StateId) : (String × Char) × String :=
  ((t.nameOf e.1.1, e.1.2), t.nameOf e.2)

/-- The named edges are a map that is made of the list of all edges, each by its names. -/
theorem namedEdges_eq_ofList (t : Table) :
    t.namedEdges = Std.ExtTreeMap.ofList (t.edges.toList.map t.nameEdge) compare := by
  rw [Std.ExtTreeMap.ofList_eq_insertMany_empty, Std.ExtTreeMap.insertMany_list_eq_foldl,
    List.foldl_map]
  rfl

/-- By their names, the keys of the listed edges are the edges of the table. -/
theorem map_fst_nameEdge (t : Table) :
    (t.edges.toList.map t.nameEdge).map Prod.fst = t.edgeNames := by
  rw [edgeNames, ← Std.ExtTreeMap.map_fst_toList_eq_keys, List.map_map, List.map_map]
  rfl

/-- The named edges of a table are the edges that lead from a name to a name. -/
theorem Numbered.mem_namedEdges (ht : t.Numbered) (hfits : t.Fits) :
    (e, target) ∈ t.namedEdges.toList ↔ t.target? e = some target := by
  have hnodup := ht.nodup_edgeNames
  rw [← map_fst_nameEdge] at hnodup
  rw [namedEdges_eq_ofList, mem_toList_ofList hnodup, target?_eq_some_iff ht hfits, List.mem_map]
  obtain ⟨name, c⟩ := e
  simp only [nameEdge, Prod.exists, Prod.mk.injEq, Std.ExtTreeMap.mem_toList_iff_getElem?_eq_some]
  constructor
  · rintro ⟨s, c, s', hnext, ⟨rfl, rfl⟩, rfl⟩
    obtain ⟨hlt, hlt'⟩ := ht.edges s c s' hnext
    exact ⟨s, s', getElem?_names_of_lt hlt, hnext, getElem?_names_of_lt hlt'⟩
  · rintro ⟨s, s', hs, hnext, hs'⟩
    exact ⟨s, c, s', hnext, ⟨nameOf_eq_of_getElem? hs, rfl⟩, nameOf_eq_of_getElem? hs'⟩

/-- No two edges go by the same names, so each of them is written. -/
theorem Numbered.length_namedEdges (ht : t.Numbered) :
    t.namedEdges.toList.length = t.edges.size := by
  have hnodup := ht.nodup_edgeNames
  rw [← map_fst_nameEdge] at hnodup
  rw [Std.ExtTreeMap.length_toList, namedEdges_eq_ofList, Std.ExtTreeMap.size_ofList,
    List.length_map, Std.ExtTreeMap.length_toList]
  exact pairwise_compare_ne_eq hnodup

/-! ## The lines of a dump -/

/-- The line of a list of words behind a title. -/
def wordsLine (title : String) (words : List String) : List Char :=
  title.toList ++ [' '].intercalate (words.map String.toList) ++ ['\n']

/-- The lines of a dump, each with its ending. -/
def dumpLines (t : Table) : List (List Char) :=
  wordsLine "accepting: " t.acceptingNames :: wordsLine "reserved: " t.reservedWords ::
    t.namedEdges.toList.map fun e => (dumpEdge e).toList

/-- A table is written out line after line. -/
theorem toList_dump (t : Table) : t.dump.toList = t.dumpLines.flatten := by
  unfold dump
  simp [dumpLines, wordsLine, String.toList_intercalate, String.toList_join, List.flatMap,
    Function.comp_def]

/-- The line of an edge: where the first name ends, the rest is the written form of the character,
an arrow and the other name. -/
theorem toList_dumpEdge (e : (String × Char) × String) :
    (dumpEdge e).toList = e.1.1.toList ++ ' ' :: (['-', '-'] ++ (escape e.1.2 ++
      (['-', '-', '>', ' '] ++ (e.2.toList ++ ['\n'])))) := by
  simp [dumpEdge]

/-- Behind a title words are told apart. -/
theorem wordsLine_inj {title : String} {words words' : List String} (hwords : ∀ w ∈ words, IsWord w)
    (hwords' : ∀ w ∈ words', IsWord w) (h : wordsLine title words = wordsLine title words') :
    words = words' := by
  have hjoined := List.append_cancel_left (List.append_cancel_right h)
  have hfields := congrArg fields hjoined
  rw [Text.fields_intercalate hwords, Text.fields_intercalate hwords'] at hfields
  exact List.map_injective_iff.mpr (fun _ _ => String.toList_inj.mp) hfields

/-- The line of an edge from a word tells the edge. -/
theorem dumpEdge_inj {e e' : (String × Char) × String} (he : IsWord e.1.1) (he' : IsWord e'.1.1)
    (h : dumpEdge e = dumpEdge e') : e = e' := by
  have hlines := congrArg String.toList h
  rw [toList_dumpEdge, toList_dumpEdge] at hlines
  -- the first name is the first field of the line
  have hfields := congrArg fields hlines
  rw [Text.fields_append_cons (by decide), Text.fields_append_cons (by decide),
    Text.fields_eq_singleton he.1 he.2, Text.fields_eq_singleton he'.1 he'.2] at hfields
  have hsource : e.1.1.toList = e'.1.1.toList := (List.cons.inj hfields).1
  rw [hsource] at hlines
  have hrest := List.append_cancel_left (List.cons.inj (List.append_cancel_left hlines)).2
  obtain ⟨hc, hrest⟩ := Text.escape_append_inj hrest
  have htarget := List.append_cancel_right (List.append_cancel_left hrest)
  exact Prod.ext (Prod.ext (String.toList_inj.mp hsource) hc) (String.toList_inj.mp htarget)

/-! ## What a dump tells -/

/-- Whatever number is looked up, the name there is a word. -/
theorem Worded.isWord_of_getElem? (hwords : t.Worded) {s : StateId} {name : String}
    (hs : t.names[s]? = some name) : IsWord name :=
  hwords.names name (List.mem_of_getElem? hs)

/-- The accepting states of such a table are written as words. -/
theorem Worded.isWord_of_mem_acceptingNames (hwords : t.Worded) (ht : t.Numbered) :
    ∀ name ∈ t.acceptingNames, IsWord name := by
  intro name hname
  obtain ⟨s, -, hs⟩ := (mem_acceptingNames ht).mp hname
  exact hwords.isWord_of_getElem? hs

/-- The edges of a table lead from words to words if its names are words. -/
theorem Worded.isWord_of_mem_namedEdges (hwords : t.Worded) (ht : t.Numbered) (hfits : t.Fits)
    {e : (String × Char) × String} (he : e ∈ t.namedEdges.toList) :
    IsWord e.1.1 ∧ IsWord e.2 := by
  obtain ⟨s, s', hs, -, hs'⟩ := (target?_eq_some_iff ht hfits).mp ((ht.mem_namedEdges hfits).mp he)
  exact ⟨hwords.isWord_of_getElem? hs, hwords.isWord_of_getElem? hs'⟩

/-- A title and words behind it make up one line. -/
theorem isLine_wordsLine {title : String} (htitle : '\n' ∉ title.toList) {words : List String}
    (hwords : ∀ w ∈ words, IsWord w) : Text.IsLine (wordsLine title words) := by
  refine ⟨_, ?_, rfl⟩
  rw [List.mem_append, not_or]
  exact ⟨htitle, Text.newline_not_mem_intercalate hwords⟩

/-- An edge is written on one line, also one that bears a newline: its character is escaped. -/
theorem isLine_dumpEdge {e : (String × Char) × String} (hsource : IsWord e.1.1)
    (htarget : IsWord e.2) : Text.IsLine (dumpEdge e).toList := by
  refine ⟨e.1.1.toList ++ [' ', '-', '-'] ++ escape e.1.2 ++ ['-', '-', '>', ' '] ++ e.2.toList, ?_,
    by simp [toList_dumpEdge]⟩
  simp [hsource.newline_not_mem, htarget.newline_not_mem, Text.newline_not_mem_escape]

/-- In a table whose names are words each line of the dump is one line. -/
theorem isLine_of_mem_dumpLines (ht : t.Numbered) (hfits : t.Fits) (hwords : t.Worded) :
    ∀ line ∈ t.dumpLines, Text.IsLine line := by
  have haccepting := hwords.isWord_of_mem_acceptingNames ht
  refine List.forall_mem_cons.mpr ⟨isLine_wordsLine (by decide) haccepting, ?_⟩
  refine List.forall_mem_cons.mpr ⟨isLine_wordsLine (by decide) hwords.reserved, ?_⟩
  refine List.forall_mem_map.mpr fun e he => ?_
  obtain ⟨hsource, htarget⟩ := hwords.isWord_of_mem_namedEdges ht hfits he
  exact isLine_dumpEdge hsource htarget

/-- Cut at its newlines, a dump falls into the lines from which it was made. -/
theorem cutLines_dump (ht : t.Numbered) (hfits : t.Fits) (hwords : t.Worded) :
    cutLines t.dump.toList = t.dumpLines := by
  rw [toList_dump, Text.cutLines_flatten (isLine_of_mem_dumpLines ht hfits hwords)]

/-- Edges can be read back from the lines on which they are written. -/
theorem map_dumpEdge_inj {es es' : List ((String × Char) × String)}
    (hes : ∀ e ∈ es, IsWord e.1.1) (hes' : ∀ e ∈ es', IsWord e.1.1)
    (h : es.map (fun e => (dumpEdge e).toList) = es'.map fun e => (dumpEdge e).toList) :
    es = es' := by
  induction es generalizing es' with
  | nil => exact (List.map_eq_nil_iff.mp h.symm).symm
  | cons e es ih =>
      obtain ⟨e', rest', rfl, hhead, htail⟩ := List.map_eq_cons_iff.mp h.symm
      obtain ⟨he, hrest⟩ := List.forall_mem_cons.mp hes
      obtain ⟨he', hrest'⟩ := List.forall_mem_cons.mp hes'
      rw [dumpEdge_inj he he' (String.toList_inj.mp hhead.symm), ih hrest hrest' htail.symm]

/-- Tables whose names are words are written out alike only if they have the same accepting states,
reserved words and edges between names. -/
theorem dump_eq_iff (ht : t.Numbered) (hfits : t.Fits) (hwords : t.Worded) (ht' : t'.Numbered)
    (hfits' : t'.Fits) (hwords' : t'.Worded) :
    t.dump = t'.dump ↔ t.acceptingNames = t'.acceptingNames ∧ t.reservedWords = t'.reservedWords ∧
      t.namedEdges.toList = t'.namedEdges.toList := by
  constructor
  · intro h
    have hlines := congrArg (fun s => cutLines (String.toList s)) h
    simp only [cutLines_dump ht hfits hwords, cutLines_dump ht' hfits' hwords', dumpLines,
      List.cons.injEq] at hlines
    obtain ⟨haccepting, hreserved, hedges⟩ := hlines
    refine ⟨wordsLine_inj (hwords.isWord_of_mem_acceptingNames ht)
      (hwords'.isWord_of_mem_acceptingNames ht') haccepting,
      wordsLine_inj hwords.reserved hwords'.reserved hreserved, ?_⟩
    exact map_dumpEdge_inj (fun e he => (hwords.isWord_of_mem_namedEdges ht hfits he).1)
      (fun e he => (hwords'.isWord_of_mem_namedEdges ht' hfits' he).1) hedges
  · rintro ⟨haccepting, hreserved, hedges⟩
    unfold dump
    rw [haccepting, hreserved, hedges]

/-- Ascending lists of strings are equal if they hold the same ones. -/
theorem toList_eq_iff {words words' : Std.ExtTreeSet String} :
    words.toList = words'.toList ↔ ∀ w, w ∈ words.toList ↔ w ∈ words'.toList := by
  constructor
  · intro h w
    rw [h]
  · intro h
    refine congrArg _ (Std.ExtTreeSet.ext_mem fun w => ?_)
    simpa only [Std.ExtTreeSet.mem_toList] using h w

/-- Named edges are equal if they lead from the same names on the same characters to the same
names. -/
theorem namedEdges_eq_iff (ht : t.Numbered) (hfits : t.Fits) (ht' : t'.Numbered)
    (hfits' : t'.Fits) :
    t.namedEdges.toList = t'.namedEdges.toList ↔ ∀ e, t.target? e = t'.target? e := by
  constructor
  · intro h e
    refine Option.ext fun target => ?_
    rw [← ht.mem_namedEdges hfits, ← ht'.mem_namedEdges hfits', h]
  · intro h
    refine congrArg _ (Std.ExtTreeMap.ext_getElem? fun e => Option.ext fun target => ?_)
    rw [← Std.ExtTreeMap.mem_toList_iff_getElem?_eq_some,
      ← Std.ExtTreeMap.mem_toList_iff_getElem?_eq_some, ht.mem_namedEdges hfits,
      ht'.mem_namedEdges hfits', h]

/-- The lines of named edges stand in ascending order. -/
theorem pairwise_namedEdges (t : Table) :
    t.namedEdges.toList.Pairwise fun a b => a.1.1 < b.1.1 ∨ a.1.1 = b.1.1 ∧ a.1.2 < b.1.2 :=
  t.namedEdges.ordered_keys_toList.imp compare_named_eq_lt_iff.mp

/-- No two edges have the same line. -/
theorem nodup_map_dumpEdge (ht : t.Numbered) (hfits : t.Fits) (hwords : t.Worded) :
    (t.namedEdges.toList.map fun e => (dumpEdge e).toList).Nodup := by
  have hnodup : t.namedEdges.toList.Nodup := by
    refine t.namedEdges.distinct_keys_toList.imp fun hne heq => ?_
    exact hne (heq ▸ Std.ReflCmp.compare_self)
  refine hnodup.map_on fun e he e' he' heq => ?_
  exact dumpEdge_inj (hwords.isWord_of_mem_namedEdges ht hfits he).1
    (hwords.isWord_of_mem_namedEdges ht hfits he').1 (String.toList_inj.mp heq)

/-- A table that was described is written out in two lines and one for each edge, as long as there
are numbers for all of its states. The lines of the edges ascend, and two such tables are written
out alike exactly if they have the same accepting states, reserved words and edges between names.
The edges are looked for behind the first two lines, since one of these may read like an edge. -/
theorem dump_tells_table (d : String) (t : Table) (hd : ofDescription d = .ok t)
    (hfits : t.names.length ≤ numberLimit) :
    (∃ edges : List ((String × Char) × String),
      cutLines t.dump.toList = wordsLine "accepting: " t.acceptingNames ::
        wordsLine "reserved: " t.reservedWords :: edges.map (fun e => (dumpEdge e).toList) ∧
      (∀ e target, (e, target) ∈ edges ↔ t.target? e = some target) ∧
      edges.Pairwise (fun a b => a.1.1 < b.1.1 ∨ a.1.1 = b.1.1 ∧ a.1.2 < b.1.2)) ∧
    (cutLines t.dump.toList).length = 2 + t.edges.size ∧
    (∀ e target, t.target? e = some target →
      ((cutLines t.dump.toList).drop 2).count (dumpEdge (e, target)).toList = 1) ∧
    ∀ d' t', ofDescription d' = .ok t' → t'.names.length ≤ numberLimit →
      (t.dump = t'.dump ↔ (∀ name, name ∈ t.acceptingNames ↔ name ∈ t'.acceptingNames) ∧
        (∀ word, word ∈ t.reservedWords ↔ word ∈ t'.reservedWords) ∧
        ∀ e, t.target? e = t'.target? e) := by
  have ht := numbered_of_ofDescription hd
  have hwords := worded_of_ofDescription hd
  have hlines := cutLines_dump ht hfits hwords
  refine ⟨⟨t.namedEdges.toList, hlines, fun e target => ht.mem_namedEdges hfits,
    pairwise_namedEdges t⟩, ?_, ?_, ?_⟩
  · rw [hlines, dumpLines, List.length_cons, List.length_cons, List.length_map,
      ht.length_namedEdges]
    omega
  · intro e target htarget
    have hmem := List.mem_map_of_mem (f := fun e => (dumpEdge e).toList)
      ((ht.mem_namedEdges hfits).mpr htarget)
    rw [hlines]
    exact List.count_eq_one_of_mem (nodup_map_dumpEdge ht hfits hwords) hmem
  · intro d' t' hd' hfits'
    have ht' := numbered_of_ofDescription hd'
    rw [dump_eq_iff ht hfits hwords ht' hfits' (worded_of_ofDescription hd'),
      namedEdges_eq_iff ht hfits ht' hfits']
    exact and_congr toList_eq_iff (and_congr_left fun _ => toList_eq_iff)

/-- States whose names look like parts of an edge. -/
def arrows : String :=
  "--> --x-->\nif --x-->\ninit whitespace init\ninit endl -->\n--> - --x-->\n--> \\ init\n"

/-- The same states and rows in another order, so that the states get other numbers. -/
def shuffledArrows : String :=
  "--x--> -->\n--x--> if\n# arrows\n--> \\ init\n--> - --x-->\ninit whitespace init\ninit endl -->"

/-- Both tables are written out in the same seven lines, so they lead from the same names to the
same names, although their numbers differ. -/
theorem dump_tells_table_arrows :
    ∃ t t', ofDescription arrows = .ok t ∧ ofDescription shuffledArrows = .ok t' ∧
      t.names.length ≤ numberLimit ∧ t'.names.length ≤ numberLimit ∧
      (cutLines t.dump.toList).length = 7 ∧ ∀ e, t.target? e = t'.target? e := by
  have hread : (ofDescription arrows).map (fun t => (t.names.length, t.edges.size)) =
      .ok (3, 5) := by decide +kernel
  have hread' : (ofDescription shuffledArrows).map (fun t => (t.names.length, t.dump)) =
      (ofDescription arrows).map (fun t => (t.names.length, t.dump)) := by decide +kernel
  cases hd : ofDescription arrows with
  | error failure => simp [hd, Except.map] at hread
  | ok t =>
      cases hd' : ofDescription shuffledArrows with
      | error failure => simp [hd, hd', Except.map] at hread'
      | ok t' =>
          obtain ⟨hlength, hsize⟩ : t.names.length = 3 ∧ t.edges.size = 5 := by
            simpa [hd, Except.map] using hread
          obtain ⟨hlength', hdump⟩ : t'.names.length = t.names.length ∧ t'.dump = t.dump := by
            simpa [hd, hd', Except.map] using hread'
          have hfits : t.names.length ≤ numberLimit := by rw [hlength]; decide
          have hfits' : t'.names.length ≤ numberLimit := by rw [hlength']; exact hfits
          obtain ⟨-, hlines, -, hsame⟩ := dump_tells_table arrows t hd hfits
          refine ⟨t, t', rfl, rfl, hfits, hfits', ?_, ?_⟩
          · rw [hlines, hsize]
          · exact ((hsame shuffledArrows t' hd' hfits').mp hdump.symm).2.2

end Table

end Munch
