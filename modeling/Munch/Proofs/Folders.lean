import Munch.Files.Folder
import Munch.Proofs.Lines

/-!
# Which files a path finds

A path walks from name to name. `Follows` tells where one name leads, if it leads on at all, and
nothing leads back: behind a file the walk is over, and from outside the folder it stays outside. So
`toFiles_eq_ok_iff` says that a path finds a file exactly if it begins in the folder, all its names
but the last one stay there, and the last one is that of the file.
-/

namespace Munch

namespace Folder

variable {f : Folder} {place place' : Place} {name path : String} {names : List String}
  {content : ByteArray}

/-! ## One name -/

/-- A name that does not lead away from where it is followed. -/
def Stays (name : String) : Prop := name = "" ∨ name = "."

instance : Decidable (Stays name) := inferInstanceAs (Decidable (name = "" ∨ name = "."))

/-- A name under which the folder holds a file, and which can stand in a path for it. -/
structure Holds (f : Folder) (name : String) (content : ByteArray) : Prop where
  not_stays : ¬ Stays name
  ne_dots : name ≠ ".."
  size_le : name.utf8ByteSize ≤ nameLimit
  lookup_eq : f.files.lookup name = some content

/-- Where a name leads: a file can only be found in the folder, and no name leads back into it. -/
inductive Follows (f : Folder) : Place → String → Place → Prop
  | stayInside {name : String} (hname : Stays name) : Follows f .inside name .inside
  | stayOutside {name : String} (hname : Stays name) : Follows f .outside name .outside
  | leave : Follows f .inside ".." .outside
  | leaveOutside : Follows f .outside ".." .outside
  | found {name : String} {content : ByteArray} (hname : Holds f name content) :
      Follows f .inside name (.file content)

/-- Each of the ways in which a name leads on is taken. -/
theorem Follows.follow_eq (h : Follows f place name place') : f.follow place name = .ok place' := by
  cases h with
  | stayInside hname => exact if_pos hname
  | stayOutside hname => exact if_pos hname
  | leave => rfl
  | leaveOutside => rfl
  | found hname =>
      have hstays : ¬ (name = "" ∨ name = ".") := hname.not_stays
      simp only [follow, if_neg hstays, if_neg hname.ne_dots, if_neg (Nat.not_lt.mpr hname.size_le),
        hname.lookup_eq]

/-- A name is followed exactly where it leads. -/
theorem follow_eq_ok_iff : f.follow place name = .ok place' ↔ Follows f place name place' := by
  refine ⟨fun h => ?_, Follows.follow_eq⟩
  by_cases hstays : name = "" ∨ name = "."
  · cases place <;> simp only [follow, if_pos hstays, Except.ok.injEq, reduceCtorEq] at h
    case inside => exact h ▸ .stayInside hstays
    case outside => exact h ▸ .stayOutside hstays
  by_cases hdots : name = ".."
  · subst hdots
    cases place <;> simp only [follow, if_neg hstays, if_pos, Except.ok.injEq, reduceCtorEq] at h
    case inside => exact h ▸ .leave
    case outside => exact h ▸ .leaveOutside
  -- any other name can only lead to a file of the folder
  cases place <;> simp only [follow, if_neg hstays, if_neg hdots] at h
  case inside =>
    split at h
    · cases h
    · rename_i hsize
      cases hlookup : f.files.lookup name with
      | none => simp [hlookup] at h
      | some content =>
          simp only [hlookup, Except.ok.injEq] at h
          exact h ▸ .found ⟨hstays, hdots, Nat.not_lt.mp hsize, hlookup⟩
  case outside =>
    split at h <;> cases h
  case file => cases h

/-! ## A whole path -/

/-- Names are followed one after the other. -/
theorem foldlM_follow_cons_eq_ok_iff :
    (name :: names).foldlM f.follow place = .ok place' ↔
      ∃ next, Follows f place name next ∧ names.foldlM f.follow next = .ok place' := by
  rw [List.foldlM_cons]
  simp only [← follow_eq_ok_iff]
  constructor
  · intro h
    cases hnext : f.follow place name with
    | error fault => simp [hnext, bind, Except.bind] at h
    | ok next => exact ⟨next, rfl, by simpa [hnext, bind, Except.bind] using h⟩
  · rintro ⟨next, hnext, h⟩
    rw [hnext]
    exact h

/-- Nothing leads on from a file. -/
theorem foldlM_follow_file_eq_ok_iff :
    names.foldlM f.follow (.file content) = .ok place ↔ names = [] ∧ place = .file content := by
  cases names with
  | nil => exact ⟨fun h => ⟨rfl, (Except.ok.inj h).symm⟩, fun h => h.2 ▸ rfl⟩
  | cons name names =>
      rw [foldlM_follow_cons_eq_ok_iff]
      refine ⟨?_, fun h => absurd h.1 (List.cons_ne_nil _ _)⟩
      rintro ⟨next, hnext, -⟩
      cases hnext

/-- No path leads back from outside. -/
theorem eq_outside_of_foldlM_follow (h : names.foldlM f.follow .outside = .ok place) :
    place = .outside := by
  induction names with
  | nil => exact (Except.ok.inj h).symm
  | cons name names ih =>
      obtain ⟨next, hnext, h⟩ := foldlM_follow_cons_eq_ok_iff.mp h
      cases hnext <;> exact ih h

/-- In the folder, a file is found behind names that stay there. -/
theorem foldlM_follow_inside_eq_file_iff :
    names.foldlM f.follow .inside = .ok (.file content) ↔
      ∃ stays name, names = stays ++ [name] ∧ (∀ n ∈ stays, Stays n) ∧ Holds f name content := by
  induction names with
  | nil => simp [pure, Except.pure]
  | cons name names ih =>
      rw [foldlM_follow_cons_eq_ok_iff]
      constructor
      · rintro ⟨next, hnext, h⟩
        cases hnext with
        | stayInside hname =>
            obtain ⟨stays, last, rfl, hstays, hlast⟩ := ih.mp h
            exact ⟨name :: stays, last, rfl, List.forall_mem_cons.mpr ⟨hname, hstays⟩, hlast⟩
        | leave => cases eq_outside_of_foldlM_follow h
        | found hname =>
            obtain ⟨rfl, hcontent⟩ := foldlM_follow_file_eq_ok_iff.mp h
            cases hcontent
            exact ⟨[], name, rfl, by simp, hname⟩
      · rintro ⟨_ | ⟨n, stays⟩, last, hnames, hstays, hlast⟩
        · obtain ⟨rfl, rfl⟩ := List.cons_eq_cons.mp hnames
          exact ⟨_, .found hlast, rfl⟩
        · obtain ⟨rfl, rfl⟩ := List.cons_eq_cons.mp hnames
          obtain ⟨hname, hstays⟩ := List.forall_mem_cons.mp hstays
          exact ⟨_, .stayInside hname, ih.mpr ⟨stays, last, rfl, hstays, hlast⟩⟩

/-- The names of a path, one between each two slashes. -/
def pathNames (path : String) : List String := (path.toList.splitOn '/').map String.ofList

/-- A path names the bytes of a file exactly if it does not begin with a slash, is not too long, and
its last name is that of the file, with no names before it but such that stay in the folder. -/
theorem toFiles_eq_ok_iff :
    f.toFiles path = .ok content ↔
      path.toList.head? ≠ some '/' ∧ path.utf8ByteSize ≤ pathLimit ∧
      ∃ stays name, pathNames path = stays ++ [name] ∧ (∀ n ∈ stays, Stays n) ∧
        Holds f name content := by
  have hfind : f.toFiles path = .ok content ↔ f.find path = .ok (.file content) := by
    unfold toFiles
    split <;> simp_all
  rw [hfind, ← foldlM_follow_inside_eq_file_iff]
  constructor
  · intro h
    simp only [find] at h
    split at h
    · cases h
    · split at h
      · cases h
      · rename_i hsize
        split at h
        · cases eq_outside_of_foldlM_follow h
        · rename_i hslash
          exact ⟨hslash, Nat.not_lt.mp hsize, h⟩
  · rintro ⟨hslash, hsize, h⟩
    have hempty : ¬ path.isEmpty := fun hpath => by
      obtain rfl := String.isEmpty_iff.mp hpath
      exact nomatch (h : Except.ok Place.inside = .ok (.file content))
    simp only [find, if_neg hempty, if_neg (Nat.not_lt.mpr hsize), if_neg hslash]
    exact h

/-- The name of a file is a path to it if it has no slash. -/
theorem Holds.toFiles_eq (hname : Holds f name content) (hslash : '/' ∉ name.toList) :
    f.toFiles name = .ok content := by
  have hnames : pathNames name = [name] := by
    rw [pathNames, Text.splitOn_eq_singleton hslash, List.map_singleton, String.ofList_toList]
  have hsize : name.utf8ByteSize ≤ pathLimit := Nat.le_trans hname.size_le (by decide)
  refine toFiles_eq_ok_iff.mpr ⟨?_, hsize, [], name, hnames, by simp, hname⟩
  exact fun hhead => hslash (List.mem_of_head? hhead)

end Folder

end Munch
