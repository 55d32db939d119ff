import CompactType.FileTree
import Mathlib.Data.List.Basic

/-!
# Where paths lead

Where a path leads in a tree is settled by the folders, and only at its end by a file. So a file
that is added takes a vacant place and leaves all others as they are.
-/

set_option autoImplicit false

namespace CompactType.FileTree

/-- The place of a file, be it there or not. -/
def Place.target? : Place → Option (List String)
  | .file place _ | .vacant place => some place
  | .folder | .nowhere .. => none

/-- The second tree has the folders and the files of the first one, and perhaps more files. -/
structure Extends (t t' : FileTree) : Prop where
  home_eq : t'.home = t.home
  folders_eq : t'.folders = t.folders
  readOnly_eq : t'.readOnly = t.readOnly
  contents_isPrefix : t.contents <+: t'.contents

def adding (t : FileTree) (place : List String) (content : ByteArray) : FileTree :=
  { t with contents := t.contents ++ [(place, content)] }

variable {t t' : FileTree} {place : List String} {content : ByteArray}

section Walk

variable {here parts : List String}

/-- With the same folders a path leads to the same place, and finds the file that is there. -/
theorem walk_eq_file (hFolders : t'.folders = t.folders)
    (hFile : t'.contents.lookup place = some content)
    (h : (t.walk here parts).target? = some place) :
    t'.walk here parts = .file place content := by
  fun_induction walk t here parts with
  | case2 here c rest hIdle ih =>
    rw [walk, if_pos hIdle]
    exact ih h
  | case3 here c rest hIdle hUp ih =>
    rw [walk, if_neg hIdle, if_pos hUp]
    exact ih h
  | case5 here c rest hIdle hUp hLong path hFolder ih =>
    rw [walk, if_neg hIdle, if_neg hUp, if_neg hLong, hFolders, if_pos hFolder]
    exact ih h
  | case6 here c rest hIdle hUp hLong path hFolder found hFound hLast
  | case9 here c rest hIdle hUp hLong path hFolder hFound hLast hOpen =>
    obtain rfl : path = place := Option.some.inj h
    rw [walk, if_neg hIdle, if_neg hUp, if_neg hLong, hFolders, if_neg hFolder, hFile]
    exact if_pos hLast
  | case1 | case4 | case7 | case8 | case10 => cases h

theorem lookup_of_walk (h : t.walk here parts = .file place content) :
    t.contents.lookup place = some content := by
  fun_induction walk t here parts with
  | case2 here c rest hIdle ih | case3 here c rest hIdle hUp ih
  | case5 here c rest hIdle hUp hLong path hFolder ih => exact ih h
  | case6 here c rest hIdle hUp hLong path hFolder found hFound hLast =>
    obtain ⟨hPlace, rfl⟩ := Place.file.inj h
    exact hPlace ▸ hFound
  | case1 | case4 | case7 | case8 | case9 | case10 => cases h

end Walk

section Locate

variable {path : String}

theorem locate_eq_file (hHome : t'.home = t.home) (hFolders : t'.folders = t.folders)
    (hFile : t'.contents.lookup place = some content)
    (h : (t.locate path).target? = some place) :
    t'.locate path = .file place content := by
  unfold locate at h ⊢
  split at h
  · cases h
  · next hShort =>
    rw [if_neg hShort, hHome]
    split at h
    · cases h
    · exact walk_eq_file hFolders hFile h
    · exact walk_eq_file hFolders hFile h

theorem lookup_of_locate (h : t.locate path = .file place content) :
    t.contents.lookup place = some content := by
  unfold locate at h
  split at h
  · cases h
  · split at h
    · cases h
    · exact lookup_of_walk h
    · exact lookup_of_walk h

theorem lookup_of_vacant (h : t.locate path = .vacant place) :
    t.contents.lookup place = none := by
  cases hFile : t.contents.lookup place with
  | none => rfl
  | some content =>
    have hTarget : (t.locate path).target? = some place := congrArg Place.target? h
    cases h.symm.trans (locate_eq_file rfl rfl hFile hTarget)

end Locate

namespace Extends

variable {t'' : FileTree} {path : String}

theorem refl (t : FileTree) : Extends t t := ⟨rfl, rfl, rfl, List.prefix_rfl⟩

theorem trans (h : Extends t t') (h' : Extends t' t'') : Extends t t'' :=
  ⟨h'.home_eq.trans h.home_eq, h'.folders_eq.trans h.folders_eq,
    h'.readOnly_eq.trans h.readOnly_eq, h.contents_isPrefix.trans h'.contents_isPrefix⟩

theorem adding (t : FileTree) (place : List String) (content : ByteArray) :
    Extends t (t.adding place content) :=
  ⟨rfl, rfl, rfl, List.prefix_append ..⟩

theorem files_isPrefix (h : Extends t t') : t.files <+: t'.files := by
  unfold files
  rw [h.home_eq]
  exact h.contents_isPrefix.filterMap _

theorem locate_eq_file (h : Extends t t') (hFile : t.locate path = .file place content) :
    t'.locate path = .file place content := by
  obtain ⟨more, hMore⟩ := h.contents_isPrefix
  have hLookup : t'.contents.lookup place = some content := by
    rw [← hMore, List.lookup_append, lookup_of_locate hFile]
    rfl
  exact FileTree.locate_eq_file h.home_eq h.folders_eq hLookup (congrArg Place.target? hFile)

theorem read_eq_ok (h : Extends t t') (hRead : t.read path = .ok content) :
    t'.read path = .ok content := by
  unfold read at hRead ⊢
  split at hRead
  · cases hRead
  · next place content' hFile =>
    rw [h.locate_eq_file hFile]
    exact hRead
  · cases hRead
  · cases hRead

end Extends

theorem locate_adding {path : String} (h : t.locate path = .vacant place) :
    (t.adding place content).locate path = .file place content := by
  have hLookup : (t.adding place content).contents.lookup place = some content := by
    rw [adding, List.lookup_append, lookup_of_vacant h]
    simp
  exact locate_eq_file (t := t) rfl rfl hLookup (congrArg Place.target? h)

theorem present_adding {path : String} (h : t.locate path = .vacant place) :
    (t.adding place content).present path = true := by
  rw [present, locate_adding h]

theorem present_eq_false_iff {path : String} : t.present path = false ↔
    (∃ place, t.locate path = .vacant place) ∨
      ∃ onRead onWrite, t.locate path = .nowhere onRead onWrite := by
  unfold present
  cases t.locate path <;> simp

theorem write_of_absent {path : String} (h : t.present path = false) (content : ByteArray) :
    (∃ place, t.locate path = .vacant place ∧
      t.write path content = .ok (t.adding place content)) ∨
    ∃ failure, t.write path content = .error failure := by
  obtain ⟨place, hPlace⟩ | ⟨onRead, onWrite, hPlace⟩ := present_eq_false_iff.mp h
  · exact .inl ⟨place, hPlace, by rw [write, hPlace]; rfl⟩
  · exact .inr ⟨onWrite, by rw [write, hPlace]⟩

end CompactType.FileTree
