import PocketCalculator.Disk

namespace PocketCalculator.Proofs.WrittenFiles

open PocketCalculator.Disk

theorem find?_putFile (place : List String) (text : String)
    (files : List (List String × String)) :
    (putFile place text files).find? (·.1 == place) = some (place, text) := by
  induction files with
  | nil => simp [putFile]
  | cons file files ih =>
    rw [putFile]
    split
    case isTrue => simp
    case isFalse hne => rw [List.find?_cons_of_neg (by simpa using hne), ih]

theorem exists_mem_putFile (place : List String) (text : String)
    {files : List (List String × String)} {file : List String × String} (h : file ∈ files) :
    ∃ kept ∈ putFile place text files, kept.1 = file.1 := by
  induction files with
  | nil => cases h
  | cons first files ih =>
    rw [putFile]
    split
    case isTrue hplace =>
      rcases List.mem_cons.mp h with rfl | h
      · exact ⟨(place, text), by simp, hplace.symm⟩
      · exact ⟨file, List.mem_cons_of_mem _ h, rfl⟩
    case isFalse =>
      rcases List.mem_cons.mp h with rfl | h
      · exact ⟨file, by simp, rfl⟩
      · obtain ⟨kept, hkept, hplace⟩ := ih h
        exact ⟨kept, List.mem_cons_of_mem _ hkept, hplace⟩

/-- The disk with a text at a place. -/
def replaced (disk : Disk) (place : List String) (text : String) : Disk :=
  { disk with files := putFile place text disk.files }

theorem isFolder_replaced {disk : Disk} {folder : List String} (place : List String)
    (text : String) (h : disk.isFolder folder) : (replaced disk place text).isFolder folder := by
  simp only [isFolder, replaced, Bool.or_eq_true, List.any_eq_true, Bool.and_eq_true,
    decide_eq_true_eq] at h ⊢
  refine h.imp_right ?_
  rintro ⟨file, hfile, hinside⟩
  obtain ⟨kept, hkept, hplace⟩ := exists_mem_putFile place text hfile
  exact ⟨kept, hkept, by rwa [hplace]⟩

theorem follow_replaced {disk : Disk} {start steps found : List String} (place : List String)
    (text : String) (h : disk.follow start steps = some found) :
    (replaced disk place text).follow start steps = some found := by
  induction steps generalizing start with
  | nil => exact h
  | cons name steps ih =>
    rw [follow] at h ⊢
    split at h
    case isTrue hfolder =>
      rw [if_pos (isFolder_replaced place text hfolder)]
      exact ih h
    case isFalse => cases h

/-- Whether there can be a file at a path, in a folder that is there or can be made. -/
def IsWritable (disk : Disk) (path : Path) : Prop :=
  (disk.makeFolders path.parent).2 = true ∧
    ((disk.makeFolders path.parent).1.write path "").isSome

theorem write_eq_some_iff {disk saved : Disk} {path : Path} {text : String} :
    disk.write path text = some saved ↔
      ∃ place, disk.place? path = some place ∧ path.folderOnly = false ∧
        disk.isFolder place = false ∧ replaced disk place text = saved := by
  unfold write
  cases disk.place? path with
  | none => simp
  | some place =>
    cases path.folderOnly <;> cases hfolder : disk.isFolder place <;> simp [replaced, hfolder]

theorem exists_write {disk : Disk} {path : Path} (text : String)
    (h : (disk.write path "").isSome) : ∃ saved, disk.write path text = some saved := by
  obtain ⟨saved, hsaved⟩ := Option.isSome_iff_exists.mp h
  obtain ⟨place, hplace, honly, hfolder, -⟩ := write_eq_some_iff.mp hsaved
  exact ⟨replaced disk place text, write_eq_some_iff.mpr ⟨place, hplace, honly, hfolder, rfl⟩⟩

theorem text?_of_write {disk saved : Disk} {path : Path} {text : String}
    (h : disk.write path text = some saved) : saved.text? path = some text := by
  obtain ⟨place, hplace, honly, -, rfl⟩ := write_eq_some_iff.mp h
  have hplace : (replaced disk place text).place? path = some place :=
    follow_replaced place text hplace
  have hfind : (replaced disk place text).files.find? (·.1 == place) = some (place, text) :=
    find?_putFile place text disk.files
  simp only [text?, hplace, honly, hfind, Bool.false_eq_true, if_false, Option.map_some]

theorem has_of_text? {disk : Disk} {path : Path} {text : String}
    (h : disk.text? path = some text) : disk.has path := by
  unfold text? at h
  cases hplace : disk.place? path with
  | none => simp [hplace] at h
  | some place =>
    simp only [hplace] at h
    split at h
    case isTrue => cases h
    case isFalse honly =>
      obtain ⟨file, hfile, -⟩ := Option.map_eq_some_iff.mp h
      have hisFile : disk.isFile place :=
        List.any_eq_true.mpr ⟨file, List.mem_of_find?_eq_some hfile, by
          simpa using List.find?_some hfile⟩
      simp [has, hplace, hisFile, honly]

end PocketCalculator.Proofs.WrittenFiles
