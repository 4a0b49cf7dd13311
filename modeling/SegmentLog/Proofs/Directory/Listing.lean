import Mathlib.Data.List.Pairwise
import SegmentLog.Proofs.Directory.Spelling
import SegmentLog.Proofs.Directory.Stock

/-!
# Listing a folder of any files

A folder may hold files that no log ever made. What is listed is an index for each name that spells
one, so an index is listed twice if two names spell it, and one that is only spelled in another way
than its segment is named cannot be opened. `FolderLists` says all that a listing says, and
`lists_spellings` that there is one for every set of files: it shows each index once, and only
indices that can be opened, just if every name that spells an index is the name of its segment.
-/
namespace SegmentLog

namespace FileTree
variable {t : FileTree} {parts : List String}

theorem mem_children {name : String} :
    name ∈ t.children parts ↔ (t.get? (parts ++ [name])).isSome := by
  rw [← Table.mem_keys, children, List.mem_filterMap]
  constructor
  · rintro ⟨key, mem, last⟩
    split at last
    · rename_i front
      rwa [← front, List.dropLast_append_getLast? name last]
    · cases last
  · intro mem
    exact ⟨_, mem, by simp⟩

/-- A folder has no name twice. -/
theorem nodup_children (sorted : t.Sorted) : (t.children parts).Nodup := by
  have ascending : t.keys.Pairwise (· < ·) := List.pairwise_map.mpr sorted
  refine List.pairwise_filterMap.mpr (ascending.imp ?_)
  intro key key' lt name last name' last' same
  subst same
  split at last
  · rename_i front
    split at last'
    · rename_i front'
      rw [← List.dropLast_append_getLast? name last, ← List.dropLast_append_getLast? name last',
        front, front'] at lt
      exact lt_irrefl _ lt
    · cases last'
  · cases last

end FileTree

namespace Place
variable {v : Volume} {path : Path} {lock : ContentId}

theorem exists?_child {name : String} :
    v.exists? (path.child name) = (v.files.get? (path.parts ++ [name])).isSome :=
  congrArg Option.isSome FileTree.entry?_child

/-- What is listed of a folder. -/
structure FolderLists (v : Volume) (path : Path) (lock : ContentId) (listed : List ℕ) : Prop where
  ascending : listed.Pairwise (· ≤ ·)
  /-- Every name in the folder is listed as the index that it spells, if it spells one. -/
  names : ∃ names : List String, names.Nodup ∧
    (∀ name, name ∈ names ↔ v.exists? (path.child name) = true) ∧
    listed.Perm (names.filterMap SegmentName.index?)
  mem_iff : ∀ i, i ∈ listed ↔
    ∃ name, v.exists? (path.child name) = true ∧ SegmentName.Spells i name
  /-- No segment is passed over. -/
  complete : ∀ i < UInt64.size, v.exists? (segmentPath path i) = true → i ∈ listed
  /-- What can be opened is what has the name of a segment. -/
  opens : ∀ readOnly i, (∃ s, openSegment v readOnly i (.folder path lock) = .ok s) ↔
    v.exists? (segmentPath path i) = true
  missing : ∀ readOnly i, v.exists? (segmentPath path i) = false →
    openSegment v readOnly i (.folder path lock) = .error (.segmentMissing i)
  /-- The listing is that of the segments just if no index is spelled in another way. -/
  faithful : (listed.Pairwise (· < ·) ∧
      ∀ i, i ∈ listed ↔ i < UInt64.size ∧ v.exists? (segmentPath path i) = true) ↔
    ∀ name i, v.exists? (path.child name) = true → SegmentName.Spells i name →
      name = SegmentName.ofIndex i

theorem openSegment_eq_ok (plain : ∀ name, v.files.get? (path.parts ++ [name]) ≠ some .folder)
    (readOnly : Bool) (i : ℕ) : (∃ s, openSegment v readOnly i (.folder path lock) = .ok s) ↔
      v.exists? (segmentPath path i) = true := by
  simp only [openSegment]
  rw [segmentPath, exists?_child]
  cases found : v.files.get? (path.parts ++ [SegmentName.ofIndex i]) with
  | none => simp
  | some entry =>
      cases entry with
      | folder => exact absurd found (plain _)
      | file content =>
          rw [(openFile_of_get? found).2]
          exact iff_of_true ⟨_, rfl⟩ rfl

theorem openSegment_of_absent {i : ℕ} (absent : v.exists? (segmentPath path i) = false)
    (readOnly : Bool) : openSegment v readOnly i (.folder path lock) = .error (.segmentMissing i) := by
  simp only [openSegment, absent, Bool.false_eq_true, if_false]

/-- Where two names spell one index, it is listed twice. -/
theorem eq_of_nodup {names : List String} (once : (names.filterMap SegmentName.index?).Nodup)
    {name name' : String} {i : ℕ} (mem : name ∈ names) (mem' : name' ∈ names)
    (spelled : SegmentName.index? name = some i) (spelled' : SegmentName.index? name' = some i) :
    name = name' := by
  have apart := List.pairwise_filterMap.mp once
  have symmetric : Std.Symm fun name name' => ∀ i, SegmentName.index? name = some i →
      ∀ j, SegmentName.index? name' = some j → i ≠ j :=
    ⟨fun _ _ differ i spelled j spelled' => (differ j spelled' i spelled).symm⟩
  by_contra differ
  exact apart.forall mem mem' differ i spelled i spelled' rfl

/-- Every folder that has only files in it is listed. -/
theorem list_folder (folder : v.files.entry? path.parts = some .folder) (sorted : v.files.Sorted)
    (plain : ∀ name, v.files.get? (path.parts ++ [name]) ≠ some .folder) :
    ∃ listed, list v (.folder path lock) = .ok listed ∧ FolderLists v path lock listed := by
  have there (name : String) :
      name ∈ v.files.children path.parts ↔ v.exists? (path.child name) = true := by
    rw [exists?_child, FileTree.mem_children]
  have once : (v.files.children path.parts).Nodup := FileTree.nodup_children sorted
  have listing : v.listFolder path = .ok (v.files.children path.parts) := by
    rw [Volume.listFolder, folder]
  generalize v.files.children path.parts = names at there once listing
  have sorts := List.mergeSort_perm (names.filterMap SegmentName.index?) fun a b : ℕ => decide (a ≤ b)
  have ascending : (names.filterMap SegmentName.index?).mergeSort.Pairwise (· ≤ ·) :=
    List.Pairwise.imp of_decide_eq_true
      (List.pairwise_mergeSort (by simpa using fun _ _ _ => Nat.le_trans)
        (by simpa using Nat.le_total) _)
  have mem_iff (i : ℕ) : i ∈ (names.filterMap SegmentName.index?).mergeSort ↔
      ∃ name, v.exists? (path.child name) = true ∧ SegmentName.Spells i name := by
    simp only [List.mem_mergeSort, List.mem_filterMap, there, SegmentName.index?_eq_some_iff]
  have complete (i : ℕ) (small : i < UInt64.size) (present : v.exists? (segmentPath path i) = true) :
      i ∈ (names.filterMap SegmentName.index?).mergeSort :=
    (mem_iff i).mpr ⟨_, present, SegmentName.index?_eq_some_iff.mp (SegmentName.index?_ofIndex small)⟩
  refine ⟨_, by simp only [list, listing], ascending, ⟨names, once, there, sorts⟩, mem_iff, complete,
    openSegment_eq_ok plain, fun readOnly i absent => openSegment_of_absent absent readOnly, ?_⟩
  constructor
  · rintro ⟨strictly, exact⟩ name i present spelled
    have distinct := sorts.nodup_iff.mp (strictly.imp Nat.ne_of_lt)
    obtain ⟨small, own⟩ := (exact i).mp ((mem_iff i).mpr ⟨name, present, spelled⟩)
    exact eq_of_nodup distinct ((there name).mpr present) ((there _).mpr own)
      (SegmentName.index?_eq_some_iff.mpr spelled) (SegmentName.index?_ofIndex small)
  · intro named
    constructor
    · have distinct : (names.filterMap SegmentName.index?).Nodup := by
        refine List.pairwise_filterMap.mpr (once.imp_of_mem ?_)
        intro name name' mem mem' differ i spelled j spelled' same
        subst same
        apply differ
        rw [named name i ((there name).mp mem) (SegmentName.index?_eq_some_iff.mp spelled),
          named name' i ((there name').mp mem') (SegmentName.index?_eq_some_iff.mp spelled')]
      exact (ascending.and (sorts.nodup_iff.mpr distinct)).imp fun apart =>
        Nat.lt_of_le_of_ne apart.1 apart.2
    · intro i
      refine ⟨fun mem => ?_, fun own => complete i own.1 own.2⟩
      obtain ⟨name, present, spelled⟩ := (mem_iff i).mp mem
      obtain rfl := named name i present spelled
      obtain ⟨-, -, -, small⟩ := spelled
      exact ⟨small, present⟩

/-- What names stand for, and what is therefore listed of a folder that has only files in it. -/
theorem lists_spellings (folder : v.files.entry? path.parts = some .folder)
    (sorted : v.files.Sorted)
    (plain : ∀ name, v.files.get? (path.parts ++ [name]) ≠ some .folder) :
    (∀ name i, SegmentName.index? name = some i ↔ SegmentName.Spells i name) ∧
      (∀ i < UInt64.size, ∀ name, name = SegmentName.ofIndex i ↔ SegmentName.Spells i name ∧
        name.length = (SegmentName.ofIndex i).length ∧ '+' ∉ name.toList) ∧
      (∀ i j, ¬SegmentName.Spells i (SegmentName.temporary j)) ∧
      ∃ listed, list v (.folder path lock) = .ok listed ∧ FolderLists v path lock listed :=
  ⟨fun _ _ => SegmentName.index?_eq_some_iff, fun _ small _ => SegmentName.eq_ofIndex_iff small,
    fun i _ => SegmentName.not_spells_temporary i (SegmentName.temporaryBack_suffix _),
    list_folder folder sorted plain⟩

def logFolder : Path := ⟨"log", ["log"]⟩

/-- A folder with its lock, the name of segment 3, another spelling of 3, a spelling of 7 and a
segment 7 that was never finished. -/
def strays : Volume where
  contents := #[[], [1], [2]]
  files := [(["log"], .folder), (["log", "LOCK"], .file 0), (["log", "seg-+3.wal"], .file 2),
    (["log", "seg-0000000000000003.wal"], .file 1),
    (["log", "seg-0000000000000007.wal.tmp"], .file 2), (["log", "seg-7.wal"], .file 2)]

theorem lists_spellings_strays :
    strays.files.entry? logFolder.parts = some .folder ∧ strays.files.Sorted ∧
      (∀ name, strays.files.get? (logFolder.parts ++ [name]) ≠ some .folder) ∧
      ∃ listed, list strays (.folder logFolder 0) = .ok listed ∧ 3 ∈ listed ∧ 7 ∈ listed ∧
        (∃ s, openSegment strays true 3 (.folder logFolder 0) = .ok s) ∧
        openSegment strays true 7 (.folder logFolder 0) = .error (.segmentMissing 7) ∧
        ¬(listed.Pairwise (· < ·) ∧ ∀ i, i ∈ listed ↔
          i < UInt64.size ∧ strays.exists? (segmentPath logFolder i) = true) := by
  have sorted : strays.files.Sorted := by
    unfold Table.Sorted
    decide +kernel
  have plain (name : String) : strays.files.get? (logFolder.parts ++ [name]) ≠ some .folder := by
    simp only [strays, logFolder, Table.get?_cons, Table.get?_nil]
    grind
  obtain ⟨spelled, -, -, listed, lists, listing⟩ :=
    @lists_spellings strays logFolder 0 rfl sorted plain
  have seven : SegmentName.Spells 7 "seg-7.wal" := (spelled _ _).mp (by decide +kernel)
  refine ⟨rfl, sorted, plain, listed, lists, listing.complete 3 (by decide) (by decide +kernel),
    (listing.mem_iff 7).mpr ⟨_, by decide +kernel, seven⟩,
    (listing.opens true 3).mpr (by decide +kernel), listing.missing true 7 (by decide +kernel), ?_⟩
  intro clean
  have own := listing.faithful.mp clean "seg-7.wal" 7 (by decide +kernel) seven
  exact absurd own (by decide +kernel)

/-- Segment 3 is listed twice, and 7 although it cannot be opened. -/
theorem strays_listed :
    SegmentName.index? "seg-7.wal" = some 7 ∧ "seg-7.wal" ≠ SegmentName.ofIndex 7 ∧
      list strays (.folder logFolder 0) = .ok [3, 3, 7] ∧
      openSegment strays true 7 (.folder logFolder 0) = .error (.segmentMissing 7) := by
  have indices : (strays.files.children logFolder.parts).filterMap SegmentName.index? =
      [3, 3, 7] := by decide +kernel
  have listing : strays.listFolder logFolder = .ok (strays.files.children logFolder.parts) := rfl
  refine ⟨by decide +kernel, by decide +kernel, ?_, by decide +kernel⟩
  simp only [list, listing, indices]
  exact congrArg Except.ok (List.mergeSort_of_pairwise (by decide))

end Place
end SegmentLog
