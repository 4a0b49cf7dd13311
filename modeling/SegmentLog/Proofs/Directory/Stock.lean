import Mathlib.Data.List.Sort
import Mathlib.Data.String.Basic
import SegmentLog.Directory
import SegmentLog.Proofs.Directory.SegmentName
import SegmentLog.Proofs.Store.Bare
import SegmentLog.Proofs.Success

/-!
# What a place has in stock

A place `Stocks` contents if these are the segments it has ever had, in order, and all but those at
its front are still there. Listing and opening say so; creating the next segment and removing the
oldest one keep it. It is a matter of names alone, whatever the contents are.
-/
namespace SegmentLog

theorem Table.mem_keys {κ α : Type} [DecidableEq κ] {t : Table κ α} {k : κ} :
    k ∈ t.keys ↔ (t.get? k).isSome := by
  unfold keys get?
  simp

/-- A step that gives no answer but the volume after it. -/
theorem VolumeM.update_of_ok {ε : Type} {wrap : ε → Error} {f : Volume → Except ε Volume}
    {v v' : Volume} (h : f v = .ok v') :
    VolumeM.update wrap (fun v => (f v).map ((), ·)) v = .ok () v' := by
  rw [update, h]
  rfl

namespace FileTree
variable {t : FileTree} {parts : List String} {name : String}

theorem entry?_child : t.entry? (parts ++ [name]) = t.get? (parts ++ [name]) := by
  unfold entry?
  simp

theorem insert_sorted (h : t.Sorted) (parts : List String) (e : Entry) :
    (t.insert parts e).Sorted :=
  h.insert (fun h h' => lt_trans h h') (fun h h' => lt_of_le_of_ne (not_lt.mp h) (Ne.symm h')) ..

theorem entry?_insert_child (h : t.entry? parts = some .folder) (e : Entry) :
    entry? (t.insert (parts ++ [name]) e) parts = some .folder := by
  unfold entry? at h ⊢
  split
  · rfl
  · rename_i some_part
    rw [if_neg some_part] at h
    rw [Table.get?_insert, if_neg (by simp), h]

theorem entry?_erase_child (h : t.entry? parts = some .folder) :
    entry? (t.erase (parts ++ [name])) parts = some .folder := by
  unfold entry? at h ⊢
  split
  · rfl
  · rename_i some_part
    rw [if_neg some_part] at h
    rw [Table.get?_erase, if_neg (by simp), h]

end FileTree

namespace Place

/-- These contents are the segments that a folder has ever had, and `removed` of them are no longer
there. No other name in it stands for a segment, and none is a temporary one. -/
structure FolderStocks (path : Path) (v : Volume) (removed : ℕ) (ids : List ContentId) : Prop where
  sorted : v.files.Sorted
  folder : v.files.entry? path.parts = some .folder
  segments : ∀ k, v.files.get? (path.parts ++ [SegmentName.ofIndex k]) =
    if k < removed then none else ids[k]?.map .file
  named : ∀ name k, SegmentName.index? name = some k →
    (v.files.get? (path.parts ++ [name])).isSome → name = SegmentName.ofIndex k
  drafts : ∀ k, v.files.get? (path.parts ++ [SegmentName.temporary k]) = none
  few : ids.length ≤ UInt64.size

/-- These contents are the segments that the place has ever had, and `removed` of them are no longer
there. -/
def Stocks (place : Place) (v : Volume) (removed : ℕ) (ids : List ContentId) : Prop :=
  match place with
  | memory => v.segments.Sorted ∧
      ∀ k, v.segments.get? k = if k < removed then none else ids[k]?
  | folder path _ => FolderStocks path v removed ids

/-- There are indexes for so many segments. They are words. -/
def Room (n : ℕ) : Prop := n ≤ UInt64.size

instance (n : ℕ) : Decidable (Room n) := inferInstanceAs (Decidable (_ ≤ _))

variable {place : Place} {v : Volume} {removed : ℕ} {ids : List ContentId} {path : Path}

theorem Room.mono {m n : ℕ} (h : Room n) (le : m ≤ n) : Room m := Nat.le_trans le h

theorem Room.indexAfter {k : ℕ} (h : Room (k + 2)) : Directory.indexAfter k = k + 1 :=
  Directory.indexAfter_of_lt h

theorem Stocks.congr {v' : Volume} (h : place.Stocks v removed ids)
    (segments : v'.segments = v.segments) (files : v'.files = v.files) :
    place.Stocks v' removed ids := by
  cases place with
  | memory => rwa [Stocks, segments]
  | folder path lock =>
      obtain ⟨sorted, folder, found, named, drafts, few⟩ := h
      rw [← files] at *
      exact ⟨sorted, folder, found, named, drafts, few⟩

/-- A place in memory stocks nothing while it has no segments. -/
theorem stocks_memory (none_yet : v.segments = []) : memory.Stocks v 0 [] := by
  constructor
  · rw [none_yet]
    exact List.Pairwise.nil
  · intro k
    rw [none_yet, if_neg (Nat.not_lt_zero k)]
    rfl

/-- A folder that has nothing but its lock stocks nothing. -/
theorem stocks_folder {lock : ContentId} (sorted : v.files.Sorted)
    (found : v.files.entry? path.parts = some .folder)
    (bare : ∀ name, (v.files.get? (path.parts ++ [name])).isSome → name = lockName) :
    (folder path lock).Stocks v 0 [] := by
  have absent : ∀ name, name.toList.head? = some 's' →
      v.files.get? (path.parts ++ [name]) = none := by
    intro name initial
    cases there : v.files.get? (path.parts ++ [name]) with
    | none => rfl
    | some entry =>
        rw [bare name (by rw [there]; rfl)] at initial
        exact absurd initial (by decide)
  refine ⟨sorted, found, ?_, ?_, ?_, Nat.zero_le _⟩
  · intro k
    rw [absent _ (by rw [SegmentName.toList_ofIndex]; rfl), if_neg (Nat.not_lt_zero k)]
    rfl
  · intro name k index there
    rw [bare name there, show SegmentName.index? lockName = none by decide +kernel] at index
    cases index
  · intro k
    exact absent _ (by rw [SegmentName.toList_temporary]; rfl)

/-! ## Listing -/

/-- The index that a path stands for, if it is that of a segment in the folder. -/
def indexIn (parts key : List String) : Option ℕ :=
  (if key.dropLast = parts then key.getLast? else none).bind SegmentName.index?

theorem FolderStocks.indexIn_eq_some (h : FolderStocks path v removed ids)
    {key : List String} {k : ℕ} (mem : key ∈ v.files.keys) :
    indexIn path.parts key = some k → key = path.parts ++ [SegmentName.ofIndex k] := by
  intro found
  obtain ⟨name, last, index⟩ := Option.bind_eq_some_iff.mp found
  split at last
  · rename_i start
    have whole : key = path.parts ++ [name] := by
      rw [← start]
      exact (List.dropLast_append_getLast? name last).symm
    rw [whole, Table.mem_keys] at mem
    rw [whole, h.named name k index mem]
  · cases last

theorem FolderStocks.mem_indices (h : FolderStocks path v removed ids) (k : ℕ) :
    k ∈ v.files.keys.filterMap (indexIn path.parts) ↔ removed ≤ k ∧ k < ids.length := by
  have there : path.parts ++ [SegmentName.ofIndex k] ∈ v.files.keys ↔
      removed ≤ k ∧ k < ids.length := by
    rw [Table.mem_keys, h.segments]
    split
    · simp
      omega
    · simp
      omega
  rw [← there, List.mem_filterMap]
  constructor
  · rintro ⟨key, mem, found⟩
    exact h.indexIn_eq_some mem found ▸ mem
  · intro mem
    have few := h.few
    have := there.mp mem
    refine ⟨_, mem, ?_⟩
    simp [indexIn, SegmentName.index?_ofIndex (show k < UInt64.size by omega)]

theorem FolderStocks.indices_nodup (h : FolderStocks path v removed ids) :
    (v.files.keys.filterMap (indexIn path.parts)).Nodup := by
  have ascending : v.files.keys.Pairwise (· < ·) := List.pairwise_map.mpr h.sorted
  refine List.pairwise_filterMap.mpr (ascending.imp_of_mem ?_)
  intro key key' mem mem' lt k found k' found' same
  subst same
  rw [h.indexIn_eq_some mem found, h.indexIn_eq_some mem' found'] at lt
  exact lt_irrefl _ lt

theorem FolderStocks.list (h : FolderStocks path v removed ids) (lock : ContentId) :
    Place.list v (.folder path lock) = .ok (List.range' removed (ids.length - removed)) := by
  have listed : v.listFolder path = .ok (v.files.children path.parts) := by
    rw [Volume.listFolder, h.folder]
  have indices : (v.files.children path.parts).filterMap SegmentName.index? =
      v.files.keys.filterMap (indexIn path.parts) := List.filterMap_filterMap
  simp only [Place.list, listed, indices]
  refine congrArg Except.ok ?_
  have least : ((v.files.keys.filterMap (indexIn path.parts)).mergeSort
      fun a b : ℕ => decide (a ≤ b)).Pairwise fun a b => decide (a ≤ b) = true :=
    List.pairwise_mergeSort (by simpa using fun _ _ _ => Nat.le_trans)
      (by simpa using Nat.le_total) _
  have distinct := (List.mergeSort_perm (v.files.keys.filterMap (indexIn path.parts))
    fun a b : ℕ => decide (a ≤ b)).nodup_iff.mpr h.indices_nodup
  have ascending := (least.and distinct).imp fun {a b} ⟨le, ne⟩ =>
    Nat.lt_of_le_of_ne (of_decide_eq_true le) ne
  refine ascending.eq_of_mem_iff List.pairwise_lt_range' fun k => ?_
  rw [List.mem_mergeSort, h.mem_indices, List.mem_range'_1]
  omega

theorem Stocks.list (h : place.Stocks v removed ids) :
    place.list v = .ok (List.range' removed (ids.length - removed)) := by
  cases place with
  | memory =>
      obtain ⟨sorted, found⟩ := h
      have ascending : v.segments.keys.Pairwise (· < ·) := List.pairwise_map.mpr sorted
      refine congrArg Except.ok (ascending.eq_of_mem_iff List.pairwise_lt_range' fun k => ?_)
      rw [Table.mem_keys, found, List.mem_range'_1]
      split
      · simp
        omega
      · simp
        omega
  | folder path lock => exact FolderStocks.list h lock

/-! ## Opening -/

/-- A handle on a segment of the place. -/
structure Opens (s : Store) (v : Volume) (readOnly : Bool) (id : ContentId) : Prop where
  content : s.content = id
  unfused : s.fuses = []
  access : s.handle.isReadOnly = readOnly
  size : s.size v = (v.bytes id).length
  reads : s.Reads (v.bytes id).length

theorem opens_memory (v : Volume) (readOnly : Bool) (id : ContentId) :
    Opens ⟨id, .memory readOnly, []⟩ v readOnly id :=
  ⟨rfl, rfl, rfl, rfl, Store.reads_memory _ _ _⟩

theorem opens_onFile (v : Volume) (p : Path) (readOnly : Bool) (id : ContentId) :
    Opens (.onFile v p id readOnly) v readOnly id :=
  ⟨rfl, rfl, rfl, rfl, Store.reads_onFile _ _ _ _⟩

theorem openFile_of_get? {p : Path} {name : String} {id : ContentId}
    (h : v.files.get? (p.parts ++ [name]) = some (.file id)) :
    v.exists? (p.child name) = true ∧ v.openFile (p.child name) = .ok id := by
  have entry : v.files.entry? (p.child name).parts = some (.file id) :=
    FileTree.entry?_child.trans h
  constructor
  · rw [Volume.exists?, entry]
    rfl
  · rw [Volume.openFile, entry]

theorem Stocks.openSegment (h : place.Stocks v removed ids) {k : ℕ} {id : ContentId}
    (there : removed ≤ k) (hk : ids[k]? = some id) (readOnly : Bool) :
    ∃ s, place.openSegment v readOnly k = .ok s ∧ Opens s v readOnly id := by
  cases place with
  | memory =>
      refine ⟨_, ?_, opens_memory v readOnly id⟩
      have found := h.2 k
      rw [if_neg (by omega), hk] at found
      simp only [Place.openSegment, found]
  | folder path lock =>
      refine ⟨_, ?_, opens_onFile v (segmentPath path k) readOnly id⟩
      have found := FolderStocks.segments h k
      rw [if_neg (by omega), hk] at found
      obtain ⟨present, opened⟩ := openFile_of_get? found
      simp only [Place.openSegment, segmentPath, present, opened, if_true]

/-- What is not in stock cannot be opened. -/
theorem Stocks.openSegment_missing (h : place.Stocks v removed ids) {k : ℕ}
    (missing : k < removed ∨ ids.length ≤ k) (readOnly : Bool) :
    place.openSegment v readOnly k = .error (.segmentMissing k) := by
  have out : (if k < removed then none else ids[k]?) = none := by
    split
    · rfl
    · exact List.getElem?_eq_none (by omega)
  cases place with
  | memory => simp only [Place.openSegment, h.2 k, out]
  | folder path lock =>
      have absent : v.files.get? (path.parts ++ [SegmentName.ofIndex k]) = none := by
        have found := FolderStocks.segments h k
        grind
      have unnamed : v.exists? (segmentPath path k) = false := by
        rw [Volume.exists?, segmentPath, show v.files.entry? (path.child _).parts = none from
          FileTree.entry?_child.trans absent]
        rfl
      simp only [Place.openSegment, unnamed, Bool.false_eq_true, if_false]

/-! ## Creating -/

section
variable {name : String} {id : ContentId}

theorem writeFile_of_absent (folder : v.files.entry? path.parts = some .folder)
    (absent : v.files.get? (path.parts ++ [name]) = none) (data : Bytes) :
    ∃ v', v.writeFile (path.child name) data = .ok v' ∧
      v'.contents = v.contents.push data ∧
      v'.files = v.files.insert (path.parts ++ [name]) (.file v.contents.size) := by
  have fresh : v.files.entry? (path.child name).parts = none := FileTree.entry?_child.trans absent
  have parent : (path.child name).parts.dropLast = path.parts := List.dropLast_concat
  rw [Volume.writeFile, Volume.openOrCreateFile, fresh, parent, folder]
  refine ⟨_, rfl, ?_, rfl⟩
  change (v.contents.push []).setIfInBounds v.contents.size data = _
  grind

theorem renameFile_of_get? (h : v.files.get? (path.parts ++ [name]) = some (.file id))
    (new : String) :
    ∃ v', v.renameFile (path.child name) (path.child new) = .ok v' ∧ v'.contents = v.contents ∧
      v'.files =
        (v.files.erase (path.parts ++ [name])).insert (path.parts ++ [new]) (.file id) := by
  rw [Volume.renameFile, (openFile_of_get? h).2]
  exact ⟨_, rfl, rfl, rfl⟩

theorem removeFile_of_get? (h : v.files.get? (path.parts ++ [name]) = some (.file id)) :
    ∃ v', v.removeFile (path.child name) = .ok v' ∧ v'.contents = v.contents ∧
      v'.files = v.files.erase (path.parts ++ [name]) := by
  rw [Volume.removeFile, (openFile_of_get? h).2]
  exact ⟨_, rfl, rfl, rfl⟩

end

/-- A finished draft is given the name of the next segment. -/
theorem FolderStocks.add (h : FolderStocks path v removed ids) (le : removed ≤ ids.length)
    (few : ids.length < UInt64.size) {v' : Volume} {id : ContentId} {draft : List String}
    (unfinished : draft = path.parts ++ [SegmentName.temporary ids.length])
    (files : v'.files = ((v.files.insert draft (.file id)).erase draft).insert
      (path.parts ++ [SegmentName.ofIndex ids.length]) (.file id)) :
    FolderStocks path v' removed (ids ++ [id]) := by
  have found (name : String) : v'.files.get? (path.parts ++ [name]) =
      if SegmentName.ofIndex ids.length = name then some (.file id)
      else v.files.get? (path.parts ++ [name]) := by
    have absent := h.drafts ids.length
    have names : path.parts ++ [SegmentName.ofIndex ids.length] = path.parts ++ [name] ↔
        SegmentName.ofIndex ids.length = name := by simp
    rw [← unfinished] at absent
    rw [files, Table.get?_insert, Table.get?_erase, Table.get?_insert]
    grind
  refine ⟨?_, ?_, ?_, ?_, ?_, by simpa using Nat.succ_le_of_lt few⟩
  · rw [files]
    exact FileTree.insert_sorted ((FileTree.insert_sorted h.sorted ..).erase _) ..
  · rw [files, unfinished]
    exact FileTree.entry?_insert_child
      (FileTree.entry?_erase_child (FileTree.entry?_insert_child h.folder _)) _
  · intro k
    rw [found, h.segments]
    by_cases same : ids.length = k
    · subst same
      rw [if_pos rfl, if_neg (by omega), List.getElem?_concat_length]
      rfl
    · rw [if_neg fun e => same (SegmentName.ofIndex_inj e)]
      grind
  · intro name k index there
    rw [found] at there
    by_cases same : SegmentName.ofIndex ids.length = name
    · subst same
      rw [SegmentName.index?_ofIndex few] at index
      rw [Option.some.inj index]
    · rw [if_neg same] at there
      exact h.named name k index there
  · intro k
    rw [found, if_neg (Ne.symm (SegmentName.temporary_ne_ofIndex _ _)), h.drafts]

theorem FolderStocks.create (h : FolderStocks path v removed ids) (le : removed ≤ ids.length)
    (few : ids.length < UInt64.size) (header : Bytes) (lock : ContentId) :
    ∃ s v', Place.create ids.length header (.folder path lock) v = .ok s v' ∧
      FolderStocks path v' removed (ids ++ [v.contents.size]) ∧
      v'.contents = v.contents.push header ∧ Opens s v' false v.contents.size := by
  have absent : v.exists? (segmentPath path ids.length) = false := by
    have := h.segments ids.length
    rw [if_neg (by omega), List.getElem?_eq_none (Nat.le_refl _)] at this
    rw [Volume.exists?, segmentPath, show v.files.entry? (path.child _).parts = none from
      FileTree.entry?_child.trans this]
    rfl
  obtain ⟨v₁, written, contents₁, files₁⟩ :=
    writeFile_of_absent h.folder (h.drafts ids.length) header
  have draft : v₁.files.get? (path.parts ++ [SegmentName.temporary ids.length]) =
      some (.file v.contents.size) := by rw [files₁, Table.get?_insert, if_pos rfl]
  obtain ⟨v₂, renamed, contents₂, files₂⟩ :=
    renameFile_of_get? draft (SegmentName.ofIndex ids.length)
  rw [files₁] at files₂
  have named : v₂.files.get? (path.parts ++ [SegmentName.ofIndex ids.length]) =
      some (.file v.contents.size) := by rw [files₂, Table.get?_insert, if_pos rfl]
  have opened := (openFile_of_get? named).2
  refine ⟨.onFile v₂ (segmentPath path ids.length) v.contents.size false, v₂, ?_,
    h.add le few rfl files₂, contents₂.trans contents₁, opens_onFile ..⟩
  unfold Place.create
  dsimp only
  rw [run_get_bind, if_neg (by
    rw [absent]
    exact Bool.false_ne_true)]
  apply (run_bind_of_ok (VolumeM.update_of_ok written)).trans
  apply (run_bind_of_ok (VolumeM.update_of_ok renamed)).trans
  rw [run_get_bind, segmentPath, opened]
  rfl

/-- The next segment gets contents of its own. -/
theorem Stocks.create (h : place.Stocks v removed ids) (le : removed ≤ ids.length)
    (room : Place.Room (ids.length + 1)) (header : Bytes) :
    ∃ s v', place.create ids.length header v = .ok s v' ∧
      place.Stocks v' removed (ids ++ [v.contents.size]) ∧
      v'.contents = v.contents.push header ∧ Opens s v' false v.contents.size := by
  cases place with
  | memory =>
      obtain ⟨sorted, found⟩ := h
      have absent : v.segments.contains ids.length = false := by
        rw [Table.contains, found, if_neg (by omega)]
        simp
      refine ⟨_, { v with
        contents := v.contents.push header
        segments := v.segments.insert ids.length v.contents.size }, ?_, ⟨?_, ?_⟩, rfl,
        opens_memory ..⟩
      · unfold Place.create
        dsimp only
        rw [run_get_bind, if_neg (by
          rw [absent]
          exact Bool.false_ne_true)]
        rfl
      · exact sorted.insert Nat.lt_trans (by omega) ..
      · intro k
        rw [Table.get?_insert, found]
        grind
  | folder path lock => exact FolderStocks.create h le room header lock

/-! ## Removing -/

theorem FolderStocks.remove (h : FolderStocks path v removed ids) (lt : removed < ids.length)
    (lock : ContentId) :
    ∃ v', Place.remove removed (.folder path lock) v = .ok () v' ∧
      FolderStocks path v' (removed + 1) ids ∧ v'.contents = v.contents := by
  have oldest := h.segments removed
  rw [if_neg (Nat.lt_irrefl _), List.getElem?_eq_getElem lt, Option.map_some] at oldest
  obtain ⟨v', erased, contents, files⟩ := removeFile_of_get? oldest
  have found (name : String) : v'.files.get? (path.parts ++ [name]) =
      if name = SegmentName.ofIndex removed then none
      else v.files.get? (path.parts ++ [name]) := by
    rw [files, Table.get?_erase]
    simp
  refine ⟨v', ?_, ⟨?_, ?_, ?_, ?_, ?_, h.few⟩, contents⟩
  · unfold Place.remove
    dsimp only
    rw [run_get_bind, segmentPath,
      (openFile_of_get? oldest).1]
    exact VolumeM.update_of_ok (f := fun v => v.removeFile _) erased
  · rw [files]
    exact h.sorted.erase _
  · rw [files]
    exact FileTree.entry?_erase_child h.folder
  · intro k
    rw [found, h.segments]
    by_cases same : k = removed
    · subst same
      rw [if_pos rfl, if_pos (Nat.lt_succ_self k)]
    · rw [if_neg fun e => same (SegmentName.ofIndex_inj e)]
      grind
  · intro name k index there
    apply h.named name k index
    rw [found] at there
    split at there
    · cases there
    · exact there
  · intro k
    rw [found, if_neg (SegmentName.temporary_ne_ofIndex _ _), h.drafts]

theorem Stocks.remove (h : place.Stocks v removed ids) (lt : removed < ids.length) :
    ∃ v', place.remove removed v = .ok () v' ∧ place.Stocks v' (removed + 1) ids ∧
      v'.contents = v.contents := by
  cases place with
  | memory =>
      obtain ⟨sorted, found⟩ := h
      have there : v.segments.contains removed = true := by
        rw [Table.contains, found, if_neg (Nat.lt_irrefl _)]
        simpa using lt
      refine ⟨{ v with segments := v.segments.erase removed }, ?_, ⟨sorted.erase removed, ?_⟩, rfl⟩
      · unfold Place.remove
        dsimp only
        rw [run_get_bind, there]
        rfl
      · intro k
        rw [Table.get?_erase, found]
        grind
  | folder path lock => exact FolderStocks.remove h lt lock

end Place
end SegmentLog
