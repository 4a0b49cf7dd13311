import SegmentLog.Proofs.Session.Replay

/-!
# Volumes with another segment

A volume is `Extended` by a segment after the newest one, and the newest one may hold other bytes
than before. Sessions then start where they did, the same segments are missing, and one more is
covered.
-/
namespace SegmentLog.Volume

/-- The newest segment held `bs`; it now holds `kept`, and a segment that holds `fresh` follows. -/
structure Extended (v v' : Volume) (newest : ℕ) (bs kept fresh : Bytes) : Prop where
  there : v.segment? newest = some bs
  last : ∀ i, v.segment? i ≠ none → i ≤ newest
  after : ∀ j, v'.segment? j =
    if j = newest + 1 then some fresh else if j = newest then some kept else v.segment? j

variable {v v' : Volume} {first newest index : ℕ} {bs kept fresh : Bytes}

theorem Extended.present (h : v.Extended v' newest bs kept fresh) : v.segment? newest ≠ none := by
  rw [h.there]
  exact Option.some_ne_none _

theorem Extended.older (h : v.Extended v' newest bs kept fresh) {i : ℕ} (lt : i < newest) :
    v'.segment? i = v.segment? i := by
  rw [h.after, if_neg (by omega), if_neg (by omega)]

theorem Extended.holds_kept (h : v.Extended v' newest bs kept fresh) :
    v'.segment? newest = some kept := by
  rw [h.after, if_neg (by omega), if_pos rfl]

theorem Extended.holds_fresh (h : v.Extended v' newest bs kept fresh) :
    v'.segment? (newest + 1) = some fresh := by
  rw [h.after, if_pos rfl]

theorem Extended.known (h : v.Extended v' newest bs kept fresh) {i : ℕ} (le : i ≤ newest) :
    v'.segment? i ≠ none ↔ v.segment? i ≠ none := by
  rcases Nat.lt_or_eq_of_le le with lt | rfl
  · rw [h.older lt]
  · simp [h.holds_kept, h.there]

theorem Extended.startsIn (h : v.Extended v' newest bs kept fresh)
    (starts : v.StartsIn none first) : v'.StartsIn none first := by
  have le : first ≤ newest := h.last first starts.1
  refine ⟨(h.known le).mpr starts.1, fun i present => ?_⟩
  by_cases old : i ≤ newest
  · exact starts.2 i ((h.known old).mp present)
  · omega

/-- A segment that is missing is still missing, since a newer one is there. -/
theorem Extended.lacks (h : v.Extended v' newest bs kept fresh) (starts : v.StartsIn none first)
    (lacks : v.Lacks first index) : v'.Lacks first index := by
  obtain ⟨newer, lt, needed⟩ := lacks.needed.resolve_left fun e => starts.1 (e ▸ lacks.absent)
  have le := h.last newer needed
  refine ⟨lacks.le, ?_, fun i hi lt' => ?_, .inr ⟨newer, lt, (h.known le).mpr needed⟩⟩
  · rw [h.older (by omega)]
    exact lacks.absent
  · exact (h.known (by omega)).mpr (lacks.before i hi lt')

/-- The newest segment is the last one that is covered. -/
theorem Extended.covers_last (h : v.Extended v' newest bs kept fresh) {segments : List (ℕ × Bytes)}
    (starts : v.StartsIn none first) (covers : v.Covers first segments) :
    ∃ older, segments = older ++ [(newest, bs)] ∧ newest = first + older.length ∧
      ∀ e ∈ older, e.1 < newest := by
  rcases List.eq_nil_or_concat segments with rfl | ⟨older, ⟨index, bytes⟩, rfl⟩
  · exact absurd (covers.newest first (Nat.le_refl _)) starts.1
  · rw [List.concat_eq_append] at *
    have consecutive := covers.consecutive
    rw [List.length_append, List.length_singleton, List.range'_1_concat, List.map_append]
      at consecutive
    obtain ⟨before, position⟩ := List.append_inj' consecutive rfl
    have position : index = first + older.length := by simpa using position
    have here := covers.stored (index, bytes) (by simp)
    have le : index ≤ newest := h.last index (by simp [here])
    have ge : newest ≤ index := by
      by_contra later
      apply h.present
      apply covers.newest
      rw [List.length_append, List.length_singleton]
      omega
    obtain rfl : index = newest := Nat.le_antisymm le ge
    cases here.symm.trans h.there
    refine ⟨older, rfl, position, fun e mem => ?_⟩
    have mem : e.1 ∈ older.map (·.1) := List.mem_map_of_mem mem
    rw [before, List.mem_range'_1] at mem
    omega

theorem Extended.covers (h : v.Extended v' newest bs kept fresh) {older : List (ℕ × Bytes)}
    (covers : v.Covers first (older ++ [(newest, bs)])) (position : newest = first + older.length)
    (below : ∀ e ∈ older, e.1 < newest) :
    v'.Covers first (older ++ [(newest, kept), (newest + 1, fresh)]) := by
  have length : (older ++ [(newest, bs)]).length = older.length + 1 := by simp
  refine ⟨?_, ?_, ?_⟩
  · have indices : (older ++ [(newest, kept), (newest + 1, fresh)]).map (·.1) =
        (older ++ [(newest, bs)]).map (·.1) ++ [newest + 1] := by simp
    have one_more : (older ++ [(newest, kept), (newest + 1, fresh)]).length =
        (older ++ [(newest, bs)]).length + 1 := by simp
    rw [indices, one_more, covers.consecutive, List.range'_1_concat, length, position,
      Nat.add_assoc]
  · intro e mem
    rcases List.mem_append.mp mem with mem | mem
    · rw [h.older (below e mem)]
      exact covers.stored e (List.mem_append_left _ mem)
    · rcases List.mem_pair.mp mem with rfl | rfl
      · exact h.holds_kept
      · exact h.holds_fresh
  · intro i hi
    have hi : newest + 2 ≤ i := by
      rw [List.length_append, List.length_cons, List.length_singleton] at hi
      omega
    rw [h.after, if_neg (by omega), if_neg (by omega)]
    by_contra later
    have := h.last i later
    omega

end SegmentLog.Volume
