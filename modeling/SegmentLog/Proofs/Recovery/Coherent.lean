import SegmentLog.Proofs.Counter.Reload
import SegmentLog.Proofs.Recovery.Run

/-!
# Recoveries under way

What holds of the state of a recovery after each record, whatever the record is: every counter is
one that states and updates make, and the last persisted state of a partition has nothing complete
that its counter has not. `Coherent.steps` says so of whole runs.
-/
namespace SegmentLog

theorem PartitionKey.lt_trans {a b c : PartitionKey} (h : a < b) (h' : b < c) : a < c := by
  simp only [lt_iff, UInt32.lt_iff_toNat_lt, UInt16.lt_iff_toNat_lt, ← UInt32.toNat_inj] at *
  omega

theorem PartitionKey.lt_of_not_lt {a b : PartitionKey} (h : ¬a < b) (ne : a ≠ b) : b < a := by
  obtain ⟨⟨g⟩, ⟨p⟩⟩ := a
  obtain ⟨⟨g'⟩, ⟨p'⟩⟩ := b
  simp only [ne_eq, PartitionKey.mk.injEq, GroupId.mk.injEq, PartitionId.mk.injEq, lt_iff,
    UInt32.lt_iff_toNat_lt, UInt16.lt_iff_toNat_lt, ← UInt32.toNat_inj, ← UInt16.toNat_inj] at *
  omega

namespace Recovery
open Counter

/-! ## Counters that were recovered -/

/-- A counter that was put together from states and updates: its numbers are words, and what it has
handed out is its last complete number. -/
structure Regained (config : Counter.Config) (c : Counter) : Prop where
  sound : c.Sound
  last : c.reserved = 0 ∨ c.reserved ∈ c.completed
  words : c.InWords
  config : c.config = config

variable {config : Counter.Config} {c d : Counter}

theorem regained_empty (config : Counter.Config) : Regained config { config } :=
  ⟨sound_empty config, .inl rfl, ⟨Nat.succ_pos _, by simp⟩, rfl⟩

theorem valid_of_restore {s : Snapshot} (ok : c.restore s = .ok d) : s.validate = .ok () := by
  unfold Counter.restore at ok
  obtain ⟨_, valid, -⟩ := bind_eq_ok.mp ok
  exact valid

theorem regained_restore {s : Snapshot} (same : c.config = config) (ok : c.restore s = .ok d) :
    Regained config d := by
  obtain ⟨sound, completed, last⟩ := restore_spec ok
  refine ⟨sound, last, sound.ordered.inWords ?_, ?_⟩
  · rw [completed]
    exact covered_lt_of_restore ok
  · obtain ⟨-, level, gaps, -, rfl⟩ := restore_cases ok
    exact same

theorem Regained.complete {start len : ℕ} {event : Option Event} (h : Regained config c)
    (ok : c.complete start len = .ok (d, event)) : Regained config d := by
  obtain ⟨sound, completed, reserved⟩ := Counter.complete_spec h.sound ok
  obtain ⟨⟨some_numbers, -, -⟩, -⟩ := complete_cases ok
  have numbers : ∀ n ∈ c.completed, n < limit := by
    rw [← h.sound.ordered.snapshot_covered h.words]
    obtain ⟨c', restored⟩ := restore_of_valid c (h.sound.ordered.snapshot_validate h.words)
    exact covered_lt_of_restore restored
  refine ⟨sound, ?_, sound.ordered.inWords ?_, (config_of_complete ok).trans h.config⟩
  · rw [completed]
    rcases Nat.le_total (start + len - 1) c.reserved with le | le
    · rw [reserved, Nat.max_eq_left le]
      exact h.last.imp_right .inl
    · rw [reserved, Nat.max_eq_right le]
      exact .inr (.inr ⟨by omega, by omega⟩)
  · rw [completed]
    exact fun n hn => hn.elim (numbers n) (lt_of_complete ok n)

/-- What was handed out follows from the core. -/
theorem Regained.reserved_of_core (h : Regained config c) (h' : Regained config d)
    (same : d.core = c.core) : d.reserved = c.reserved := by
  have completed := completed_of_core same
  rcases h.sound.reserved_eq h.last with ⟨none, zero⟩ | last
  · rcases h'.sound.reserved_eq h'.last with ⟨-, zero'⟩ | last'
    · rw [zero, zero']
    · exact absurd last'.1 (by rw [completed, none]; exact Set.notMem_empty _)
  · rcases h'.sound.reserved_eq h'.last with ⟨none', -⟩ | last'
    · exact absurd last.1 (by rw [← completed, none']; exact Set.notMem_empty _)
    · exact last'.unique (completed ▸ last)

/-! ## States of a recovery -/

namespace State
variable {st st' full resumed : State} {key : PartitionKey} {s : Snapshot} {number : UInt64}

theorem counter_of_insert
    (inserted : st'.counters = st.counters.insert key c) (config : Counter.Config)
    (k : PartitionKey) : st'.counter config k = if key = k then c else st.counter config k := by
  rw [counter, counter, inserted, Table.get?_insert]
  split
  · rfl
  · rfl

theorem restore_eq_ok : st.restore config key s = .ok st' ↔
    ∃ c, (st.counter config key).restore s = .ok c ∧ st' = { st with
      counters := st.counters.insert key c, persisted := st.persisted.insert key s } := by
  rw [restore, bind_eq_ok]
  simp only [mapError_eq_ok]
  constructor
  · rintro ⟨c, restored, ⟨⟩⟩
    exact ⟨c, restored, rfl⟩
  · rintro ⟨c, restored, rfl⟩
    exact ⟨c, restored, rfl⟩

theorem complete_eq_ok : st.complete config key number = .ok st' ↔
    ∃ c, st' = { st with counters := st.counters.insert key c } ∧
      if st.confirmsGap config key number = true then c = st.counter config key
      else ∃ event, (st.counter config key).complete number.toNat 1 = .ok (c, event) := by
  unfold complete
  dsimp only
  split
  · constructor
    · rintro ⟨⟩
      exact ⟨_, rfl, rfl⟩
    · rintro ⟨c, rfl, rfl⟩
      rfl
  · rw [bind_eq_ok]
    simp only [mapError_eq_ok]
    constructor
    · rintro ⟨⟨c, event⟩, completed, ⟨⟩⟩
      exact ⟨c, rfl, event, completed⟩
    · rintro ⟨c, rfl, event, completed⟩
      exact ⟨(c, event), completed, rfl⟩

/-- The counters of a recovery under way. What the last persisted state of a partition has complete,
its counter has. -/
structure Coherent (config : Counter.Config) (st : State) : Prop where
  sorted : st.counters.Sorted
  regained : ∀ key, Regained config (st.counter config key)
  persisted : ∀ key s, st.persisted.get? key = some s →
    s.covered ⊆ (st.counter config key).completed

theorem coherent_empty (config : Counter.Config) : Coherent config {} :=
  ⟨List.Pairwise.nil, fun _ => regained_empty config, fun _ _ found => by cases found⟩

theorem Coherent.insert (h : st.Coherent config) (regained : Regained config c)
    (counters : st'.counters = st.counters.insert key c)
    (persisted : ∀ k s, st'.persisted.get? k = some s →
      s.covered ⊆ (st'.counter config k).completed) :
    st'.Coherent config := by
  refine ⟨?_, fun k => ?_, persisted⟩
  · rw [counters]
    exact h.sorted.insert PartitionKey.lt_trans PartitionKey.lt_of_not_lt ..
  · rw [counter_of_insert counters]
    split
    · exact regained
    · exact h.regained k

theorem Coherent.restore (h : st.Coherent config) (ok : st.restore config key s = .ok st') :
    st'.Coherent config := by
  obtain ⟨c, restored, rfl⟩ := restore_eq_ok.mp ok
  refine h.insert (regained_restore (h.regained key).config restored) rfl fun k s' found => ?_
  rw [Table.get?_insert] at found
  rw [counter_of_insert rfl]
  split at found
  · rename_i same
    cases found
    rw [if_pos same, (restore_spec restored).2.1]
  · rename_i other
    rw [if_neg other]
    exact h.persisted k s' found

theorem Coherent.complete (h : st.Coherent config) (ok : st.complete config key number = .ok st') :
    st'.Coherent config := by
  obtain ⟨c, rfl, outcome⟩ := complete_eq_ok.mp ok
  have after : Regained config c ∧ (st.counter config key).completed ⊆ c.completed := by
    split at outcome
    · rw [outcome]
      exact ⟨h.regained key, subset_rfl⟩
    · obtain ⟨event, completed⟩ := outcome
      refine ⟨(h.regained key).complete completed, ?_⟩
      rw [(Counter.complete_spec (h.regained key).sound completed).2.1]
      exact Set.subset_union_left
  refine h.insert after.1 rfl fun k s found => ?_
  have covered := h.persisted k s found
  rw [counter_of_insert rfl]
  split
  · rename_i same
    subst same
    exact covered.trans after.2
  · exact covered

theorem Coherent.restoreAll {es : List (PartitionKey × Snapshot)} (h : st.Coherent config)
    (ok : es.foldlM (fun st e => State.restore config st e.1 e.2) st = .ok st') :
    st'.Coherent config ∧ st'.lastPointer = st.lastPointer := by
  induction es generalizing st with
  | nil =>
      cases ok
      exact ⟨h, rfl⟩
  | cons e es ih =>
      rw [List.foldlM_cons] at ok
      obtain ⟨st₁, restored, rest⟩ := bind_eq_ok.mp ok
      obtain ⟨coherent, pointer⟩ := ih (h.restore restored) rest
      refine ⟨coherent, pointer.trans ?_⟩
      obtain ⟨c, -, rfl⟩ := restore_eq_ok.mp restored
      rfl

theorem absorb_checkpoint_eq_ok {id : UInt64} {partitions : List PartitionState}
    {toStore : Bool} : st.absorb config (.checkpoint id partitions) = .ok (st', toStore) ↔
      ∃ st₁, (partitions.map fun p => (p.key, p.counter)).foldlM
          (fun st e => State.restore config st e.1 e.2) st = .ok st₁ ∧
        st' = { st₁ with lastCheckpoint := some id } ∧ toStore = false := by
  rw [List.foldlM_map]
  constructor
  · intro ok
    obtain ⟨st₁, restored, ⟨⟩⟩ := bind_eq_ok.mp ok
    exact ⟨st₁, restored, rfl, rfl⟩
  · rintro ⟨st₁, restored, rfl, rfl⟩
    exact bind_eq_ok.mpr ⟨st₁, restored, rfl⟩

theorem Coherent.absorb {record : Record} {toStore : Bool} (h : st.Coherent config)
    (ok : st.absorb config record = .ok (st', toStore)) :
    st'.Coherent config ∧ st'.lastPointer = st.lastPointer := by
  cases record with
  | data key number payload =>
      obtain ⟨st₁, completed, ⟨⟩⟩ := bind_eq_ok.mp ok
      refine ⟨h.complete completed, ?_⟩
      obtain ⟨c, rfl, -⟩ := complete_eq_ok.mp completed
      rfl
  | checkpoint id partitions =>
      obtain ⟨st₁, restored, rfl, -⟩ := absorb_checkpoint_eq_ok.mp ok
      obtain ⟨coherent, pointer⟩ := h.restoreAll restored
      exact ⟨⟨coherent.sorted, coherent.regained, coherent.persisted⟩, pointer⟩
  | header _ | pageInsert _ _ _ | pageUpdate _ | pageRemove _ _ _ =>
      cases ok
      exact ⟨h, rfl⟩

section
variable {σ : Type} {receive : σ → Pointer × Record → σ} {s s' : σ}
  {read : Pointer → Except Error Record} {items : List (Pointer × Record)}

theorem Coherent.step {item : Pointer × Record} (h : st.Coherent config)
    (ok : Recovery.step read config (.accepting receive) st item s = .ok st' s') :
    st'.Coherent config ∧ st'.lastPointer = some item.1 := by
  obtain ⟨record, st₁, toStore, -, absorbed, rfl, -⟩ := step_eq_ok.mp ok
  have pointed : Coherent config { st with lastPointer := some item.1 } :=
    ⟨h.sorted, h.regained, h.persisted⟩
  obtain ⟨coherent, pointer⟩ := pointed.absorb absorbed
  cases toStore with
  | false => exact ⟨coherent, pointer⟩
  | true => exact ⟨⟨coherent.sorted, coherent.regained, coherent.persisted⟩, pointer⟩

theorem Coherent.steps (h : st.Coherent config)
    (ok : items.foldlM (Recovery.step read config (.accepting receive)) st s = .ok st' s') :
    st'.Coherent config ∧
      st'.lastPointer = (items.getLast?.map (·.1)).or st.lastPointer := by
  induction items generalizing st s with
  | nil =>
      cases ok
      exact ⟨h, rfl⟩
  | cons item items ih =>
      rw [List.foldlM_cons] at ok
      obtain ⟨st₁, s₁, stepped, rest⟩ := run_bind_eq_ok.mp ok
      obtain ⟨coherent₁, pointer₁⟩ := h.step stepped
      obtain ⟨coherent, pointer⟩ := ih coherent₁ rest
      refine ⟨coherent, ?_⟩
      rw [pointer, pointer₁, List.getLast?_cons]
      cases items.getLast? <;> rfl

end

end State
end Recovery
end SegmentLog
