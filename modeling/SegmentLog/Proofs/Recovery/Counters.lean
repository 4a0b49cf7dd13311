import SegmentLog.Proofs.Counter.Canonical
import SegmentLog.Proofs.Success
import SegmentLog.Recovery

/-!
# What recovered counters stand for

A recovery learns of a partition from its seed, from checkpoints and from updates, in that order or
mixed. Its counter stands for the last state that was mentioned and the updates mentioned since:
`Reflects`. Taking over a state and completing an update keep that, and so does an update that only
confirms a gap.
-/
namespace SegmentLog.Recovery

/-- What a recovery learns of a partition. -/
inductive Mention
  | state (s : Snapshot)
  | update (number : UInt64)
deriving DecidableEq, Repr

/-- The states of a partition in a list of states. -/
def states (key : PartitionKey) (es : List (PartitionKey × Snapshot)) : List Mention :=
  (es.filter (·.1 = key)).map (.state ·.2)

/-- What a record says of a partition. -/
def mentions (key : PartitionKey) : Record → List Mention
  | .data key' number _ => if key' = key then [.update number] else []
  | .checkpoint _ partitions => states key (partitions.map fun p => (p.key, p.counter))
  | .header _ | .pageInsert .. | .pageUpdate _ | .pageRemove .. => []

/-- `s` is the last state that is mentioned, or empty if there is none, and `numbers` are those of
the updates mentioned since. -/
def Since (ms : List Mention) (s : Snapshot) (numbers : List UInt64) : Prop :=
  (s = {} ∧ ms = numbers.map .update) ∨ ∃ before, ms = before ++ .state s :: numbers.map .update

/-- The numbers of a state and of updates. -/
def settled (s : Snapshot) (numbers : List UInt64) : Set ℕ :=
  s.covered ∪ {n | ∃ number ∈ numbers, n = number.toNat}

theorem Since.update {ms : List Mention} {s : Snapshot} {numbers : List UInt64}
    (h : Since ms s numbers) (number : UInt64) :
    Since (ms ++ [.update number]) s (numbers ++ [number]) := by
  rcases h with ⟨rfl, rfl⟩ | ⟨before, rfl⟩
  · exact Or.inl ⟨rfl, by simp⟩
  · exact Or.inr ⟨before, by simp⟩

theorem since_state (ms : List Mention) (s : Snapshot) : Since (ms ++ [.state s]) s [] :=
  Or.inr ⟨ms, rfl⟩

theorem settled_nil (s : Snapshot) : settled s [] = s.covered := by
  simp [settled]

theorem settled_concat (s : Snapshot) (numbers : List UInt64) (number : UInt64) :
    settled s (numbers ++ [number]) = settled s numbers ∪ {number.toNat} := by
  ext n
  simp only [settled, Set.mem_union, Set.mem_ofPred_eq, List.mem_append, List.mem_singleton,
    Set.mem_singleton_iff]
  grind

/-- The counter stands for the last state that is mentioned and the updates since. -/
structure Reflects (ms : List Mention) (c : Counter) : Prop where
  sound : c.Sound
  stands : ∃ s numbers, Since ms s numbers ∧ c.completed = settled s numbers
  reserved : c.reserved = 0 ∨ c.reserved ∈ c.completed

theorem reflects_empty (config : Counter.Config) : Reflects [] { config } := by
  refine ⟨Counter.sound_empty config, ⟨{}, [], Or.inl ⟨rfl, rfl⟩, ?_⟩, Or.inl rfl⟩
  ext n
  simp [settled_nil, Counter.mem_completed, Snapshot.covered]

theorem reflects_restore {ms : List Mention} {c c' : Counter} {s : Snapshot}
    (ok : c.restore s = .ok c') : Reflects (ms ++ [.state s]) c' := by
  obtain ⟨sound, completed, reserved⟩ := Counter.restore_spec ok
  exact ⟨sound, ⟨s, [], since_state ms s, by rw [completed, settled_nil]⟩, reserved⟩

variable {ms : List Mention} {c c' : Counter} {number : UInt64}

theorem Reflects.update (h : Reflects ms c) (sound : c'.Sound)
    (completed : c'.completed = c.completed ∪ {number.toNat})
    (reserved : c'.reserved = c.reserved ∨ c'.reserved = number.toNat) :
    Reflects (ms ++ [.update number]) c' := by
  obtain ⟨s, numbers, since, same⟩ := h.stands
  refine ⟨sound, ⟨s, _, since.update number, ?_⟩, ?_⟩
  · rw [completed, same, settled_concat]
  · rw [completed]
    rcases reserved with e | e
    · rw [e]
      exact h.reserved.imp_right Or.inl
    · rw [e]
      exact Or.inr (Or.inr rfl)

/-- An update that the counter knows already changes nothing. -/
theorem Reflects.confirm (h : Reflects ms c) (known : c.isCompleted number.toNat = true) :
    Reflects (ms ++ [.update number]) c := by
  have mem : number.toNat ∈ c.completed := known
  refine h.update h.sound ?_ (Or.inl rfl)
  exact (Set.union_eq_self_of_subset_right (Set.singleton_subset_iff.mpr mem)).symm

theorem Reflects.complete (h : Reflects ms c) {event : Option Counter.Event}
    (ok : c.complete number.toNat 1 = .ok (c', event)) :
    Reflects (ms ++ [.update number]) c' := by
  obtain ⟨sound, completed, reserved⟩ := Counter.complete_spec h.sound ok
  refine h.update sound ?_ ?_
  · rw [completed]
    congr 1
    ext n
    simp only [Set.mem_Ico, Set.mem_singleton_iff]
    omega
  · omega

/-- The counter is the canonical form of what it stands for. -/
theorem Reflects.canonical (h : Reflects ms c) : ∃ s numbers, Since ms s numbers ∧
    c.Canonical (settled s numbers) ∧
    (IsGreatest (settled s numbers) c.reserved ∨ settled s numbers = ∅ ∧ c.reserved = 0) := by
  obtain ⟨s, numbers, since, same⟩ := h.stands
  have canonical := h.sound.canonical
  rw [same] at canonical
  refine ⟨s, numbers, since, canonical, ?_⟩
  by_cases mem : c.reserved ∈ c.completed
  · exact Or.inl ⟨same ▸ mem, canonical.reserved⟩
  · have zero := h.reserved.resolve_right mem
    refine Or.inr ⟨Set.eq_empty_of_forall_notMem fun n hn => ?_, zero⟩
    have := canonical.positive n hn
    have := canonical.reserved n hn
    omega

/-! ## All partitions -/

/-- There is a counter for every partition that is mentioned, and for no other. -/
structure Tracks (ms : PartitionKey → List Mention) (counters : Table PartitionKey Counter) :
    Prop where
  known : ∀ key, (counters.get? key).isSome ↔ ms key ≠ []
  reflects : ∀ key c, counters.get? key = some c → Reflects (ms key) c

theorem tracks_empty : Tracks (fun _ => []) [] :=
  ⟨fun _ => by simp, fun _ _ h => by cases h⟩

variable {ms : PartitionKey → List Mention} {st st' : State} {config : Counter.Config}
  {key : PartitionKey}

theorem Tracks.counter (h : Tracks ms st.counters) (config : Counter.Config)
    (key : PartitionKey) : Reflects (ms key) (st.counter config key) := by
  unfold State.counter
  cases found : st.counters.get? key with
  | none =>
      have unknown : ms key = [] := by
        by_contra mentioned
        have := (h.known key).mpr mentioned
        rw [found] at this
        cases this
      rw [unknown]
      exact reflects_empty config
  | some c => exact h.reflects key c found

/-- One counter is replaced because its partition is mentioned again. -/
theorem Tracks.insert {counters : Table PartitionKey Counter} (h : Tracks ms counters)
    {m : Mention} {c : Counter} (hc : Reflects (ms key ++ [m]) c) :
    Tracks (fun k => ms k ++ if key = k then [m] else []) (counters.insert key c) := by
  constructor
  · intro k
    rw [Table.get?_insert]
    by_cases e : key = k
    · simp [e]
    · simp [e, h.known k]
  · intro k c' hc'
    rw [Table.get?_insert] at hc'
    by_cases e : key = k
    · subst e
      rw [if_pos rfl] at hc' ⊢
      cases hc'
      exact hc
    · rw [if_neg e] at hc' ⊢
      rw [List.append_nil]
      exact h.reflects k c' hc'

theorem Tracks.restore (h : Tracks ms st.counters) {s : Snapshot}
    (ok : st.restore config key s = .ok st') :
    Tracks (fun k => ms k ++ if key = k then [.state s] else []) st'.counters := by
  obtain ⟨c, hc, ⟨⟩⟩ := bind_eq_ok.mp ok
  exact h.insert (reflects_restore (mapError_eq_ok.mp hc))

theorem Tracks.complete (h : Tracks ms st.counters) {number : UInt64}
    (ok : st.complete config key number = .ok st') :
    Tracks (fun k => ms k ++ if key = k then [.update number] else []) st'.counters := by
  have before := h.counter config key
  unfold State.complete at ok
  dsimp only at ok
  split at ok
  · rename_i confirms
    -- the counter has the number, whatever the persisted state says of it
    cases ok
    exact h.insert (before.confirm (Bool.and_eq_true_iff.mp confirms).2)
  · obtain ⟨⟨c, event⟩, hc, ⟨⟩⟩ := bind_eq_ok.mp ok
    exact h.insert (before.complete (mapError_eq_ok.mp hc))

theorem states_cons (k : PartitionKey) (e : PartitionKey × Snapshot)
    (es : List (PartitionKey × Snapshot)) :
    states k (e :: es) = (if e.1 = k then [.state e.2] else []) ++ states k es := by
  unfold states
  by_cases h : e.1 = k
  · simp [h]
  · simp [h]

theorem Tracks.restoreAll {es : List (PartitionKey × Snapshot)} (h : Tracks ms st.counters)
    (ok : es.foldlM (fun st e => State.restore config st e.1 e.2) st = .ok st') :
    Tracks (fun k => ms k ++ states k es) st'.counters := by
  induction es generalizing ms st with
  | nil =>
      cases ok
      simpa [states] using h
  | cons e es ih =>
      rw [List.foldlM_cons] at ok
      obtain ⟨st₁, restored, rest⟩ := bind_eq_ok.mp ok
      have := ih (h.restore restored) rest
      simpa only [states_cons, List.append_assoc] using this

/-- All records but checkpoints and headers go to the page store. -/
theorem State.toStore_of_absorb {record : Record} {toStore : Bool} (body : record.kind ≠ .header)
    (ok : st.absorb config record = .ok (st', toStore)) :
    toStore = true ↔ record.kind ≠ .checkpoint := by
  cases record with
  | header version => exact absurd rfl body
  | data _ _ _ | checkpoint _ _ =>
      obtain ⟨st₁, -, ⟨⟩⟩ := bind_eq_ok.mp ok
      simp [Record.kind]
  | pageInsert _ _ _ | pageUpdate _ | pageRemove _ _ _ =>
      cases ok
      simp [Record.kind]

/-- A record that is accounted for is mentioned. -/
theorem Tracks.absorb (h : Tracks ms st.counters) {record : Record} {toStore : Bool}
    (ok : st.absorb config record = .ok (st', toStore)) :
    Tracks (fun k => ms k ++ mentions k record) st'.counters := by
  cases record with
  | data key number payload =>
      obtain ⟨st₁, completed, ⟨⟩⟩ := bind_eq_ok.mp ok
      exact h.complete completed
  | checkpoint id partitions =>
      obtain ⟨st₁, restored, ⟨⟩⟩ := bind_eq_ok.mp ok
      have all : (partitions.map fun p => (p.key, p.counter)).foldlM
          (fun st e => State.restore config st e.1 e.2) st = .ok st₁ := by
        rw [List.foldlM_map]
        exact restored
      have tracks := h.restoreAll all
      exact tracks
  | header _ | pageInsert _ _ _ | pageUpdate _ | pageRemove _ _ _ =>
      cases ok
      simpa [mentions] using h

end SegmentLog.Recovery
