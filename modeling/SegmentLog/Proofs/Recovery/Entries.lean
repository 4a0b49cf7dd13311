import SegmentLog.Proofs.Counter.Snapshot
import SegmentLog.Proofs.Recovery.Run

/-!
# What a log of updates and checkpoints is recovered as

A partition whose updates are logged once each, and whose checkpoints carry what had been reported
complete when their states were taken, is recovered without surprises (`Orderly.recovers`): a
checkpoint replaces what was known before it, so updates that stand before the last one and had not
been reported by then are `Forgotten`, and no others. Only a counter that may hold too few gaps
stands in the way.
-/
namespace SegmentLog.Recovery

/-- An entry of a log about one partition. -/
inductive LogEntry
  | update (number : ℕ) (payload : Bytes)
  /-- The state `s` was taken when the numbers `reported` had been reported complete. -/
  | checkpoint (id : UInt64) (s : Snapshot) (reported : List ℕ)
deriving DecidableEq, Repr

namespace LogEntry

def record (key : PartitionKey) : LogEntry → Record
  | update number payload => .data key (.ofNat number) payload
  | checkpoint id s _ => .checkpoint id [⟨key, s⟩]

def number? : LogEntry → Option ℕ
  | update number _ => some number
  | checkpoint .. => none

end LogEntry

/-- The numbers of the updates. -/
def numbers (entries : List LogEntry) : List ℕ := entries.filterMap LogEntry.number?

/-- The update stands before the last checkpoint, and had not been reported complete when the state
in that was taken. -/
def Forgotten (entries : List LogEntry) (n : ℕ) : Prop :=
  ∃ before id s reported after, entries = before ++ .checkpoint id s reported :: after ∧
    (∀ e ∈ after, e.number?.isSome) ∧ n ∈ numbers before ∧ n ∉ reported

/-- Updates are logged once each, and what a checkpoint has complete was logged before it. -/
inductive Orderly : List LogEntry → Prop
  | nil : Orderly []
  | update {entries : List LogEntry} {n : ℕ} (before : Orderly entries) (fresh : n ∉ numbers entries)
      (positive : n ≠ 0) (small : n + 1 < Counter.limit) (payload : Bytes) :
      Orderly (entries ++ [.update n payload])
  | checkpoint {entries : List LogEntry} {s : Snapshot} {reported : List ℕ} (before : Orderly entries)
      (valid : s.validate = .ok ()) (covered : s.covered = {n | n ∈ reported})
      (logged : ∀ n ∈ reported, n ∈ numbers entries) (id : UInt64) :
      Orderly (entries ++ [.checkpoint id s reported])

/-- What an entry does to the numbers that are known complete. -/
def LogEntry.effect (C : Set ℕ) : LogEntry → Set ℕ
  | update n _ => C ∪ {n}
  | checkpoint _ _ reported => {n | n ∈ reported}

/-- The numbers that are known complete after some entries. -/
def retained (entries : List LogEntry) : Set ℕ := entries.foldl LogEntry.effect ∅

section
variable {entries : List LogEntry} {n m : ℕ} {payload : Bytes} {id : UInt64} {s : Snapshot}
  {reported : List ℕ}

@[simp] theorem numbers_update :
    numbers (entries ++ [.update m payload]) = numbers entries ++ [m] := by
  simp [numbers, LogEntry.number?]

@[simp] theorem numbers_checkpoint :
    numbers (entries ++ [.checkpoint id s reported]) = numbers entries := by
  simp [numbers, LogEntry.number?]

@[simp] theorem retained_concat (e : LogEntry) :
    retained (entries ++ [e]) = e.effect (retained entries) := by
  simp [retained]

theorem forgotten_update :
    Forgotten (entries ++ [.update m payload]) n ↔ Forgotten entries n := by
  constructor
  · rintro ⟨before, id, s, reported, after, split, updates, logged, missed⟩
    rcases List.eq_nil_or_concat' after with rfl | ⟨after, last, rfl⟩
    · cases (List.append_inj' split rfl).2
    · rw [← List.cons_append, ← List.append_assoc] at split
      obtain ⟨rfl, -⟩ := List.append_inj' split rfl
      exact ⟨before, id, s, reported, after, rfl,
        fun e he => updates e (List.mem_append_left _ he), logged, missed⟩
  · rintro ⟨before, id, s, reported, after, rfl, updates, logged, missed⟩
    refine ⟨before, id, s, reported, after ++ [.update m payload], by simp, ?_, logged, missed⟩
    intro e he
    rcases List.mem_append.mp he with he | he
    · exact updates e he
    · rw [List.mem_singleton.mp he]
      rfl

theorem forgotten_checkpoint :
    Forgotten (entries ++ [.checkpoint id s reported]) n ↔ n ∈ numbers entries ∧ n ∉ reported := by
  constructor
  · rintro ⟨before, id', s', reported', after, split, updates, logged, missed⟩
    rcases List.eq_nil_or_concat' after with rfl | ⟨after, last, rfl⟩
    · obtain ⟨rfl, same⟩ := List.append_inj' split rfl
      cases same
      exact ⟨logged, missed⟩
    · -- the entry after the last checkpoint would be this checkpoint
      rw [← List.cons_append, ← List.append_assoc] at split
      obtain ⟨-, same⟩ := List.append_inj' split rfl
      cases same
      cases updates _ (List.mem_append_right _ List.mem_cons_self)
  · rintro ⟨logged, missed⟩
    exact ⟨entries, id, s, reported, [], rfl, by simp, logged, missed⟩

/-- What is known complete after all was logged, and everything that was logged and not forgotten
is. -/
theorem Orderly.mem_retained (h : Orderly entries) :
    n ∈ retained entries ↔ n ∈ numbers entries ∧ ¬Forgotten entries n := by
  induction h with
  | nil => simp [retained, numbers]
  | @update entries m before fresh positive small payload ih =>
      rw [retained_concat, LogEntry.effect, Set.mem_union, ih, numbers_update, forgotten_update,
        List.mem_append, List.mem_singleton, Set.mem_singleton_iff]
      have never : ¬Forgotten entries m := by
        rintro ⟨_, _, _, _, _, rfl, -, logged, -⟩
        apply fresh
        rw [numbers, List.filterMap_append]
        exact List.mem_append_left _ logged
      constructor
      · rintro (⟨logged, known⟩ | rfl)
        · exact ⟨.inl logged, known⟩
        · exact ⟨.inr rfl, never⟩
      · rintro ⟨logged | rfl, known⟩
        · exact .inl ⟨logged, known⟩
        · exact .inr rfl
  | checkpoint before valid covered logged id ih =>
      rw [retained_concat, LogEntry.effect, Set.mem_ofPred_eq, numbers_checkpoint,
        forgotten_checkpoint, not_and, not_not]
      exact ⟨fun mem => ⟨logged n mem, fun _ => mem⟩, fun ⟨mem, known⟩ => known mem⟩

end

/-! ## Recovering entries -/

/-- The counter of the partition has what is known complete after the entries. -/
structure Rebuilt (config : Counter.Config) (key : PartitionKey) (entries : List LogEntry)
    (st : State) : Prop where
  sound : (st.counter config key).Sound
  completed : (st.counter config key).completed = retained entries
  config : (st.counter config key).config = config

section
variable {σ : Type} {receive : σ → Pointer × Record → σ} {read : Pointer → Except Error Record}
  {config : Counter.Config} {key : PartitionKey} {entries : List LogEntry} {st : State}

theorem rebuilt_nil (config : Counter.Config) (key : PartitionKey) :
    Rebuilt config key [] {} := by
  refine ⟨Counter.sound_empty config, ?_, rfl⟩
  ext n
  simp [State.counter, Counter.mem_completed, retained]

theorem counter_insert (st : State) (c : Counter) :
    ({ st with counters := st.counters.insert key c } : State).counter config key = c := by
  rw [State.counter, Table.get?_insert, if_pos rfl, Option.getD_some]

/-- An update that is not known complete yet is completed, if there may be another gap. -/
theorem Rebuilt.update {n : ℕ} (h : Rebuilt config key entries st) (orderly : Orderly entries)
    (fresh : n ∉ numbers entries) (positive : n ≠ 0) (small : n + 1 < Counter.limit)
    (payload : Bytes) :
    (∃ st', st.absorb config (.data key (.ofNat n) payload) = .ok (st', true) ∧
        Rebuilt config key (entries ++ [.update n payload]) st') ∨
      st.absorb config (.data key (.ofNat n) payload) =
          .error (.counter (.tooManyGaps config.maxGaps n)) ∧
        config.maxGaps < (numbers (entries ++ [.update n payload])).length := by
  have word : (UInt64.ofNat n).toNat = n := Counter.toNat_ofNat (by omega)
  have unknown : n ∉ (st.counter config key).completed := by
    rw [h.completed, orderly.mem_retained]
    exact fun known => fresh known.1
  have confirms : st.confirmsGap config key (.ofNat n) = false := by
    rw [State.confirmsGap, word, Bool.and_eq_false_iff]
    exact .inr (Bool.eq_false_iff.mpr unknown)
  simp only [State.absorb, State.complete, confirms, word, Bool.false_eq_true, if_false]
  rcases h.sound.complete_of_fresh positive small unknown with ⟨c, event, ok⟩ | ⟨error, full⟩
  · rw [ok]
    obtain ⟨sound, completed, -⟩ := Counter.complete_spec h.sound ok
    refine .inl ⟨_, rfl, ?_⟩
    constructor
    · rw [counter_insert]
      exact sound
    · rw [counter_insert, completed, h.completed, retained_concat]
      ext m
      simp only [LogEntry.effect, Set.mem_union, Set.mem_Ico, Set.mem_singleton_iff]
      have : n ≤ m ∧ m < n + 1 ↔ m = n := by omega
      rw [this]
    · rw [counter_insert]
      exact (Counter.config_of_complete ok).trans h.config
  · rw [error, h.config]
    refine .inr ⟨rfl, ?_⟩
    rw [h.config] at full
    have logged : ∀ m ∈ (st.counter config key).completed, m ∈ numbers entries := by
      intro m hm
      rw [h.completed, orderly.mem_retained] at hm
      exact hm.1
    have := h.sound.gapCount_le logged
    rw [numbers_update, List.length_append, List.length_singleton]
    omega

/-- A checkpoint replaces what was known. -/
theorem Rebuilt.checkpoint {s : Snapshot} {reported : List ℕ} (h : Rebuilt config key entries st)
    (valid : s.validate = .ok ()) (covered : s.covered = {n | n ∈ reported}) (id : UInt64) :
    ∃ st', st.absorb config (.checkpoint id [⟨key, s⟩]) = .ok (st', false) ∧
      Rebuilt config key (entries ++ [.checkpoint id s reported]) st' := by
  obtain ⟨c, restored⟩ := Counter.restore_of_valid (st.counter config key) valid
  obtain ⟨sound, completed, -⟩ := Counter.restore_spec restored
  obtain ⟨-, level, gaps, -, same⟩ := Counter.restore_cases restored
  simp only [State.absorb, State.restore, restored, List.foldlM_cons, List.foldlM_nil]
  refine ⟨_, rfl, ?_⟩
  constructor
  · rw [State.counter, Table.get?_insert, if_pos rfl]
    exact sound
  · rw [State.counter, Table.get?_insert, if_pos rfl, retained_concat]
    exact completed.trans covered
  · rw [State.counter, Table.get?_insert, if_pos rfl, same]
    exact h.config

/-- A page store that takes everything does not stand in the way of a record without references. -/
theorem step_accepting {st' : State} {toStore : Bool} {p : Pointer} {record : Record}
    (receive : σ → Pointer × Record → σ) (plain : record.resolve read = .ok record)
    (absorbed : { st with lastPointer := some p }.absorb config record = .ok (st', toStore))
    (s : σ) :
    ∃ st'' s', step read config (.accepting receive) st (p, record) s = .ok st'' s' ∧
      st''.counters = st'.counters := by
  refine ⟨_, _, step_eq_ok.mpr ⟨record, st', toStore, plain, absorbed, rfl, rfl⟩, ?_⟩
  cases toStore with
  | false => rfl
  | true => rfl

/-- What becomes of recovering entries. -/
def Recovers (config : Counter.Config) (key : PartitionKey) (entries : List LogEntry)
    (result : EStateM.Result Error σ State) : Prop :=
  match result with
  | .ok st _ => Rebuilt config key entries st
  | .error e _ => config.maxGaps < (numbers entries).length ∧
    ∃ n, e = .counter (.tooManyGaps config.maxGaps n)

theorem Rebuilt.congr {st' : State} (h : Rebuilt config key entries st)
    (same : st'.counters = st.counters) : Rebuilt config key entries st' := by
  have counter : st'.counter config key = st.counter config key := by
    rw [State.counter, State.counter, same]
  exact ⟨counter ▸ h.sound, counter ▸ h.completed, counter ▸ h.config⟩

/-- One more record, after others that are recovered. -/
theorem recovers_concat {items : List (Pointer × Record)} {item : Pointer × Record} {e : LogEntry}
    {s : σ} (before : Recovers config key entries
      (items.foldlM (step read config (.accepting receive)) {} s))
    (last : ∀ st, Rebuilt config key entries st → ∀ s, Recovers config key (entries ++ [e])
      (step read config (.accepting receive) st item s)) :
    Recovers config key (entries ++ [e])
      ((items ++ [item]).foldlM (step read config (.accepting receive)) {} s) := by
  rw [List.foldlM_append]
  cases prior : items.foldlM (step read config (.accepting receive)) {} s with
  | error fault s₁ =>
      rw [prior] at before
      rw [run_bind_of_error prior]
      obtain ⟨few, which⟩ := before
      refine ⟨Nat.lt_of_lt_of_le few ?_, which⟩
      rw [numbers, numbers, List.filterMap_append, List.length_append]
      exact Nat.le_add_right _ _
  | ok st s₁ =>
      rw [prior] at before
      have here := last st before s₁
      rw [run_bind_of_ok prior, List.foldlM_cons]
      cases stepped : step read config (.accepting receive) st item s₁ with
      | error fault s₂ =>
          rw [stepped] at here
          rwa [run_bind_of_error stepped]
      | ok st' s₂ =>
          rw [stepped] at here
          rwa [run_bind_of_ok stepped]

/-- Updates and checkpoints of a partition that were logged in order are recovered. -/
theorem Orderly.recovers (h : Orderly entries) {items : List (Pointer × Record)}
    (named : items.map (·.2) = entries.map (LogEntry.record key)) (s : σ) :
    Recovers config key entries (items.foldlM (step read config (.accepting receive)) {} s) := by
  induction h generalizing items with
  | nil =>
      cases List.map_eq_nil_iff.mp named
      exact rebuilt_nil config key
  | @update entries n before fresh positive small payload ih =>
      rw [List.map_append] at named
      obtain ⟨items, last, rfl, first, second⟩ := List.map_eq_append_iff.mp named
      obtain ⟨⟨p, _⟩, rfl, rfl⟩ := List.map_eq_singleton_iff.mp second
      refine recovers_concat (ih first) fun st rebuilt s => ?_
      have next : Rebuilt config key entries { st with lastPointer := some p } := rebuilt.congr rfl
      rcases next.update before fresh positive small payload with
        ⟨st', absorbed, after⟩ | ⟨refused, few⟩
      · obtain ⟨st'', s', stepped, same⟩ := step_accepting receive rfl absorbed s
        dsimp only [LogEntry.record]
        rw [stepped]
        exact after.congr same
      · dsimp only [LogEntry.record]
        rw [step_of_refused rfl refused s]
        exact ⟨few, n, rfl⟩
  | @checkpoint entries state reported before valid covered logged id ih =>
      rw [List.map_append] at named
      obtain ⟨items, last, rfl, first, second⟩ := List.map_eq_append_iff.mp named
      obtain ⟨⟨p, _⟩, rfl, rfl⟩ := List.map_eq_singleton_iff.mp second
      refine recovers_concat (ih first) fun st rebuilt s => ?_
      have next : Rebuilt config key entries { st with lastPointer := some p } := rebuilt.congr rfl
      obtain ⟨st', absorbed, after⟩ := next.checkpoint valid covered id
      obtain ⟨st'', s', stepped, same⟩ := step_accepting receive rfl absorbed s
      dsimp only [LogEntry.record]
      rw [stepped]
      exact after.congr same

end

end SegmentLog.Recovery
