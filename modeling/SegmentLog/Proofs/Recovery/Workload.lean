import Mathlib.Logic.Function.Basic
import SegmentLog.Proofs.Client.Survive
import SegmentLog.Proofs.Recovery.Entries

/-!
# Checkpoints that are taken while updates are logged

Writers of one partition each reserve a number, log their update under it and report it complete.
Checkpointers take the state of the counter and log it later. The parties act in any order, one call
at a time. Whenever the log is recovered, every update in it is complete again, but for those that
the last checkpoint in the log stands behind and that had not been reported when its state was
taken: `run_recovers`.
-/
namespace SegmentLog.Workload
open Recovery (LogEntry numbers Orderly)

/-- How far a writer is with its update. -/
inductive Stage
  | idle
  /-- It has reserved a number. -/
  | holds (n : ℕ)
  /-- Its update is in the log. -/
  | logged (n : ℕ)
deriving DecidableEq, Repr

structure State where
  client : Client
  counter : Counter
  writers : ℕ → Stage := fun _ => .idle
  /-- The state that a checkpointer has taken and not yet logged, with the numbers that had been
  reported complete then. -/
  taken : ℕ → Option (Snapshot × List ℕ) := fun _ => none
  /-- The numbers that have been reported complete. -/
  reported : List ℕ := []
  /-- What is in the log. -/
  entries : List LogEntry := []

/-- One call of one party. -/
inductive Turn
  /-- The next call of a writer, which logs its update with this payload when it comes to that. -/
  | writer (i : ℕ) (payload : Bytes)
  /-- The next call of a checkpointer, which logs its state under this name. -/
  | checkpointer (j : ℕ) (id : UInt64)
deriving DecidableEq, Repr

/-- A party that is refused gives up what it was at. -/
def Turn.step (key : PartitionKey) (s : State) : Turn → State
  | writer i payload =>
    match s.writers i with
    | .idle =>
      let (n, counter) := s.counter.reserve 1
      { s with counter, writers := Function.update s.writers i (.holds n) }
    | .holds n =>
      match Client.onLog (Log.append (.data key (.ofNat n) payload)) s.client with
      | .ok _ client =>
        { s with
          client
          writers := Function.update s.writers i (.logged n)
          entries := s.entries ++ [.update n payload] }
      | .error _ client => { s with client, writers := Function.update s.writers i .idle }
    | .logged n =>
      match s.counter.complete n 1 with
      | .ok (counter, _) =>
        { s with
          counter
          writers := Function.update s.writers i .idle
          reported := n :: s.reported }
      | .error _ => { s with writers := Function.update s.writers i .idle }
  | checkpointer j id =>
    match s.taken j with
    | none => { s with taken := Function.update s.taken j (some (s.counter.snapshot, s.reported)) }
    | some (snapshot, reported) =>
      match Client.onLog (Log.append (.checkpoint id [⟨key, snapshot⟩])) s.client with
      | .ok _ client =>
        { s with
          client
          taken := Function.update s.taken j none
          entries := s.entries ++ [.checkpoint id snapshot reported] }
      | .error _ client => { s with client, taken := Function.update s.taken j none }

def run (key : PartitionKey) (turns : List Turn) (s : State) : State :=
  turns.foldl (Turn.step key) s

/-- A log that has been opened at a place, and a counter that has handed out nothing. -/
def start (place : Place) (v : Volume) (log : Log.Config) (counter : Counter.Config) : State where
  client := final (Client.openLog log) { volume := v, place := some place }
  counter := { config := counter }

/-! ## The log -/

/-- The client keeps a log of these records at the place, in so many segments at most. -/
def Logs (place : Place) (segments : ℕ) (c : Client) (items : List (Pointer × Record)) : Prop :=
  ∃ shelf, shelf.length ≤ segments ∧ Scene.Inv place ⟨c, items, fun _ => none⟩ 0 shelf

theorem logs_start {place : Place} {v : Volume} (empty : place.Stocks v 0 []) (log : Log.Config)
    (counter : Counter.Config) : Logs place 1 (start place v log counter).client [] := by
  obtain ⟨shelf, inv, few⟩ := (Scene.inv_start empty).openLog (by decide) log
  exact ⟨shelf, few, inv⟩

section
variable {place : Place} {segments : ℕ} {c c' : Client} {items : List (Pointer × Record)}
  {record : Record}

theorem Logs.append_ok {p : Pointer} (h : Logs place segments c items)
    (room : Place.Room (segments + 1)) (wf : record.WellFormed)
    (ok : Client.onLog (Log.append record) c = .ok p c') :
    Logs place (segments + 1) c' (items ++ [(p, record)]) := by
  obtain ⟨shelf, few, inv⟩ := h
  obtain ⟨shelf', next, few'⟩ := inv.append (room.mono (by omega)) wf
  simp only [Scene.append, ok] at next
  exact ⟨shelf', by omega, next⟩

/-- An append that fails may have started a segment, but it has written no record. -/
theorem Logs.append_error {refusal : Refusal} (h : Logs place segments c items)
    (room : Place.Room (segments + 1)) (wf : record.WellFormed)
    (failed : Client.onLog (Log.append record) c = .error refusal c') :
    Logs place (segments + 1) c' items := by
  obtain ⟨shelf, few, inv⟩ := h
  obtain ⟨shelf', next, few'⟩ := inv.append (room.mono (by omega)) wf
  simp only [Scene.append, failed] at next
  exact ⟨shelf', by omega, next⟩

theorem Logs.mono {segments' : ℕ} (h : Logs place segments c items) (le : segments ≤ segments') :
    Logs place segments' c items := by
  obtain ⟨shelf, few, inv⟩ := h
  exact ⟨shelf, few.trans le, inv⟩

end

/-! ## What every call keeps -/

/-- No two writers hold one number, and each has logged its update before it reports it. -/
structure Apart (writers : ℕ → Stage) (reserved : ℕ) (logged : List ℕ) : Prop where
  holds : ∀ i n, writers i = .holds n → n ≠ 0 ∧ n ≤ reserved ∧ n ∉ logged
  distinct : ∀ i j n, writers i = .holds n → writers j = .holds n → i = j
  done : ∀ i n, writers i = .logged n → n ∈ logged

section
variable {writers : ℕ → Stage} {reserved : ℕ} {logged : List ℕ}

theorem update_eq {i j : ℕ} {stage stage' : Stage}
    (h : Function.update writers i stage j = stage') :
    (j = i ∧ stage = stage') ∨ (j ≠ i ∧ writers j = stage') := by
  by_cases e : j = i
  · rw [e, Function.update_self] at h
    exact .inl ⟨e, h⟩
  · rw [Function.update_of_ne e] at h
    exact .inr ⟨e, h⟩

theorem Apart.idle (h : Apart writers reserved logged) (i : ℕ) :
    Apart (Function.update writers i .idle) reserved logged := by
  have before {j : ℕ} {stage : Stage} (hs : .idle ≠ stage)
      (hj : Function.update writers i .idle j = stage) : writers j = stage := by
    rcases update_eq hj with ⟨-, e⟩ | ⟨-, hj⟩
    · exact absurd e hs
    · exact hj
  constructor
  · exact fun j n hj => h.holds j n (before (by simp) hj)
  · exact fun j k n hj hk => h.distinct j k n (before (by simp) hj) (before (by simp) hk)
  · exact fun j n hj => h.done j n (before (by simp) hj)

theorem Apart.reserve (h : Apart writers reserved logged) (bounded : ∀ n ∈ logged, n ≤ reserved)
    (i : ℕ) : Apart (Function.update writers i (.holds (reserved + 1))) (reserved + 1) logged := by
  constructor
  · intro j n hj
    rcases update_eq hj with ⟨-, e⟩ | ⟨-, hj⟩
    · cases e
      refine ⟨Nat.succ_ne_zero _, Nat.le_refl _, fun mem => ?_⟩
      have := bounded _ mem
      omega
    · obtain ⟨positive, le, unlogged⟩ := h.holds j n hj
      exact ⟨positive, Nat.le_succ_of_le le, unlogged⟩
  · intro j k n hj hk
    rcases update_eq hj with ⟨first, e⟩ | ⟨-, held⟩
    · cases e
      rcases update_eq hk with ⟨second, -⟩ | ⟨-, held⟩
      · exact first.trans second.symm
      · have := (h.holds k _ held).2.1
        omega
    · rcases update_eq hk with ⟨-, e⟩ | ⟨-, held'⟩
      · cases e
        have := (h.holds j _ held).2.1
        omega
      · exact h.distinct j k n held held'
  · intro j n hj
    rcases update_eq hj with ⟨-, e⟩ | ⟨-, hj⟩
    · cases e
    · exact h.done j n hj

theorem Apart.log (h : Apart writers reserved logged) {i n : ℕ} (hi : writers i = .holds n) :
    Apart (Function.update writers i (.logged n)) reserved (logged ++ [n]) := by
  constructor
  · intro j m hj
    rcases update_eq hj with ⟨-, e⟩ | ⟨other, hj⟩
    · cases e
    · obtain ⟨positive, le, unlogged⟩ := h.holds j m hj
      refine ⟨positive, le, fun mem => ?_⟩
      rcases List.mem_append.mp mem with mem | mem
      · exact unlogged mem
      · cases List.mem_singleton.mp mem
        exact other (h.distinct j i _ hj hi)
  · intro j k m hj hk
    rcases update_eq hj with ⟨-, e⟩ | ⟨-, hj⟩
    · cases e
    · rcases update_eq hk with ⟨-, e⟩ | ⟨-, hk⟩
      · cases e
      · exact h.distinct j k m hj hk
  · intro j m hj
    rcases update_eq hj with ⟨-, e⟩ | ⟨-, hj⟩
    · cases e
      exact List.mem_append_right _ List.mem_cons_self
    · exact List.mem_append_left _ (h.done j m hj)

end

/-- A checkpointer has taken a state that has complete what had been reported and logged. -/
def Taken (logged : List ℕ) (t : Snapshot × List ℕ) : Prop :=
  t.1.validate = .ok () ∧ t.1.covered = {n | n ∈ t.2} ∧ ∀ n ∈ t.2, n ∈ logged

/-- What holds of a workload after so many calls. -/
structure Steady (place : Place) (key : PartitionKey) (calls : ℕ) (s : State) : Prop where
  logs : ∃ items, Logs place (calls + 1) s.client items ∧
    items.map (·.2) = s.entries.map (LogEntry.record key)
  orderly : Orderly s.entries
  sound : s.counter.Sound
  completed : s.counter.completed = {n | n ∈ s.reported}
  reserved_le : s.counter.reserved ≤ calls
  reported : ∀ n ∈ s.reported, n ∈ numbers s.entries
  bounded : ∀ n ∈ numbers s.entries, n ≤ s.counter.reserved
  writers : Apart s.writers s.counter.reserved (numbers s.entries)
  taken : ∀ j t, s.taken j = some t → Taken (numbers s.entries) t

theorem steady_start {place : Place} {v : Volume} (empty : place.Stocks v 0 [])
    (key : PartitionKey) (log : Log.Config) (counter : Counter.Config) :
    Steady place key 0 (start place v log counter) where
  logs := ⟨[], logs_start empty log counter, rfl⟩
  orderly := .nil
  sound := Counter.sound_empty counter
  completed := by
    ext n
    simp [start, Counter.mem_completed]
  reserved_le := Nat.le_refl _
  reported := by simp [start]
  bounded := by simp [start, numbers]
  writers := ⟨by simp [start], by simp [start], by simp [start]⟩
  taken := by simp [start]

section
variable {place : Place} {key : PartitionKey} {calls : ℕ} {s : State}

theorem Steady.later (h : Steady place key calls s) : Steady place key (calls + 1) s := by
  obtain ⟨items, logs, named⟩ := h.logs
  exact { h with
    logs := ⟨items, logs.mono (Nat.le_succ _), named⟩
    reserved_le := Nat.le_succ_of_le h.reserved_le }

/-- There is room for one more segment than there may be calls. -/
theorem room_of_short (short : calls + 1 < Counter.limit) : Place.Room (calls + 1 + 1) := short

/-- A writer reserves a number. -/
theorem Steady.reserve (h : Steady place key calls s) (short : calls + 1 < Counter.limit) (i : ℕ) :
    Steady place key (calls + 1) { s with
      counter := (s.counter.reserve 1).2
      writers := Function.update s.writers i (.holds (s.counter.reserve 1).1) } := by
  have reserved := h.reserved_le
  have fits : s.counter.reserved + 1 < Counter.limit := by omega
  obtain ⟨sound, same⟩ := Counter.reserve_spec h.sound fits
  have first : (s.counter.reserve 1).1 = s.counter.reserved + 1 := Nat.mod_eq_of_lt fits
  have last : (s.counter.reserve 1).2.reserved = s.counter.reserved + 1 := Nat.mod_eq_of_lt fits
  refine ⟨h.later.logs, h.orderly, sound, same.trans h.completed, ?_, h.reported, ?_, ?_, h.taken⟩
  · dsimp only
    omega
  · intro n logged
    have := h.bounded n logged
    dsimp only
    omega
  · dsimp only
    rw [first, last]
    exact h.writers.reserve h.bounded i

/-- A writer logs its update. -/
theorem Steady.log (h : Steady place key calls s) (short : calls + 1 < Counter.limit) {i n : ℕ}
    (holds : s.writers i = .holds n) {payload : Bytes} {p : Pointer} {client : Client}
    (ok : Client.onLog (Log.append (.data key (.ofNat n) payload)) s.client = .ok p client) :
    Steady place key (calls + 1) { s with
      client
      writers := Function.update s.writers i (.logged n)
      entries := s.entries ++ [.update n payload] } := by
  have reserved := h.reserved_le
  obtain ⟨positive, le, fresh⟩ := h.writers.holds i n holds
  obtain ⟨items, logs, named⟩ := h.logs
  have wf : (Record.data key (.ofNat n) payload).WellFormed := trivial
  constructor
  · refine ⟨_, logs.append_ok (room_of_short short) wf ok, ?_⟩
    rw [List.map_append, List.map_append, named]
    rfl
  · exact h.orderly.update fresh positive (by omega) payload
  · exact h.sound
  · exact h.completed
  · exact Nat.le_succ_of_le reserved
  · intro m hm
    rw [Recovery.numbers_update]
    exact List.mem_append_left _ (h.reported m hm)
  · intro m hm
    rw [Recovery.numbers_update] at hm
    rcases List.mem_append.mp hm with hm | hm
    · exact h.bounded m hm
    · cases List.mem_singleton.mp hm
      exact le
  · rw [Recovery.numbers_update]
    exact h.writers.log holds
  · intro j t ht
    obtain ⟨valid, covered, logged⟩ := h.taken j t ht
    refine ⟨valid, covered, fun m hm => ?_⟩
    rw [Recovery.numbers_update]
    exact List.mem_append_left _ (logged m hm)

/-- A writer reports its update complete. -/
theorem Steady.report (h : Steady place key calls s) {i n : ℕ} (logged : s.writers i = .logged n)
    {counter : Counter} {event : Option Counter.Event}
    (ok : s.counter.complete n 1 = .ok (counter, event)) :
    Steady place key (calls + 1) { s with
      counter
      writers := Function.update s.writers i .idle
      reported := n :: s.reported } := by
  have mem := h.writers.done i n logged
  have bounded := h.bounded n mem
  obtain ⟨sound, completed, reserved⟩ := Counter.complete_spec h.sound ok
  have same : counter.reserved = s.counter.reserved := by omega
  constructor
  · exact h.later.logs
  · exact h.orderly
  · exact sound
  · dsimp only
    rw [completed, h.completed]
    ext m
    simp only [Set.mem_union, Set.mem_ofPred_eq, Set.mem_Ico, List.mem_cons]
    have : n ≤ m ∧ m < n + 1 ↔ m = n := by omega
    rw [this, or_comm]
  · dsimp only
    rw [same]
    exact Nat.le_succ_of_le h.reserved_le
  · exact List.forall_mem_cons.mpr ⟨mem, h.reported⟩
  · dsimp only
    rw [same]
    exact h.bounded
  · dsimp only
    rw [same]
    exact h.writers.idle i
  · exact h.taken

/-- A writer gives up. -/
theorem Steady.idle (h : Steady place key calls s) (i : ℕ) :
    Steady place key calls { s with writers := Function.update s.writers i .idle } :=
  { h with writers := h.writers.idle i }

/-- An append failed. -/
theorem Steady.refused (h : Steady place key calls s) (short : calls + 1 < Counter.limit)
    {record : Record} (wf : record.WellFormed)
    {refusal : Refusal} {client : Client}
    (failed : Client.onLog (Log.append record) s.client = .error refusal client) :
    Steady place key (calls + 1) { s with client } := by
  obtain ⟨items, logs, named⟩ := h.logs
  exact { h.later with
    logs := ⟨items, logs.append_error (room_of_short short) wf failed, named⟩ }

theorem update_taken {taken : ℕ → Option (Snapshot × List ℕ)} {logged : List ℕ}
    (h : ∀ j t, taken j = some t → Taken logged t) {o : Option (Snapshot × List ℕ)}
    (ho : ∀ t ∈ o, Taken logged t) (j : ℕ) :
    ∀ k t, Function.update taken j o k = some t → Taken logged t := by
  intro k t ht
  by_cases e : k = j
  · rw [e, Function.update_self] at ht
    exact ho t ht
  · rw [Function.update_of_ne e] at ht
    exact h k t ht

/-- A checkpointer takes the state of the counter, or gives up one it has taken. -/
theorem Steady.take (h : Steady place key calls s) {o : Option (Snapshot × List ℕ)}
    (ho : ∀ t ∈ o, Taken (numbers s.entries) t) (j : ℕ) :
    Steady place key calls { s with taken := Function.update s.taken j o } :=
  { h with taken := update_taken h.taken ho j }

theorem Steady.snapshot (h : Steady place key calls s) (short : calls + 1 < Counter.limit) :
    Taken (numbers s.entries) (s.counter.snapshot, s.reported) := by
  have small : s.counter.reserved + 1 < Counter.limit := by
    have := h.reserved_le
    omega
  exact ⟨h.sound.snapshot_validate small, (h.sound.snapshot_covered small).trans h.completed,
    h.reported⟩

/-- A checkpointer logs the state it has taken. -/
theorem Steady.checkpoint (h : Steady place key calls s) (short : calls + 1 < Counter.limit) {j : ℕ}
    {snapshot : Snapshot} {reported : List ℕ} (taken : s.taken j = some (snapshot, reported))
    {id : UInt64} {p : Pointer} {client : Client}
    (ok : Client.onLog (Log.append (.checkpoint id [⟨key, snapshot⟩])) s.client = .ok p client) :
    Steady place key (calls + 1) { s with
      client, entries := s.entries ++ [.checkpoint id snapshot reported] } := by
  obtain ⟨valid, covered, logged⟩ := h.taken j _ taken
  obtain ⟨items, logs, named⟩ := h.logs
  have wf : (Record.checkpoint id [⟨key, snapshot⟩]).WellFormed :=
    List.forall_mem_singleton.mpr valid
  constructor
  · refine ⟨_, logs.append_ok (room_of_short short) wf ok, ?_⟩
    rw [List.map_append, List.map_append, named]
    rfl
  · exact h.orderly.checkpoint valid covered logged id
  · exact h.sound
  · exact h.completed
  · exact Nat.le_succ_of_le h.reserved_le
  · rw [Recovery.numbers_checkpoint]
    exact h.reported
  · rw [Recovery.numbers_checkpoint]
    exact h.bounded
  · rw [Recovery.numbers_checkpoint]
    exact h.writers
  · rw [Recovery.numbers_checkpoint]
    exact h.taken

/-- Every call of every party keeps what holds. -/
theorem Steady.step (h : Steady place key calls s) (short : calls + 1 < Counter.limit) (turn : Turn) :
    Steady place key (calls + 1) (turn.step key s) := by
  cases turn with
  | writer i payload =>
      cases stage : s.writers i with
      | idle =>
          simp only [Turn.step, stage]
          exact h.reserve short i
      | holds n =>
          simp only [Turn.step, stage]
          cases appended : Client.onLog (Log.append (.data key (.ofNat n) payload)) s.client with
          | ok p client => exact h.log short stage appended
          | error refusal client =>
              have wf : (Record.data key (.ofNat n) payload).WellFormed := trivial
              exact (h.refused short wf appended).idle i
      | logged n =>
          simp only [Turn.step, stage]
          cases reported : s.counter.complete n 1 with
          | ok result => exact h.report stage reported
          | error fault => exact h.later.idle i
  | checkpointer j id =>
      cases taken : s.taken j with
      | none =>
          simp only [Turn.step, taken]
          refine h.later.take ?_ j
          rintro _ ⟨⟩
          exact h.snapshot short
      | some t =>
          obtain ⟨snapshot, reported⟩ := t
          have wf : (Record.checkpoint id [⟨key, snapshot⟩]).WellFormed :=
            List.forall_mem_singleton.mpr (h.taken j _ taken).1
          simp only [Turn.step, taken]
          cases appended : Client.onLog (Log.append (.checkpoint id [⟨key, snapshot⟩])) s.client with
          | ok p client => exact (h.checkpoint short taken appended).take (by simp) j
          | error refusal client => exact (h.refused short wf appended).take (by simp) j

theorem Steady.run {turns : List Turn} (h : Steady place key calls s)
    (short : calls + turns.length < Counter.limit) :
    Steady place key (calls + turns.length) (run key turns s) := by
  induction turns generalizing calls s with
  | nil => exact h
  | cons turn turns ih =>
      rw [List.length_cons] at short ⊢
      have next := ih (h.step (by omega) turn) (by omega)
      rwa [Nat.add_assoc, Nat.add_comm 1] at next

end

/-! ## Recovering the log -/

section
variable {place : Place} {segments : ℕ} {c : Client} {items : List (Pointer × Record)}

theorem Logs.drain (h : Logs place segments c items) :
    Session.Delivers (Session.openRange { place } c.volume Session.defaultBufferSize none none)
      c.volume items .finish := by
  obtain ⟨shelf, -, inv⟩ := h
  have drained := inv.shelves.drain Session.defaultBufferSize
  have all : Image.itemsFrom 0 (Shelf.images (shelf.drop 0)) = items := inv.items
  rwa [all] at drained

theorem Logs.run {σ : Type} (h : Logs place segments c items) (config : Counter.Config)
    (receive : σ → Pointer × Record → σ) (store : σ) :
    Recovery.run { place } c.volume { config } (.accepting receive) store =
      items.foldlM (Recovery.step (Directory.readRecord { place } c.volume
        Session.defaultBufferSize) config (.accepting receive)) {} store := by
  obtain ⟨s, opened, found, ending⟩ := h.drain
  unfold Recovery.run
  rw [run_bind_of_ok (show Recovery.ofExcept (Recovery.State.ofSeeds { config }) store =
    .ok {} store from rfl), opened, run_bind_of_ok (show Recovery.ofExcept (.ok s) store =
    .ok s store from rfl)]
  simp only [found, ending]
  rw [bind_pure]

end

/-- At every moment the log of a workload, wherever it keeps its segments, is recovered as what was
logged, but for what the last checkpoint in it forgets, or by a counter that may hold fewer gaps
than there are updates. -/
theorem run_recovers {σ : Type} {place : Place} {v : Volume} (empty : place.Stocks v 0 [])
    (key : PartitionKey) (log : Log.Config) (counter config : Counter.Config) (turns : List Turn)
    (short : turns.length < Counter.limit) (receive : σ → Pointer × Record → σ) (store : σ) :
    let s := run key turns (start place v log counter)
    (∃ session, Session.openRange { place } s.client.volume Session.defaultBufferSize none none =
        .ok session ∧
      (session.drain s.client.volume).items.map (·.2) = s.entries.map (LogEntry.record key)) ∧
    ((∃ st store', Recovery.run { place } s.client.volume { config } (.accepting receive) store =
        .ok st store' ∧
      ∀ n, (st.counter config key).isCompleted n = true ↔
        n ∈ numbers s.entries ∧ ¬Recovery.Forgotten s.entries n) ∨
    ∃ n store', Recovery.run { place } s.client.volume { config } (.accepting receive) store =
        .error (.counter (.tooManyGaps config.maxGaps n)) store' ∧
      config.maxGaps < (numbers s.entries).length) := by
  intro s
  have steady : Steady place key (0 + turns.length) s :=
    (steady_start empty key log counter).run (by rwa [Nat.zero_add])
  obtain ⟨items, logs, named⟩ := steady.logs
  obtain ⟨session, opened, found, -⟩ := logs.drain
  refine ⟨⟨session, opened, by rw [found, named]⟩, ?_⟩
  rw [logs.run config receive store]
  have recovers : Recovery.Recovers config key s.entries (items.foldlM (Recovery.step
      (Directory.readRecord { place } s.client.volume Session.defaultBufferSize) config
      (.accepting receive)) {} store) := steady.orderly.recovers named store
  generalize items.foldlM (Recovery.step (Directory.readRecord { place } s.client.volume
    Session.defaultBufferSize) config (.accepting receive)) {} store = result at recovers ⊢
  cases result with
  | error e store' =>
      obtain ⟨few, n, rfl⟩ := recovers
      exact .inr ⟨n, store', rfl, few⟩
  | ok st store' =>
      refine .inl ⟨st, store', rfl, fun n => ?_⟩
      rw [← steady.orderly.mem_retained, ← recovers.completed]
      rfl

/-- One writer is between its second and its third call when the state is taken, so the checkpoint
forgets its update; of the others one has reported before and one logs after. -/
def overtaken : List Turn :=
  [.writer 0 [], .writer 1 [], .writer 1 [8], .writer 1 [], .writer 0 [7], .checkpointer 0 3,
    .writer 0 [], .checkpointer 0 3, .writer 2 [], .writer 2 [9]]

/-- The log is kept in memory, or in a folder. -/
theorem run_recovers_overtaken :
    let folder := Place.folder ⟨"/log", ["log"]⟩ 0
    let s := run ⟨⟨1⟩, ⟨0⟩⟩ overtaken (start .memory {} { segmentSize := 64 } {})
    let s' := run ⟨⟨1⟩, ⟨0⟩⟩ overtaken (start folder Scene.newFolder { segmentSize := 64 } {})
    let store := PageStore.accepting fun (held : List (Pointer × Record)) item => held ++ [item]
    (∃ st held, Recovery.run { place := .memory } s.client.volume {} store [] = .ok st held ∧
      ∀ n, (st.counter {} ⟨⟨1⟩, ⟨0⟩⟩).isCompleted n = true ↔
        n ∈ numbers s.entries ∧ ¬Recovery.Forgotten s.entries n) ∧
    ∃ st held, Recovery.run { place := folder } s'.client.volume {} store [] = .ok st held ∧
      ∀ n, (st.counter {} ⟨⟨1⟩, ⟨0⟩⟩).isCompleted n = true ↔
        n ∈ numbers s'.entries ∧ ¬Recovery.Forgotten s'.entries n := by
  intro folder s s' store
  have short : overtaken.length < Counter.limit := by decide +kernel
  have logged : numbers s.entries = [2, 1, 3] := by decide +kernel
  have logged' : numbers s'.entries = [2, 1, 3] := by decide +kernel
  constructor
  · refine (run_recovers (Place.stocks_memory rfl) ⟨⟨1⟩, ⟨0⟩⟩ { segmentSize := 64 } {} {} overtaken
      short _ []).2.resolve_right ?_
    rintro ⟨n, held, -, few⟩
    rw [logged] at few
    exact absurd few (by decide)
  · refine (run_recovers Scene.stocks_newFolder ⟨⟨1⟩, ⟨0⟩⟩ { segmentSize := 64 } {} {} overtaken
      short _ []).2.resolve_right ?_
    rintro ⟨n, held, -, few⟩
    rw [logged'] at few
    exact absurd few (by decide)

/-- A checkpoint that is logged after an update can forget it, even one that has been reported
complete by then, and a counter that may hold no gap cannot be recovered from a log with one. -/
theorem run_not_recovers :
    (let s := run ⟨⟨1⟩, ⟨0⟩⟩ [.writer 0 [], .writer 0 [7], .checkpointer 0 3, .writer 0 [],
      .checkpointer 0 3] (start .memory {} {} {})
    numbers s.entries = [1] ∧ s.counter.isCompleted 1 = true ∧
      ((Recovery.run { place := .memory } s.client.volume {} (.recording none)).run' []).map
        (fun st => (st.counter {} ⟨⟨1⟩, ⟨0⟩⟩).isCompleted 1) = some false) ∧
    let s := run ⟨⟨1⟩, ⟨0⟩⟩ [.writer 0 [], .writer 1 [], .writer 1 [8]] (start .memory {} {} {})
    numbers s.entries = [2] ∧
      ((Recovery.run { place := .memory } s.client.volume { config := { maxGaps := 0 } }
        (.recording none)).run' []).isNone = true := by
  decide +kernel

end SegmentLog.Workload
