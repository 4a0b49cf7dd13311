import Mathlib.Data.List.Forall2
import SegmentLog.Client.Log
import SegmentLog.Proofs.Client.Action
import SegmentLog.Proofs.Record.Reference
import SegmentLog.Proofs.Recovery.Counters
import SegmentLog.Proofs.Session.Drain

/-!
# What a recovery leaves

Main statement: `run_recovered`. A recovery that succeeds has a counter for exactly the partitions
it learned of. Each counter is the canonical form of the last state of its partition and the updates
logged since, and a page store that takes everything has received the records of the log in order,
all but checkpoints.
-/
namespace SegmentLog

/-- A page store that takes everything. -/
def PageStore.accepting {σ : Type} (receive : σ → Pointer × Record → σ) : PageStore σ :=
  fun p record => modify (receive · (p, record))

theorem PageStore.recording_none :
    PageStore.recording none = PageStore.accepting fun held item => held ++ [item] := rfl

namespace Recovery

/-- Filling in bytes changes neither the kind of a record nor what it says of a partition. -/
theorem resolve_mentions {read : Pointer → Except Error Record} {record found : Record}
    (h : record.resolve read = .ok found) :
    found.kind = record.kind ∧ ∀ key, mentions key found = mentions key record := by
  rcases Record.resolve_changes h with rfl | ⟨u, payload, rfl, rfl⟩
  · exact ⟨rfl, fun _ => rfl⟩
  · exact ⟨rfl, fun _ => rfl⟩

theorem ofExcept_eq_ok {σ α : Type} {x : Except Error α} {a : α} {s s' : σ} :
    ofExcept x s = .ok a s' ↔ x = .ok a ∧ s' = s := by
  cases x with
  | ok b =>
      change EStateM.Result.ok b s = .ok a s' ↔ _
      simp [eq_comm]
  | error e =>
      change EStateM.Result.error e s = .ok a s' ↔ _
      simp

/-- What a page store is to receive of some records: all but checkpoints, with their bytes. -/
def Received (read : Pointer → Except Error Record) (items received : List (Pointer × Record)) :
    Prop :=
  List.Forall₂ (fun item given => given.1 = item.1 ∧ item.2.resolve read = .ok given.2)
    (items.filter (·.2.kind ≠ .checkpoint)) received

section
variable {σ : Type} {receive : σ → Pointer × Record → σ} {s s' : σ}
  {read : Pointer → Except Error Record} {config : Counter.Config}
  {ms : PartitionKey → List Mention} {st st' : State}

section
variable {τ : Type} {store : PageStore τ} {item : Pointer × Record} {record : Record}
  {st₁ : State} {e : Error} {held held' : τ}

theorem step_of_unresolved (unresolved : item.2.resolve read = .error e) (held : τ) :
    Recovery.step read config store st item held = .error e held := by
  unfold Recovery.step
  rw [unresolved]
  rfl

theorem step_of_refused (resolved : item.2.resolve read = .ok record)
    (refused : State.absorb config { st with lastPointer := some item.1 } record = .error e)
    (held : τ) : Recovery.step read config store st item held = .error e held := by
  unfold Recovery.step
  rw [run_bind_of_ok (ofExcept_eq_ok.mpr ⟨resolved, rfl⟩), refused]
  rfl

/-- A record that is not for the page store. -/
theorem step_of_marker (resolved : item.2.resolve read = .ok record)
    (absorbed : State.absorb config { st with lastPointer := some item.1 } record =
      .ok (st₁, false)) (held : τ) :
    Recovery.step read config store st item held = .ok st₁ held := by
  unfold Recovery.step
  rw [run_bind_of_ok (ofExcept_eq_ok.mpr ⟨resolved, rfl⟩),
    run_bind_of_ok (ofExcept_eq_ok.mpr ⟨absorbed, rfl⟩)]
  rfl

theorem step_of_stored (resolved : item.2.resolve read = .ok record)
    (absorbed : State.absorb config { st with lastPointer := some item.1 } record =
      .ok (st₁, true)) (held : τ) :
    Recovery.step read config store st item held =
      (store item.1 record >>= fun _ => pure { st₁ with applied := st₁.applied + 1 }) held := by
  unfold Recovery.step
  rw [run_bind_of_ok (ofExcept_eq_ok.mpr ⟨resolved, rfl⟩),
    run_bind_of_ok (ofExcept_eq_ok.mpr ⟨absorbed, rfl⟩)]
  rfl

/-- What it takes to recover one record. -/
theorem step_cases (ok : Recovery.step read config store st item held = .ok st' held') :
    ∃ record st₁ toStore, item.2.resolve read = .ok record ∧
      State.absorb config { st with lastPointer := some item.1 } record = .ok (st₁, toStore) ∧
      st' = (if toStore then { st₁ with applied := st₁.applied + 1 } else st₁) ∧
      if toStore then store item.1 record held = .ok () held' else held' = held := by
  obtain ⟨record, _, resolving, afterwards⟩ := run_bind_eq_ok.mp ok
  obtain ⟨resolved, rfl⟩ := ofExcept_eq_ok.mp resolving
  obtain ⟨⟨st₁, toStore⟩, _, absorbing, storing⟩ := run_bind_eq_ok.mp afterwards
  obtain ⟨absorbed, rfl⟩ := ofExcept_eq_ok.mp absorbing
  refine ⟨record, st₁, toStore, resolved, absorbed, ?_⟩
  cases toStore with
  | false =>
      cases storing
      exact ⟨rfl, rfl⟩
  | true =>
      obtain ⟨_, _, stored, done⟩ := run_bind_eq_ok.mp storing
      cases done
      exact ⟨rfl, stored⟩

end

/-- The same when the page store takes everything. -/
theorem step_eq_ok {item : Pointer × Record} :
    Recovery.step read config (.accepting receive) st item s = .ok st' s' ↔
      ∃ record st₁ toStore, item.2.resolve read = .ok record ∧
        State.absorb config { st with lastPointer := some item.1 } record = .ok (st₁, toStore) ∧
        st' = (if toStore then { st₁ with applied := st₁.applied + 1 } else st₁) ∧
        s' = (if toStore then receive s (item.1, record) else s) := by
  constructor
  · intro ok
    obtain ⟨record, st₁, toStore, resolved, absorbed, left, stored⟩ := step_cases ok
    refine ⟨record, st₁, toStore, resolved, absorbed, left, ?_⟩
    cases toStore with
    | false => exact stored
    | true =>
        cases stored
        rfl
  · rintro ⟨record, st₁, toStore, resolved, absorbed, rfl, rfl⟩
    cases toStore with
    | false => exact step_of_marker resolved absorbed s
    | true => exact step_of_stored resolved absorbed s

variable (receive) in
/-- Whatever a page store does, what is recovered beside it is the same as when it takes everything. -/
theorem step_of_any_store {τ : Type} {store : PageStore τ} {held held' : τ}
    {item : Pointer × Record} (ok : Recovery.step read config store st item held = .ok st' held')
    (s : σ) : ∃ s', Recovery.step read config (.accepting receive) st item s = .ok st' s' := by
  obtain ⟨record, st₁, toStore, resolved, absorbed, left, -⟩ := step_cases ok
  exact ⟨_, step_eq_ok.mpr ⟨record, st₁, toStore, resolved, absorbed, left, rfl⟩⟩

variable (receive) in
theorem steps_of_any_store {τ : Type} {store : PageStore τ} {held held' : τ}
    {items : List (Pointer × Record)}
    (ok : items.foldlM (Recovery.step read config store) st held = .ok st' held') (s : σ) :
    ∃ s', items.foldlM (Recovery.step read config (.accepting receive)) st s = .ok st' s' := by
  induction items generalizing st held s with
  | nil =>
      cases ok
      exact ⟨s, rfl⟩
  | cons item items ih =>
      rw [List.foldlM_cons] at ok
      obtain ⟨st₁, held₁, stepped, rest⟩ := run_bind_eq_ok.mp ok
      obtain ⟨s₁, stepped'⟩ := step_of_any_store receive stepped s
      obtain ⟨s₂, rest'⟩ := ih rest s₁
      refine ⟨s₂, ?_⟩
      rw [List.foldlM_cons, run_bind_of_ok stepped', rest']

/-- What a page store is to receive of one record is what the record is stored as. -/
theorem received_of_absorb {item : Pointer × Record} {record : Record} {st₁ : State}
    {toStore : Bool} (body : item.2.kind ≠ .header) (resolved : item.2.resolve read = .ok record)
    (absorbed : st.absorb config record = .ok (st₁, toStore)) :
    Received read [item] (if toStore then [(item.1, record)] else []) := by
  have kind := (resolve_mentions resolved).1
  have stored := State.toStore_of_absorb (kind ▸ body) absorbed
  rw [kind] at stored
  cases toStore with
  | true =>
      rw [Received, List.filter_cons_of_pos (by simpa using stored.mp rfl)]
      exact .cons ⟨rfl, resolved⟩ .nil
  | false =>
      rw [Received, List.filter_cons_of_neg (by simpa using mt stored.mpr Bool.false_ne_true)]
      exact .nil

theorem Tracks.step (h : Tracks ms st.counters) {item : Pointer × Record}
    (body : item.2.kind ≠ .header)
    (ok : Recovery.step read config (.accepting receive) st item s = .ok st' s') :
    Tracks (fun k => ms k ++ mentions k item.2) st'.counters ∧
      ∃ received, Received read [item] received ∧ s' = received.foldl receive s := by
  obtain ⟨record, st₁, toStore, resolved, absorbed, rfl, rfl⟩ := step_eq_ok.mp ok
  have counted : Tracks ms { st with lastPointer := some item.1 }.counters := h
  have tracks := counted.absorb absorbed
  rw [funext fun k => congrArg (ms k ++ ·) ((resolve_mentions resolved).2 k)] at tracks
  refine ⟨?_, _, received_of_absorb body resolved absorbed, ?_⟩
  · cases toStore with
    | true => exact tracks
    | false => exact tracks
  · cases toStore with
    | true => rfl
    | false => rfl

theorem Received.append {items items' received received' : List (Pointer × Record)}
    (h : Received read items received) (h' : Received read items' received') :
    Received read (items ++ items') (received ++ received') := by
  unfold Received
  rw [List.filter_append]
  exact List.rel_append h h'

theorem Tracks.steps {items : List (Pointer × Record)} (h : Tracks ms st.counters)
    (body : ∀ item ∈ items, item.2.kind ≠ .header)
    (ok : items.foldlM (Recovery.step read config (.accepting receive)) st s = .ok st' s') :
    Tracks (fun k => ms k ++ items.flatMap (mentions k ·.2)) st'.counters ∧
      ∃ received, Received read items received ∧ s' = received.foldl receive s := by
  induction items generalizing ms st s with
  | nil =>
      cases ok
      exact ⟨by simpa using h, [], .nil, rfl⟩
  | cons item items ih =>
      obtain ⟨first, rest⟩ := List.forall_mem_cons.mp body
      rw [List.foldlM_cons] at ok
      obtain ⟨st₁, s₁, stepped, ok⟩ := run_bind_eq_ok.mp ok
      obtain ⟨tracks, received, here, rfl⟩ := h.step first stepped
      obtain ⟨tracks', received', later, rfl⟩ := ih tracks rest ok
      refine ⟨?_, received ++ received', here.append later, List.foldl_append.symm⟩
      simpa only [List.flatMap_cons, List.append_assoc] using tracks'

end

/-! ## Whole recoveries -/

/-- Everything that a recovery learns of a partition, in order. -/
def history (seeds : Table PartitionKey Snapshot) (items : List (Pointer × Record))
    (key : PartitionKey) : List Mention :=
  states key seeds ++ items.flatMap (mentions key ·.2)

section
variable {seeds : Table PartitionKey Snapshot} {items : List (Pointer × Record)}
  {key : PartitionKey}

/-- A state of a partition is its seed or comes from a checkpoint. -/
theorem state_mem_history {s : Snapshot} : .state s ∈ history seeds items key ↔
    (key, s) ∈ seeds ∨
      ∃ p id partitions, (p, .checkpoint id partitions) ∈ items ∧ ⟨key, s⟩ ∈ partitions := by
  have among {es : List (PartitionKey × Snapshot)} : .state s ∈ states key es ↔ (key, s) ∈ es := by
    simp [states]
  rw [history, List.mem_append, among, List.mem_flatMap]
  refine or_congr Iff.rfl ⟨?_, ?_⟩
  · rintro ⟨⟨p, record⟩, mem, mentioned⟩
    cases record with
    | data key' number payload => simp [mentions] at mentioned
    | checkpoint id partitions =>
        obtain ⟨⟨_, _⟩, named, ⟨⟩⟩ := List.mem_map.mp (among.mp mentioned)
        exact ⟨p, id, partitions, mem, named⟩
    | _ => cases mentioned
  · rintro ⟨p, id, partitions, mem, named⟩
    exact ⟨_, mem, among.mpr (List.mem_map.mpr ⟨_, named, rfl⟩)⟩

theorem update_mem_history {number : UInt64} : .update number ∈ history seeds items key ↔
    ∃ p payload, (p, .data key number payload) ∈ items := by
  have among {es : List (PartitionKey × Snapshot)} : .update number ∉ states key es := by
    simp [states]
  rw [history, List.mem_append, List.mem_flatMap]
  constructor
  · rintro (seed | ⟨⟨p, record⟩, mem, mentioned⟩)
    · exact absurd seed among
    cases record with
    | data key' number' payload =>
        rw [mentions] at mentioned
        split at mentioned
        · rename_i same
          cases List.mem_singleton.mp mentioned
          exact ⟨p, payload, same ▸ mem⟩
        · cases mentioned
    | checkpoint id partitions => exact absurd mentioned among
    | _ => cases mentioned
  · rintro ⟨p, payload, mem⟩
    exact Or.inr ⟨_, mem, by simp [mentions]⟩

/-- A partition is learned of from its seed, from a checkpoint or from an update. -/
theorem history_ne_nil : history seeds items key ≠ [] ↔
      (∃ s, (key, s) ∈ seeds) ∨
      (∃ p id partitions s, (p, .checkpoint id partitions) ∈ items ∧ ⟨key, s⟩ ∈ partitions) ∨
      ∃ p number payload, (p, .data key number payload) ∈ items := by
  constructor
  · intro learned
    obtain ⟨m, mem⟩ := List.exists_mem_of_ne_nil _ learned
    cases m with
    | state s =>
        rcases state_mem_history.mp mem with seed | ⟨p, id, partitions, logged⟩
        · exact Or.inl ⟨s, seed⟩
        · exact Or.inr (Or.inl ⟨p, id, partitions, s, logged⟩)
    | update number =>
        obtain ⟨p, payload, logged⟩ := update_mem_history.mp mem
        exact Or.inr (Or.inr ⟨p, number, payload, logged⟩)
  · rintro (⟨s, seed⟩ | ⟨p, id, partitions, s, logged⟩ | ⟨p, number, payload, logged⟩)
    · exact List.ne_nil_of_mem (state_mem_history.mpr (Or.inl seed))
    · exact List.ne_nil_of_mem (state_mem_history.mpr (Or.inr ⟨p, id, partitions, logged⟩))
    · exact List.ne_nil_of_mem (update_mem_history.mpr ⟨p, payload, logged⟩)

end

/-- A recovery comes upon a record, with these ones in front of it and this recovered from them. -/
def Reaches {σ : Type} (d : Directory) (v : Volume) (plan : Plan) (store : PageStore σ) (held : σ)
    (before : List (Pointer × Record)) (item : Pointer × Record) (st : State) (held' : σ) : Prop :=
  ∃ seeded s after, State.ofSeeds plan = .ok seeded ∧
    Session.openRange d v Session.defaultBufferSize plan.start none = .ok s ∧
    (s.drain v).items = before ++ item :: after ∧
    before.foldlM (step (d.readRecord v Session.defaultBufferSize) plan.config store) seeded held =
      .ok st held'

section
variable {σ : Type} {d : Directory} {v : Volume} {plan : Plan} {store : PageStore σ}
  {held held' held'' : σ} {before : List (Pointer × Record)} {item : Pointer × Record}
  {st seeded : State} {s : Session}

/-- What a recovery with seeds and a start that will do comes to. -/
theorem run_of_opened (seeding : State.ofSeeds plan = .ok seeded)
    (opened : Session.openRange d v Session.defaultBufferSize plan.start none = .ok s) :
    run d v plan store held =
      ((s.drain v).items.foldlM (step (d.readRecord v Session.defaultBufferSize) plan.config store)
          seeded >>= fun st =>
        match (s.drain v).ending with
        | some (.failed error) => throw error
        | _ => return st) held := by
  unfold run
  refine (run_bind_of_ok (ofExcept_eq_ok.mpr ⟨seeding, rfl⟩)).trans ?_
  exact run_bind_of_ok (ofExcept_eq_ok.mpr ⟨opened, rfl⟩)

/-- Seeds or a start that will not do are refused before anything is recovered. -/
theorem opened_or_refused (d : Directory) (v : Volume) (plan : Plan) :
    (∃ seeded s, State.ofSeeds plan = .ok seeded ∧
      Session.openRange d v Session.defaultBufferSize plan.start none = .ok s) ∨
    ∃ e, ∀ {τ : Type} (store : PageStore τ) (held : τ),
      run d v plan store held = .error e held := by
  cases seeding : State.ofSeeds plan with
  | error e =>
      refine Or.inr ⟨e, fun store held => ?_⟩
      unfold run
      rw [seeding]
      rfl
  | ok seeded =>
      cases opened : Session.openRange d v Session.defaultBufferSize plan.start none with
      | error e =>
          refine Or.inr ⟨e, fun store held => ?_⟩
          unfold run
          rw [run_bind_of_ok (ofExcept_eq_ok.mpr ⟨seeding, rfl⟩), opened]
          rfl
      | ok s => exact Or.inl ⟨seeded, s, rfl, rfl⟩

/-- A recovery succeeds with all that its session yields. -/
theorem run_eq_ok : run d v plan store held = .ok st held' ↔ ∃ seeded s,
    State.ofSeeds plan = .ok seeded ∧
    Session.openRange d v Session.defaultBufferSize plan.start none = .ok s ∧
    (∀ e, (s.drain v).ending ≠ some (.failed e)) ∧
    (s.drain v).items.foldlM (step (d.readRecord v Session.defaultBufferSize) plan.config store)
      seeded held = .ok st held' := by
  constructor
  · intro ok
    obtain ⟨seeded, _, seeding, afterwards⟩ := run_bind_eq_ok.mp ok
    obtain ⟨seeds, rfl⟩ := ofExcept_eq_ok.mp seeding
    obtain ⟨s, _, opening, reading⟩ := run_bind_eq_ok.mp afterwards
    obtain ⟨opened, rfl⟩ := ofExcept_eq_ok.mp opening
    obtain ⟨st₁, held₁, recovered, ended⟩ := run_bind_eq_ok.mp reading
    refine ⟨seeded, s, seeds, opened, ?_⟩
    generalize (s.drain v).ending = ending at ended ⊢
    match ending, ended with
    | none, rfl | some .finish, rfl | some .tornTail, rfl => exact ⟨nofun, recovered⟩
  · rintro ⟨seeded, s, seeds, opened, sane, recovered⟩
    rw [run_of_opened seeds opened, run_bind_of_ok recovered]
    generalize (s.drain v).ending = ending at sane ⊢
    match ending, sane with
    | none, _ | some .finish, _ | some .tornTail, _ => rfl
    | some (.failed e), sane => exact absurd rfl (sane e)

/-- A recovery fails where one of its records does. -/
theorem Reaches.run_error (h : Reaches d v plan store held before item st held') {e : Error}
    (fails : step (d.readRecord v Session.defaultBufferSize) plan.config store st item held' =
      .error e held'') : run d v plan store held = .error e held'' := by
  obtain ⟨seeded, s, after, seeding, opened, split, recovered⟩ := h
  rw [run_of_opened seeding opened, split]
  refine run_bind_of_error ?_
  rw [List.foldlM_append, run_bind_of_ok recovered, List.foldlM_cons]
  exact run_bind_of_error fails

/-- A recovery that succeeds has come upon each of its records. -/
theorem reaches_of_run {st' : State} {after : List (Pointer × Record)}
    (ok : run d v plan store held = .ok st' held')
    (opened : Session.openRange d v Session.defaultBufferSize plan.start none = .ok s)
    (split : (s.drain v).items = before ++ item :: after) :
    ∃ st held₁ st₁ held₂, Reaches d v plan store held before item st held₁ ∧
      step (d.readRecord v Session.defaultBufferSize) plan.config store st item held₁ =
        .ok st₁ held₂ := by
  obtain ⟨seeded, s', seeds, opened', -, recovered⟩ := run_eq_ok.mp ok
  cases opened.symm.trans opened'
  rw [split, List.foldlM_append] at recovered
  obtain ⟨st, held₁, reached, recovered⟩ := run_bind_eq_ok.mp recovered
  rw [List.foldlM_cons] at recovered
  obtain ⟨st₁, held₂, stepped, -⟩ := run_bind_eq_ok.mp recovered
  exact ⟨st, held₁, st₁, held₂, ⟨seeded, s, after, seeds, opened, split, reached⟩, stepped⟩

theorem Reaches.tracks (h : Reaches d v plan store held before item st held') :
    Tracks (history plan.seeds before) st.counters := by
  obtain ⟨seeded, s, after, seeding, opened, split, recovered⟩ := h
  have nothing : Tracks (fun _ => []) ({} : State).counters := tracks_empty
  have seeds := nothing.restoreAll seeding
  have body : ∀ item ∈ before, item.2.kind ≠ .header := fun item mem =>
    Session.kind_of_mem_drain (split ▸ List.mem_append_left _ mem)
  obtain ⟨_, accepted⟩ := steps_of_any_store (fun (_ : Unit) _ => ()) recovered ()
  exact (seeds.steps body accepted).1

end

/-- What a recovery that found these records leaves. -/
structure Recovered (seeds : Table PartitionKey Snapshot) (items : List (Pointer × Record))
    (counters : Table PartitionKey Counter) : Prop where
  known : ∀ key, (counters.get? key).isSome ↔
    (∃ s, (key, s) ∈ seeds) ∨
    (∃ p id partitions s, (p, .checkpoint id partitions) ∈ items ∧ ⟨key, s⟩ ∈ partitions) ∨
    ∃ p number payload, (p, .data key number payload) ∈ items
  canonical : ∀ key c, counters.get? key = some c →
    ∃ s numbers, Since (history seeds items key) s numbers ∧ c.Canonical (settled s numbers) ∧
      (IsGreatest (settled s numbers) c.reserved ∨ settled s numbers = ∅ ∧ c.reserved = 0)

/-- Whatever a recovery reads, if it succeeds with a page store that takes everything. -/
theorem run_recovered {σ : Type} {d : Directory} {v : Volume} {plan : Plan}
    {receive : σ → Pointer × Record → σ} {store store' : σ} {st : State}
    (ok : run d v plan (.accepting receive) store = .ok st store') :
    ∃ s, Session.openRange d v Session.defaultBufferSize plan.start none = .ok s ∧
      Recovered plan.seeds (s.drain v).items st.counters ∧
      ∃ received, Received (d.readRecord v Session.defaultBufferSize) (s.drain v).items received ∧
        store' = received.foldl receive store := by
  obtain ⟨seeded, s, seeding, opened, -, recovered⟩ := run_eq_ok.mp ok
  have nothing : Tracks (fun _ => []) ({} : State).counters := tracks_empty
  have seeds := nothing.restoreAll seeding
  obtain ⟨tracks, received⟩ := seeds.steps (fun item => Session.kind_of_mem_drain) recovered
  refine ⟨s, opened, ⟨fun key => (tracks.known key).trans history_ne_nil, ?_⟩, received⟩
  exact fun key c found => (tracks.reflects key c found).canonical

/-- A log with a checkpoint that has a gap, and with updates before and after it. The first of those
after it confirms the gap. -/
def interrupted : Volume := (Client.run [.openLog {}, .append (.data ⟨⟨1⟩, ⟨0⟩⟩ 1 []),
  .append (.checkpoint 7 [⟨⟨⟨1⟩, ⟨0⟩⟩, ⟨2, [⟨5, 2⟩]⟩⟩]), .append (.data ⟨⟨1⟩, ⟨0⟩⟩ 5 [8]),
  .append (.data ⟨⟨1⟩, ⟨0⟩⟩ 3 []), .rotate, .append (.pageRemove ⟨1⟩ ⟨2⟩ 0)]
  (Client.inMemory, [])).1.volume

theorem run_recovered_interrupted : ∃ st store s,
    run { place := .memory } interrupted { seeds := [(⟨⟨2⟩, ⟨0⟩⟩, {})] }
      (.accepting fun held item => held ++ [item]) [] = .ok st store ∧
    Session.openRange { place := .memory } interrupted Session.defaultBufferSize none none =
      .ok s ∧ Recovered [(⟨⟨2⟩, ⟨0⟩⟩, {})] (s.drain interrupted).items st.counters := by
  have succeeds : ((run { place := .memory } interrupted { seeds := [(⟨⟨2⟩, ⟨0⟩⟩, {})] }
      (.accepting fun held item => held ++ [item])).run' []).isSome = true := by
    decide +kernel
  unfold EStateM.run' at succeeds
  split at succeeds
  · rename_i st store ok
    obtain ⟨s, opened, recovered, -⟩ := run_recovered ok
    exact ⟨st, store, s, ok, opened, recovered⟩
  · cases succeeds

end Recovery
end SegmentLog
