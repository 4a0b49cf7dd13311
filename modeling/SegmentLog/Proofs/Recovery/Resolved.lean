import SegmentLog.Proofs.Frame.Exact
import SegmentLog.Proofs.Log.Lookup
import SegmentLog.Proofs.Recovery.Run

/-!
# What a page store receives of page updates

Whatever the bytes of a log are and whatever a page store does, each page update comes to it with as
many bytes as it says, and if it refers to a record they are the bytes of the data record there. A
recovery that comes upon a reference which leads to no such record fails, and the page store has
received what was in front of it. Main statement: `run_resolves`.

A page update of no bytes has them already. Its reference is not followed, wherever it leads.
-/
namespace SegmentLog

/-- An outcome, with notes beside the state. -/
def noting {ε σ α ν : Type} (notes : ν) : EStateM.Result ε σ α → EStateM.Result ε (σ × ν) α
  | .ok a s => .ok a (s, notes)
  | .error e s => .error e (s, notes)

/-- A page store, and notes of everything that it is called with, also of what it refuses. -/
def PageStore.noted {σ : Type} (store : PageStore σ) :
    PageStore (σ × List (Pointer × Record)) :=
  fun p record s => noting (s.2 ++ [(p, record)]) (store p record s.1)

theorem PageStore.noted_bind {σ α : Type} (store : PageStore σ) (p : Pointer) (record : Record)
    (s : σ) (notes : List (Pointer × Record)) (a : α) :
    (store.noted p record >>= fun _ => pure a) (s, notes) =
      noting (notes ++ [(p, record)]) ((store p record >>= fun _ => pure a) s) := by
  have noted : store.noted p record (s, notes) =
      noting (notes ++ [(p, record)]) (store p record s) := rfl
  cases answer : store p record s with
  | ok _ s' =>
      rw [answer] at noted
      rw [run_bind_of_ok noted, run_bind_of_ok answer]
      rfl
  | error e s' =>
      rw [answer] at noted
      rw [run_bind_of_error noted, run_bind_of_error answer]
      rfl

/-- The bytes of a page update are there, those of the record that it refers to if it does. -/
structure PageUpdate.Filled (d : Directory) (v : Volume) (u : PageUpdate) : Prop where
  length : u.payload.length = u.size.toNat
  referred : ∀ q, u.reference = some q → u.size ≠ 0 →
    ∃ key number, d.RecordAt v q (.data key number u.payload)

/-- A page update that has been read carries its bytes or refers to them. -/
theorem PageUpdate.source_of_decode {u : PageUpdate} {f : Format} {bs : Bytes}
    (decoded : Frame.decode f bs = .ok (.pageUpdate u)) :
    (u.reference = none → u.payload.length = u.size.toNat) ∧
      (u.reference.isSome → u.payload = []) := by
  obtain ⟨wf, encoded⟩ := Frame.encode_of_decode decoded
  refine ⟨fun carried => ?_, wf⟩
  obtain ⟨payload, written, -, -⟩ := Frame.encode_eq_ok encoded
  obtain ⟨source, written, -⟩ := bind_eq_ok.mp written
  rw [Record.sourceBytes, carried] at written
  dsimp only at written
  split at written
  · assumption
  · cases written

namespace Recovery

/-! ## Page stores with notes -/

section
variable {σ : Type} {read : Pointer → Except Error Record} {config : Counter.Config}
  {store : PageStore σ} {st : State}

/-- What is noted of one record: that it was received, or nothing if it could not be recovered. -/
theorem step_noted {item : Pointer × Record} (body : item.2.kind ≠ .header) (s : σ)
    (notes : List (Pointer × Record)) : ∃ new,
    step read config store.noted st item (s, notes) =
        noting (notes ++ new) (step read config store st item s) ∧
      (Received read [item] new ∨ new = [] ∧ ∃ e s', step read config store st item s =
        .error e s') := by
  cases resolved : item.2.resolve read with
  | error e =>
      refine ⟨[], ?_, .inr ⟨rfl, e, s, step_of_unresolved resolved s⟩⟩
      rw [step_of_unresolved resolved, step_of_unresolved resolved, List.append_nil]
      rfl
  | ok record =>
      cases absorbed : State.absorb config { st with lastPointer := some item.1 } record with
      | error e =>
          refine ⟨[], ?_, .inr ⟨rfl, e, s, step_of_refused resolved absorbed s⟩⟩
          rw [step_of_refused resolved absorbed, step_of_refused resolved absorbed,
            List.append_nil]
          rfl
      | ok after =>
          obtain ⟨st₁, toStore⟩ := after
          refine ⟨_, ?_, .inl (received_of_absorb body resolved absorbed)⟩
          cases toStore with
          | false =>
              rw [step_of_marker resolved absorbed, step_of_marker resolved absorbed,
                if_neg Bool.false_ne_true, List.append_nil]
              rfl
          | true =>
              rw [step_of_stored resolved absorbed, step_of_stored resolved absorbed, if_pos rfl]
              exact store.noted_bind item.1 record s notes _

variable (read config store) in
/-- What is noted of some records is that the first of them were received, which are all if they
are recovered. -/
theorem steps_noted {items : List (Pointer × Record)}
    (body : ∀ item ∈ items, item.2.kind ≠ .header) (st : State) (s : σ)
    (notes : List (Pointer × Record)) :
    ∃ new k, items.foldlM (step read config store.noted) st (s, notes) =
        noting (notes ++ new) (items.foldlM (step read config store) st s) ∧
      Received read (items.take k) new ∧
      (items.length ≤ k ∨ ∃ e s', items.foldlM (step read config store) st s = .error e s') := by
  induction items generalizing st s notes with
  | nil => exact ⟨[], 0, by rw [List.append_nil]; rfl, .nil, .inl (Nat.le_refl _)⟩
  | cons item items ih =>
      obtain ⟨first, rest⟩ := List.forall_mem_cons.mp body
      obtain ⟨new, noted, received⟩ := step_noted first s notes
      rw [List.foldlM_cons, List.foldlM_cons]
      cases stepped : step read config store st item s with
      | error e s' =>
          rw [stepped] at noted
          rw [run_bind_of_error noted, run_bind_of_error stepped]
          rcases received with received | ⟨rfl, -⟩
          · exact ⟨new, 1, rfl, received, .inr ⟨e, s', rfl⟩⟩
          · exact ⟨[], 0, rfl, .nil, .inr ⟨e, s', rfl⟩⟩
      | ok st' s' =>
          have here : Received read [item] new := by
            refine received.resolve_right ?_
            rintro ⟨-, e, _, failed⟩
            cases stepped.symm.trans failed
          rw [stepped] at noted
          rw [run_bind_of_ok noted, run_bind_of_ok stepped]
          obtain ⟨new', k, noted', later, all⟩ := ih rest st' s' (notes ++ new)
          rw [List.append_assoc] at noted'
          exact ⟨new ++ new', k + 1, noted', here.append later, all.imp_left Nat.succ_le_succ⟩

end

section
variable {σ : Type} {d : Directory} {v : Volume} {plan : Plan} {store : PageStore σ}
  {start held : σ} {before : List (Pointer × Record)} {item : Pointer × Record} {st : State}

/-- What is noted of a whole recovery. -/
theorem run_noted (d : Directory) (v : Volume) (plan : Plan) (store : PageStore σ) (start : σ) :
    ∃ calls, run d v plan store.noted (start, []) = noting calls (run d v plan store start) ∧
      (calls = [] ∨ ∃ s k,
        Session.openRange d v Session.defaultBufferSize plan.start none = .ok s ∧
        Received (d.readRecord v Session.defaultBufferSize) ((s.drain v).items.take k) calls) ∧
      ∀ st held, run d v plan store start = .ok st held → ∃ s,
        Session.openRange d v Session.defaultBufferSize plan.start none = .ok s ∧
        Received (d.readRecord v Session.defaultBufferSize) (s.drain v).items calls := by
  rcases opened_or_refused d v plan with ⟨seeded, s, seeding, opened⟩ | ⟨e, refused⟩
  · have body : ∀ item ∈ (s.drain v).items, item.2.kind ≠ .header :=
      fun item => Session.kind_of_mem_drain
    obtain ⟨calls, k, noted, received, all⟩ :=
      steps_noted (d.readRecord v Session.defaultBufferSize) plan.config store body seeded start []
    refine ⟨calls, ?_, .inr ⟨s, k, opened, received⟩, fun st held ok => ⟨s, opened, ?_⟩⟩
    · rw [run_of_opened seeding opened, run_of_opened seeding opened]
      cases recovered : (s.drain v).items.foldlM (step (d.readRecord v Session.defaultBufferSize)
          plan.config store) seeded start with
      | error e held =>
          rw [recovered] at noted
          rw [run_bind_of_error noted, run_bind_of_error recovered]
          rfl
      | ok st held =>
          rw [recovered] at noted
          rw [run_bind_of_ok noted, run_bind_of_ok recovered]
          generalize (s.drain v).ending = ending
          match ending with
          | none | some .finish | some .tornTail | some (.failed _) => rfl
    · obtain ⟨seeded', s', seeding', opened', -, recovered⟩ := run_eq_ok.mp ok
      cases seeding.symm.trans seeding'
      cases opened.symm.trans opened'
      rcases all with all | ⟨e, held, failed⟩
      · rwa [List.take_of_length_le all] at received
      · cases recovered.symm.trans failed
  · refine ⟨[], ?_, .inl rfl, fun st held ok => ?_⟩
    · rw [refused, refused]
      rfl
    · cases (refused store start).symm.trans ok

/-- Where a recovery has got, with notes of what its page store was called with until then. -/
theorem Reaches.noted (h : Reaches d v plan store start before item st held) :
    ∃ calls, Received (d.readRecord v Session.defaultBufferSize) before calls ∧
      Reaches d v plan store.noted (start, []) before item st (held, calls) := by
  obtain ⟨seeded, s, after, seeding, opened, split, recovered⟩ := h
  have body : ∀ item ∈ before, item.2.kind ≠ .header := fun item mem =>
    Session.kind_of_mem_drain (split ▸ List.mem_append_left _ mem)
  obtain ⟨calls, k, noted, received, all⟩ :=
    steps_noted (d.readRecord v Session.defaultBufferSize) plan.config store body seeded start []
  rcases all with all | ⟨e, _, failed⟩
  · rw [List.take_of_length_le all] at received
    rw [recovered] at noted
    exact ⟨calls, received, seeded, s, after, seeding, opened, split, noted⟩
  · cases recovered.symm.trans failed

theorem Received.exists_of_mem {read : Pointer → Except Error Record}
    {items received : List (Pointer × Record)} {given : Pointer × Record}
    (h : Received read items received) (mem : given ∈ received) :
    ∃ item ∈ items, item.2.resolve read = .ok given.2 := by
  obtain ⟨i, at_i, rfl⟩ := List.mem_iff_getElem.mp mem
  obtain ⟨same, each⟩ := List.forall₂_iff_get.mp h
  have inside : i < (items.filter (·.2.kind ≠ .checkpoint)).length := same ▸ at_i
  exact ⟨_, List.mem_of_mem_filter (List.getElem_mem inside), (each i inside at_i).2⟩

/-! ## Page updates -/

/-- Why a reference leads to no bytes for a page update. -/
inductive Dangling (d : Directory) (v : Volume) (u : PageUpdate) (q : Pointer) : Error → Prop
  | unread {e : Error} (fails : d.readRecord v Session.defaultBufferSize q = .error e) :
      Dangling d v u q e
  | notData {record : Record} (there : d.RecordAt v q record) (other : record.kind ≠ .data) :
      Dangling d v u q (.atPointer q (.notData record.kind))
  | size {key : PartitionKey} {number : UInt64} {payload : Bytes}
      (there : d.RecordAt v q (.data key number payload))
      (other : payload.length ≠ u.size.toNat) :
      Dangling d v u q (.atPointer q (.payloadSize payload.length u.size.toNat))

variable {u : PageUpdate} {q : Pointer}

theorem exists_dangling (needed : u.needsPayload = true) (reference : u.reference = some q)
    (nowhere : ∀ key number payload, d.RecordAt v q (.data key number payload) →
      payload.length ≠ u.size.toNat) : ∃ e, Dangling d v u q e ∧
      (Record.pageUpdate u).resolve (d.readRecord v Session.defaultBufferSize) = .error e := by
  rw [Record.resolve_of_needed needed reference]
  cases found : d.readRecord v Session.defaultBufferSize q with
  | error e => exact ⟨e, .unread found, rfl⟩
  | ok record =>
      have there := Directory.readRecord_eq_ok_iff.mp found
      cases record with
      | data key number payload =>
          have other := nowhere key number payload there
          refine ⟨_, .size there other, ?_⟩
          simp only [bind, Except.bind, PageUpdate.bytesOf, if_neg other, Except.map]
      | _ => exact ⟨_, .notData there (by simp [Record.kind]), rfl⟩

/-- What a page update that has been read is resolved to. -/
theorem filled_of_resolve {record : Record} {f : Format} {bs : Bytes}
    (decoded : Frame.decode f bs = .ok record)
    (resolved : record.resolve (d.readRecord v Session.defaultBufferSize) = .ok (.pageUpdate u)) :
    u.Filled d v := by
  rcases Record.resolve_eq_ok.mp resolved with
    ⟨unneeded, rfl⟩ | ⟨u', q, payload, key, number, rfl, -, reference, there, fits, same⟩
  · obtain ⟨carried, referred⟩ := PageUpdate.source_of_decode decoded
    have length : u.payload.length = u.size.toNat := by
      by_contra other
      cases reference : u.reference with
      | none => exact other (carried reference)
      | some q => simp [Record.needsPayload, PageUpdate.needsPayload, reference, other] at unneeded
    refine ⟨length, fun q reference some_bytes => absurd ?_ some_bytes⟩
    rw [referred (Option.isSome_of_eq_some reference), List.length_nil] at length
    exact UInt32.toNat_inj.mp length.symm
  · cases same
    refine ⟨fits, fun q' reference' _ => ⟨key, number, ?_⟩⟩
    cases reference.symm.trans reference'
    exact Directory.readRecord_eq_ok_iff.mp there

/-- A recovery that comes upon a reference to nothing of use fails there. -/
theorem Reaches.dangling {p : Pointer}
    (h : Reaches d v plan store start before (p, .pageUpdate u) st held)
    (reference : u.reference = some q) (some_bytes : u.size ≠ 0)
    (nowhere : ∀ key number payload, d.RecordAt v q (.data key number payload) →
      payload.length ≠ u.size.toNat) :
    ∃ e, Dangling d v u q e ∧ run d v plan store start = .error e held ∧ ∃ calls,
      Received (d.readRecord v Session.defaultBufferSize) before calls ∧
      run d v plan store.noted (start, []) = .error e (held, calls) := by
  have needed : u.needsPayload = true := by
    obtain ⟨_, s, after, -, -, split, -⟩ := h
    obtain ⟨f, bs, decoded⟩ : ∃ f bs, Frame.decode f bs = .ok (.pageUpdate u) :=
      Session.decoded_of_mem_drain (split ▸ List.mem_append_right _ List.mem_cons_self)
    have referred := (PageUpdate.source_of_decode decoded).2 (Option.isSome_of_eq_some reference)
    refine decide_eq_true ⟨Option.isSome_of_eq_some reference, fun none => some_bytes ?_⟩
    rw [referred, List.length_nil] at none
    exact UInt32.toNat_inj.mp none.symm
  obtain ⟨e, why, unresolved⟩ := exists_dangling needed reference nowhere
  obtain ⟨calls, received, noted⟩ := h.noted
  exact ⟨e, why, h.run_error (step_of_unresolved unresolved held), calls, received,
    noted.run_error (step_of_unresolved unresolved (held, calls))⟩

end

/-- Recoveries of any log with any page store, and records that are resolved apart from one. -/
theorem run_resolves {σ : Type} (d : Directory) (v : Volume) (plan : Plan) (store : PageStore σ)
    (start : σ) :
    (∃ calls, run d v plan store.noted (start, []) = noting calls (run d v plan store start) ∧
      (∀ p u, (p, .pageUpdate u) ∈ calls → u.Filled d v) ∧
      (∀ st held, run d v plan store start = .ok st held → ∃ s,
        Session.openRange d v Session.defaultBufferSize plan.start none = .ok s ∧
        Received (d.readRecord v Session.defaultBufferSize) (s.drain v).items calls) ∧
      ∀ before p u q st held,
        Reaches d v plan store start before (p, .pageUpdate u) st held →
        u.reference = some q → u.size ≠ 0 →
        (∀ key number payload, d.RecordAt v q (.data key number payload) →
          payload.length ≠ u.size.toNat) →
        Received (d.readRecord v Session.defaultBufferSize) before calls ∧
          ∃ e, Dangling d v u q e ∧ run d v plan store start = .error e held) ∧
    ∀ read record, Record.Fills read record := by
  refine ⟨?_, Record.fills⟩
  obtain ⟨calls, noted, called, succeeded⟩ := run_noted d v plan store start
  refine ⟨calls, noted, fun p u mem => ?_, succeeded, ?_⟩
  · rcases called with rfl | ⟨s, k, -, received⟩
    · cases mem
    · obtain ⟨item, there, resolved⟩ := received.exists_of_mem mem
      obtain ⟨f, bs, decoded⟩ := Session.decoded_of_mem_drain (List.mem_of_mem_take there)
      exact filled_of_resolve decoded resolved
  · intro before p u q st held reached reference some_bytes nowhere
    obtain ⟨e, why, fails, calls', received, fails'⟩ :=
      reached.dangling reference some_bytes nowhere
    rw [fails] at noted
    cases noted.symm.trans fails'
    exact ⟨received, e, why, fails⟩

/-- A log with an update of one byte and one of two bytes, which both refer to a record of one. -/
def pointing : Volume := (Client.run [.openLog {}, .append (.data ⟨⟨1⟩, ⟨0⟩⟩ 1 [7]),
  .append (.pageUpdate ⟨⟨1⟩, ⟨2⟩, 0, 1, some ⟨0, 15, 28⟩, []⟩),
  .append (.pageUpdate ⟨⟨1⟩, ⟨2⟩, 0, 2, some ⟨0, 15, 28⟩, []⟩)] (Client.inMemory, [])).1.volume

theorem run_resolves_pointing : ∃ calls,
    (∀ p u, (p, .pageUpdate u) ∈ calls → u.Filled { place := .memory } pointing) ∧
    Received (Directory.readRecord { place := .memory } pointing Session.defaultBufferSize)
      [(⟨0, 15, 28⟩, .data ⟨⟨1⟩, ⟨0⟩⟩ 1 [7]),
        (⟨0, 43, 44⟩, .pageUpdate ⟨⟨1⟩, ⟨2⟩, 0, 1, some ⟨0, 15, 28⟩, []⟩)] calls ∧
    ∃ e, run { place := .memory } pointing {} (.recording none) [] = .error e
      [(⟨0, 15, 28⟩, .data ⟨⟨1⟩, ⟨0⟩⟩ 1 [7]),
        (⟨0, 43, 44⟩, .pageUpdate ⟨⟨1⟩, ⟨2⟩, 0, 1, some ⟨0, 15, 28⟩, [7]⟩)] := by
  have yields : (Session.openRange { place := .memory } pointing Session.defaultBufferSize
      none none).map (fun s => (s.drain pointing).items) = .ok
        ([(⟨0, 15, 28⟩, .data ⟨⟨1⟩, ⟨0⟩⟩ 1 [7]),
          (⟨0, 43, 44⟩, .pageUpdate ⟨⟨1⟩, ⟨2⟩, 0, 1, some ⟨0, 15, 28⟩, []⟩)] ++
        [(⟨0, 87, 44⟩, .pageUpdate ⟨⟨1⟩, ⟨2⟩, 0, 2, some ⟨0, 15, 28⟩, []⟩)]) := by
    decide +kernel
  obtain ⟨s, opened, found⟩ := map_eq_ok.mp yields
  have reached : Reaches { place := .memory } pointing {} (.recording none) []
      [(⟨0, 15, 28⟩, .data ⟨⟨1⟩, ⟨0⟩⟩ 1 [7]),
        (⟨0, 43, 44⟩, .pageUpdate ⟨⟨1⟩, ⟨2⟩, 0, 1, some ⟨0, 15, 28⟩, []⟩)]
      (⟨0, 87, 44⟩, .pageUpdate ⟨⟨1⟩, ⟨2⟩, 0, 2, some ⟨0, 15, 28⟩, []⟩)
      { counters := [(⟨⟨1⟩, ⟨0⟩⟩, { applied := 1, reserved := 1 })]
        lastPointer := some ⟨0, 43, 44⟩, applied := 2 }
      [(⟨0, 15, 28⟩, .data ⟨⟨1⟩, ⟨0⟩⟩ 1 [7]),
        (⟨0, 43, 44⟩, .pageUpdate ⟨⟨1⟩, ⟨2⟩, 0, 1, some ⟨0, 15, 28⟩, [7]⟩)] :=
    ⟨{}, s, [], rfl, opened, found, outcome_eq_some.mp (by decide +kernel)⟩
  have one_byte : Directory.readRecord { place := .memory } pointing Session.defaultBufferSize
      ⟨0, 15, 28⟩ = .ok (.data ⟨⟨1⟩, ⟨0⟩⟩ 1 [7]) := by
    decide +kernel
  obtain ⟨⟨calls, -, filled, -, dangling⟩, -⟩ :=
    run_resolves { place := .memory } pointing {} (.recording none) []
  obtain ⟨received, e, -, fails⟩ := dangling _ _ _ ⟨0, 15, 28⟩ _ _ reached rfl (by decide)
    fun key number payload there => by
      cases one_byte.symm.trans (Directory.readRecord_eq_ok_iff.mpr there)
      decide
  exact ⟨calls, filled, received, e, fails⟩

end Recovery
end SegmentLog
