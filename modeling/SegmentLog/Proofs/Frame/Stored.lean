import SegmentLog.Proofs.Frame.RoundTrip

/-!
# What is kept of a record

Writing says less of some records than they hold, and it accepts some that cannot be read. Of a page
update with a reference only the reference is written; `Record.stored` is what is left of a record.
The snapshots of a checkpoint are written as they are, but reading checks them: `Record.Readable`.

What is kept of a readable record is well formed, so it is read back (`Record.wellFormed_stored`).
The frame of any other record is refused (`Frame.decode_of_unreadable`).
-/
namespace SegmentLog

namespace Record

/-- What is written of a record: no bytes beside a reference to them. -/
def stored : Record → Record
  | pageUpdate u => .pageUpdate { u with payload := if u.reference.isSome then [] else u.payload }
  | record => record

/-- Reading accepts what is written. -/
def Readable : Record → Prop
  | checkpoint _ partitions => ∀ p ∈ partitions, p.counter.validate = .ok ()
  | header _ | data .. | pageInsert .. | pageUpdate _ | pageRemove .. => True

instance : (record : Record) → Decidable record.Readable
  | checkpoint _ _ => inferInstanceAs (Decidable (∀ p ∈ _, _))
  | header _ | data .. | pageInsert .. | pageUpdate _ | pageRemove .. =>
    inferInstanceAs (Decidable True)

@[simp] theorem kind_stored (record : Record) : record.stored.kind = record.kind := by
  cases record <;> rfl

@[simp] theorem payloadBytes_stored (record : Record) :
    record.stored.payloadBytes = record.payloadBytes := by
  cases record with
  | pageUpdate u =>
      simp only [stored, payloadBytes, sourceBytes]
      cases u.reference <;> rfl
  | _ => rfl

/-- Nothing else keeps a record from being read back. -/
theorem wellFormed_stored {record : Record} (kind : record.kind ≠ .header)
    (readable : record.Readable) : record.stored.WellFormed := by
  cases record with
  | header version => exact kind rfl
  | data key number payload => trivial
  | pageInsert group page payload => trivial
  | pageUpdate u => exact fun reference => if_pos reference
  | pageRemove group page item => trivial
  | checkpoint id partitions => exact readable

end Record

/-! ## Payloads that are refused -/

namespace Cursor
variable {α β : Type} {m : Scan α} {f : α → Scan β} {bs cs : Bytes} {a : α}

/-- The scan fails at these bytes, whatever follows them. -/
def Refuses (m : Scan α) (bs : Bytes) : Prop :=
  ∀ (c : Cursor) (rest : Bytes), c.rest = bs ++ rest → ∃ fault, m c = .error fault

/-- What comes after a failure makes no difference. -/
theorem Refuses.bind (hm : Refuses m bs) (f : α → Scan β) (cs : Bytes) :
    Refuses (m >>= f) (bs ++ cs) := by
  intro c rest h
  obtain ⟨fault, first⟩ := hm c (cs ++ rest) (by rw [h, List.append_assoc])
  refine ⟨fault, ?_⟩
  change (m c >>= fun r => f r.1 r.2) = _
  rw [first]
  rfl

theorem Refuses.map (hm : Refuses m bs) (f : α → Scan β) : Refuses (m >>= f) bs := by
  have h := hm.bind f []
  rwa [List.append_nil] at h

theorem Reads.refuses (hm : Reads m bs a) (hf : Refuses (f a) cs) :
    Refuses (m >>= f) (bs ++ cs) := by
  intro c rest h
  have first := hm c (cs ++ rest) (by rw [h, List.append_assoc])
  obtain ⟨fault, second⟩ := hf { c with position := c.position + bs.length, rest := cs ++ rest }
    rest rfl
  refine ⟨fault, ?_⟩
  change (m c >>= fun r => f r.1 r.2) = _
  rw [first]
  exact second

theorem refuses_format (fault : FormatFault) :
    Refuses (format (.error fault : Except FormatFault α)) [] :=
  fun _ _ _ => ⟨_, rfl⟩

end Cursor

namespace Record
open Cursor

theorem refuses_state {state : PartitionState} {bs : Bytes}
    (invalid : state.counter.validate ≠ .ok ()) (h : stateBytes state = .ok bs) :
    Refuses scanState bs := by
  obtain ⟨raw, hs, rfl⟩ := map_eq_ok.mp h
  have decoded := Snapshot.decode_encode_eq (gaps_lt_of_sizedBytes hs)
  cases checked : state.counter.validate with
  | ok a => exact absurd checked invalid
  | error fault =>
      rw [checked] at decoded
      have found : Refuses (format (Snapshot.decode state.counter.encode)) [] := by
        rw [decoded]
        exact refuses_format fault
      rw [← List.append_nil raw]
      exact (reads_key state.key).refuses ((reads_sized_of_ok hs).refuses (found.map _))

theorem refuses_states {partitions : List PartitionState} {parts : List Bytes}
    (invalid : ¬∀ p ∈ partitions, p.counter.validate = .ok ())
    (h : partitions.mapM stateBytes = .ok parts) :
    Refuses (scanStates partitions.length) parts.flatten := by
  induction partitions generalizing parts with
  | nil => exact absurd (fun p hp => absurd hp List.not_mem_nil) invalid
  | cons state partitions ih =>
      rw [List.mapM_cons] at h
      obtain ⟨first, hs, h⟩ := bind_eq_ok.mp h
      obtain ⟨rest, hp, ⟨⟩⟩ := bind_eq_ok.mp h
      -- the first snapshot that is invalid is where reading fails
      by_cases valid : state.counter.validate = .ok ()
      · have later : ¬∀ p ∈ partitions, p.counter.validate = .ok () := by
          intro all
          exact invalid (List.forall_mem_cons.mpr ⟨valid, all⟩)
        exact (reads_state valid hs).refuses ((ih later hp).map _)
      · exact (refuses_state valid hs).bind _ rest.flatten

theorem refuses_payload {record : Record} {bs : Bytes} (unreadable : ¬record.Readable)
    (h : record.payloadBytes = .ok bs) : Refuses (scan record.kind) bs := by
  cases record with
  | checkpoint id partitions =>
      simp only [payloadBytes] at h
      split at h
      · cases h
      rename_i few
      obtain ⟨parts, hp, ⟨⟩⟩ := bind_eq_ok.mp h
      rw [List.append_assoc]
      exact (reads_word64 id).refuses ((reads_number 4 (Nat.lt_of_not_le few)).refuses
        ((refuses_states unreadable hp).map _))
  | _ => exact absurd trivial unreadable

theorem ofPayload_of_refuses {kind : RecordKind} {bs : Bytes} (h : Refuses (scan kind) bs) :
    ∃ fault, ofPayload kind bs = .error fault := by
  obtain ⟨fault, whole⟩ := h (ofBytes bs) [] (List.append_nil bs).symm
  refine ⟨fault, ?_⟩
  simp only [ofPayload, StateT.run, bind, StateT.bind, Except.bind, whole]

end Record

namespace Frame
variable {f : Format} {record : Record} {frame : Bytes}

@[simp] theorem encode_stored (f : Format) (record : Record) :
    encode f record.stored = encode f record := by
  simp only [encode, Record.payloadBytes_stored, Record.kind_stored]

/-- A record that is not readable has a frame, but no reading. -/
theorem decode_of_unreadable (kind : record.kind ≠ .header) (unreadable : ¬record.Readable)
    (h : encode f record = .ok frame) : ∃ fault, decode f frame = .error fault := by
  obtain ⟨payload, hp, read⟩ := decode_of_encode kind h
  obtain ⟨fault, refused⟩ := Record.ofPayload_of_refuses (Record.refuses_payload unreadable hp)
  exact ⟨fault, read.trans refused⟩

end Frame
end SegmentLog
