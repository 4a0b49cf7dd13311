import SegmentLog.Proofs.Record.Scan
import SegmentLog.Proofs.Success

/-!
# Records come back from their payloads

A record that can be written is read back from its payload: `ofPayload_payloadBytes`. Encoding
checks that every number fits its field, so all that is left to ask of a record is what it does
not check: see `Record.WellFormed`.
-/
namespace SegmentLog

theorem Gap.length_encode (g : Gap) : g.encode.length = Snapshot.gapSize := by
  simp [encode, Snapshot.gapSize]

namespace Snapshot

theorem length_flatMap_encode (gs : List Gap) :
    (gs.flatMap Gap.encode).length = gs.length * gapSize := by
  induction gs with
  | nil => rfl
  | cons g gs ih =>
      rw [List.flatMap_cons, List.length_append, ih, Gap.length_encode, List.length_cons,
        Nat.succ_mul, Nat.add_comm]

theorem length_encode (s : Snapshot) : s.encode.length = headSize + s.gaps.length * gapSize := by
  simp only [encode, List.length_append, Bytes.length_toLE, length_flatMap_encode, headSize]

theorem decodeGaps_encode (gs : List Gap) :
    decodeGaps gs.length (gs.flatMap Gap.encode) = gs := by
  induction gs with
  | nil => rfl
  | cons g gs ih =>
      have start : Bytes.slice ((g :: gs).flatMap Gap.encode) 0 8 = Bytes.toLE 8 g.start.toNat := by
        rw [List.flatMap_cons, Gap.encode, List.append_assoc]
        exact Bytes.slice_zero (Bytes.length_toLE ..)
      have len : Bytes.slice ((g :: gs).flatMap Gap.encode) 8 8 = Bytes.toLE 8 g.len.toNat := by
        rw [List.flatMap_cons, Gap.encode, List.append_assoc]
        exact Bytes.slice_append _ (Bytes.length_toLE ..) (Bytes.length_toLE ..)
      have rest : ((g :: gs).flatMap Gap.encode).drop gapSize = gs.flatMap Gap.encode := by
        rw [List.flatMap_cons]
        exact List.drop_left' g.length_encode
      rw [List.length_cons, decodeGaps, start, len, rest, ih, Bytes.ofNat_ofLE_word64,
        Bytes.ofNat_ofLE_word64]

/-- Only reading looks into a snapshot. -/
theorem decode_encode_eq {s : Snapshot} (fits : s.gaps.length < UInt32.size) :
    decode s.encode = s.validate.map fun _ => s := by
  have applied : Bytes.slice s.encode 0 8 = Bytes.toLE 8 s.applied.toNat := by
    rw [encode, List.append_assoc]
    exact Bytes.slice_zero (Bytes.length_toLE ..)
  have count : Bytes.ofLE (Bytes.slice s.encode 8 4) = s.gaps.length := by
    rw [encode, List.append_assoc,
      Bytes.slice_append _ (Bytes.length_toLE ..) (Bytes.length_toLE ..)]
    exact Bytes.ofLE_toLE_of_lt 4 fits
  have rest : s.encode.drop headSize = s.gaps.flatMap Gap.encode := by
    rw [encode]
    exact List.drop_left' (by simp [headSize])
  have long : ¬s.encode.length < headSize := by
    rw [length_encode]
    omega
  simp only [decode, applied, count, rest, length_encode, decodeGaps_encode,
    Bytes.ofNat_ofLE_word64, ne_eq, not_true_eq_false, if_false]
  rw [if_neg (by omega)]
  change (do s.validate; return s) = _
  cases s.validate with
  | error fault => rfl
  | ok checked => rfl

theorem decode_encode {s : Snapshot} (valid : s.validate = .ok ())
    (fits : s.gaps.length < UInt32.size) : decode s.encode = .ok s := by
  rw [decode_encode_eq fits, valid]
  rfl

end Snapshot

namespace Pointer

theorem ofBytes_toBytes {p : Pointer} {bs : Bytes} (h : p.toBytes = .ok bs) :
    bs.length = externalSize ∧ ofBytes bs = .ok p := by
  unfold toBytes at h
  split at h
  · rename_i representable
    obtain ⟨hs, ho, hl⟩ := representable
    cases h
    have segment : Bytes.slice (Bytes.toLE 8 p.segment ++ Bytes.toLE 4 p.offset ++
        Bytes.toLE 4 p.length) 0 8 = Bytes.toLE 8 p.segment := by
      rw [List.append_assoc]
      exact Bytes.slice_zero (Bytes.length_toLE ..)
    have offset : Bytes.slice (Bytes.toLE 8 p.segment ++ Bytes.toLE 4 p.offset ++
        Bytes.toLE 4 p.length) 8 4 = Bytes.toLE 4 p.offset := by
      rw [List.append_assoc]
      exact Bytes.slice_append _ (Bytes.length_toLE ..) (Bytes.length_toLE ..)
    have length : Bytes.slice (Bytes.toLE 8 p.segment ++ Bytes.toLE 4 p.offset ++
        Bytes.toLE 4 p.length) 12 4 = Bytes.toLE 4 p.length := by
      rw [← List.append_nil (Bytes.toLE 4 p.length)]
      exact Bytes.slice_append _ (by simp) (Bytes.length_toLE ..)
    refine ⟨by simp [externalSize], ?_⟩
    simp only [ofBytes, segment, offset, length]
    rw [Bytes.ofLE_toLE_of_lt 8 (Nat.lt_trans hs (by decide)),
      Bytes.ofLE_toLE_of_lt 4 (Nat.lt_trans ho (by decide)),
      Bytes.ofLE_toLE_of_lt 4 (Nat.lt_trans hl (by decide)), if_neg (by simp [externalSize]),
      if_pos ⟨hs, ho, hl⟩]
  · cases h

end Pointer

namespace Record
open Cursor

/-- What a record has to be for encoding to say all of it: no marker of a segment, no snapshot
that reading refuses, no bytes beside the reference that is stored instead of them. -/
def WellFormed : Record → Prop
  | header _ => False
  | data .. | pageInsert .. | pageRemove .. => True
  | pageUpdate u => u.reference.isSome → u.payload = []
  | checkpoint _ partitions => ∀ p ∈ partitions, p.counter.validate = .ok ()

instance : (record : Record) → Decidable record.WellFormed
  | header _ => inferInstanceAs (Decidable False)
  | data .. | pageInsert .. | pageRemove .. => inferInstanceAs (Decidable True)
  | pageUpdate _ => inferInstanceAs (Decidable (_ → _))
  | checkpoint _ _ => inferInstanceAs (Decidable (∀ p ∈ _, _))

theorem WellFormed.kind_ne_header {record : Record} (wf : record.WellFormed) :
    record.kind ≠ .header := by
  cases record with
  | header version => exact wf.elim
  | _ => simp [kind]

/-! ## Fields -/

theorem sizedBytes_eq_ok {bs out : Bytes} (h : sizedBytes bs = .ok out) :
    bs.length < UInt32.size ∧ out = Bytes.toLE 4 bs.length ++ bs := by
  unfold sizedBytes at h
  split at h
  · cases h
    exact ⟨‹_›, rfl⟩
  · cases h

theorem reads_sized_of_ok {bs out : Bytes} (h : sizedBytes bs = .ok out) : Reads sized out bs := by
  obtain ⟨fits, rfl⟩ := sizedBytes_eq_ok h
  exact reads_sized fits

theorem reads_key (key : PartitionKey) : Reads scanKey (keyBytes key) key :=
  (reads_word32 key.group.val).bind
    ((reads_word16 key.partition.val).map fun partition =>
      PartitionKey.mk ⟨key.group.val⟩ ⟨partition⟩)

theorem reads_source {u : PageUpdate} {bs : Bytes} (inline : u.reference.isSome → u.payload = [])
    (h : sourceBytes u = .ok bs) : Reads (scanSource u.size) bs (u.reference, u.payload) := by
  unfold sourceBytes at h
  cases hr : u.reference with
  | some p =>
      rw [hr] at h inline
      obtain ⟨raw, hp, rfl⟩ := map_eq_ok.mp h
      obtain ⟨length, pointer⟩ := Pointer.ofBytes_toBytes hp
      have taken := reads_take raw
      rw [length] at taken
      have found : Reads (format (Pointer.ofBytes raw)) [] p := pointer ▸ reads_format p
      have source := taken.bind (f := fun raw => do
        return (some (← format (Pointer.ofBytes raw)), ([] : Bytes)))
        (found.map fun p => (some p, []))
      rw [List.append_nil] at source
      rw [inline rfl]
      exact (reads_byte 1).bind source
  | none =>
      rw [hr] at h
      dsimp only at h
      split at h
      · rename_i length
        cases h
        have taken := reads_take u.payload
        rw [length] at taken
        exact (reads_byte 0).bind (taken.map fun payload => (none, payload))
      · cases h

/-- A snapshot that fits its field has no more gaps than can be counted there. -/
theorem gaps_lt_of_sizedBytes {s : Snapshot} {bs : Bytes} (h : sizedBytes s.encode = .ok bs) :
    s.gaps.length < UInt32.size := by
  have fits := (sizedBytes_eq_ok h).1
  rw [Snapshot.length_encode, Snapshot.headSize, Snapshot.gapSize] at fits
  omega

theorem reads_state {state : PartitionState} {bs : Bytes}
    (valid : state.counter.validate = .ok ()) (h : stateBytes state = .ok bs) :
    Reads scanState bs state := by
  obtain ⟨raw, hs, rfl⟩ := map_eq_ok.mp h
  have decoded : Snapshot.decode state.counter.encode = .ok state.counter :=
    Snapshot.decode_encode valid (gaps_lt_of_sizedBytes hs)
  have found : Reads (format (Snapshot.decode state.counter.encode)) [] state.counter :=
    decoded ▸ reads_format _
  rw [← List.append_nil raw]
  exact (reads_key state.key).bind
    ((reads_sized_of_ok hs).bind (found.map fun counter => PartitionState.mk state.key counter))

theorem reads_states {partitions : List PartitionState} {parts : List Bytes}
    (valid : ∀ p ∈ partitions, p.counter.validate = .ok ())
    (h : partitions.mapM stateBytes = .ok parts) :
    Reads (scanStates partitions.length) parts.flatten partitions := by
  induction partitions generalizing parts with
  | nil =>
      cases h
      exact Reads.pure []
  | cons state partitions ih =>
      rw [List.mapM_cons] at h
      obtain ⟨first, hs, h⟩ := bind_eq_ok.mp h
      obtain ⟨rest, hp, ⟨⟩⟩ := bind_eq_ok.mp h
      have head := reads_state (valid state List.mem_cons_self) hs
      have tail := ih (fun p hp => valid p (List.mem_cons_of_mem _ hp)) hp
      exact head.bind (tail.map fun partitions => state :: partitions)

/-! ## Whole payloads -/

theorem reads_payload {record : Record} {bs : Bytes} (wf : record.WellFormed)
    (h : record.payloadBytes = .ok bs) : Reads (scan record.kind) bs record := by
  cases record with
  | header version => exact wf.elim
  | data key number payload =>
      simp only [payloadBytes] at h
      obtain ⟨raw, hs, ⟨⟩⟩ := bind_eq_ok.mp h
      rw [List.append_assoc]
      exact (reads_key key).bind ((reads_word64 number).bind
        ((reads_sized_of_ok hs).map fun payload => Record.data key number payload))
  | pageInsert group page payload =>
      simp only [payloadBytes] at h
      obtain ⟨raw, hs, ⟨⟩⟩ := bind_eq_ok.mp h
      rw [pageBytes, List.append_assoc]
      exact (reads_word32 group.val).bind ((reads_word64 page.val).bind
        ((reads_sized_of_ok hs).map fun payload => Record.pageInsert group page payload))
  | pageUpdate u =>
      simp only [payloadBytes] at h
      obtain ⟨raw, hs, ⟨⟩⟩ := bind_eq_ok.mp h
      simp only [pageBytes, List.append_assoc]
      exact (reads_word32 u.group.val).bind ((reads_word64 u.page.val).bind
        ((reads_word16 u.item).bind ((reads_word32 u.size).bind
          ((reads_source wf hs).map fun source =>
            Record.pageUpdate ⟨u.group, u.page, u.item, u.size, source.1, source.2⟩))))
  | pageRemove group page item =>
      simp only [payloadBytes] at h
      cases h
      rw [pageBytes, List.append_assoc]
      exact (reads_word32 group.val).bind ((reads_word64 page.val).bind
        ((reads_word16 item).map fun item => Record.pageRemove group page item))
  | checkpoint id partitions =>
      simp only [payloadBytes] at h
      split at h
      · cases h
      rename_i few
      obtain ⟨parts, hp, ⟨⟩⟩ := bind_eq_ok.mp h
      rw [List.append_assoc]
      exact (reads_word64 id).bind ((reads_number 4 (Nat.lt_of_not_le few)).bind
        ((reads_states wf hp).map fun partitions => Record.checkpoint id partitions))

/-- A record that can be written is what its payload is read as. -/
theorem ofPayload_payloadBytes {record : Record} {bs : Bytes} (wf : record.WellFormed)
    (h : record.payloadBytes = .ok bs) : ofPayload record.kind bs = .ok record :=
  ofPayload_of_reads (reads_payload wf h)

end Record
end SegmentLog
