import SegmentLog.Proofs.Record.RoundTrip

/-!
# Payloads have no second reading

Whatever bytes a scan accepts, they are the bytes that are written for what it found: each field is
dealt with once, as for reading back what was written, and a record is put together from its fields.
So a payload that can be read is the payload of the record it is read as, and that record is well
formed (`payloadBytes_ofPayload`).
-/
namespace SegmentLog

theorem Bytes.ofLE_lt (bs : Bytes) : ofLE bs < 256 ^ bs.length := by
  induction bs with
  | nil => simp [ofLE]
  | cons b bs ih =>
      have := b.toNat_lt
      rw [ofLE, List.length_cons, Nat.pow_succ]
      omega

/-- A number that was read from bytes of its width is written as these bytes. -/
theorem Bytes.toLE_mod {bs : Bytes} {width n : ℕ} (hl : bs.length = width)
    (hn : n = ofLE bs % 256 ^ width) : toLE width n = bs := by
  subst hl hn
  rw [Nat.mod_eq_of_lt (ofLE_lt bs), toLE_ofLE]

/-- Both are the bytes in front of and behind one place. -/
theorem Bytes.slice_append_drop (bs : Bytes) (offset len : ℕ) :
    bs.slice offset len ++ bs.drop (offset + len) = bs.drop offset := by
  rw [slice, ← List.drop_drop, List.take_append_drop]

/-! ## Forms outside of records -/

namespace Pointer

theorem toBytes_ofBytes {p : Pointer} {bs : Bytes} (hl : bs.length = externalSize)
    (h : ofBytes bs = .ok p) : p.toBytes = .ok bs := by
  simp only [ofBytes] at h
  split at h
  · cases h
  split at h
  · rename_i representable
    cases h
    unfold externalSize at hl
    have segment : Bytes.toLE 8 (Bytes.ofLE (bs.slice 0 8)) = bs.slice 0 8 :=
      Bytes.toLE_mod (Bytes.length_slice (by omega)) (Nat.mod_eq_of_lt
        (Nat.lt_trans representable.1 (by decide))).symm
    have offset : Bytes.toLE 4 (Bytes.ofLE (bs.slice 8 4)) = bs.slice 8 4 :=
      Bytes.toLE_mod (Bytes.length_slice (by omega)) (Nat.mod_eq_of_lt
        (Nat.lt_trans representable.2.1 (by decide))).symm
    have length : Bytes.toLE 4 (Bytes.ofLE (bs.slice 12 4)) = bs.slice 12 4 :=
      Bytes.toLE_mod (Bytes.length_slice (by omega)) (Nat.mod_eq_of_lt
        (Nat.lt_trans representable.2.2 (by decide))).symm
    have parts : bs.slice 0 8 ++ bs.slice 8 4 ++ bs.slice 12 4 = bs := by
      have last : bs.drop (12 + 4) = [] := List.drop_eq_nil_of_le (by omega)
      have back := bs.slice_append_drop 12 4
      rw [last, List.append_nil] at back
      rw [back, List.append_assoc, bs.slice_append_drop 8 4, bs.slice_append_drop 0 8,
        List.drop_zero]
    rw [toBytes, if_pos representable, segment, offset, length, parts]
  · cases h

end Pointer

namespace Snapshot

theorem encode_decodeGaps (count : ℕ) (bs : Bytes) (hl : bs.length = count * gapSize) :
    (decodeGaps count bs).length = count ∧ (decodeGaps count bs).flatMap Gap.encode = bs := by
  induction count generalizing bs with
  | zero =>
      rw [Nat.zero_mul] at hl
      exact ⟨rfl, (List.eq_nil_of_length_eq_zero hl).symm⟩
  | succ count ih =>
      unfold gapSize at hl
      obtain ⟨length, rest⟩ := ih (bs.drop gapSize) (by rw [List.length_drop, gapSize]; omega)
      have start : Bytes.toLE 8 (UInt64.ofNat (Bytes.ofLE (bs.slice 0 8))).toNat = bs.slice 0 8 :=
        Bytes.toLE_mod (Bytes.length_slice (by omega)) (UInt64.toNat_ofNat' ..)
      have len : Bytes.toLE 8 (UInt64.ofNat (Bytes.ofLE (bs.slice 8 8))).toNat = bs.slice 8 8 :=
        Bytes.toLE_mod (Bytes.length_slice (by omega)) (UInt64.toNat_ofNat' ..)
      refine ⟨by rw [decodeGaps, List.length_cons, length], ?_⟩
      rw [decodeGaps, List.flatMap_cons, rest, Gap.encode, start, len, List.append_assoc, gapSize,
        bs.slice_append_drop 8 8, bs.slice_append_drop 0 8, List.drop_zero]

/-- Bytes as long as they say are those of a snapshot, which need not be valid. -/
theorem exists_encode {bs : Bytes}
    (hl : bs.length = headSize + Bytes.ofLE (bs.slice 8 4) * gapSize) :
    ∃ s : Snapshot, s.gaps.length < UInt32.size ∧ s.encode = bs := by
  have width : (bs.slice 8 4).length = 4 :=
    Bytes.length_slice (by rw [hl]; exact Nat.le_add_right headSize _)
  obtain ⟨count, gaps⟩ := encode_decodeGaps (Bytes.ofLE (bs.slice 8 4)) (bs.drop headSize)
    (by rw [List.length_drop, hl, Nat.add_sub_cancel_left])
  have applied : Bytes.toLE 8 (UInt64.ofNat (Bytes.ofLE (bs.slice 0 8))).toNat = bs.slice 0 8 :=
    Bytes.toLE_mod (Bytes.length_slice (by rw [hl, headSize]; omega)) (UInt64.toNat_ofNat' ..)
  have number : Bytes.toLE 4 (Bytes.ofLE (bs.slice 8 4)) = bs.slice 8 4 := by
    have := Bytes.toLE_ofLE (bs.slice 8 4)
    rwa [width] at this
  refine ⟨⟨.ofNat (Bytes.ofLE (bs.slice 0 8)),
    decodeGaps (Bytes.ofLE (bs.slice 8 4)) (bs.drop headSize)⟩, ?_, ?_⟩
  · have := Bytes.ofLE_lt (bs.slice 8 4)
    rw [width] at this
    rwa [count]
  · rw [encode, count, gaps, applied, number, List.append_assoc, headSize,
      bs.slice_append_drop 8 4, bs.slice_append_drop 0 8, List.drop_zero]

theorem decode_of_short {bs : Bytes} (short : bs.length < headSize) :
    decode bs = .error (.snapshotTooShort bs.length) := by
  rw [decode, if_pos short]
  rfl

theorem decode_of_length {bs : Bytes} {gaps expected : ℕ} (long : headSize ≤ bs.length)
    (declared : gaps = Bytes.ofLE (bs.slice 8 4)) (sum : expected = headSize + gaps * gapSize)
    (differ : bs.length ≠ expected) :
    decode bs = .error (.snapshotLength gaps expected bs.length) := by
  subst sum declared
  simp only [decode]
  rw [if_neg (Nat.not_lt.mpr long), if_pos differ]
  rfl

/-- Bytes are of a length that is refused, or those of a snapshot. -/
theorem length_cases (bs : Bytes) :
    bs.length < headSize ∨
      (headSize ≤ bs.length ∧ bs.length ≠ headSize + Bytes.ofLE (bs.slice 8 4) * gapSize) ∨
        ∃ s : Snapshot, s.gaps.length < UInt32.size ∧ s.encode = bs := by
  by_cases short : bs.length < headSize
  · exact .inl short
  refine .inr ?_
  by_cases length : bs.length = headSize + Bytes.ofLE (bs.slice 8 4) * gapSize
  · exact .inr (exists_encode length)
  · exact .inl ⟨Nat.le_of_not_lt short, length⟩

/-- A snapshot that was read is valid and has no other form. -/
theorem encode_of_decode {s : Snapshot} {bs : Bytes} (h : decode bs = .ok s) :
    s.gaps.length < UInt32.size ∧ s.validate = .ok () ∧ s.encode = bs := by
  obtain short | ⟨long, differ⟩ | ⟨s', fits, rfl⟩ := length_cases bs
  · cases (decode_of_short short).symm.trans h
  · cases (decode_of_length long rfl rfl differ).symm.trans h
  · rw [decode_encode_eq fits] at h
    cases valid : s'.validate with
    | error fault =>
        rw [valid] at h
        cases h
    | ok _ =>
        rw [valid] at h
        cases h
        exact ⟨fits, valid, rfl⟩

end Snapshot

/-! ## Scans -/

namespace Cursor
variable {α β : Type}

/-- Whatever the scan finds, the bytes it took are some that are written for it. -/
def Takes (m : Scan α) (Written : α → Bytes → Prop) : Prop :=
  ∀ c c' a, m c = .ok (a, c') → ∃ bs, c.rest = bs ++ c'.rest ∧ Written a bs

theorem Takes.imp {m : Scan α} {Written Written' : α → Bytes → Prop} (h : Takes m Written)
    (imp : ∀ a bs, Written a bs → Written' a bs) : Takes m Written' := by
  intro c c' a found
  obtain ⟨bs, rest, written⟩ := h c c' a found
  exact ⟨bs, rest, imp a bs written⟩

theorem takes_pure (a : α) : Takes (pure a) fun b bs => b = a ∧ bs = [] := by
  rintro c _ _ ⟨⟩
  exact ⟨[], rfl, rfl, rfl⟩

theorem takes_throw (fault : RecordFault) (Written : α → Bytes → Prop) :
    Takes (throw fault) Written := by
  rintro c _ _ ⟨⟩

theorem Takes.bind {m : Scan α} {f : α → Scan β} {Written : α → Bytes → Prop}
    {Written' : α → β → Bytes → Prop} (hm : Takes m Written) (hf : ∀ a, Takes (f a) (Written' a)) :
    Takes (m >>= f) fun b bs => ∃ a front back, bs = front ++ back ∧ Written a front ∧
      Written' a b back := by
  intro c c' b found
  change (m c >>= fun r => f r.1 r.2) = _ at found
  obtain ⟨⟨a, c₁⟩, first, second⟩ := bind_eq_ok.mp found
  obtain ⟨front, before, written⟩ := hm c c₁ a first
  obtain ⟨back, after, written'⟩ := hf a c₁ c' b second
  exact ⟨front ++ back, by rw [before, after, List.append_assoc], a, front, back, rfl, written,
    written'⟩

/-- The last field of a value. -/
theorem Takes.map {m : Scan α} {Written : α → Bytes → Prop} (hm : Takes m Written) (f : α → β) :
    Takes (m >>= fun a => pure (f a)) fun b bs => ∃ a, Written a bs ∧ b = f a := by
  refine (hm.bind fun a => takes_pure (f a)).imp ?_
  rintro b bs ⟨a, front, back, rfl, written, rfl, rfl⟩
  exact ⟨a, by rwa [List.append_nil], rfl⟩

theorem takes_take (n : ℕ) : Takes (take n) fun a bs => bs = a ∧ a.length = n := by
  intro c c' a found
  simp only [take] at found
  split at found
  · rename_i length
    cases found
    exact ⟨_, (List.take_append_drop n c.rest).symm, rfl, length⟩
  · cases found

theorem takes_number (width : ℕ) :
    Takes (number width) fun n bs => bs = Bytes.toLE width n ∧ n < 256 ^ width := by
  refine ((takes_take width).map Bytes.ofLE).imp ?_
  rintro _ raw ⟨_, ⟨rfl, rfl⟩, rfl⟩
  exact ⟨(Bytes.toLE_ofLE raw).symm, Bytes.ofLE_lt raw⟩

theorem takes_byte : Takes byte fun b bs => bs = [b] := by
  refine ((takes_number 1).map UInt8.ofNat).imp ?_
  rintro _ _ ⟨n, ⟨rfl, -⟩, rfl⟩
  rfl

theorem takes_word16 : Takes word16 fun w bs => bs = Bytes.toLE 2 w.toNat := by
  refine ((takes_number 2).map UInt16.ofNat).imp ?_
  rintro _ _ ⟨n, ⟨rfl, small⟩, rfl⟩
  rw [UInt16.toNat_ofNat_of_lt' small]

theorem takes_word32 : Takes word32 fun w bs => bs = Bytes.toLE 4 w.toNat := by
  refine ((takes_number 4).map UInt32.ofNat).imp ?_
  rintro _ _ ⟨n, ⟨rfl, small⟩, rfl⟩
  rw [UInt32.toNat_ofNat_of_lt' small]

theorem takes_word64 : Takes word64 fun w bs => bs = Bytes.toLE 8 w.toNat := by
  refine ((takes_number 8).map UInt64.ofNat).imp ?_
  rintro _ _ ⟨n, ⟨rfl, small⟩, rfl⟩
  rw [UInt64.toNat_ofNat_of_lt' small]

theorem takes_sized : Takes sized fun a bs => Record.sizedBytes a = .ok bs := by
  refine ((takes_number 4).bind takes_take).imp ?_
  rintro a _ ⟨_, _, _, rfl, ⟨rfl, small⟩, rfl, rfl⟩
  exact if_pos small

theorem takes_format (x : Except FormatFault α) :
    Takes (format x) fun a bs => x = .ok a ∧ bs = [] := by
  cases x with
  | error fault => exact takes_throw _ _
  | ok a =>
      refine (takes_pure a).imp ?_
      rintro _ _ ⟨rfl, rfl⟩
      exact ⟨rfl, rfl⟩

end Cursor

namespace Record
open Cursor

theorem takes_key : Takes scanKey fun key bs => bs = keyBytes key := by
  refine (takes_word32.bind fun group => takes_word16.map fun partition =>
    PartitionKey.mk ⟨group⟩ ⟨partition⟩).imp ?_
  rintro _ _ ⟨group, _, _, rfl, rfl, partition, rfl, rfl⟩
  rfl

theorem takes_source (size : UInt32) : Takes (scanSource size) fun source bs =>
    (source.1.isSome → source.2 = []) ∧ ∀ group page item,
      sourceBytes ⟨group, page, item, size, source.1, source.2⟩ = .ok bs := by
  unfold scanSource
  refine (takes_byte.bind fun flag => show Takes _ fun source bs =>
    (source.1.isSome → source.2 = []) ∧ ∀ group page item,
      sourceBytes ⟨group, page, item, size, source.1, source.2⟩ = .ok (flag :: bs)
    from ?_).imp ?_
  · split
    case h_1 =>
      -- the bytes themselves
      refine ((takes_take size.toNat).map fun payload => (none, payload)).imp ?_
      rintro _ payload ⟨_, ⟨rfl, length⟩, rfl⟩
      constructor
      · intro reference
        cases reference
      · intro group page item
        exact if_pos length
    case h_2 =>
      -- a pointer instead of them
      refine ((takes_take Pointer.externalSize).bind fun raw =>
        (takes_format (Pointer.ofBytes raw)).map fun p => (some p, ([] : Bytes))).imp ?_
      rintro _ _ ⟨raw, _, _, rfl, ⟨rfl, length⟩, p, ⟨found, rfl⟩, rfl⟩
      refine ⟨fun _ => rfl, fun group page item => ?_⟩
      simp only [sourceBytes, Pointer.toBytes_ofBytes length found, List.append_nil]
      rfl
    case h_3 => exact takes_throw _ _
  · rintro source _ ⟨flag, _, bs, rfl, rfl, written⟩
    exact written

theorem takes_state : Takes scanState fun state bs =>
    state.counter.validate = .ok () ∧ stateBytes state = .ok bs := by
  refine (takes_key.bind fun key => takes_sized.bind fun raw =>
    (takes_format (Snapshot.decode raw)).map fun counter => PartitionState.mk key counter).imp ?_
  rintro _ _ ⟨key, _, _, rfl, rfl, raw, bs, _, rfl, sized, counter, ⟨found, rfl⟩, rfl⟩
  obtain ⟨-, valid, encoded⟩ := Snapshot.encode_of_decode found
  refine ⟨valid, ?_⟩
  rw [stateBytes, encoded, sized, List.append_nil]
  rfl

theorem takes_states (count : ℕ) : Takes (scanStates count) fun partitions bs =>
    partitions.length = count ∧ (∀ p ∈ partitions, p.counter.validate = .ok ()) ∧
      ∃ parts, partitions.mapM stateBytes = .ok parts ∧ parts.flatten = bs := by
  induction count with
  | zero =>
      refine (takes_pure []).imp ?_
      rintro _ _ ⟨rfl, rfl⟩
      exact ⟨rfl, by simp, [], rfl, rfl⟩
  | succ count ih =>
      refine (takes_state.bind fun state => ih.map fun partitions => state :: partitions).imp ?_
      rintro _ _ ⟨state, front, back, rfl, ⟨valid, head⟩, partitions,
        ⟨length, rest, parts, tail, rfl⟩, rfl⟩
      refine ⟨by rw [List.length_cons, length], List.forall_mem_cons.mpr ⟨valid, rest⟩,
        front :: parts, ?_, rfl⟩
      rw [List.mapM_cons, head, tail]
      rfl

/-- Whatever bytes a scan accepts as a record, they are its payload. -/
theorem takes_scan (kind : RecordKind) : Takes (scan kind) fun record bs =>
    (kind ≠ .header → record.WellFormed) ∧ record.payloadBytes = .ok bs := by
  cases kind with
  | header =>
      refine ((takes_take 4).bind fun found => show Takes _ fun record bs => found = magic ∧
        ∃ version, bs = Bytes.toLE 2 version.toNat ∧ record = .header version from ?_).imp ?_
      · split
        · refine ((takes_throw .badMagic fun _ _ => False).bind fun _ =>
            takes_word16.map Record.header).imp ?_
          rintro _ _ ⟨_, _, _, _, impossible, _⟩
          exact impossible.elim
        · rename_i same
          refine (takes_word16.map Record.header).imp ?_
          rintro _ _ ⟨version, rfl, rfl⟩
          exact ⟨not_not.mp same, version, rfl, rfl⟩
      · rintro _ _ ⟨_, _, _, rfl, ⟨rfl, -⟩, rfl, version, rfl, rfl⟩
        exact ⟨fun h => absurd rfl h, rfl⟩
  | data =>
      refine (takes_key.bind fun key => takes_word64.bind fun number =>
        takes_sized.map fun payload => Record.data key number payload).imp ?_
      rintro _ _ ⟨key, _, _, rfl, rfl, number, _, _, rfl, rfl, payload, sized, rfl⟩
      refine ⟨fun _ => trivial, ?_⟩
      rw [payloadBytes, sized, ← List.append_assoc]
      rfl
  | pageInsert =>
      refine (takes_word32.bind fun group => takes_word64.bind fun page =>
        takes_sized.map fun payload => Record.pageInsert ⟨group⟩ ⟨page⟩ payload).imp ?_
      rintro _ _ ⟨group, _, _, rfl, rfl, page, _, _, rfl, rfl, payload, sized, rfl⟩
      refine ⟨fun _ => trivial, ?_⟩
      rw [payloadBytes, sized, ← List.append_assoc]
      rfl
  | pageUpdate =>
      refine (takes_word32.bind fun group => takes_word64.bind fun page =>
        takes_word16.bind fun item => takes_word32.bind fun size =>
          (takes_source size).map fun source =>
            Record.pageUpdate ⟨⟨group⟩, ⟨page⟩, item, size, source.1, source.2⟩).imp ?_
      rintro _ _ ⟨group, _, _, rfl, rfl, page, _, _, rfl, rfl, item, _, _, rfl, rfl, size, _, bs,
        rfl, rfl, source, ⟨inline, written⟩, rfl⟩
      refine ⟨fun _ => inline, ?_⟩
      simp only [payloadBytes, written, pageBytes, List.append_assoc]
      rfl
  | pageRemove =>
      refine (takes_word32.bind fun group => takes_word64.bind fun page =>
        takes_word16.map fun item => Record.pageRemove ⟨group⟩ ⟨page⟩ item).imp ?_
      rintro _ _ ⟨group, _, _, rfl, rfl, page, _, _, rfl, rfl, item, rfl, rfl⟩
      refine ⟨fun _ => trivial, ?_⟩
      rw [payloadBytes, pageBytes, List.append_assoc]
  | checkpoint =>
      refine (takes_word64.bind fun id => (takes_number 4).bind fun count =>
        (takes_states count).map fun partitions => Record.checkpoint id partitions).imp ?_
      rintro _ _ ⟨id, _, _, rfl, rfl, _, _, _, rfl, ⟨rfl, small⟩, partitions,
        ⟨rfl, valid, parts, written, rfl⟩, rfl⟩
      have few : ¬UInt32.size ≤ partitions.length := Nat.not_le.mpr small
      refine ⟨fun _ => valid, ?_⟩
      simp only [payloadBytes]
      rw [if_neg few, written, ← List.append_assoc]
      rfl

/-- A payload is read as one record only, of which it is the payload. -/
theorem payloadBytes_ofPayload {kind : RecordKind} {bs : Bytes} {record : Record}
    (h : ofPayload kind bs = .ok record) :
    (kind ≠ .header → record.WellFormed) ∧ record.payloadBytes = .ok bs := by
  obtain ⟨⟨found, c⟩, h, ⟨⟩⟩ := bind_eq_ok.mp h
  change (scan kind _ >>= fun r => _) = _ at h
  obtain ⟨⟨first, c₁⟩, scanned, h⟩ := bind_eq_ok.mp h
  change (finish kind c₁ >>= fun r => _) = _ at h
  obtain ⟨⟨_, c₂⟩, finished, ⟨⟩⟩ := bind_eq_ok.mp h
  obtain ⟨taken, rest, wf, written⟩ := takes_scan kind _ _ _ scanned
  have used : c₁.rest = [] := by
    simp only [finish] at finished
    split at finished
    · exact List.isEmpty_iff.mp ‹_›
    · cases finished
  rw [used, List.append_nil] at rest
  obtain rfl : bs = taken := rest
  exact ⟨wf, written⟩

end Record
end SegmentLog
