import SegmentLog.Proofs.Frame.RoundTrip
import SegmentLog.Proofs.Record.Exact

/-!
# Frames have no second reading

A frame that can be read is the frame of the record it is read as, byte for byte, checksum
included (`encode_of_decode`). With `decode_encode` this makes reading and writing inverse to each
other: nothing but frames is read, and a record has one frame in each format. The same holds for
the header of a segment, which only has to be in front of it.
-/
namespace SegmentLog
namespace Frame

theorem declared_lt (bs : Bytes) : declared bs < UInt32.size := by
  have width : (bs.slice 1 4).length ≤ 4 := List.length_take_le ..
  exact Nat.lt_of_lt_of_le (Bytes.ofLE_lt _) (Nat.pow_le_pow_right (by decide) width)

/-- Bytes that are long enough for what they declare start with a body. -/
theorem take_eq_body {bs : Bytes} {kind : RecordKind} (first : bs.head? = some kind.toByte)
    (long : leadSize + declared bs ≤ bs.length) :
    bs.take (leadSize + declared bs) = body kind (bs.slice leadSize (declared bs)) := by
  have payload : (bs.slice leadSize (declared bs)).length = declared bs := Bytes.length_slice long
  have width : (bs.slice 1 4).length = 4 :=
    Bytes.length_slice (Nat.le_trans (Nat.le_add_right leadSize _) long)
  have length : Bytes.toLE 4 (declared bs) = bs.slice 1 4 := Bytes.toLE_mod width
    (Nat.mod_eq_of_lt (declared_lt bs)).symm
  cases bs with
  | nil => cases first
  | cons b rest =>
      cases first
      rw [body, payload, length, List.take_add, leadSize]
      rfl

/-- The bytes after a body pass as its trailer only if they are. -/
theorem verify_eq_ok {f : Format} {bs tail : Bytes} (length : tail.length = f.trailerSize)
    (h : verify f bs tail = .ok ()) : tail = trailer f bs := by
  cases f with
  | unchecked => exact List.eq_nil_of_length_eq_zero length
  | checked =>
      simp only [verify] at h
      split at h
      · rename_i same
        rw [trailer, ← same]
        exact (Bytes.toLE_mod length (UInt32.toNat_ofNat' ..)).symm
      · cases h

/-- What reading a frame checks beside its kind and its length. -/
theorem decode_checks {f : Format} {bs : Bytes} {record : Record} (h : decode f bs = .ok record) :
    verify f (bs.take (leadSize + declared bs)) (bs.drop (leadSize + declared bs)) = .ok () ∧
      Record.ofPayload record.kind (bs.slice leadSize (declared bs)) = .ok record := by
  unfold decode at h
  cases bs with
  | nil => cases h
  | cons first rest =>
      dsimp only at h
      split at h
      · cases h
      cases hk : RecordKind.ofByte? first with
      | none =>
          rw [hk] at h
          cases h
      | some kind =>
          rw [hk] at h
          dsimp only at h
          split at h
          · cases h
          split at h
          · cases h
          obtain ⟨_, passes, h⟩ := bind_eq_ok.mp h
          obtain rfl := Record.ofPayload_kind h
          exact ⟨passes, h⟩

/-- A frame that can be read takes apart as it was put together. -/
theorem encode_of_decode {f : Format} {bs : Bytes} {record : Record}
    (h : decode f bs = .ok record) : record.WellFormed ∧ encode f record = .ok bs := by
  obtain ⟨⟨rest, start⟩, kind, total⟩ := decode_eq_ok h
  obtain ⟨passes, inner⟩ := decode_checks h
  obtain ⟨wf, payload⟩ := Record.payloadBytes_ofPayload inner
  have first : bs.head? = some record.kind.toByte := by rw [start, List.head?_cons]
  have long : leadSize + declared bs ≤ bs.length := by
    rw [total, size]
    omega
  have back : (bs.drop (leadSize + declared bs)).length = f.trailerSize := by
    rw [List.length_drop, total, size]
    omega
  have front := take_eq_body first long
  have tail := verify_eq_ok back passes
  have fits : ¬UInt32.size ≤ (bs.slice leadSize (declared bs)).length := by
    rw [Bytes.length_slice long]
    exact Nat.not_le.mpr (declared_lt bs)
  refine ⟨wf kind, ?_⟩
  rw [encode, payload]
  change (if UInt32.size ≤ _ then _ else _) = _
  rw [if_neg fits, ← front, ← tail, List.take_append_drop]
  rfl

end Frame

theorem Format.ofVersion?_eq_some {version : UInt16} {f : Format} :
    ofVersion? version = some f ↔ version = f.version := by
  constructor
  · intro h
    unfold ofVersion? at h
    split at h
    · cases h
      rfl
    · cases h
      rfl
    · cases h
  · rintro rfl
    exact ofVersion?_version f

namespace Header

/-- The format that a segment is read by is the one whose header it starts with. -/
theorem encode_of_decode {f : Format} {bs : Bytes} (h : decode bs = .ok f) :
    encode f = bs.take size := by
  have length : (bs.take size).length = size := List.length_take_of_le (size_le_of_decode h)
  simp only [decode] at h
  split at h
  · cases h
  split at h
  · cases h
  rename_i kind
  split at h
  · cases h
  rename_i declared
  split at h
  · cases h
  rename_i checksum
  split at h
  · rename_i version inner
    split at h
    · rename_i found known
      cases h
      rw [not_not] at kind declared checksum
      have named : Bytes.slice (bs.take size) Frame.leadSize payloadSize = payload f.version := by
        have written := (Record.payloadBytes_ofPayload inner).2
        rw [Record.payloadBytes, Format.ofVersion?_eq_some.mp known] at written
        exact (Except.ok.inj written).symm
      have first : (bs.take size).head? = some RecordKind.header.toByte := by
        cases start : bs.take size with
        | nil =>
            rw [start] at length
            cases length
        | cons b rest =>
            rw [start] at kind
            rw [List.head?_cons, ← kind, List.headD_cons]
      have front := Frame.take_eq_body first (by rw [declared, length]; decide)
      rw [declared, named] at front
      have passes : Frame.verify .checked ((bs.take size).take (Frame.leadSize + payloadSize))
          ((bs.take size).drop (Frame.leadSize + payloadSize)) = .ok () := if_pos checksum
      have back := Frame.verify_eq_ok (by rw [List.length_drop, length]; rfl) passes
      rw [encode, ← front, ← back, List.take_append_drop]
    · cases h
  · cases h
  · cases h

theorem decode_eq_ok_iff {f : Format} {bs : Bytes} : decode bs = .ok f ↔ encode f <+: bs := by
  constructor
  · intro h
    rw [encode_of_decode h]
    exact List.take_prefix ..
  · rintro ⟨rest, rfl⟩
    rw [← decode_take, List.take_left' (length_encode f), decode_encode]

end Header

/-- Reading undoes writing and nothing else can be read. A frame is read as a record just if it is
what is written for that record, and any other bytes are damage at the place they were read from;
a segment is of a version just if it starts with the header of that version. -/
theorem Frame.decode_exact (f : Format) (at_ : Pointer) (bs : Bytes) :
    (∀ record, (decode f bs).mapError (Error.atPointer at_) = .ok record ↔
      record.WellFormed ∧ encode f record = .ok bs) ∧
    ((¬∃ record : Record, record.WellFormed ∧ encode f record = .ok bs) →
      ∃ fault, (decode f bs).mapError (Error.atPointer at_) =
        .error (.record at_.segment at_.offset fault) ∧
        (Error.record at_.segment at_.offset fault).isRecordDamage) ∧
    ∀ version, (Header.decode bs).map Format.version = .ok version ↔
      ∃ header, Header.ofVersion version = .ok header ∧ header <+: bs := by
  have exact_ : ∀ record, (decode f bs).mapError (Error.atPointer at_) = .ok record ↔
      record.WellFormed ∧ encode f record = .ok bs := by
    intro record
    rw [mapError_eq_ok]
    constructor
    · intro h
      exact encode_of_decode h
    · rintro ⟨wf, h⟩
      exact decode_encode wf h
  refine ⟨exact_, ?_, ?_⟩
  · intro other
    cases h : decode f bs with
    | ok record => exact absurd ⟨record, encode_of_decode h⟩ other
    | error fault => exact ⟨fault, rfl, rfl⟩
  · intro version
    constructor
    · intro h
      obtain ⟨g, found, rfl⟩ := map_eq_ok.mp h
      refine ⟨Header.encode g, ?_, ?_⟩
      · rw [Header.ofVersion, Format.ofVersion?_version]
      · exact Header.decode_eq_ok_iff.mp found
    · rintro ⟨header, written, front⟩
      unfold Header.ofVersion at written
      split at written
      · rename_i g known
        cases written
        rw [Header.decode_eq_ok_iff.mpr front, Format.ofVersion?_eq_some.mp known]
        rfl
      · cases written

end SegmentLog
