import SegmentLog.Frame
import SegmentLog.Proofs.Record.RoundTrip

/-!
# Frames and the records in them

A frame that was written is read as its record: `decode_encode`. The other way round little is
needed of a frame that can be read, whoever wrote it: it starts with the kind of a record that is
no header, and it has the length that its first bytes declare.
-/
namespace SegmentLog

theorem Cursor.scan_bind_eq_ok {α β : Type} {m : Scan α} {f : α → Scan β} {c : Cursor}
    {found : β × Cursor} (h : (m >>= f) c = .ok found) : ∃ a c', f a c' = .ok found := by
  change (m c >>= fun r => f r.1 r.2) = _ at h
  obtain ⟨⟨a, c'⟩, -, h⟩ := bind_eq_ok.mp h
  exact ⟨a, c', h⟩

namespace Record
open Cursor

theorem scan_kind {kind : RecordKind} {c c' : Cursor} {record : Record}
    (h : scan kind c = .ok (record, c')) : record.kind = kind := by
  cases kind with
  | header =>
      obtain ⟨magic, c, h⟩ := scan_bind_eq_ok h
      split at h
      · obtain ⟨a, c, h⟩ := scan_bind_eq_ok h
        obtain ⟨version, c, ⟨⟩⟩ := scan_bind_eq_ok h
        rfl
      · obtain ⟨version, c, ⟨⟩⟩ := scan_bind_eq_ok h
        rfl
  | data =>
      obtain ⟨key, c, h⟩ := scan_bind_eq_ok h
      obtain ⟨number, c, h⟩ := scan_bind_eq_ok h
      obtain ⟨payload, c, ⟨⟩⟩ := scan_bind_eq_ok h
      rfl
  | pageInsert =>
      obtain ⟨group, c, h⟩ := scan_bind_eq_ok h
      obtain ⟨page, c, h⟩ := scan_bind_eq_ok h
      obtain ⟨payload, c, ⟨⟩⟩ := scan_bind_eq_ok h
      rfl
  | pageUpdate =>
      obtain ⟨group, c, h⟩ := scan_bind_eq_ok h
      obtain ⟨page, c, h⟩ := scan_bind_eq_ok h
      obtain ⟨item, c, h⟩ := scan_bind_eq_ok h
      obtain ⟨size, c, h⟩ := scan_bind_eq_ok h
      obtain ⟨source, c, ⟨⟩⟩ := scan_bind_eq_ok h
      rfl
  | pageRemove =>
      obtain ⟨group, c, h⟩ := scan_bind_eq_ok h
      obtain ⟨page, c, h⟩ := scan_bind_eq_ok h
      obtain ⟨item, c, ⟨⟩⟩ := scan_bind_eq_ok h
      rfl
  | checkpoint =>
      obtain ⟨id, c, h⟩ := scan_bind_eq_ok h
      obtain ⟨count, c, h⟩ := scan_bind_eq_ok h
      obtain ⟨partitions, c, ⟨⟩⟩ := scan_bind_eq_ok h
      rfl

theorem ofPayload_kind {kind : RecordKind} {bs : Bytes} {record : Record}
    (h : ofPayload kind bs = .ok record) : record.kind = kind := by
  obtain ⟨⟨found, c⟩, h, ⟨⟩⟩ := bind_eq_ok.mp h
  change (scan kind _ >>= fun r => _) = _ at h
  obtain ⟨⟨first, c₁⟩, hs, h⟩ := bind_eq_ok.mp h
  obtain ⟨-, c₂, ⟨⟩⟩ := scan_bind_eq_ok h
  exact scan_kind hs

end Record

namespace Frame

theorem length_body (kind : RecordKind) (payload : Bytes) :
    (body kind payload).length = leadSize + payload.length := by
  simp only [body, List.length_cons, List.length_append, Bytes.length_toLE, leadSize]
  omega

theorem length_trailer (f : Format) (bs : Bytes) : (trailer f bs).length = f.trailerSize := by
  cases f with
  | unchecked => rfl
  | checked => exact Bytes.length_toLE ..

theorem leadSize_le_size (f : Format) (len : ℕ) : leadSize ≤ size f len := by
  unfold size
  omega

/-- The length of a frame is in its first five bytes. -/
theorem declared_append {bs : Bytes} (h : leadSize ≤ bs.length) (rest : Bytes) :
    declared (bs ++ rest) = declared bs := by
  unfold leadSize at h
  simp only [declared, Bytes.slice]
  rw [List.drop_append_of_le_length (by omega), List.take_append_of_le_length]
  simp only [List.length_drop]
  omega

theorem declared_body (kind : RecordKind) {payload : Bytes} (fits : payload.length < UInt32.size)
    (rest : Bytes) : declared (body kind payload ++ rest) = payload.length := by
  have : Bytes.slice (body kind payload ++ rest) 1 4 = Bytes.toLE 4 payload.length := by
    rw [body, List.cons_append, List.append_assoc]
    exact Bytes.slice_append [kind.toByte] rfl (Bytes.length_toLE ..)
  rw [declared, this]
  exact Bytes.ofLE_toLE_of_lt 4 fits

theorem verify_trailer (f : Format) (bs : Bytes) : verify f bs (trailer f bs) = .ok () := by
  cases f with
  | unchecked => rfl
  | checked => simp only [verify, trailer, Bytes.ofNat_ofLE_word32, if_true]

/-- What a written frame is made of. -/
theorem encode_eq_ok {f : Format} {record : Record} {frame : Bytes}
    (h : encode f record = .ok frame) : ∃ payload, record.payloadBytes = .ok payload ∧
      payload.length < UInt32.size ∧
      frame = body record.kind payload ++ trailer f (body record.kind payload) := by
  obtain ⟨payload, hp, h⟩ := bind_eq_ok.mp h
  dsimp only at h
  split at h
  · cases h
  · cases h
    exact ⟨payload, hp, by omega, rfl⟩

/-- The bytes start like a record and are as many as their first ones declare. -/
structure Whole (f : Format) (bs : Bytes) : Prop where
  starts : bs.headD 0 ≠ 0
  lead : leadSize ≤ bs.length
  length : bs.length = size f (declared bs)

/-- A frame that was written is whole, whether or not it can be read. -/
theorem whole_of_encode {f : Format} {record : Record} {frame : Bytes}
    (h : encode f record = .ok frame) : Whole f frame := by
  obtain ⟨payload, -, fits, rfl⟩ := encode_eq_ok h
  have declares := declared_body record.kind fits (trailer f (body record.kind payload))
  have total : (body record.kind payload ++ trailer f (body record.kind payload)).length =
      size f payload.length := by
    rw [List.length_append, length_body, length_trailer, size]
  constructor
  · exact RecordKind.toByte_ne_zero record.kind
  · rw [total]
    exact leadSize_le_size ..
  · rw [declares, total]

/-- A frame that was written is read as what its payload says. -/
theorem decode_of_encode {f : Format} {record : Record} {frame : Bytes}
    (kind : record.kind ≠ .header) (h : encode f record = .ok frame) :
    ∃ payload, record.payloadBytes = .ok payload ∧
      decode f frame = Record.ofPayload record.kind payload := by
  obtain ⟨payload, hp, fits, rfl⟩ := encode_eq_ok h
  refine ⟨payload, hp, ?_⟩
  have length := length_body record.kind payload
  have total : (body record.kind payload ++ trailer f (body record.kind payload)).length =
      size f payload.length := by
    rw [List.length_append, length, length_trailer, size]
  have declares := declared_body record.kind fits (trailer f (body record.kind payload))
  have front : (body record.kind payload ++ trailer f (body record.kind payload)).take
      (leadSize + payload.length) = body record.kind payload := List.take_left' length
  have back : (body record.kind payload ++ trailer f (body record.kind payload)).drop
      (leadSize + payload.length) = trailer f (body record.kind payload) := List.drop_left' length
  have inner : Bytes.slice (body record.kind payload ++ trailer f (body record.kind payload))
      leadSize payload.length = payload := by
    have split : body record.kind payload =
        (record.kind.toByte :: Bytes.toLE 4 payload.length) ++ payload := rfl
    rw [split, List.append_assoc]
    exact Bytes.slice_append _ (by simp [leadSize]) rfl
  have long : ¬size f payload.length < size f 0 := by
    simp only [size]
    omega
  have start : body record.kind payload ++ trailer f (body record.kind payload) =
      record.kind.toByte :: (Bytes.toLE 4 payload.length ++ payload ++
        trailer f (body record.kind payload)) := rfl
  unfold decode
  rw [start]
  dsimp only
  rw [← start, declares, front, back, inner, total, if_neg long, RecordKind.ofByte?_toByte]
  dsimp only
  rw [if_neg kind, verify_trailer]
  simp only [ne_eq, not_true_eq_false, if_false]
  rfl

theorem decode_encode {f : Format} {record : Record} {frame : Bytes} (wf : record.WellFormed)
    (h : encode f record = .ok frame) : decode f frame = .ok record := by
  obtain ⟨payload, hp, read⟩ := decode_of_encode wf.kind_ne_header h
  rw [read, Record.ofPayload_payloadBytes wf hp]

/-- What a frame that can be read starts with, and how long it is. -/
theorem decode_eq_ok {f : Format} {bs : Bytes} {record : Record} (h : decode f bs = .ok record) :
    (∃ rest, bs = record.kind.toByte :: rest) ∧ record.kind ≠ .header ∧
      bs.length = size f (declared bs) := by
  unfold decode at h
  cases bs with
  | nil => cases h
  | cons first rest =>
      dsimp only at h
      split at h
      · cases h
      cases hk : RecordKind.ofByte? first with
      | none =>
          rw [hk] at h
          cases h
      | some kind =>
          rw [hk] at h
          dsimp only at h
          split at h
          · cases h
          split at h
          · cases h
          rename_i length
          obtain ⟨-, -, h⟩ := bind_eq_ok.mp h
          have same := Record.ofPayload_kind h
          have byte := RecordKind.ofByte?_eq_some_iff.mp hk
          subst same byte
          exact ⟨⟨rest, rfl⟩, ‹_›, not_not.mp length⟩

theorem leadSize_le_of_decode {f : Format} {bs : Bytes} {record : Record}
    (h : decode f bs = .ok record) : leadSize ≤ bs.length := by
  rw [(decode_eq_ok h).2.2]
  exact leadSize_le_size ..

theorem whole_of_decode {f : Format} {bs : Bytes} {record : Record}
    (h : decode f bs = .ok record) : Whole f bs := by
  obtain ⟨⟨later, rfl⟩, -, length⟩ := decode_eq_ok h
  exact ⟨RecordKind.toByte_ne_zero record.kind, leadSize_le_of_decode h, length⟩

end Frame

namespace Header

theorem length_encode (f : Format) : (encode f).length = size := by
  cases f <;> rfl

theorem decode_encode (f : Format) : decode (encode f) = .ok f := by
  cases f <;> decide +kernel

/-- Nothing but the header itself is read for the format. -/
theorem decode_take (bs : Bytes) : decode (bs.take size) = decode bs := by
  by_cases h : bs.length ≤ size
  · rw [List.take_of_length_le h]
  · have twice : (bs.take size).take size = bs.take size := by
      rw [List.take_take, Nat.min_self]
    have long : ¬(bs.take size).length < size := by
      rw [List.length_take]
      omega
    simp only [decode, twice, long, if_false]

theorem size_le_of_decode {bs : Bytes} {f : Format} (h : decode bs = .ok f) :
    size ≤ bs.length := by
  simp only [decode] at h
  split at h
  · cases h
  · rw [List.length_take] at *
    omega

end Header
end SegmentLog
