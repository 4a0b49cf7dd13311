import SegmentLog.Proofs.Crc32
import SegmentLog.Proofs.Frame.Exact

/-!
# One damaged byte

Whatever can be read as a checked frame, or as a header, is what was written for it and so ends in
its own check. One byte that was changed afterwards takes that away, so it is noticed wherever it
is: main statement `decode_changed`. Which of the checks of a frame notices it makes no difference;
a header is never taken for one of a version that is not known.

Frames without a checksum are left out: they may well be read with another payload.
-/
namespace SegmentLog

/-- The start of a segment is damaged. A version that is not known is no damage. -/
def Error.isHeaderDamage : Error → Bool
  | header _ (.unsupported _) => false
  | header .. => true
  | _ => false

namespace Frame
variable {record : Record} {frame bs : Bytes}

theorem checked_of_encode (h : encode .checked record = .ok frame) : Crc32.Checked frame := by
  obtain ⟨payload, -, -, rfl⟩ := encode_eq_ok h
  exact ⟨_, rfl⟩

theorem decode_of_not_checked (h : ¬Crc32.Checked bs) :
    ∃ fault, decode .checked bs = .error fault := by
  cases found : decode .checked bs with
  | ok record => exact absurd (checked_of_encode (encode_of_decode found).2) h
  | error fault => exact ⟨fault, rfl⟩

end Frame

namespace Header
variable {bs : Bytes}

theorem checked_encode (f : Format) : Crc32.Checked (encode f) := ⟨_, rfl⟩

/-- The check of a header is looked at before its version. -/
theorem decode_of_not_checked (long : size ≤ bs.length) (h : ¬Crc32.Checked (bs.take size))
    (segment : ℕ) :
    ∃ fault, decode bs = .error fault ∧ (Error.header segment fault).isHeaderDamage := by
  have length : (bs.take size).length = size := List.length_take_of_le long
  simp only [decode]
  rw [if_neg (by omega)]
  split
  · exact ⟨_, rfl, rfl⟩
  split
  · exact ⟨_, rfl, rfl⟩
  split
  · exact ⟨_, rfl, rfl⟩
  rename_i checksum
  rw [not_not] at checksum
  have passes : Frame.verify .checked ((bs.take size).take (Frame.leadSize + payloadSize))
      ((bs.take size).drop (Frame.leadSize + payloadSize)) = .ok () := if_pos checksum
  have back := Frame.verify_eq_ok (by rw [List.length_drop, length]; rfl) passes
  have checked : Crc32.Checked (bs.take size) :=
    ⟨_, by rw [← Frame.trailer, ← back, List.take_append_drop]⟩
  exact absurd checked h

end Header

/-- A checked frame of which one byte was changed is damaged where it is read, and a segment is
damaged if one byte of its header was changed. -/
theorem Frame.decode_changed :
    (∀ record frame, encode .checked record = .ok frame → ∀ (i : ℕ) (a b : UInt8),
      frame[i]? = some a → a ≠ b → ∀ at_ : Pointer,
      ∃ error, (decode .checked (frame.set i b)).mapError (Error.atPointer at_) = .error error ∧
        error.isRecordDamage) ∧
    ∀ version header, Header.ofVersion version = .ok header → ∀ (i : ℕ) (a b : UInt8),
      header[i]? = some a → a ≠ b → ∀ (segment : ℕ) (rest : Bytes),
      ∃ error, (Header.decode (header.set i b ++ rest)).mapError (Error.header segment) =
        .error error ∧ error.isHeaderDamage := by
  constructor
  · intro record frame written i a b there changed at_
    obtain ⟨fault, refused⟩ :=
      decode_of_not_checked ((checked_of_encode written).not_set there changed)
    rw [refused]
    exact ⟨_, rfl, rfl⟩
  · intro version header written i a b there changed segment rest
    unfold Header.ofVersion at written
    split at written
    · rename_i f known
      cases written
      have length : ((Header.encode f).set i b).length = Header.size := by
        rw [List.length_set, Header.length_encode]
      have front : ((Header.encode f).set i b ++ rest).take Header.size =
          (Header.encode f).set i b :=
        List.take_left' length
      have spoiled := (Header.checked_encode f).not_set there changed
      rw [← front] at spoiled
      have long : Header.size ≤ ((Header.encode f).set i b ++ rest).length := by
        rw [List.length_append, length]
        omega
      obtain ⟨fault, refused, damage⟩ := Header.decode_of_not_checked long spoiled segment
      rw [refused]
      exact ⟨_, rfl, damage⟩
    · cases written

/-- The frame of a record. -/
def Frame.removal : Bytes :=
  [5, 14, 0, 0, 0, 1, 0, 0, 0, 2, 0, 0, 0, 0, 0, 0, 0, 7, 0, 208, 241, 20, 43]

/-- The kind is changed to that of another record, and the version to the other one. -/
theorem Frame.decode_changed_kind :
    encode .checked (.pageRemove ⟨1⟩ ⟨2⟩ 7) = .ok removal ∧ removal[0]? = some 5 ∧
    (∃ error, (decode .checked (removal.set 0 3)).mapError (Error.atPointer ⟨6, 15, 0⟩) =
      .error error ∧ error.isRecordDamage) ∧
    Header.ofVersion 2 = .ok (Header.encode .checked) ∧ (Header.encode .checked)[9]? = some 2 ∧
    ∃ error, (Header.decode ((Header.encode .checked).set 9 1 ++ removal)).mapError
      (Error.header 6) = .error error ∧ error.isHeaderDamage := by
  have written : encode .checked (.pageRemove ⟨1⟩ ⟨2⟩ 7) = .ok removal := by decide +kernel
  exact ⟨written, rfl, decode_changed.1 _ _ written 0 5 3 rfl (by decide) ⟨6, 15, 0⟩, rfl, rfl,
    decode_changed.2 2 _ rfl 9 2 1 rfl (by decide) 6 removal⟩

end SegmentLog
