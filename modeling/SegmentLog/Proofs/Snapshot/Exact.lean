import SegmentLog.Proofs.Record.Exact
import SegmentLog.Proofs.Snapshot.InOrder

/-!
# What a snapshot's bytes say

The check of a snapshot passes gaps that are in order, and otherwise names the first gap that is
not (`Snapshot.Faulty`). Together with the lengths this settles every byte string: it is read as the
one snapshot whose bytes it is, or refused with what is wrong with it. Main statement:
`Snapshot.bytes_exact`.
-/
namespace SegmentLog

/-- What is wrong with a gap when `floor` is the last number before it. -/
inductive Gap.Faulty (floor : UInt64) (g : Gap) : FormatFault → Prop
  | empty (vacant : g.numbers = ∅) : Faulty floor g (.emptyGap g.start)
  | order (full : g.numbers.Nonempty) (below : g.start ≤ floor) :
      Faulty floor g (.gapOutOfOrder g.start floor)
  | overflow (full : g.numbers.Nonempty) (above : floor < g.start)
      (large : ∃ n ∈ g.numbers, UInt64.size ≤ n) : Faulty floor g (.gapOverflow g.start g.len)

namespace Snapshot
open Gap

/-- Some gap is faulty, and those before it are in order; it was checked against the highest
number of these. -/
def Faulty (s : Snapshot) (fault : FormatFault) : Prop :=
  ∃ before g after, s.gaps = before ++ g :: after ∧ Gap.InOrder s.applied before ∧
    g.Faulty (highest ⟨s.applied, before⟩) fault

/-! ## The check -/

theorem highest_cons (floor : UInt64) (g : Gap) (gs : List Gap) :
    highest ⟨floor, g :: gs⟩ = highest ⟨g.last, gs⟩ := by
  rw [highest, highest, List.getLast?_cons]
  cases gs.getLast? with
  | none => rfl
  | some last => rfl

/-- The first gap of a list is faulty, or it is in order and one after it is faulty. -/
theorem faulty_cons {floor : UInt64} {g : Gap} {gs : List Gap} {fault : FormatFault} :
    Faulty ⟨floor, g :: gs⟩ fault ↔ g.Faulty floor fault ∨
      Gap.InOrder floor [g] ∧ Faulty ⟨g.last, gs⟩ fault := by
  constructor
  · rintro ⟨before, g', after, parts, ordered, faulty⟩
    cases before with
    | nil =>
        obtain ⟨rfl, rfl⟩ := List.cons.inj parts
        exact .inl faulty
    | cons first before =>
        obtain ⟨rfl, rfl⟩ := List.cons.inj parts
        obtain ⟨nonzero, above, word, rest⟩ := ordered.uncons
        rw [highest_cons] at faulty
        exact .inr ⟨.cons nonzero above word (inOrder_nil _), before, g', after, rfl, rest, faulty⟩
  · rintro (faulty | ⟨right, before, g', after, rfl, ordered, faulty⟩)
    · exact ⟨[], g, gs, rfl, inOrder_nil floor, faulty⟩
    · obtain ⟨nonzero, above, word, -⟩ := right.uncons
      refine ⟨g :: before, g', after, rfl, .cons nonzero above word ordered, ?_⟩
      rwa [highest_cons]

theorem validateGaps_of_faulty {floor : UInt64} {g : Gap} {fault : FormatFault}
    (h : g.Faulty floor fault) (gs : List Gap) : validateGaps floor (g :: gs) = .error fault := by
  cases h with
  | empty vacant => rw [validateGaps, if_pos (numbers_eq_empty.mp vacant)]
  | order full below => rw [validateGaps, if_neg (numbers_nonempty.mp full), if_pos below]
  | overflow full above large =>
      have nonzero := numbers_nonempty.mp full
      rw [validateGaps, if_neg nonzero, if_neg (UInt64.not_le.mpr above),
        if_pos ((exists_large nonzero).mp large)]

theorem validateGaps_cons {floor : UInt64} {g : Gap} (h : Gap.InOrder floor [g]) (gs : List Gap) :
    validateGaps floor (g :: gs) = validateGaps g.last gs := by
  obtain ⟨nonzero, above, word, -⟩ := h.uncons
  rw [validateGaps, if_neg nonzero, if_neg (UInt64.not_le.mpr above), if_neg (Nat.not_le.mpr word)]

/-- A gap is in order if nothing is wrong with it. -/
theorem faulty_or_inOrder (floor : UInt64) (g : Gap) :
    (∃ fault, g.Faulty floor fault) ∨ Gap.InOrder floor [g] := by
  by_cases empty : g.len = 0
  · exact .inl ⟨_, .empty (numbers_eq_empty.mpr empty)⟩
  have full := numbers_nonempty.mpr empty
  by_cases below : g.start ≤ floor
  · exact .inl ⟨_, .order full below⟩
  have above := UInt64.not_le.mp below
  by_cases large : UInt64.size ≤ g.start.toNat + (g.len.toNat - 1)
  · exact .inl ⟨_, .overflow full above ((exists_large empty).mpr large)⟩
  · exact .inr (.cons empty above (Nat.lt_of_not_le large) (inOrder_nil _))

theorem not_inOrder_of_faulty {floor : UInt64} {g : Gap} {fault : FormatFault}
    (h : g.Faulty floor fault) : ¬Gap.InOrder floor [g] := by
  intro ordered
  cases (validateGaps_of_faulty h []).symm.trans (validateGaps_eq_ok.mpr ordered)

theorem validateGaps_eq_error {floor : UInt64} {gs : List Gap} {fault : FormatFault} :
    validateGaps floor gs = .error fault ↔ Faulty ⟨floor, gs⟩ fault := by
  induction gs generalizing floor with
  | nil => simp [validateGaps, Faulty]
  | cons g gs ih =>
      rw [faulty_cons]
      obtain ⟨fault', wrong⟩ | right := faulty_or_inOrder floor g
      · have refused := validateGaps_of_faulty wrong gs
        constructor
        · intro h
          cases refused.symm.trans h
          exact .inl wrong
        · rintro (wrong' | ⟨right, -⟩)
          · exact validateGaps_of_faulty wrong' gs
          · exact absurd right (not_inOrder_of_faulty wrong)
      · rw [validateGaps_cons right, ih]
        refine ⟨fun later => .inr ⟨right, later⟩, ?_⟩
        rintro (wrong | ⟨-, later⟩)
        · exact absurd right (not_inOrder_of_faulty wrong)
        · exact later

/-! ## Bytes -/

theorem decode_eq_ok {bs : Bytes} {s : Snapshot} : decode bs = .ok s ↔
    s.gaps.length < UInt32.size ∧ s.validate = .ok () ∧ s.encode = bs := by
  refine ⟨encode_of_decode, ?_⟩
  rintro ⟨fits, valid, rfl⟩
  exact decode_encode valid fits

/-- What is wrong with bytes that are refused: they are too few to say how many gaps there are, of
another length than they say, or those of a snapshot that is not in order. -/
inductive Refused (bs : Bytes) : FormatFault → Prop
  | short (few : bs.length < headSize) : Refused bs (.snapshotTooShort bs.length)
  | length (long : headSize ≤ bs.length) {gaps expected : ℕ}
      (declared : gaps = Bytes.ofLE (bs.slice 8 4)) (sum : expected = headSize + gaps * gapSize)
      (differ : bs.length ≠ expected) : Refused bs (.snapshotLength gaps expected bs.length)
  | content {s : Snapshot} {fault : FormatFault} (fits : s.gaps.length < UInt32.size)
      (bytes : s.encode = bs) (faulty : s.Faulty fault) : Refused bs fault

theorem decode_eq_error {bs : Bytes} {fault : FormatFault} :
    decode bs = .error fault ↔ Refused bs fault := by
  constructor
  · intro h
    obtain short | ⟨long, differ⟩ | ⟨s, fits, bytes⟩ := length_cases bs
    · cases (decode_of_short short).symm.trans h
      exact .short short
    · cases (decode_of_length long rfl rfl differ).symm.trans h
      exact .length long rfl rfl differ
    · refine .content fits bytes (validateGaps_eq_error.mp ?_)
      rw [← bytes, decode_encode_eq fits] at h
      change s.validate = .error fault
      cases checked : s.validate with
      | error fault' =>
          rw [checked] at h
          cases h
          rfl
      | ok _ =>
          rw [checked] at h
          cases h
  · rintro (few | ⟨long, declared, sum, differ⟩ | ⟨fits, rfl, faulty⟩)
    · exact decode_of_short few
    · exact decode_of_length long declared sum differ
    · have refused : Snapshot.validate _ = .error fault := validateGaps_eq_error.mpr faulty
      rw [decode_encode_eq fits, refused]
      rfl

/-- A byte string is read as the snapshot that is written as it, if the gaps of this snapshot are
few enough to be counted and in order; a number is then in a gap if it is in exactly one of them.
All else is refused for its format, with the first thing that is wrong. -/
theorem bytes_exact (bs : Bytes) (s : Snapshot) :
    (decode bs = .ok s ↔ s.gaps.length < UInt32.size ∧ s.validate = .ok () ∧ s.encode = bs) ∧
      (s.validate = .ok () ↔ s.InOrder) ∧
        (s.validate = .ok () → ∀ n, s.inGap n = true ↔
          ∃! i : Fin s.gaps.length, n.toNat ∈ (s.gaps.get i).numbers) ∧
          (∀ fault, s.validate = .error fault ↔ s.Faulty fault) ∧
            ∀ fault, decode bs = .error fault ↔ Refused bs fault :=
  ⟨decode_eq_ok, validateGaps_eq_ok, fun valid => InOrder.inGap_iff (validateGaps_eq_ok.mp valid),
    fun _ => validateGaps_eq_error, fun _ => decode_eq_error⟩

/-- Two gaps that touch are in order; a gap that starts at `applied` is not. -/
theorem bytes_exact_touching :
    (decode (encode ⟨10, [⟨12, 3⟩, ⟨15, 1⟩]⟩) = .ok ⟨10, [⟨12, 3⟩, ⟨15, 1⟩]⟩ ∧
      ∃! i : Fin 2, 14 ∈ ([Gap.mk 12 3, Gap.mk 15 1].get i).numbers) ∧
      Refused (encode ⟨10, [⟨10, 2⟩]⟩) (.gapOutOfOrder 10 10) := by
  have touching := bytes_exact (encode ⟨10, [⟨12, 3⟩, ⟨15, 1⟩]⟩) ⟨10, [⟨12, 3⟩, ⟨15, 1⟩]⟩
  refine ⟨⟨touching.1.mpr ⟨by decide, by decide, rfl⟩, ?_⟩, ?_⟩
  · exact (touching.2.2.1 (by decide) 14).mp (by decide)
  · exact ((bytes_exact (encode ⟨10, [⟨10, 2⟩]⟩) ⟨10, [⟨10, 2⟩]⟩).2.2.2.2 _).mp (by decide)

end Snapshot
end SegmentLog
