import SegmentLog.Proofs.Segment.Scan

/-!
# Readers see the bytes of their segment

However it fetches, a reader finds at its position what the bytes of the segment hold there:
`next_spec`. Its buffer is always some of the bytes from the position on, and a fetch only makes it
longer. Whatever bytes a segment has, a record that is found in it was decoded from a frame:
`next_decoded`.
-/
namespace SegmentLog

theorem Bytes.slice_zero_min (bs : Bytes) (len : ℕ) :
    bs.slice 0 (min bs.length len) = bs.take len := by
  rw [slice, List.drop_zero, List.take_eq_take_iff]
  omega

namespace Reader

/-- The reader is open on a store that holds these bytes and has not come to their end. -/
structure On (r : Reader) (v : Volume) (bs : Bytes) : Prop where
  stored : ∀ offset len, offset + len ≤ bs.length →
    r.store.readAt v offset len = .ok (bs.slice offset len)
  size : r.size = bs.length
  position_le : r.position ≤ bs.length
  buffered : r.buffered <+: bs.drop r.position
  unfinished : r.finished = false

theorem On.length_buffered {r : Reader} {v : Volume} {bs : Bytes} (h : r.On v bs) :
    r.position + r.buffered.length ≤ bs.length := by
  have := h.buffered.length_le
  have := h.position_le
  rw [List.length_drop] at *
  omega

/-- The same reader with more in its buffer. -/
structure Filled (r r' : Reader) (n : ℕ) : Prop where
  segment : r'.segment = r.segment
  format : r'.format = r.format
  position : r'.position = r.position
  enough : n ≤ r'.buffered.length

theorem fill_spec {v : Volume} {r : Reader} {bs : Bytes} {n : ℕ} (h : r.On v bs)
    (hn : r.position + n ≤ bs.length) :
    ∃ r', r.fill v n = .ok (some r') ∧ r'.On v bs ∧ r.Filled r' n := by
  have buffered := h.length_buffered
  have position := h.position_le
  unfold fill
  split
  · rename_i enough
    exact ⟨r, rfl, h, rfl, rfl, rfl, enough⟩
  · rename_i short
    have capacity := r.le_capacityFor n
    have size := h.size
    rw [if_neg (by omega)]
    dsimp only
    rw [h.stored _ _ (by omega)]
    refine ⟨_, rfl, ⟨h.stored, h.size, h.position_le, ?_, h.unfinished⟩, rfl, rfl, rfl, ?_⟩
    · -- what is fetched follows what was buffered
      obtain ⟨later, hl⟩ := h.buffered
      have next : bs.drop (r.position + r.buffered.length) = later := by
        rw [← List.drop_drop, ← hl, List.drop_left]
      rw [Bytes.slice, next, ← hl]
      exact (List.prefix_append_right_inj _).mpr (List.take_prefix _ _)
    · rw [List.length_append, Bytes.length_slice (by omega)]
      omega

theorem fill_short {v : Volume} {r : Reader} {bs : Bytes} {n : ℕ} (h : r.On v bs)
    (hn : bs.length < r.position + n) : r.fill v n = .ok none := by
  have := h.length_buffered
  have := h.size
  unfold fill
  rw [if_neg (by omega), if_pos (by omega)]

/-- What a full buffer starts with is what the segment holds at the position. -/
theorem On.take_buffered {v : Volume} {r : Reader} {bs : Bytes} {n : ℕ} (h : r.On v bs)
    (hn : n ≤ r.buffered.length) : r.buffered.take n = bs.slice r.position n := by
  obtain ⟨later, hl⟩ := h.buffered
  rw [Bytes.slice, ← hl, List.take_append_of_le_length hn]

theorem On.headD_buffered {v : Volume} {r : Reader} {bs : Bytes} (h : r.On v bs)
    (some_bytes : 1 ≤ r.buffered.length) : r.buffered.headD 0 = (bs.drop r.position).headD 0 := by
  obtain ⟨later, hl⟩ := h.buffered
  rw [← hl]
  cases hb : r.buffered with
  | nil =>
      rw [hb] at some_bytes
      exact absurd some_bytes (by simp)
  | cons b buffered => rfl

theorem On.declared_buffered {v : Volume} {r : Reader} {bs : Bytes} (h : r.On v bs)
    (lead : Frame.leadSize ≤ r.buffered.length) :
    Frame.declared r.buffered = Frame.declared (bs.drop r.position) := by
  obtain ⟨later, hl⟩ := h.buffered
  rw [← hl, Frame.declared_append lead]

/-- Where a reader is after an outcome, and whether it goes on. -/
structure After (r : Reader) (v : Volume) (bs : Bytes) (outcome : Outcome) (r' : Reader) :
    Prop where
  segment : r'.segment = r.segment
  format : r'.format = r.format
  record : ∀ p record, outcome = .record p record →
    r'.On v bs ∧ r'.position = r.position + p.length
  stopped : (∀ p record, outcome ≠ .record p record) → r'.position = r.position ∧ r'.finished = true

theorem After.of_stopped {v : Volume} {bs : Bytes} {outcome : Outcome} {r s : Reader} {n : ℕ}
    (h : r.Filled s n) (stopped : ∀ p record, outcome ≠ .record p record) :
    r.After v bs outcome { s with finished := true } :=
  ⟨h.segment, h.format, fun p record e => absurd e (stopped p record), fun _ => ⟨h.position, rfl⟩⟩

theorem readFrame_spec {v : Volume} {r : Reader} {bs : Bytes} {n : ℕ} (h : r.On v bs)
    (hn : r.position + n ≤ bs.length) :
    ∃ r', r.readFrame v n = .ok
        (match Frame.decode r.format (bs.slice r.position n) with
          | .error fault => .damaged fault
          | .ok record => .record ⟨r.segment, r.position, n⟩ record, r') ∧
      r.After v bs
        (match Frame.decode r.format (bs.slice r.position n) with
          | .error fault => .damaged fault
          | .ok record => .record ⟨r.segment, r.position, n⟩ record) r' := by
  obtain ⟨s, hs, on, filled⟩ := fill_spec h hn
  unfold readFrame
  rw [hs]
  simp only [bind, Except.bind, pure, Except.pure]
  rw [on.take_buffered filled.enough, filled.format, filled.position, filled.segment]
  cases hd : Frame.decode r.format (bs.slice r.position n) with
  | error fault => exact ⟨_, rfl, .of_stopped filled (by simp)⟩
  | ok record =>
      refine ⟨_, rfl, rfl, rfl, ?_, fun other => absurd rfl (other _ _)⟩
      rintro _ _ ⟨⟩
      refine ⟨⟨on.stored, on.size, hn, ?_, on.unfinished⟩, rfl⟩
      obtain ⟨later, hl⟩ := on.buffered
      refine ⟨later, ?_⟩
      dsimp only
      rw [← List.drop_drop, ← filled.position, ← hl, List.drop_append_of_le_length filled.enough]

/-- A reader finds what the bytes of its segment hold. -/
theorem next_spec {v : Volume} {r : Reader} {bs : Bytes} (h : r.On v bs) :
    ∃ r', r.next v = .ok (Segment.read r.format r.segment bs r.position, r') ∧
      r.After v bs (Segment.read r.format r.segment bs r.position) r' := by
  have position := h.position_le
  have filled : r.Filled r 0 := ⟨rfl, rfl, rfl, Nat.zero_le _⟩
  unfold next Segment.read
  simp only [bind, Except.bind, pure, Except.pure, h.unfinished, Bool.false_eq_true, false_or,
    h.size]
  by_cases ended : bs.length ≤ r.position
  · rw [if_pos ended, List.drop_eq_nil_of_le ended]
    exact ⟨_, rfl, .of_stopped filled (by simp)⟩
  obtain ⟨r₁, h₁, on₁, filled₁⟩ := fill_spec (n := 1) h (by omega)
  rw [if_neg ended, h₁]
  dsimp only
  rw [on₁.headD_buffered filled₁.enough, filled₁.position]
  by_cases zero : (bs.drop r.position).headD 0 = 0
  · rw [if_pos zero, if_pos zero]
    exact ⟨_, rfl, .of_stopped filled₁ (by simp)⟩
  rw [if_neg zero, if_neg zero]
  by_cases short : bs.length < r.position + Frame.leadSize
  · rw [if_pos short, fill_short on₁ (by rw [filled₁.position]; exact short)]
    exact ⟨_, rfl, .of_stopped filled₁ (by simp)⟩
  obtain ⟨r₂, h₂, on₂, filled₂⟩ := fill_spec (n := Frame.leadSize) on₁
    (by rw [filled₁.position]; omega)
  have filled₂ : r.Filled r₂ Frame.leadSize :=
    ⟨filled₂.segment.trans filled₁.segment, filled₂.format.trans filled₁.format,
      filled₂.position.trans filled₁.position, filled₂.enough⟩
  rw [if_neg short, h₂]
  dsimp only
  rw [on₂.declared_buffered filled₂.enough, filled₂.format, filled₂.position, on₂.size]
  generalize Frame.size r.format (Frame.declared (bs.drop r.position)) = n
  by_cases past : bs.length < r.position + n
  · rw [if_pos past, if_pos past]
    exact ⟨_, rfl, .of_stopped filled₂ (by simp)⟩
  rw [if_neg past, if_neg past]
  by_cases beyond : Pointer.maxOffset < r.position + n
  · rw [if_pos beyond, if_pos beyond]
    exact ⟨_, rfl, .of_stopped filled₂ (by simp)⟩
  rw [if_neg beyond, if_neg beyond]
  obtain ⟨r', found, after⟩ := readFrame_spec (n := n) on₂ (by rw [filled₂.position]; omega)
  rw [filled₂.format, filled₂.position, filled₂.segment] at found after
  refine ⟨r', found, after.segment.trans filled₂.segment, after.format.trans filled₂.format, ?_, ?_⟩
  · intro p record e
    rw [← filled₂.position]
    exact after.record p record e
  · intro stopped
    rw [← filled₂.position]
    exact after.stopped stopped

/-! ## Whole segments -/

/-- The bytes of a segment can be had from the store. -/
structure Holds (store : Store) (v : Volume) (bs : Bytes) : Prop where
  size : store.size v = bs.length
  readAt : ∀ offset len, offset + len ≤ bs.length →
    store.readAt v offset len = .ok (bs.slice offset len)

theorem openAt_of_error {v : Volume} {store : Store} {bs : Bytes} (h : Holds store v bs)
    {fault : HeaderFault} (header : Header.decode bs = .error fault)
    (segment start bufferSize : ℕ) :
    openAt v segment store start bufferSize = .error (.header segment fault) := by
  have head := h.readAt 0 (min bs.length Header.size) (by omega)
  simp only [openAt, h.size, head, Bytes.slice_zero_min, Header.decode_take, header,
    Except.mapError, bind, Except.bind]

/-- A segment opens where it has a header and reading does not start past its end. -/
theorem openAt_of_ok {v : Volume} {store : Store} {bs : Bytes} (h : Holds store v bs)
    {f : Format} (header : Header.decode bs = .ok f) (start : ℕ)
    (hs : max start Header.size ≤ bs.length) (segment bufferSize : ℕ) :
    ∃ r, openAt v segment store start bufferSize = .ok r ∧ r.On v bs ∧ r.segment = segment ∧
      r.format = f ∧ r.position = max start Header.size := by
  have head := h.readAt 0 (min bs.length Header.size) (by omega)
  simp only [openAt, h.size, head, Bytes.slice_zero_min, Header.decode_take, header,
    Except.mapError, bind, Except.bind]
  rw [if_neg (by omega)]
  exact ⟨_, rfl, ⟨h.readAt, rfl, hs, List.nil_prefix, rfl⟩, rfl, rfl, rfl⟩

theorem openAt_of_past {v : Volume} {store : Store} {bs : Bytes} (h : Holds store v bs)
    {f : Format} (header : Header.decode bs = .ok f) {start : ℕ} (past : bs.length < start)
    (segment bufferSize : ℕ) :
    openAt v segment store start bufferSize =
      .error (.argument (.startPastEnd start segment bs.length)) := by
  have head := h.readAt 0 (min bs.length Header.size) (by omega)
  simp only [openAt, h.size, head, Bytes.slice_zero_min, Header.decode_take, header,
    Except.mapError, bind, Except.bind]
  rw [if_pos (by omega)]
  rfl

theorem firstDamage_spec {v : Volume} {r : Reader} {bs : Bytes} (h : r.On v bs) :
    r.firstDamage v = .ok ((Segment.scan r.format r.segment bs r.position).2.map (·.1)) := by
  induction hn : r.remaining using Nat.strongRecOn generalizing r with
  | ind n ih =>
      obtain ⟨r', found, after⟩ := next_spec h
      rw [firstDamage]
      cases hr : Segment.read r.format r.segment bs r.position with
      | finish =>
          rw [hr] at found
          rw [Segment.scan_of_finish hr]
          split <;> simp_all
      | damaged fault =>
          rw [hr] at found after
          have := (after.stopped (by simp)).1
          rw [Segment.scan_of_damaged hr]
          split <;> simp_all
      | record p record =>
          rw [hr] at found after
          obtain ⟨on, position⟩ := after.record p record rfl
          have less := remaining_lt_of_next found
          have later := ih r'.remaining (hn ▸ less) on rfl
          rw [after.format, after.segment, position] at later
          rw [Segment.scan_of_record hr]
          split <;> simp_all

/-! ## Any reader -/

section
variable {v : Volume} {r r' : Reader} {p : Pointer} {record : Record}

theorem readFrame_decoded {n : ℕ} (h : r.readFrame v n = .ok (.record p record, r')) :
    ∃ f bs, Frame.decode f bs = .ok record := by
  unfold readFrame at h
  obtain ⟨filled, -, h⟩ := bind_eq_ok.mp h
  cases filled with
  | none => cases h
  | some s =>
      dsimp only at h
      cases decoded : Frame.decode s.format (s.buffered.take n) with
      | error fault =>
          rw [decoded] at h
          cases h
      | ok found =>
          rw [decoded] at h
          cases h
          exact ⟨_, _, decoded⟩

/-- Every record that is read was decoded from a frame. -/
theorem next_decoded (h : r.next v = .ok (.record p record, r')) :
    ∃ f bs, Frame.decode f bs = .ok record := by
  unfold next at h
  split at h
  · cases h
  obtain ⟨filled, -, h⟩ := bind_eq_ok.mp h
  cases filled with
  | none => cases h
  | some r₁ =>
      dsimp only at h
      split at h
      · cases h
      obtain ⟨filled, -, h⟩ := bind_eq_ok.mp h
      cases filled with
      | none => cases h
      | some r₂ =>
          dsimp only at h
          split at h
          · cases h
          split at h
          · cases h
          exact readFrame_decoded h

end

end Reader
end SegmentLog
