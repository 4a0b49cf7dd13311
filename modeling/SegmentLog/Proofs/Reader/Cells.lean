import SegmentLog.Proofs.Directory.Shelf
import SegmentLog.Proofs.Frame.Exact
import SegmentLog.Reader.Cells

/-!
# A buffer never shows

A reader that keeps what it fetched in a row of cells does, call by call, what `Reader` does with a
list, and none of its accesses traps: `Mirrors` is kept by moving the unread bytes to the front, by
growing the row and by filling it up. So what it says is what a parser says that has no buffer and
looks at the bytes of the segment, whatever the row has room for: `reads_unbuffered`. Between any two
calls the unread cells hold the bytes of the segment from the position on: `Sound`.
-/
namespace SegmentLog

namespace Trap
variable {cells data : Bytes} {start stop : ℕ}

theorem minus_of_le {a b : ℕ} (h : b ≤ a) : minus a b = .ok (a - b) := if_pos h

theorem range_of_le (order : start ≤ stop) (within : stop ≤ cells.length) :
    range cells start stop = .ok ((cells.take stop).drop start) := by
  rw [range, if_pos ⟨order, within⟩, Bytes.slice, List.drop_take]

theorem put_of_le (room : start + data.length ≤ cells.length) :
    put cells start data = .ok (cells.take start ++ data ++ cells.drop (start + data.length)) :=
  if_pos room

theorem length_of_put {cells' : Bytes} (h : put cells start data = .ok cells') :
    cells'.length = cells.length := by
  unfold put at h
  split at h
  · cases h
    simp only [List.length_append, List.length_take, List.length_drop]
    omega
  · cases h

end Trap

/-- The reader is on these bytes, though it may have stopped. -/
def Reader.Stands (r : Reader) (v : Volume) (bs : Bytes) : Prop :=
  ({ r with finished := false } : Reader).On v bs

theorem Reader.On.stands {r : Reader} {v : Volume} {bs : Bytes} (h : r.On v bs) {finished : Bool} :
    ({ r with finished } : Reader).Stands v bs :=
  ⟨h.stored, h.size, h.position_le, h.buffered, rfl⟩

namespace CellReader

/-- The cells hold what the reader has in its buffer, and they are as many as it has room for. -/
structure Mirrors (c : CellReader) (r : Reader) : Prop where
  segment : c.segment = r.segment
  store : c.store = r.store
  format : c.format = r.format
  size : c.size = r.size
  position : c.position = r.position
  finished : c.finished = r.finished
  capacity : c.cells.length = r.capacity
  low_le : c.low ≤ c.high
  high_le : c.high ≤ c.cells.length
  unread : c.unread = r.buffered

variable {v : Volume} {c : CellReader} {r r' : Reader} {bs : Bytes} {n : ℕ}

theorem length_unread (within : c.high ≤ c.cells.length) : c.unread.length = c.high - c.low := by
  rw [unread, List.length_drop, List.length_take_of_le within]

theorem Mirrors.length_buffered (m : c.Mirrors r) : r.buffered.length = c.high - c.low := by
  rw [← m.unread, length_unread m.high_le]

/-! ## Fetching -/

/-- Moving bytes to the front of the row loses none of them. -/
theorem Mirrors.compact (m : c.Mirrors r) :
    ∃ c', c.compact (c.high - c.low) = .ok c' ∧ c'.Mirrors r ∧ c'.low = 0 ∧
      c'.high = c.high - c.low := by
  have low_le := m.low_le
  have high_le := m.high_le
  have length := length_unread m.high_le
  unfold CellReader.compact
  by_cases moved : 0 < c.low ∧ 0 < c.high - c.low
  · have taken : Trap.range c.cells c.low c.high = .ok c.unread :=
      Trap.range_of_le low_le high_le
    have room : 0 + c.unread.length ≤ c.cells.length := by omega
    have put := Trap.put_of_le room
    rw [if_pos moved, taken]
    simp only [bind, Except.bind, pure, Except.pure, put]
    refine ⟨_, rfl, ⟨m.segment, m.store, m.format, m.size, m.position, m.finished, ?_,
      Nat.zero_le _, ?_, ?_⟩, rfl, rfl⟩
    · rw [← m.capacity, Trap.length_of_put put]
    · rw [Trap.length_of_put put]
      dsimp only
      omega
    · rw [CellReader.unread, ← m.unread, List.take_zero, List.nil_append, ← length,
        List.take_left, List.drop_zero]
  · rw [if_neg moved]
    simp only [bind, Except.bind, pure, Except.pure]
    refine ⟨_, rfl, ⟨m.segment, m.store, m.format, m.size, m.position, m.finished, m.capacity,
      Nat.zero_le _, ?_, ?_⟩, rfl, rfl⟩
    · dsimp only
      omega
    · rw [← m.unread]
      simp only [CellReader.unread]
      by_cases front : c.low = 0
      · rw [front, Nat.sub_zero]
      · have none_left : c.high - c.low = 0 := by omega
        rw [none_left, List.take_zero, List.drop_nil, List.drop_eq_nil_of_le]
        rw [List.length_take_of_le high_le]
        omega

/-- A longer row holds the same bytes. -/
theorem Mirrors.grow (m : c.Mirrors r) (n : ℕ) :
    (c.grow n).Mirrors { r with capacity := r.capacityFor n } ∧ (c.grow n).low = c.low ∧
      (c.grow n).high = c.high := by
  have high_le := m.high_le
  unfold CellReader.grow Reader.capacityFor
  rw [← m.capacity]
  by_cases short : c.cells.length < n
  · rw [if_pos short, if_pos short]
    have longer : c.cells.length ≤ Reader.powerFrom n :=
      Nat.le_of_lt (Nat.lt_of_lt_of_le short (Reader.le_powerFrom n))
    refine ⟨⟨m.segment, m.store, m.format, m.size, m.position, m.finished, by simp, m.low_le, ?_,
      ?_⟩, rfl, rfl⟩
    · rw [Bytes.length_resize]
      exact Nat.le_trans high_le longer
    · rw [← m.unread, CellReader.unread, Bytes.resize_of_ge longer,
        List.take_append_of_le_length high_le]
      rfl
  · rw [if_neg short, if_neg short]
    exact ⟨⟨m.segment, m.store, m.format, m.size, m.position, m.finished, rfl, m.low_le,
      m.high_le, m.unread⟩, rfl, rfl⟩

/-- What is fetched goes behind what is unread. -/
theorem Mirrors.fetch (m : c.Mirrors r) {len : ℕ} {data : Bytes}
    (low : c.low = 0) (room : c.high + len ≤ c.cells.length)
    (read : r.store.readAt v (r.position + r.buffered.length) len = .ok data)
    (length : data.length = len) :
    ∃ c', c.fetch v len = .ok c' ∧ c'.Mirrors { r with buffered := r.buffered ++ data } := by
  have high_le := m.high_le
  have buffered := m.length_buffered
  unfold CellReader.fetch
  by_cases nothing : len = 0
  · have data_nil : data = [] := List.length_eq_zero_iff.mp (length.trans nothing)
    rw [if_pos nothing, data_nil, List.append_nil]
    exact ⟨c, rfl, m⟩
  · rw [if_neg nothing, m.store, m.position]
    rw [buffered, low, Nat.sub_zero] at read
    have fits : c.high + data.length ≤ c.cells.length := by omega
    have put := Trap.put_of_le fits
    simp only [read, Except.mapError, bind, Except.bind, pure, Except.pure, put]
    refine ⟨_, rfl, ⟨m.segment, rfl, m.format, m.size, rfl, m.finished, ?_, ?_, ?_, ?_⟩⟩
    · rw [← m.capacity, Trap.length_of_put put]
    · have low_le := m.low_le
      dsimp only
      omega
    · rw [Trap.length_of_put put]
      dsimp only
      omega
    · have fetched : (c.cells.take c.high ++ data).length = c.high + data.length := by
        rw [List.length_append, List.length_take_of_le high_le]
      rw [CellReader.unread, ← m.unread, ← fetched, List.take_left,
        List.drop_append_of_le_length (by rw [low]; exact Nat.zero_le _)]
      rfl

/-- Where the reader has enough, or gets it, so does the reader with cells. -/
theorem Mirrors.ensure (m : c.Mirrors r) (on : r.On v bs) (within : r.position + n ≤ bs.length) :
    ∃ c' r', c.ensure v n = .ok (true, c') ∧ r.fill v n = .ok (some r') ∧ c'.Mirrors r' ∧
      r'.On v bs ∧ r.Filled r' n := by
  obtain ⟨r', filled, on', more⟩ := Reader.fill_spec on within
  have buffered := m.length_buffered
  have low_le := m.low_le
  have end_of_buffer := on.length_buffered
  have size := on.size
  have available : Trap.minus c.high c.low = .ok (c.high - c.low) := Trap.minus_of_le low_le
  have left : Trap.minus c.size c.position = .ok (r.size - r.position) := by
    rw [m.size, m.position, Trap.minus_of_le (by omega)]
  unfold CellReader.ensure
  rw [available]
  by_cases enough : n ≤ r.buffered.length
  · rw [Reader.fill, if_pos enough] at filled
    cases filled
    refine ⟨c, r, ?_, by rw [Reader.fill, if_pos enough], m, on, more⟩
    simp only [bind, Except.bind]
    rw [if_pos (by omega)]
    rfl
  · obtain ⟨c₁, compacted, m₁, low₁, high₁⟩ := m.compact
    obtain ⟨m₂, low₂, high₂⟩ := m₁.grow n
    have capacity := r.le_capacityFor n
    have room : Trap.minus (c₁.grow n).cells.length (c₁.grow n).high =
        .ok (r.capacityFor n - r.buffered.length) := by
      rw [high₂, high₁, ← buffered, m₂.capacity]
      exact Trap.minus_of_le (by dsimp only; omega)
    have missing : Trap.minus (r.size - r.position) (c.high - c.low) =
        .ok (r.size - r.position - r.buffered.length) := by
      rw [← buffered]
      exact Trap.minus_of_le (by omega)
    have read := on.stored (r.position + r.buffered.length)
      (min (r.capacityFor n - r.buffered.length) (r.size - r.position - r.buffered.length))
      (by omega)
    obtain ⟨c₃, fetched, m₃⟩ := m₂.fetch (low₂.trans low₁) (by
      rw [high₂, high₁, ← buffered, m₂.capacity]
      dsimp only
      omega) read (Bytes.length_slice (by omega))
    have ready : Trap.minus c₃.high c₃.low = .ok (c₃.high - c₃.low) := Trap.minus_of_le m₃.low_le
    have filled' := filled
    rw [Reader.fill, if_neg enough, if_neg (by omega)] at filled'
    dsimp only at filled'
    rw [read] at filled'
    cases filled'
    refine ⟨c₃, _, ?_, filled, m₃, on', more⟩
    have ample := more.enough
    rw [m₃.length_buffered] at ample
    simp only [bind, Except.bind, left, compacted, room, missing, fetched, ready]
    rw [if_neg (by omega), if_neg (by omega), decide_eq_true ample]
    rfl

theorem Mirrors.ensure_short (m : c.Mirrors r) (on : r.On v bs)
    (short : bs.length < r.position + n) : c.ensure v n = .ok (false, c) := by
  have low_le := m.low_le
  have buffered := m.length_buffered
  have end_of_buffer := on.length_buffered
  have size := on.size
  have position := on.position_le
  unfold CellReader.ensure
  rw [Trap.minus_of_le low_le, m.size, m.position]
  simp only [bind, Except.bind]
  rw [if_neg (by omega), Trap.minus_of_le (by omega)]
  dsimp only
  rw [if_pos (by omega)]
  rfl

/-! ## Reading -/

theorem Mirrors.cell (m : c.Mirrors r) (some_bytes : 1 ≤ r.buffered.length) :
    Trap.cell c.cells c.low = .ok (r.buffered.headD 0) := by
  have buffered := m.length_buffered
  have high_le := m.high_le
  have there : c.low < c.cells.length := by omega
  have first : r.buffered.headD 0 = c.cells[c.low] := by
    rw [List.headD_eq_head?_getD, ← m.unread, CellReader.unread, List.head?_drop,
      List.getElem?_take_of_lt (by omega), List.getElem?_eq_getElem there]
    rfl
  rw [Trap.cell, List.getElem?_eq_getElem there, first]

theorem Mirrors.range (m : c.Mirrors r) (enough : n ≤ r.buffered.length) :
    Trap.range c.cells c.low (c.low + n) = .ok (r.buffered.take n) := by
  have buffered := m.length_buffered
  have low_le := m.low_le
  have high_le := m.high_le
  rw [Trap.range_of_le (Nat.le_add_right _ _) (by omega), ← m.unread, CellReader.unread,
    List.drop_take, List.drop_take, List.take_take]
  congr 2
  omega

/-- A reader that has stopped. -/
theorem Mirrors.stop (m : c.Mirrors r) : ({ c with finished := true } : CellReader).Mirrors
    { r with finished := true } :=
  ⟨m.segment, m.store, m.format, m.size, m.position, rfl, m.capacity, m.low_le, m.high_le, m.unread⟩

/-- A frame within the segment is the same in the cells. -/
theorem Mirrors.readFrame (m : c.Mirrors r) (on : r.On v bs) (within : r.position + n ≤ bs.length)
    (reach : r.position + n ≤ Pointer.maxOffset) :
    ∃ outcome c' r', c.readFrame v n = .ok (outcome, c') ∧ r.readFrame v n = .ok (outcome, r') ∧
      c'.Mirrors r' ∧ ((∀ p record, outcome ≠ .record p record) → r'.Stands v bs) := by
  obtain ⟨c₁, r₁, ensured, filled, m₁, on₁, more⟩ := m.ensure on within
  have narrow : Pointer.maxOffset < UInt32.size := by decide
  have taken := m₁.range more.enough
  unfold CellReader.readFrame Reader.readFrame
  rw [ensured, filled]
  simp only [bind, Except.bind, pure, Except.pure, taken, m₁.format]
  rw [m₁.segment, m₁.position, more.position, Nat.mod_eq_of_lt (by omega),
    Nat.mod_eq_of_lt (by omega)]
  cases Frame.decode r₁.format (r₁.buffered.take n) with
  | error fault => exact ⟨_, _, _, rfl, rfl, m₁.stop, fun _ => on₁.stands⟩
  | ok record =>
      refine ⟨_, _, _, rfl, rfl, ⟨rfl, m₁.store, rfl, m₁.size, rfl, m₁.finished, m₁.capacity, ?_,
        m₁.high_le, ?_⟩, fun no_record => absurd rfl (no_record _ _)⟩
      · have buffered := m₁.length_buffered
        have low_le := m₁.low_le
        have ample := more.enough
        dsimp only
        omega
      · rw [← m₁.unread, CellReader.unread, CellReader.unread, List.drop_drop]

/-- Both readers find what the bytes of the segment hold. -/
theorem Mirrors.next (m : c.Mirrors r) (on : r.On v bs) :
    ∃ outcome c' r', c.next v = .ok (outcome, c') ∧ r.next v = .ok (outcome, r') ∧
      c'.Mirrors r' ∧ ((∀ p record, outcome ≠ .record p record) → r'.Stands v bs) := by
  have size := on.size
  unfold CellReader.next Reader.next
  simp only [bind, Except.bind, pure, Except.pure, m.finished, m.size, m.position]
  by_cases ended : r.finished ∨ r.size ≤ r.position
  · rw [if_pos ended, if_pos ended]
    exact ⟨_, _, _, rfl, rfl, m.stop, fun _ => on.stands⟩
  rw [if_neg ended, if_neg ended]
  rw [not_or, Nat.not_le] at ended
  obtain ⟨c₁, r₁, ensured, filled, m₁, on₁, more₁⟩ := m.ensure (n := 1) on (by omega)
  simp only [ensured, filled, m₁.cell more₁.enough]
  by_cases zero : r₁.buffered.headD 0 = 0
  · rw [if_pos zero, if_pos zero]
    exact ⟨_, _, _, rfl, rfl, m₁.stop, fun _ => on₁.stands⟩
  rw [if_neg zero, if_neg zero]
  by_cases short : bs.length < r₁.position + Frame.leadSize
  · rw [m₁.ensure_short on₁ short, Reader.fill_short on₁ short]
    exact ⟨_, _, _, rfl, rfl, m₁.stop, fun _ => on₁.stands⟩
  obtain ⟨c₂, r₂, ensured, filled, m₂, on₂, more₂⟩ := m₁.ensure (n := Frame.leadSize) on₁ (by omega)
  have lead : Frame.declared (r₂.buffered.take Frame.leadSize) = Frame.declared r₂.buffered := by
    rw [← Frame.declared_append (Nat.le_of_eq (List.length_take_of_le more₂.enough).symm)
      (r₂.buffered.drop Frame.leadSize), List.take_append_drop]
  simp only [ensured, filled, m₂.range more₂.enough, m₂.format, m₂.size, m₂.position, lead,
    Bool.not_true, Bool.false_eq_true, if_false]
  generalize Frame.size r₂.format (Frame.declared r₂.buffered) = n
  by_cases past : r₂.size < r₂.position + n
  · rw [if_pos past, if_pos past]
    exact ⟨_, _, _, rfl, rfl, m₂.stop, fun _ => on₂.stands⟩
  rw [if_neg past, if_neg past]
  by_cases beyond : Pointer.maxOffset < r₂.position + n
  · rw [if_pos beyond, if_pos beyond]
    exact ⟨_, _, _, rfl, rfl, m₂.stop, fun _ => on₂.stands⟩
  rw [if_neg beyond, if_neg beyond]
  exact m₂.readFrame on₂ (by rw [← on₂.size]; omega) (Nat.le_of_not_lt beyond)

end CellReader

/-! ## Asking again and again -/

/-- What is said, and at which position, when a reader is asked for so many records in a row. -/
def told {ε ρ : Type} (position : ρ → ℕ) (next : ρ → Except ε (Outcome × ρ)) :
    ℕ → ρ → Except ε (List (ℕ × Outcome) × ρ)
  | 0, r => .ok ([], r)
  | asked + 1, r => do
    let (outcome, r') ← next r
    let (later, r'') ← told position next asked r'
    return ((position r, outcome) :: later, r'')

theorem told_of_next {ε ρ : Type} {position : ρ → ℕ} {next : ρ → Except ε (Outcome × ρ)}
    {asked : ℕ} {r r' r'' : ρ} {outcome : Outcome} {later : List (ℕ × Outcome)}
    (first : next r = .ok (outcome, r')) (rest : told position next asked r' = .ok (later, r'')) :
    told position next (asked + 1) r = .ok ((position r, outcome) :: later, r'') := by
  simp only [told, first, bind, Except.bind, rest]
  rfl

/-- A reader that stays where it is says that it is at its end for ever. -/
theorem told_of_stopped {ε ρ : Type} {position : ρ → ℕ} {next : ρ → Except ε (Outcome × ρ)} {r : ρ}
    (stopped : next r = .ok (.finish, r)) (asked : ℕ) :
    told position next asked r = .ok (List.replicate asked (position r, .finish), r) := by
  induction asked with
  | zero => rfl
  | succ asked ih => exact told_of_next stopped ih

namespace Segment

/-- What a parser says that looks at the bytes themselves at its position, and at nothing else: after
the first outcome that is no record it is at its end for ever. -/
def parse (f : Format) (segment : ℕ) (bs : Bytes) : (asked position : ℕ) → List (ℕ × Outcome)
  | 0, _ => []
  | asked + 1, position =>
    match read f segment bs position with
    | .record p record =>
      (position, .record p record) :: parse f segment bs asked (position + p.length)
    | outcome => (position, outcome) :: List.replicate asked (position, .finish)

section
variable {f : Format} {segment position : ℕ} {bs : Bytes}

theorem parse_of_record {p : Pointer} {record : Record}
    (found : read f segment bs position = .record p record) (asked : ℕ) :
    parse f segment bs (asked + 1) position =
      (position, .record p record) :: parse f segment bs asked (position + p.length) := by
  rw [parse, found]

theorem parse_of_no_record (none_there : ∀ p record, read f segment bs position ≠ .record p record)
    (asked : ℕ) : parse f segment bs (asked + 1) position =
      (position, read f segment bs position) :: List.replicate asked (position, .finish) := by
  rw [parse]
  cases found : read f segment bs position with
  | record p record => exact absurd found (none_there p record)
  | finish => rfl
  | damaged fault => rfl

end

end Segment

namespace CellReader
variable {v : Volume} {c : CellReader} {r : Reader} {bs : Bytes}

theorem next_of_finished (finished : c.finished = true) : c.next v = .ok (.finish, c) := by
  obtain ⟨segment, store, format, size, position, cells, low, high, _⟩ := c
  cases finished
  rfl

theorem reader_next_of_finished (finished : r.finished = true) :
    r.next v = .ok (.finish, r) := by
  obtain ⟨segment, store, format, size, position, buffered, capacity, _⟩ := r
  cases finished
  rfl

/-- Both readers say what the parser says. -/
theorem told_parse (m : c.Mirrors r) (on : r.On v bs) (asked : ℕ) :
    ∃ c' r', told position (next v) asked c =
        .ok (Segment.parse r.format r.segment bs asked r.position, c') ∧
      told Reader.position (Reader.next v) asked r =
        .ok (Segment.parse r.format r.segment bs asked r.position, r') ∧
      c'.Mirrors r' ∧ r'.Stands v bs := by
  induction asked generalizing c r with
  | zero => exact ⟨c, r, rfl, rfl, m, on.stands⟩
  | succ asked ih =>
      obtain ⟨r₁, read, after⟩ := Reader.next_spec on
      obtain ⟨outcome, c₁, _, cells, read', m₁, stands⟩ := m.next on
      obtain ⟨rfl, rfl⟩ := Prod.mk.inj (Except.ok.inj (read.symm.trans read'))
      by_cases found : ∃ p record, Segment.read r.format r.segment bs r.position = .record p record
      · obtain ⟨p, record, found⟩ := found
        obtain ⟨on₁, position₁⟩ := after.record p record found
        obtain ⟨c', r', rest, rest', m', stands'⟩ := ih m₁ on₁
        rw [found] at read cells
        rw [after.format, after.segment, position₁] at rest rest'
        rw [Segment.parse_of_record found]
        exact ⟨c', r', (told_of_next cells rest).trans (by rw [m.position]),
          told_of_next read rest', m', stands'⟩
      · have none_there (p : Pointer) (record : Record) :
            Segment.read r.format r.segment bs r.position ≠ .record p record :=
          fun there => found ⟨p, record, there⟩
        obtain ⟨position₁, finished₁⟩ := after.stopped none_there
        have rest : told position (next v) asked c₁ =
            .ok (List.replicate asked (r.position, .finish), c₁) := by
          rw [told_of_stopped (next_of_finished (m₁.finished.trans finished₁)), m₁.position, position₁]
        have rest' : told Reader.position (Reader.next v) asked r₁ =
            .ok (List.replicate asked (r.position, .finish), r₁) := by
          rw [told_of_stopped (reader_next_of_finished finished₁), position₁]
        rw [Segment.parse_of_no_record none_there]
        exact ⟨c₁, r₁, (told_of_next cells rest).trans (by rw [m.position]),
          told_of_next read rest', m₁, stands none_there⟩

/-! ## Segments -/

/-- The cursors are in order, and what is unread is what the segment holds at the position. -/
structure Sound (c : CellReader) (bs : Bytes) : Prop where
  size : c.size = bs.length
  position_le : c.position ≤ c.size
  low_le : c.low ≤ c.high
  high_le : c.high ≤ c.cells.length
  unread : c.unread = bs.slice c.position (c.high - c.low)

theorem Mirrors.sound (m : c.Mirrors r) (stands : r.Stands v bs) : c.Sound bs := by
  have size : r.size = bs.length := stands.size
  have position_le : r.position ≤ bs.length := stands.position_le
  refine ⟨m.size.trans size, ?_, m.low_le, m.high_le, ?_⟩
  · rw [m.size, m.position, size]
    exact position_le
  · have front : r.buffered <+: bs.drop r.position := stands.buffered
    rw [m.unread, m.position, ← m.length_buffered, Bytes.slice]
    exact List.prefix_iff_eq_take.mp front

/-- What a segment of these bytes is opened as, and what is then said as often as it is asked: what
the parser says, by both readers, and no access traps. -/
structure Reads (v : Volume) (segment : ℕ) (store : Store) (bs : Bytes) (start bufferSize : ℕ) :
    Prop where
  refused : ∀ fault, Header.decode bs = .error fault →
    openAt v segment store start bufferSize = .error (.header segment fault)
  opened : ∀ f, Header.decode bs = .ok f → ∃ c r,
    openAt v segment store start bufferSize = .ok c ∧
    Reader.openAt v segment store start bufferSize = .ok r ∧
    ∀ asked, ∃ c' r',
      told position (next v) asked c =
        .ok (Segment.parse f segment bs asked (max start Header.size), c') ∧
      told Reader.position (Reader.next v) asked r =
        .ok (Segment.parse f segment bs asked (max start Header.size), r') ∧
      c'.Mirrors r' ∧ c'.Sound bs

/-- A row of zeros that nothing was fetched into is an empty buffer. -/
theorem openAt_mirrors {segment start bufferSize : ℕ} {store : Store}
    (opened : Reader.openAt v segment store start bufferSize = .ok r) (index : r.segment = segment)
    (unfinished : r.finished = false) :
    ∃ c, openAt v segment store start bufferSize = .ok c ∧ c.Mirrors r := by
  obtain ⟨same_store, buffered⟩ := Reader.store_of_openAt opened
  rw [openAt, opened]
  refine ⟨_, rfl, ⟨index.symm, same_store.symm, rfl, rfl, rfl, unfinished.symm,
    List.length_replicate, Nat.le_refl _, Nat.zero_le _, buffered.symm⟩⟩

/-- A buffer of any size never shows. -/
theorem reads_unbuffered {store : Store} (holds : Reader.Holds store v bs) {start : ℕ}
    (within : start ≤ bs.length) (segment bufferSize : ℕ) :
    Reads v segment store bs start bufferSize := by
  constructor
  · intro fault header
    rw [openAt, Reader.openAt_of_error holds header]
    rfl
  · intro f header
    have behind : Header.size ≤ bs.length := by
      rw [← Header.length_encode f]
      exact (Header.decode_eq_ok_iff.mp header).length_le
    obtain ⟨r, opened, on, index, rfl, here⟩ := Reader.openAt_of_ok holds header start
      (Nat.max_le.mpr ⟨within, behind⟩) segment bufferSize
    obtain ⟨c, opened', m⟩ := openAt_mirrors opened index on.unfinished
    refine ⟨c, r, opened', opened, fun asked => ?_⟩
    obtain ⟨c', r', said, said', m', stands⟩ := told_parse m on asked
    rw [index, here] at said said'
    exact ⟨c', r', said, said', m', m'.sound stands⟩

/-- Two records of 19 bytes in a segment, and a byte behind them that starts no third one. -/
def twice : Bytes :=
  let frame := [5, 14, 0, 0, 0, 1, 0, 0, 0, 2, 0, 0, 0, 0, 0, 0, 0, 7, 0]
  Header.encode .unchecked ++ (frame ++ (frame ++ [9]))

/-- The row has five cells at first, so that both records come through it in pieces. -/
theorem reads_unbuffered_twice :
    let v : Volume := { contents := #[twice] }
    let store : Store := ⟨0, .memory true, []⟩
    Reader.Holds store v twice ∧ 0 ≤ twice.length ∧
      ∃ c c', openAt v 4 store 0 0 = .ok c ∧ c.cells.length = 5 ∧
        told position (next v) 4 c = .ok
          ([(15, .record ⟨4, 15, 19⟩ (.pageRemove ⟨1⟩ ⟨2⟩ 7)),
            (34, .record ⟨4, 34, 19⟩ (.pageRemove ⟨1⟩ ⟨2⟩ 7)),
            (53, .damaged .truncatedPrefix), (53, .finish)], c') ∧ c'.Sound twice := by
  intro v store
  have holds : Reader.Holds store v twice :=
    ⟨rfl, fun offset len within => Store.reads_memory 0 true twice.length v offset len within
      (Nat.le_refl _)⟩
  have within : 0 ≤ twice.length := Nat.zero_le _
  have header : Header.decode twice = .ok .unchecked := by decide +kernel
  have five : ((openAt v 4 store 0 0).toOption.map (·.cells.length)) = some 5 := by decide +kernel
  obtain ⟨c, r, opened, -, all⟩ := (reads_unbuffered holds within 4 0).opened _ header
  obtain ⟨c', r', said, -, -, sound⟩ := all 4
  rw [opened] at five
  refine ⟨holds, within, c, c', opened, Option.some.inj five, ?_, sound⟩
  rw [said]
  have parsed : Segment.parse .unchecked 4 twice 4 (max 0 Header.size) =
    [(15, .record ⟨4, 15, 19⟩ (.pageRemove ⟨1⟩ ⟨2⟩ 7)),
      (34, .record ⟨4, 34, 19⟩ (.pageRemove ⟨1⟩ ⟨2⟩ 7)),
      (53, .damaged .truncatedPrefix), (53, .finish)] := by decide +kernel
  rw [parsed]

end CellReader
end SegmentLog
