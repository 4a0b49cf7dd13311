import SegmentLog.Proofs.Frame.Exact
import SegmentLog.Proofs.Segment.Scan

/-!
# What segments say, without reading them

What any bytes hold can be said without a reader that looks at them: a frame is what is written for
a record, a segment holds its longest run of frames, and how the run ends decides about the segments
after it. `Run` and `Parses` say so as relations. They determine what they relate, and it is what is
found byte by byte (`parses_iff`).
-/
namespace SegmentLog.Segment

/-- The frame of a record stands at a position, where a pointer can reach all of it. -/
structure FrameAt (f : Format) (bs : Bytes) (position : ℕ) (frame : Bytes) (record : Record) :
    Prop where
  wellFormed : record.WellFormed
  written : Frame.encode f record = .ok frame
  there : frame <+: bs.drop position
  inReach : position + frame.length ≤ Pointer.maxOffset

/-- The segment is at its end or has a zero where a frame would start. -/
def EndsAt (bs : Bytes) (position : ℕ) : Prop := bs.length ≤ position ∨ bs[position]? = some 0

/-- The longest run of frames from a position on: the records in them, and where it stops. -/
inductive Run (f : Format) (segment : ℕ) (bs : Bytes) :
    ℕ → List (Pointer × Record) → ℕ → Prop
  | stop {position : ℕ} (none_there : ∀ frame record, ¬FrameAt f bs position frame record) :
      Run f segment bs position [] position
  | frame {position stop : ℕ} {frame : Bytes} {record : Record} {items : List (Pointer × Record)}
      (here : FrameAt f bs position frame record)
      (later : Run f segment bs (position + frame.length) items stop) :
      Run f segment bs position ((⟨segment, position, frame.length⟩, record) :: items) stop

/-- What a session gives from a position of a segment on, with the segments `ahead` of it. -/
inductive Parses : Format → (segment : ℕ) → Bytes → (position : ℕ) → (ahead : List (ℕ × Bytes)) →
    List (Pointer × Record) → Ending → Prop
  /-- The last segment comes to its end. -/
  | finish {f : Format} {segment position stop : ℕ} {bs : Bytes} {items : List (Pointer × Record)}
      (run : Run f segment bs position items stop) (ends : EndsAt bs stop) :
      Parses f segment bs position [] items .finish
  /-- Another segment comes to its end, and the next one is read in the format of its header. -/
  | passOn {f g : Format} {segment position stop index : ℕ} {bs next : Bytes}
      {ahead : List (ℕ × Bytes)} {items later : List (Pointer × Record)} {ending : Ending}
      (run : Run f segment bs position items stop) (ends : EndsAt bs stop)
      (header : Header.encode g <+: next)
      (rest : Parses g index next Header.size ahead later ending) :
      Parses f segment bs position ((index, next) :: ahead) (items ++ later) ending
  /-- The next segment has no header. -/
  | badHeader {f : Format} {segment position stop index : ℕ} {bs next : Bytes}
      {ahead : List (ℕ × Bytes)} {items : List (Pointer × Record)} {fault : HeaderFault}
      (run : Run f segment bs position items stop) (ends : EndsAt bs stop)
      (header : Header.decode next = .error fault) :
      Parses f segment bs position ((index, next) :: ahead) items (.failed (.header index fault))
  /-- Damage in the last segment ends the session. -/
  | torn {f : Format} {segment position stop : ℕ} {bs : Bytes} {items : List (Pointer × Record)}
      (run : Run f segment bs position items stop) (goes_on : ¬EndsAt bs stop) :
      Parses f segment bs position [] items .tornTail
  /-- Damage in another segment fails it. -/
  | damaged {f : Format} {segment position stop : ℕ} {bs : Bytes} {e : ℕ × Bytes}
      {ahead : List (ℕ × Bytes)} {items : List (Pointer × Record)} {fault : RecordFault}
      (run : Run f segment bs position items stop) (goes_on : ¬EndsAt bs stop)
      (why : read f segment bs stop = .damaged fault) :
      Parses f segment bs position (e :: ahead) items (.failed (.record segment stop fault))

/-! ## One position -/

variable {f : Format} {segment position stop : ℕ} {bs frame : Bytes} {record : Record}
  {items : List (Pointer × Record)}

theorem headD_drop : (bs.drop position).headD 0 = 0 ↔ EndsAt bs position := by
  rw [List.headD_eq_head?_getD, List.head?_drop, EndsAt]
  cases h : bs[position]? with
  | none => simpa using List.getElem?_eq_none_iff.mp h
  | some b =>
      have := (List.getElem?_eq_some_iff.mp h).1
      simp [Nat.not_le.mpr this]

theorem read_eq_finish : read f segment bs position = .finish ↔ EndsAt bs position := by
  rw [← headD_drop]
  constructor
  · intro h
    unfold read at h
    grind
  · intro h
    rw [read, if_pos h]

theorem read_of_frameAt (segment : ℕ) (h : FrameAt f bs position frame record) :
    read f segment bs position = .record ⟨segment, position, frame.length⟩ record := by
  have decoded := Frame.decode_encode h.wellFormed h.written
  have lead := Frame.leadSize_le_of_decode decoded
  obtain ⟨rest, there⟩ := h.there
  have length := congrArg List.length there
  rw [List.length_append, List.length_drop] at length
  unfold Frame.leadSize at lead
  have front : (bs.take position).length = position := List.length_take_of_le (by omega)
  have parts : bs.take position ++ (frame ++ rest) = bs := by
    rw [there, List.take_append_drop]
  have found : read f segment (bs.take position ++ (frame ++ rest)) (bs.take position).length = _ :=
    read_frame segment (bs.take position) decoded (by rw [front]; exact h.inReach)
  rwa [parts, front] at found

theorem frameAt_of_read {p : Pointer} (h : read f segment bs position = .record p record) :
    ∃ frame, FrameAt f bs position frame record ∧ p = ⟨segment, position, frame.length⟩ := by
  obtain ⟨rfl, rfl, -, within, decoded⟩ := read_eq_record h
  obtain ⟨wf, written⟩ := Frame.encode_of_decode decoded
  have length : (bs.slice p.offset p.length).length = p.length := Bytes.length_slice within
  have reach : p.offset + p.length ≤ Pointer.maxOffset := by
    unfold read at h
    grind
  refine ⟨_, ⟨wf, written, List.take_prefix .., by rwa [length]⟩, by rw [length]⟩

theorem FrameAt.unique {frame' : Bytes} {record' : Record} (h : FrameAt f bs position frame record)
    (h' : FrameAt f bs position frame' record') : frame' = frame ∧ record' = record := by
  have same := (read_of_frameAt 0 h').symm.trans (read_of_frameAt 0 h)
  simp only [Outcome.record.injEq, Pointer.mk.injEq, true_and] at same
  obtain ⟨length, same⟩ := same
  refine ⟨?_, same⟩
  rw [List.prefix_iff_eq_take.mp h'.there, List.prefix_iff_eq_take.mp h.there, length]

/-- Where a run stops, the bytes end or are damaged. -/
theorem read_of_none (h : ∀ frame record, ¬FrameAt f bs position frame record) :
    EndsAt bs position ∨ ∃ fault, read f segment bs position = .damaged fault := by
  cases found : read f segment bs position with
  | record p record =>
      obtain ⟨frame, there, -⟩ := frameAt_of_read found
      exact absurd there (h frame record)
  | finish => exact .inl (read_eq_finish.mp found)
  | damaged fault => exact .inr ⟨fault, rfl⟩

/-! ## One segment -/

theorem exists_run (f : Format) (segment : ℕ) (bs : Bytes) (position : ℕ) :
    ∃ items stop, Run f segment bs position items stop := by
  induction hn : bs.length - position using Nat.strongRecOn generalizing position with
  | ind n ih =>
      by_cases h : ∃ frame record, FrameAt f bs position frame record
      · obtain ⟨frame, record, here⟩ := h
        obtain ⟨-, -, positive, within, -⟩ := read_eq_record (read_of_frameAt segment here)
        dsimp only at positive within
        obtain ⟨items, stop, later⟩ := ih _ (by omega) (position + frame.length) rfl
        exact ⟨_, stop, .frame here later⟩
      · rw [not_exists] at h
        exact ⟨[], position, .stop fun frame record here => h frame ⟨record, here⟩⟩

theorem Run.ends_or_damaged (h : Run f segment bs position items stop) :
    EndsAt bs stop ∨ ∃ fault, read f segment bs stop = .damaged fault := by
  induction h with
  | stop none_there => exact read_of_none none_there
  | frame here later ih => exact ih

theorem scan_of_run (h : Run f segment bs position items stop) :
    scan f segment bs position = (items ++ (scan f segment bs stop).1, (scan f segment bs stop).2) := by
  induction h with
  | stop none_there => rfl
  | frame here later ih =>
      rw [scan_of_record (read_of_frameAt segment here)]
      dsimp only
      rw [ih]
      rfl

/-- A scan finds a run that comes to the end of its segment. -/
theorem scan_of_ends (h : Run f segment bs position items stop) (ends : EndsAt bs stop) :
    scan f segment bs position = (items, none) := by
  rw [scan_of_run h, scan_of_finish (read_eq_finish.mpr ends), List.append_nil]

/-- A scan finds a run that stops at damage. -/
theorem scan_of_damage {fault : RecordFault} (h : Run f segment bs position items stop)
    (why : read f segment bs stop = .damaged fault) :
    scan f segment bs position = (items, some (stop, fault)) := by
  rw [scan_of_run h, scan_of_damaged why, List.append_nil]

/-! ## A segment without what follows its frames -/

theorem FrameAt.within (h : FrameAt f bs position frame record) :
    0 < frame.length ∧ position + frame.length ≤ bs.length := by
  obtain ⟨-, -, positive, within, -⟩ := read_eq_record (read_of_frameAt 0 h)
  exact ⟨positive, within⟩

theorem Run.le_stop (h : Run f segment bs position items stop) : position ≤ stop := by
  induction h with
  | stop none_there => exact Nat.le_refl _
  | frame here later ih => exact Nat.le_trans (Nat.le_add_right _ _) ih

/-- Cutting a segment off where its frames stop leaves them all. -/
theorem Run.take (h : Run f segment bs position items stop) :
    Run f segment (bs.take stop) position items stop := by
  induction h with
  | @stop position none_there =>
      apply Run.stop
      intro frame record here
      have within := here.within
      have := List.length_take_le position bs
      omega
  | @frame position stop frame record items here later ih =>
      refine Run.frame ⟨here.wellFormed, here.written, ?_, here.inReach⟩ ih
      have le := later.le_stop
      rw [List.drop_take]
      exact List.prefix_take_iff.mpr ⟨here.there, by omega⟩

/-- What is left of a segment once damage behind its frames is cut off, if there is any. -/
def Sealed (f : Format) (segment : ℕ) (bs kept : Bytes) (items : List (Pointer × Record)) : Prop :=
  ∃ stop, Run f segment bs Header.size items stop ∧
    (EndsAt bs stop ∧ kept = bs ∨ ¬EndsAt bs stop ∧ kept = bs.take stop)

/-- The records are still there, and the end is no longer damaged. -/
theorem Sealed.run {kept : Bytes} (h : Sealed f segment bs kept items) :
    ∃ stop, Run f segment kept Header.size items stop ∧ EndsAt kept stop := by
  obtain ⟨stop, run, ⟨ends, rfl⟩ | ⟨-, rfl⟩⟩ := h
  · exact ⟨stop, run, ends⟩
  · exact ⟨stop, run.take, .inl (List.length_take_le ..)⟩

/-- The header is still there, too. -/
theorem Sealed.header {kept : Bytes} (h : Sealed f segment bs kept items)
    (header : Header.encode f <+: bs) : Header.encode f <+: kept := by
  obtain ⟨stop, run, ⟨-, rfl⟩ | ⟨-, rfl⟩⟩ := h
  · exact header
  · refine List.prefix_take_iff.mpr ⟨header, ?_⟩
    rw [Header.length_encode]
    exact run.le_stop

/-! ## Segments in sequence -/

theorem scanFrom_of_parses {ahead : List (ℕ × Bytes)} {ending : Ending}
    (h : Parses f segment bs position ahead items ending) :
    scanFrom f segment bs position ahead = (items, ending) := by
  induction h with
  | finish run ends =>
      rw [scanFrom, scan_of_ends run ends, chain, scanAll, List.append_nil]
  | passOn run ends header rest ih =>
      rw [scanFrom, scan_of_ends run ends, chain, scanAll, Header.decode_eq_ok_iff.mpr header]
      rw [scanFrom] at ih
      dsimp only
      rw [ih]
  | badHeader run ends header =>
      rw [scanFrom, scan_of_ends run ends, chain, scanAll, header, List.append_nil]
  | torn run goes_on =>
      obtain ⟨fault, why⟩ := run.ends_or_damaged.resolve_left goes_on
      rw [scanFrom, scan_of_damage run why, chain]
      rfl
  | damaged run goes_on why =>
      rw [scanFrom, scan_of_damage run why, chain]
      rfl

theorem exists_parses (f : Format) (segment : ℕ) (bs : Bytes) (position : ℕ)
    (ahead : List (ℕ × Bytes)) :
    ∃ items ending, Parses f segment bs position ahead items ending := by
  induction ahead generalizing f segment bs position with
  | nil =>
      obtain ⟨items, stop, run⟩ := exists_run f segment bs position
      by_cases ends : EndsAt bs stop
      · exact ⟨items, _, .finish run ends⟩
      · exact ⟨items, _, .torn run ends⟩
  | cons e ahead ih =>
      obtain ⟨index, next⟩ := e
      obtain ⟨items, stop, run⟩ := exists_run f segment bs position
      by_cases ends : EndsAt bs stop
      · cases header : Header.decode next with
        | error fault => exact ⟨items, _, .badHeader run ends header⟩
        | ok g =>
            obtain ⟨later, ending, rest⟩ := ih g index next Header.size
            exact ⟨_, ending, .passOn run ends (Header.decode_eq_ok_iff.mp header) rest⟩
      · obtain ⟨fault, why⟩ := run.ends_or_damaged.resolve_left ends
        exact ⟨items, _, .damaged run ends why⟩

/-- What the bytes of segments hold is what their runs of frames say. -/
theorem parses_iff {ahead : List (ℕ × Bytes)} {ending : Ending} :
    Parses f segment bs position ahead items ending ↔
      scanFrom f segment bs position ahead = (items, ending) := by
  constructor
  · exact scanFrom_of_parses
  · intro h
    obtain ⟨items', ending', parses⟩ := exists_parses f segment bs position ahead
    cases h.symm.trans (scanFrom_of_parses parses)
    exact parses

end SegmentLog.Segment
