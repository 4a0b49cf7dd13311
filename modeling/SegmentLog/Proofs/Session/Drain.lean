import SegmentLog.Proofs.Directory.Memory

/-!
# Sessions see the bytes of their segments

A session that is read to its end gives what the bytes of its segments hold, whatever its buffer:
`drain_spec`. It covers all segments only if none of them is missing: `coverage_none_eq_ok`. No
session anywhere gives the header of a segment: `kind_of_mem_drain`.
-/
namespace SegmentLog

namespace Session

/-- The session has no pointer to stop at, its reader is on these bytes before a position, and
ahead of it are segments with those bytes. -/
structure Before (s : Session) (v : Volume) (f : Format) (segment : ℕ) (bs : Bytes)
    (position : ℕ) (ahead : List (ℕ × Bytes)) : Prop where
  stop : s.stop = none
  reader : ∃ r, s.reader = some r ∧ r.On v bs ∧ r.segment = segment ∧ r.format = f ∧
    r.position = position
  following : s.ahead = ahead.map (·.1)
  stored : ∀ e ∈ ahead, s.directory.Stores v e.1 e.2

/-- What reading on gives, if the bytes hold `found` from the reader's position on. -/
def Gives (v : Volume) (result : Except Ending (Pointer × Record) × Session)
    (found : List (Pointer × Record) × Ending) : Prop :=
  match found.1 with
  | [] => result.1 = .error found.2
  | item :: items => result.1 = .ok item ∧ ∃ f segment bs position ahead,
    result.2.Before v f segment bs position ahead ∧
      Segment.scanFrom f segment bs position ahead = (items, found.2)

theorem gives_record {v : Volume} {s : Session} {ahead : List (ℕ × Bytes)} {r : Reader}
    {bs : Bytes} (stop : s.stop = none) (on : r.On v bs)
    (stored : ∀ e ∈ ahead, s.directory.Stores v e.1 e.2) {p : Pointer} {record : Record}
    (h : Segment.read r.format r.segment bs r.position = .record p record) :
    Gives v (s.readOn v r (ahead.map (·.1)))
      (Segment.scanFrom r.format r.segment bs r.position ahead) := by
  obtain ⟨r', found, after⟩ := Reader.next_spec on
  rw [h] at found after
  obtain ⟨on', position⟩ := after.record p record rfl
  have given : s.readOn v r (ahead.map (·.1)) =
      (.ok (p, record), { s with reader := some r', ahead := ahead.map (·.1), last := some p }) := by
    unfold readOn
    rw [found]
    simp only [give, stop, Option.any_none, Bool.false_eq_true, if_false]
  have before : Before { s with reader := some r', ahead := ahead.map (·.1), last := some p } v
      r.format r.segment bs (r.position + p.length) ahead :=
    ⟨stop, ⟨r', rfl, on', after.segment, after.format, position⟩, rfl, stored⟩
  obtain ⟨items, ending, later⟩ : ∃ items ending,
    Segment.scanFrom r.format r.segment bs (r.position + p.length) ahead = (items, ending) :=
    ⟨_, _, rfl⟩
  have all : Segment.scanFrom r.format r.segment bs r.position ahead =
      ((p, record) :: items, ending) := by
    unfold Segment.scanFrom Segment.chain at later ⊢
    rw [Segment.scan_of_record h]
    dsimp only
    cases hd : (Segment.scan r.format r.segment bs (r.position + p.length)).2 with
    | none =>
        rw [hd] at later
        cases later
        rfl
    | some damage =>
        rw [hd] at later
        cases later
        rfl
  rw [given, all]
  exact ⟨rfl, _, _, _, _, _, before, later⟩

theorem gives_damaged {v : Volume} {s : Session} {ahead : List (ℕ × Bytes)} {r : Reader}
    {bs : Bytes} (on : r.On v bs) {fault : RecordFault}
    (h : Segment.read r.format r.segment bs r.position = .damaged fault) :
    Gives v (s.readOn v r (ahead.map (·.1)))
      (Segment.scanFrom r.format r.segment bs r.position ahead) := by
  obtain ⟨r', found, after⟩ := Reader.next_spec on
  rw [h] at found after
  obtain ⟨position, -⟩ := after.stopped (by simp)
  rw [Segment.scanFrom, Segment.scan_of_damaged h]
  unfold readOn
  rw [found]
  cases ahead with
  | nil => rfl
  | cons e ahead => simp [Gives, Segment.chain, endingOf, after.segment, position]

theorem readOn_gives {v : Volume} {s : Session} {ahead : List (ℕ × Bytes)} {r : Reader}
    {bs : Bytes} (stop : s.stop = none) (on : r.On v bs)
    (stored : ∀ e ∈ ahead, s.directory.Stores v e.1 e.2) :
    Gives v (s.readOn v r (ahead.map (·.1)))
      (Segment.scanFrom r.format r.segment bs r.position ahead) := by
  induction ahead generalizing r bs with
  | nil =>
      obtain ⟨r', found, after⟩ := Reader.next_spec on
      cases hr : Segment.read r.format r.segment bs r.position with
      | record p record => exact gives_record stop on stored hr
      | finish =>
          rw [hr] at found
          rw [Segment.scanFrom, Segment.scan_of_finish hr]
          unfold readOn
          rw [List.map_nil, found]
          rfl
      | damaged fault => exact gives_damaged on hr
  | cons e ahead ih =>
      obtain ⟨index, next⟩ := e
      obtain ⟨r', found, after⟩ := Reader.next_spec on
      cases hr : Segment.read r.format r.segment bs r.position with
      | record p record => exact gives_record stop on stored hr
      | finish =>
          obtain ⟨there, later⟩ := List.forall_mem_cons.mp stored
          rw [hr] at found
          rw [Segment.scanFrom, Segment.scan_of_finish hr]
          unfold readOn
          rw [List.map_cons, found]
          dsimp only [Segment.chain]
          rw [List.nil_append, Segment.scanAll]
          cases header : Header.decode next with
          | error fault =>
              rw [Directory.openReader_of_error there header]
              rfl
          | ok f =>
              obtain ⟨r₁, opened, on₁, segment, format, position⟩ :=
                Directory.openReader_of_ok there header 0
                  (by simpa using Header.size_le_of_decode header) s.bufferSize
              rw [opened]
              have := ih on₁ later
              rw [segment, format, position, Nat.zero_max] at this
              exact this
      | damaged fault => exact gives_damaged on hr

theorem next_gives {v : Volume} {s : Session} {f : Format} {segment position : ℕ} {bs : Bytes}
    {ahead : List (ℕ × Bytes)} (h : s.Before v f segment bs position ahead) :
    Gives v (s.next v) (Segment.scanFrom f segment bs position ahead) := by
  obtain ⟨r, reader, on, rfl, rfl, rfl⟩ := h.reader
  have := readOn_gives h.stop on h.stored
  rwa [next, reader, h.following]

/-- A session that is read to its end gives what the bytes hold. -/
theorem drain_spec {v : Volume} {s : Session} {f : Format} {segment position : ℕ} {bs : Bytes}
    {ahead : List (ℕ × Bytes)} (h : s.Before v f segment bs position ahead) :
    (s.drain v).items = (Segment.scanFrom f segment bs position ahead).1 ∧
      (s.drain v).ending = some (Segment.scanFrom f segment bs position ahead).2 := by
  obtain ⟨items, ending, hf⟩ : ∃ items ending,
    Segment.scanFrom f segment bs position ahead = (items, ending) := ⟨_, _, rfl⟩
  rw [hf]
  -- the session passes segments as it is read, so the induction is on what it is to give
  induction items generalizing s f segment bs position ahead with
  | nil =>
      have gives := next_gives h
      rw [hf] at gives
      have : s.next v = (.error ending, (s.next v).2) := Prod.ext gives rfl
      rw [drain_of_next_error this]
      exact ⟨rfl, rfl⟩
  | cons item items ih =>
      have gives := next_gives h
      rw [hf] at gives
      obtain ⟨given, f', segment', bs', position', ahead', before, later⟩ := gives
      have : s.next v = (.ok item, (s.next v).2) := Prod.ext given rfl
      obtain ⟨rest, last⟩ := ih before later
      rw [drain_of_next_ok this]
      exact ⟨congrArg (item :: ·) rest, last⟩

/-! ## Coverage -/

/-- A session that does not stop covers all segments, if they follow each other. -/
theorem coverage_none_eq_ok {expected : ℕ} {listed segments : List ℕ} :
    coverage none expected listed = .ok segments ↔
      listed = List.range' expected listed.length ∧ segments = listed := by
  induction listed generalizing expected segments with
  | nil => simp [coverage, eq_comm]
  | cons segment listed ih =>
      rw [coverage, List.length_cons, List.range'_succ, List.cons.injEq]
      by_cases same : segment = expected
      · subst same
        cases covered : coverage none (segment + 1) listed with
        | error error =>
            have : ¬listed = List.range' (segment + 1) listed.length := by
              intro follow
              rw [ih.mpr ⟨follow, rfl⟩] at covered
              cases covered
            simp [Except.map, this]
        | ok found =>
            obtain ⟨follow, rfl⟩ := ih.mp covered
            simp [Except.map, ← follow, eq_comm]
      · simp [same]

theorem coverage_none (first len : ℕ) :
    coverage none first (List.range' first len) = .ok (List.range' first len) :=
  coverage_none_eq_ok.mpr ⟨by rw [List.length_range'], rfl⟩

/-! ## One record -/

variable {v : Volume} {s s' : Session} {reader : Reader} {ahead : List ℕ}
  {item : Pointer × Record}

theorem give_eq_ok {p : Pointer} {record : Record}
    (h : s.give reader ahead p record = (.ok item, s')) :
    item = (p, record) ∧ s' = { s with reader := some reader, ahead, last := some item.1 } := by
  unfold give at h
  split at h
  · cases h
  · cases h
    exact ⟨rfl, rfl⟩

/-- A session that gives a record has it from a reader, and keeps that one. -/
theorem readOn_eq_ok (h : s.readOn v reader ahead = (.ok item, s')) :
    ∃ (r r' : Reader) (more : List ℕ), r.next v = .ok (.record item.1 item.2, r') ∧
      s' = { s with reader := some r', ahead := more, last := some item.1 } := by
  induction ahead generalizing reader with
  | nil =>
      unfold readOn at h
      split at h
      · cases h
      · rename_i found
        obtain ⟨rfl, after⟩ := give_eq_ok h
        exact ⟨_, _, _, found, after⟩
      · cases h
      · cases h
  | cons segment ahead ih =>
      unfold readOn at h
      split at h
      · cases h
      · rename_i found
        obtain ⟨rfl, after⟩ := give_eq_ok h
        exact ⟨_, _, _, found, after⟩
      · cases h
      · dsimp only at h
        split at h
        · cases h
        · exact ih h

theorem next_eq_ok (h : s.next v = (.ok item, s')) :
    ∃ (r r' : Reader) (more : List ℕ), r.next v = .ok (.record item.1 item.2, r') ∧
      s' = { s with reader := some r', ahead := more, last := some item.1 } := by
  unfold next at h
  split at h
  · cases h
  · exact readOn_eq_ok h

/-- Every record that a session gives was decoded from a frame. -/
theorem decoded_of_mem_drain (h : item ∈ (s.drain v).items) :
    ∃ f bs, Frame.decode f bs = .ok item.2 := by
  fun_induction drain v s with
  | case1 s found s' given ih =>
      rcases List.mem_cons.mp h with rfl | h
      · obtain ⟨r, r', more, found, -⟩ := next_eq_ok given
        exact Reader.next_decoded found
      · exact ih h
  | case2 s ending s' given => cases h

/-- No session gives the header of a segment. -/
theorem kind_of_mem_drain (h : item ∈ (s.drain v).items) : item.2.kind ≠ .header := by
  obtain ⟨f, bs, decoded⟩ := decoded_of_mem_drain h
  exact (Frame.decode_eq_ok decoded).2.1

end Session
end SegmentLog
