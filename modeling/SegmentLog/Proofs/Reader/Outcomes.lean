import SegmentLog.Proofs.Reader.Unbuffered
import SegmentLog.Proofs.Segment.Runs

/-!
# What a reader gives

A reader that is asked again and again gives records, and then it says why there are no more. Both
are what the run of frames in its segment says, from its position on: `yields_of_run`.
-/
namespace SegmentLog.Reader

/-- The reader gives these records, one by one, and then an outcome that is no record. -/
inductive Yields (v : Volume) : Reader → List (Pointer × Record) → Outcome → Reader → Prop
  | done {r r' : Reader} {outcome : Outcome} (said : r.next v = .ok (outcome, r'))
      (no_record : ∀ p record, outcome ≠ .record p record) : Yields v r [] outcome r'
  | record {r r₁ r' : Reader} {p : Pointer} {record : Record} {items : List (Pointer × Record)}
      {outcome : Outcome} (given : r.next v = .ok (.record p record, r₁))
      (later : Yields v r₁ items outcome r') : Yields v r ((p, record) :: items) outcome r'

variable {v : Volume} {bs : Bytes} {f : Format} {segment position stop : ℕ}
  {items : List (Pointer × Record)}

/-- A reader gives the run of frames at its position and stays where that stops. -/
theorem yields_of_run (h : Segment.Run f segment bs position items stop) {r : Reader}
    (on : r.On v bs) (format : r.format = f) (index : r.segment = segment)
    (here : r.position = position) :
    ∃ r', r.Yields v items (Segment.read f segment bs stop) r' ∧ r'.segment = segment ∧
      r'.position = stop := by
  induction h generalizing r with
  | @stop position none_there =>
      subst format index here
      obtain ⟨r', said, after⟩ := next_spec on
      have no_record (p : Pointer) (record : Record) :
          Segment.read r.format r.segment bs r.position ≠ .record p record := by
        intro found
        obtain ⟨frame, there, -⟩ := Segment.frameAt_of_read found
        exact none_there frame record there
      exact ⟨r', .done said no_record, after.segment, (after.stopped no_record).1⟩
  | @frame position stop frame record items there later ih =>
      subst format index here
      obtain ⟨r₁, given, after⟩ := next_spec on
      have found := Segment.read_of_frameAt r.segment there
      rw [found] at given after
      obtain ⟨on₁, position₁⟩ := after.record _ _ rfl
      obtain ⟨r', rest, segment', position'⟩ := ih on₁ after.format after.segment position₁
      exact ⟨r', .record given rest, segment', position'⟩

end SegmentLog.Reader
