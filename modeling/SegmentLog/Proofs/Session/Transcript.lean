import SegmentLog.Proofs.Session.Replay

/-!
# What a caller is told

A session that is read to its end tells its caller which records there are, and of an error if one
ended it. A torn end is no error, so it makes no difference to the caller whether a session came to
the end of the last segment or to damage in it.

What is told of some segments depends on the last ones only through what is told of those
(`told_scanAll_append`), as long as they are not taken away altogether.
-/
namespace SegmentLog

/-- The error that ended a session. -/
def Ending.error? : Ending → Option Error
  | finish | tornTail => none
  | failed error => some error

namespace Segment

/-- What a caller is told where these records are found and the bytes end like this. -/
def told (found : List (Pointer × Record) × Ending) : List (Pointer × Record) × Option Error :=
  (found.1, found.2.error?)

theorem told_chain {segment : ℕ} {found : List (Pointer × Record) × Option (ℕ × RecordFault)}
    {ahead ahead' : List (ℕ × Bytes)} {later later' : List (Pointer × Record) × Ending}
    (goes_on : ahead ≠ []) (goes_on' : ahead' ≠ []) (same : told later = told later') :
    told (chain segment found ahead later) = told (chain segment found ahead' later') := by
  obtain ⟨items, ending⟩ := Prod.mk.inj same
  unfold chain
  cases found.2 with
  | none =>
      dsimp only [told]
      rw [items, ending]
  | some damage =>
      dsimp only
      rw [if_neg (mt List.isEmpty_iff.mp goes_on), if_neg (mt List.isEmpty_iff.mp goes_on')]

theorem told_scanAll_append (older : List (ℕ × Bytes)) {last last' : List (ℕ × Bytes)}
    (some_last : last ≠ []) (some_last' : last' ≠ [])
    (same : told (scanAll last) = told (scanAll last')) :
    told (scanAll (older ++ last)) = told (scanAll (older ++ last')) := by
  induction older with
  | nil => exact same
  | cons e older ih =>
      obtain ⟨segment, bs⟩ := e
      rw [List.cons_append, List.cons_append, scanAll, scanAll]
      cases Header.decode bs with
      | error fault => rfl
      | ok f =>
          apply told_chain _ _ ih
          · exact List.append_ne_nil_of_right_ne_nil older some_last
          · exact List.append_ne_nil_of_right_ne_nil older some_last'

/-- What a caller is told of segments, where the first of them has to open. -/
def toldFrom : List (ℕ × Bytes) → Except Error (List (Pointer × Record) × Option Error)
  | [] => .ok ([], none)
  | (segment, bs) :: ahead =>
    match Header.decode bs with
    | .error fault => .error (.header segment fault)
    | .ok _ => .ok (told (scanAll ((segment, bs) :: ahead)))

theorem toldFrom_of_header {segment : ℕ} {bs : Bytes} {f : Format}
    (header : Header.decode bs = .ok f) (ahead : List (ℕ × Bytes)) :
    toldFrom ((segment, bs) :: ahead) = .ok (told (scanAll ((segment, bs) :: ahead))) := by
  rw [toldFrom, header]

end Segment

namespace Session

/-- What a caller is told by a session over all segments. -/
def transcript (d : Directory) (v : Volume) (bufferSize : ℕ) :
    Except Error (List (Pointer × Record) × Option Error) :=
  (openRange d v bufferSize none none).map fun s =>
    ((s.drain v).items, (s.drain v).ending.bind Ending.error?)

variable {d : Directory} {v : Volume}

theorem transcript_of_replays {answer : Except Error (List (Pointer × Record) × Option Ending)}
    (place : d.place = .memory) (sorted : v.segments.Sorted) (h : Replays v none answer)
    (bufferSize : ℕ) :
    transcript d v bufferSize = answer.map fun r => (r.1, r.2.bind Ending.error?) := by
  rw [← openRange_of_replays place sorted h bufferSize, transcript]
  cases openRange d v bufferSize none none with
  | error fault => rfl
  | ok s => rfl

theorem transcript_of_lacks {first index : ℕ} (place : d.place = .memory)
    (sorted : v.segments.Sorted) (starts : v.StartsIn none first) (lacks : v.Lacks first index)
    (bufferSize : ℕ) : transcript d v bufferSize = .error (.segmentMissing index) :=
  transcript_of_replays place sorted (.missing starts lacks) bufferSize

theorem transcript_of_covers {first : ℕ} {segments : List (ℕ × Bytes)} (place : d.place = .memory)
    (sorted : v.segments.Sorted) (starts : v.StartsIn none first)
    (covers : v.Covers first segments) (bufferSize : ℕ) :
    transcript d v bufferSize = Segment.toldFrom segments := by
  cases segments with
  | nil => exact absurd (covers.newest first (Nat.le_refl _)) starts.1
  | cons e ahead =>
      obtain ⟨index, bs⟩ := e
      have consecutive := covers.consecutive
      rw [List.length_cons, List.range'_succ, List.map_cons] at consecutive
      obtain ⟨rfl, -⟩ := List.cons.inj consecutive
      rw [Segment.toldFrom]
      cases header : Header.decode bs with
      | error fault =>
          exact transcript_of_replays place sorted (.badHeader starts covers header) bufferSize
      | ok f =>
          obtain ⟨items, ending, parses⟩ :=
            Segment.exists_parses f index bs (max (startOffset none) Header.size) ahead
          have all : Segment.scanAll ((index, bs) :: ahead) = (items, ending) := by
            rw [← Segment.scanFrom_of_parses parses, Segment.scanAll_of_header header, startOffset,
              Option.map_none, Option.getD_none, Nat.zero_max, Segment.scanFrom]
          rw [all]
          exact transcript_of_replays place sorted
            (.reads starts covers (Header.decode_eq_ok_iff.mp header) (Nat.zero_le _) parses)
            bufferSize

end Session
end SegmentLog
