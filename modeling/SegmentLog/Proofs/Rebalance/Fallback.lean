import SegmentLog.Proofs.Log.Guards
import SegmentLog.Proofs.Rebalance.Decide
import SegmentLog.Proofs.Session.Replay

/-!
# Falling back to a full copy

What is answered to a partition that wants to catch up is a matter of what there is in memory:
`Responds` has one case for each answer, and `openHistory_iff` says that these are the answers. A
missing segment or a bad header in the segment of the start makes a full copy necessary, too many
gaps and no start as well, and no pin is left behind. Damage further on does not matter here; the
session tells of it later.

There is one answer that is a failure. A start behind the last byte of its segment is refused
although a full copy could be made (`openHistory_refuses`): where a torn end was cut off, a partition
that had got further than that is such a case.
-/
namespace SegmentLog.Rebalance

/-- The first of the segments that history would need and that is not there. Needed are those from
the start on up to the one that is written and up to the newest. -/
structure Wanting (v : Volume) (log : Log) (first index : ℕ) : Prop where
  le : first ≤ index
  absent : v.segment? index = none
  before : ∀ i, first ≤ i → i < index → v.segment? i ≠ none
  needed : index = first ∨ index ≤ log.active.segment ∨
    ∃ newer, index < newer ∧ v.segment? newer ≠ none

/-- The segments that history needs are there, the first of them with these bytes. -/
structure Complete (v : Volume) (log : Log) (first : ℕ) (bs : Bytes) (ahead : List (ℕ × Bytes)) :
    Prop where
  covers : v.Covers first ((first, bs) :: ahead)
  reaches : log.active.segment ≤ first + ahead.length

/-- What is answered to a partition that has the records before a start. -/
inductive Responds (v : Volume) (log : Log) (maxGaps : ℕ) (c : Counter) :
    Option Pointer → Except Error Offer → Prop
  | noHistory : Responds v log maxGaps c none (.ok (.full .noHistory))
  | tooManyGaps {start : Pointer} (many : maxGaps < c.gapCount) :
      Responds v log maxGaps c (some start) (.ok (.full (.tooManyGaps c.gapCount maxGaps)))
  | missing {start : Pointer} {index : ℕ} (few : c.gapCount ≤ maxGaps)
      (wanting : Wanting v log start.segment index) :
      Responds v log maxGaps c (some start) (.ok (.full (.segmentMissing index)))
  | unreadable {start : Pointer} {bs : Bytes} {ahead : List (ℕ × Bytes)} {fault : HeaderFault}
      (few : c.gapCount ≤ maxGaps) (complete : Complete v log start.segment bs ahead)
      (header : Header.decode bs = .error fault) :
      Responds v log maxGaps c (some start) (.ok (.full (.unreadable (.header start.segment fault))))
  | behindEnd {start : Pointer} {bs : Bytes} {ahead : List (ℕ × Bytes)} {f : Format}
      (few : c.gapCount ≤ maxGaps) (complete : Complete v log start.segment bs ahead)
      (header : Header.encode f <+: bs) (past : bs.length < start.offset) :
      Responds v log maxGaps c (some start)
        (.error (.argument (.startPastEnd start.offset start.segment bs.length)))
  /-- The session is in front of what there is from the start on. -/
  | historical {start : Pointer} {bs : Bytes} {ahead : List (ℕ × Bytes)} {f : Format}
      {session : Session} (few : c.gapCount ≤ maxGaps)
      (complete : Complete v log start.segment bs ahead) (header : Header.encode f <+: bs)
      (within : start.offset ≤ bs.length)
      (opened : Session.openRange log.directory v log.config.bufferSize (some start) none =
        .ok session)
      (positioned : session.Before v f start.segment bs (max start.offset Header.size) ahead) :
      Responds v log maxGaps c (some start) (.ok (.historical ⟨session, start.segment⟩))

/-- The answer of a call, and the state it leaves. -/
def answered {ε σ α : Type} : Except ε α → σ → EStateM.Result ε σ α
  | .ok a, s => .ok a s
  | .error e, s => .error e s

/-- What stays pinned: the segment that a history starts in, once for its session and once for as
long as it is sent. -/
def pinsAfter (pins : Pins) : Except Error Offer → Pins
  | .ok (.historical supply) => (pins.pin supply.pinned).pin supply.pinned
  | _ => pins

variable {maxGaps : ℕ} {c : Counter} {log : Log} {v : Volume} {start : Pointer} {first index : ℕ}
  {bs : Bytes} {ahead : List (ℕ × Bytes)} {s : Volume × Log}

/-! ## The decision -/

theorem isLeast_absent (sorted : v.segments.Sorted)
    (words : ∀ k ∈ v.segments.keys, k + 1 < UInt64.size) (first : ℕ) :
    IsLeast {k | first ≤ k ∧ v.segment? k = none}
      (firstMissing first (v.segments.keys.filter (first ≤ ·))) := by
  have ascending : v.segments.keys.Pairwise (· < ·) := List.pairwise_map.mpr sorted
  have same : {k | first ≤ k ∧ v.segment? k = none} =
      {k | first ≤ k ∧ Blocked v.segments.keys first k} :=
    Set.ext fun k => and_congr_right fun _ => by
      rw [blocked_iff (ascending.imp Nat.ne_of_lt), Volume.mem_keys, not_not]
  rw [same]
  exact isLeast_missing (ascending.imp Nat.le_of_lt) words first

theorem Wanting.isLeast (h : Wanting v log first index) :
    IsLeast {k | first ≤ k ∧ v.segment? k = none} index :=
  ⟨⟨h.le, h.absent⟩, fun k hk => Nat.le_of_not_lt fun lt => h.before k hk.1 lt hk.2⟩

theorem Complete.isLeast (h : Complete v log first bs ahead) :
    IsLeast {k | first ≤ k ∧ v.segment? k = none} (first + ahead.length + 1) := by
  refine ⟨⟨by omega, h.covers.newest _ (Nat.le_refl _)⟩, fun k ⟨le, absent⟩ => ?_⟩
  by_contra lt
  refine h.covers.present le ?_ absent
  rw [List.length_cons]
  omega

theorem decide_of_gaps (many : maxGaps < c.gapCount) :
    decide maxGaps c log v (some start) = .ok (.full (.tooManyGaps c.gapCount maxGaps)) := by
  unfold decide
  dsimp only
  rw [if_pos many]
  rfl

theorem segments_memory (place : log.directory.place = .memory) :
    log.segments v = .ok v.segments.keys := by
  rw [Log.segments, Directory.list, place]
  rfl

theorem decide_of_least (place : log.directory.place = .memory) (sorted : v.segments.Sorted)
    (words : ∀ k ∈ v.segments.keys, k + 1 < UInt64.size) (few : c.gapCount ≤ maxGaps)
    (least : IsLeast {k | start.segment ≤ k ∧ v.segment? k = none} index) :
    decide maxGaps c log v (some start) = .ok
      (if index ≤ log.active.segment then .full (.segmentMissing index) else .historical start) := by
  rw [decide_of_listed (segments_memory place), if_neg (Nat.not_lt.mpr few),
    (isLeast_absent sorted words start.segment).unique least]

theorem Complete.decide (h : Complete v log start.segment bs ahead)
    (place : log.directory.place = .memory) (sorted : v.segments.Sorted)
    (words : ∀ k ∈ v.segments.keys, k + 1 < UInt64.size) (few : c.gapCount ≤ maxGaps) :
    decide maxGaps c log v (some start) = .ok (.historical start) := by
  have reaches := h.reaches
  rw [decide_of_least place sorted words few h.isLeast, if_neg (by omega)]

/-! ## Opening the history -/

theorem pin_of_present (place : s.2.directory.place = .memory)
    (present : s.1.segment? index ≠ none) :
    Log.pin index s = .ok () (Log.book s (s.2.ledger.pin index)) :=
  pin_of_listed (segments_memory place) (Volume.mem_keys.mpr present)

theorem pin_of_absent (place : s.2.directory.place = .memory)
    (absent : s.1.segment? index = none) : Log.pin index s = .error (.segmentMissing index) s :=
  pin_of_not_listed (segments_memory place) fun mem => Volume.mem_keys.mp mem absent

/-- A session that opens leaves two pins. -/
theorem openHistory_of_opened {session : Session} (place : s.2.directory.place = .memory)
    (decided : Rebalance.decide maxGaps c s.2 s.1 (some start) = .ok (.historical start))
    (present : s.1.segment? start.segment ≠ none)
    (opened : Session.openRange s.2.directory s.1 s.2.config.bufferSize (some start) none =
      .ok session) (current : session.current? = some start.segment) :
    ∃ l, openHistory maxGaps c (some start) s =
        .ok (.historical ⟨session, start.segment⟩) (Log.book s l) ∧
      l.pins = (s.2.ledger.pins.pin start.segment).pin start.segment := by
  refine ⟨_, openHistory_of_ok decided (openSupply_of_ok (pin_of_present place present)
    (Log.replayRange_of_ok opened)), ?_⟩
  simp only [Ledger.hold, current]
  rfl

/-- A session that does not open leaves none. -/
theorem openHistory_of_failed {e : Error} (place : s.2.directory.place = .memory)
    (tidy : s.2.ledger.pins.Tidy)
    (decided : Rebalance.decide maxGaps c s.2 s.1 (some start) = .ok (.historical start))
    (present : s.1.segment? start.segment ≠ none)
    (failed : Session.openRange s.2.directory s.1 s.2.config.bufferSize (some start) none =
      .error e) :
    ∃ l, openHistory maxGaps c (some start) s =
        (match FullReason.ofError? e with
          | some reason => .ok (.full reason) (Log.book s l)
          | none => .error e (Log.book s l)) ∧ l.pins = s.2.ledger.pins := by
  have given_back := openSupply_of_error (pin_of_present place present)
    (Log.replayRange_of_error failed)
  exact ⟨_, openHistory_of_error decided given_back, tidy.unpin_pin start.segment⟩

/-! ## The answers -/

theorem openHistory_of_missing (place : s.2.directory.place = .memory)
    (sorted : s.1.segments.Sorted) (words : ∀ k ∈ s.1.segments.keys, k + 1 < UInt64.size)
    (tidy : s.2.ledger.pins.Tidy) (few : c.gapCount ≤ maxGaps)
    (wanting : Wanting s.1 s.2 start.segment index) :
    ∃ l, openHistory maxGaps c (some start) s =
        .ok (.full (.segmentMissing index)) (Log.book s l) ∧ l.pins = s.2.ledger.pins := by
  have decided := decide_of_least place sorted words few wanting.isLeast
  split at decided
  · exact ⟨s.2.ledger, openHistory_of_full decided, rfl⟩
  · rename_i behind
    by_cases here : index = start.segment
    · -- nothing is asked of a start behind the segment that is written, but it cannot be pinned
      subst here
      have unpinned := openSupply_of_unpinned (pin_of_absent place wanting.absent)
      exact ⟨s.2.ledger, openHistory_of_error decided unpinned, rfl⟩
    · have newer : ∃ newer, index < newer ∧ s.1.segment? newer ≠ none :=
        (wanting.needed.resolve_left here).resolve_left behind
      have lacks : s.1.Lacks start.segment index :=
        ⟨wanting.le, wanting.absent, wanting.before, .inr newer⟩
      have le := wanting.le
      have present := wanting.before start.segment (Nat.le_refl _) (by omega)
      have starts : s.1.StartsIn (some start) start.segment := rfl
      have failed := Session.openRange_of_lacks place sorted starts lacks s.2.config.bufferSize
      exact openHistory_of_failed place tidy decided present failed

/-- What there is decides what is answered, and what stays pinned. -/
theorem openHistory_of_responds {from_ : Option Pointer} {answer : Except Error Offer}
    (place : s.2.directory.place = .memory) (sorted : s.1.segments.Sorted)
    (words : ∀ k ∈ s.1.segments.keys, k + 1 < UInt64.size) (tidy : s.2.ledger.pins.Tidy)
    (h : Responds s.1 s.2 maxGaps c from_ answer) :
    ∃ l, openHistory maxGaps c from_ s = answered answer (Log.book s l) ∧
      l.pins = pinsAfter s.2.ledger.pins answer := by
  have starts (start : Pointer) : s.1.StartsIn (some start) start.segment := rfl
  have present {bs : Bytes} {ahead : List (ℕ × Bytes)} {first : ℕ}
      (complete : Complete s.1 s.2 first bs ahead) : s.1.segment? first ≠ none :=
    complete.covers.present (Nat.le_refl _) (Nat.lt_add_of_pos_right (Nat.succ_pos _))
  have stored {bs : Bytes} {ahead : List (ℕ × Bytes)} {first : ℕ}
      (complete : Complete s.1 s.2 first bs ahead) : s.2.directory.Stores s.1 first bs :=
    Directory.stores_memory place (complete.covers.stored _ List.mem_cons_self)
  cases h with
  | noHistory => exact ⟨s.2.ledger, openHistory_of_full rfl, rfl⟩
  | tooManyGaps many => exact ⟨s.2.ledger, openHistory_of_full (decide_of_gaps many), rfl⟩
  | missing few wanting => exact openHistory_of_missing place sorted words tidy few wanting
  | @unreadable start bs ahead fault few complete header =>
      have failed := Session.openRange_of_covers place sorted (starts start) complete.covers
        s.2.config.bufferSize
      rw [Directory.openReader_of_error (stored complete) header] at failed
      exact openHistory_of_failed place tidy (complete.decide place sorted words few)
        (present complete) failed
  | @behindEnd start bs ahead f few complete header past =>
      have failed := Session.openRange_of_covers place sorted (starts start) complete.covers
        s.2.config.bufferSize
      rw [Session.startOffset_some, Directory.openReader_of_past (stored complete)
        (Header.decode_eq_ok_iff.mpr header) past] at failed
      exact openHistory_of_failed place tidy (complete.decide place sorted words few)
        (present complete) failed
  | historical few complete header within opened positioned =>
      obtain ⟨r, reader, -, segment, -⟩ := positioned.reader
      refine openHistory_of_opened place (complete.decide place sorted words few) (present complete)
        opened ?_
      rw [Session.current?, reader, Option.map_some, segment]

/-- There is always an answer. -/
theorem exists_responds (place : log.directory.place = .memory) (sorted : v.segments.Sorted)
    (maxGaps : ℕ) (c : Counter) (from_ : Option Pointer) :
    ∃ answer, Responds v log maxGaps c from_ answer := by
  cases from_ with
  | none => exact ⟨_, .noHistory⟩
  | some start =>
      rcases Nat.lt_or_ge maxGaps c.gapCount with many | few
      · exact ⟨_, .tooManyGaps many⟩
      rcases Volume.lacks_or_covers sorted start.segment with ⟨index, lacks⟩ | ⟨bs, ahead, covers⟩
      · exact ⟨_, .missing few ⟨lacks.le, lacks.absent, lacks.before, lacks.needed.imp_right .inr⟩⟩
      by_cases reaches : log.active.segment ≤ start.segment + ahead.length
      · have complete : Complete v log start.segment bs ahead := ⟨covers, reaches⟩
        cases header : Header.decode bs with
        | error fault => exact ⟨_, .unreadable few complete header⟩
        | ok f =>
            have header := Header.decode_eq_ok_iff.mp header
            rcases Nat.lt_or_ge bs.length start.offset with past | within
            · exact ⟨_, .behindEnd few complete header past⟩
            · have starts : v.StartsIn (some start) start.segment := rfl
              obtain ⟨session, opened, positioned⟩ := Session.openRange_of_within place sorted starts
                covers header within log.config.bufferSize
              exact ⟨_, .historical few complete header within opened positioned⟩
      · -- the segment behind the newest one should be there, too
        have wanting : Wanting v log start.segment (start.segment + ahead.length + 1) := by
          refine ⟨by omega, covers.newest _ (Nat.le_refl _), fun i le lt => covers.present le ?_,
            .inr (.inl (by omega))⟩
          rw [List.length_cons]
          omega
        exact ⟨_, .missing few wanting⟩

theorem answered_inj {ε σ α : Type} {answer answer' : Except ε α} {s s' : σ}
    (h : answered answer s = answered answer' s') : answer = answer' := by
  cases answer <;> cases answer' <;> cases h <;> rfl

/-- Whatever the segments of a log in memory hold, if none has the last index of all, whatever the
counter and the budget, and whatever a partition has: it is answered by what there is, and pins are
left behind by a history alone. The only failure is that of a start behind the end of its segment. -/
theorem openHistory_iff (place : s.2.directory.place = .memory) (sorted : s.1.segments.Sorted)
    (words : ∀ k ∈ s.1.segments.keys, k + 1 < UInt64.size) (tidy : s.2.ledger.pins.Tidy)
    (maxGaps : ℕ) (c : Counter) (from_ : Option Pointer) :
    (∃ answer, Responds s.1 s.2 maxGaps c from_ answer) ∧
      (∀ answer, Responds s.1 s.2 maxGaps c from_ answer ↔
        ∃ l, openHistory maxGaps c from_ s = answered answer (Log.book s l) ∧
          l.pins = pinsAfter s.2.ledger.pins answer) ∧
      ∀ e s', openHistory maxGaps c from_ s = .error e s' →
        ∃ start bs, from_ = some start ∧ s.1.segment? start.segment = some bs ∧
          bs.length < start.offset := by
  obtain ⟨answer, responds⟩ := exists_responds place sorted maxGaps c from_
  obtain ⟨l, given, pins⟩ := openHistory_of_responds place sorted words tidy responds
  refine ⟨⟨answer, responds⟩, fun other => ⟨openHistory_of_responds place sorted words tidy, ?_⟩, ?_⟩
  · rintro ⟨l', given', -⟩
    rwa [answered_inj (given'.symm.trans given)]
  · intro e s' fails
    rw [given] at fails
    cases responds with
    | behindEnd few complete header past =>
        exact ⟨_, _, rfl, complete.covers.stored _ List.mem_cons_self, past⟩
    | noHistory | tooManyGaps _ | missing _ _ | unreadable _ _ _ | historical _ _ _ _ _ _ =>
        cases fails

/-- The segments are 3 and 4, and segment 3 has 35 bytes. Before it there is no history; from its
record at 15 on there is, although it is damaged behind that. -/
theorem openHistory_iff_spoiled :
    let v := Session.spoiled
    let log : Log := ⟨⟨.memory, none⟩, {}, .checked, ⟨4, ⟨1, .memory false, []⟩, 15⟩, {}⟩
    v.segments.Sorted ∧ log.ledger.pins.Tidy ∧
      (∃ l, openHistory 0 {} (some ⟨2, 15, 0⟩) (v, log) =
          .ok (.full (.segmentMissing 2)) (Log.book (v, log) l) ∧ l.pins = []) ∧
      ∃ session l, openHistory 0 {} (some ⟨3, 15, 0⟩) (v, log) =
          .ok (.historical ⟨session, 3⟩) (Log.book (v, log) l) ∧ l.pins = [(3, 2)] := by
  intro v log
  have sorted : v.segments.Sorted := by
    unfold Table.Sorted
    decide
  have answers (from_ : Option Pointer) :=
    (openHistory_iff (s := (v, log)) rfl sorted (by decide) Pins.tidy_nil 0 {} from_).2.1
  have wanting : Wanting v log 2 2 :=
    ⟨Nat.le_refl _, rfl, fun i le lt => absurd le (Nat.not_le.mpr lt), .inl rfl⟩
  have covers : v.Covers 3 [(3, v.bytes 0), (4, v.bytes 1)] := by
    refine ⟨rfl, by simp [v, Session.spoiled, Volume.segment?, Table.get?], fun i le => ?_⟩
    simp only [List.length_cons, List.length_nil] at le
    have other : 3 ≠ i ∧ 4 ≠ i := by omega
    simp [v, Session.spoiled, Volume.segment?, Table.get?, other]
  have header : Header.encode .unchecked <+: v.bytes 0 := List.prefix_append _ _
  have within : 15 ≤ (v.bytes 0).length := by decide
  have starts : v.StartsIn (some ⟨3, 15, 0⟩) 3 := rfl
  obtain ⟨session, opened, positioned⟩ := Session.openRange_of_within (d := log.directory) rfl
    sorted starts covers header within log.config.bufferSize
  obtain ⟨l, full, none_left⟩ := (answers (some ⟨2, 15, 0⟩) _).mp (.missing (Nat.le_refl _) wanting)
  obtain ⟨l', offered, two_left⟩ := (answers (some ⟨3, 15, 0⟩) _).mp
    (.historical (Nat.le_refl _) ⟨covers, Nat.le_refl _⟩ header within opened positioned)
  exact ⟨sorted, Pins.tidy_nil, ⟨l, full, none_left⟩, session, l', offered, two_left⟩

/-- The first of two segments was cut down to its header of 15 bytes. A partition that had got to
offset 43 before is refused, although all segments are there and a full copy could be made. -/
theorem openHistory_refuses :
    let v : Volume :=
      { contents := #[Header.encode .checked, Header.encode .checked], segments := [(0, 0), (1, 1)] }
    let log : Log := ⟨⟨.memory, none⟩, {}, .checked, ⟨1, ⟨1, .memory false, []⟩, 15⟩, {}⟩
    ∃ s', openHistory 0 {} (some ⟨0, 43, 0⟩) (v, log) =
      .error (.argument (.startPastEnd 43 0 15)) s' := by
  intro v log
  have sorted : v.segments.Sorted := by
    unfold Table.Sorted
    decide
  have covers : v.Covers 0 [(0, Header.encode .checked), (1, Header.encode .checked)] := by
    refine ⟨rfl, by simp [v, Volume.segment?, Table.get?, Volume.bytes], fun i le => ?_⟩
    simp only [List.length_cons, List.length_nil] at le
    have other : 0 ≠ i ∧ 1 ≠ i := by omega
    simp [v, Volume.segment?, Table.get?, other]
  have behind : Responds v log 0 {} (some ⟨0, 43, 0⟩)
      (.error (.argument (.startPastEnd 43 0 (Header.encode .checked).length))) :=
    .behindEnd (Nat.le_refl _) ⟨covers, Nat.le_refl _⟩ (List.prefix_refl _) (by decide)
  rw [Header.length_encode] at behind
  obtain ⟨l, refused, -⟩ := openHistory_of_responds (s := (v, log)) rfl sorted (by decide) Pins.tidy_nil
    behind
  exact ⟨_, refused⟩

end SegmentLog.Rebalance
