import SegmentLog.Proofs.Counter.Reached
import SegmentLog.Proofs.Record.RoundTrip

/-!
# Counters that are read back

A counter that is written as a snapshot and read back has lost what it handed out beyond its last
complete number, and nothing else. Whoever only reports completions and asks about them cannot
tell: main statement `Reached.reload_answers`. The two counters have one core, and no answer
depends on more.
-/
namespace SegmentLog.Counter

/-! ## Callers that do not reserve -/

inductive Ask
  | complete (start len : ℕ)
  | isCompleted (n : ℕ)
  | finalize
  | moveTo (value : ℕ)
  | snapshot
deriving DecidableEq, Repr

/-- What a caller is answered, with what the observer is told meanwhile. -/
inductive Reply
  | done (event : Option Event)
  | refused (fault : CounterFault)
  | known (complete : Bool)
  | missing (holes : List Run) (event : Option Event)
  | snapshot (s : Snapshot)
deriving DecidableEq, Repr

/-- A refusal leaves the counter as it was. -/
def reply (c : Counter) : Except CounterFault (Counter × Option Event) → Reply × Counter
  | .ok (c', event) => (.done event, c')
  | .error fault => (.refused fault, c)

def answer (c : Counter) : Ask → Reply × Counter
  | .complete start len => c.reply (c.complete start len)
  | .isCompleted n => (.known (c.isCompleted n), c)
  | .finalize =>
    let (holes, c', event) := c.finalize
    (.missing holes event, c')
  | .moveTo value => c.reply (c.moveTo value)
  | .snapshot => (.snapshot c.snapshot, c)

/-- The replies to one question after the other. -/
def answers (c : Counter) : List Ask → List Reply
  | [] => []
  | ask :: asks => (c.answer ask).1 :: (c.answer ask).2.answers asks

variable {c d : Counter} {C : Set ℕ}

theorem reply_of_core (same : d.core = c.core)
    {result result' : Except CounterFault (Counter × Option Event)}
    (results : coreAnswer result' = coreAnswer result) :
    (d.reply result').1 = (c.reply result).1 ∧
      (d.reply result').2.core = (c.reply result).2.core := by
  cases result with
  | error fault =>
      cases result' with
      | error fault' =>
          cases results
          exact ⟨rfl, same⟩
      | ok left => cases results
  | ok left =>
      obtain ⟨c', event⟩ := left
      obtain ⟨d', rfl, cores⟩ := coreAnswer_ok results rfl
      exact ⟨rfl, cores⟩

/-- Counters with one core give one reply, and have one core after it. -/
theorem answer_of_core (same : d.core = c.core) (ask : Ask) :
    (d.answer ask).1 = (c.answer ask).1 ∧ (d.answer ask).2.core = (c.answer ask).2.core := by
  have fields : d.config = c.config ∧ d.applied = c.applied ∧ d.gaps = c.gaps := by
    simpa [core] using same
  obtain ⟨-, applied, gaps⟩ := fields
  cases ask with
  | complete start len => exact reply_of_core same (complete_of_core same start len)
  | isCompleted n => exact ⟨by simp only [answer, isCompleted, applied, gaps], same⟩
  | finalize =>
      have missing : d.missing = c.missing := by simp only [Counter.missing, applied, gaps]
      refine ⟨by simp only [answer, Counter.finalize, missing, applied, gaps], ?_⟩
      simp only [answer]
      exact finalize_of_core same
  | moveTo value => exact reply_of_core same (moveTo_of_core same value)
  | snapshot => exact ⟨by simp only [answer, Counter.snapshot, applied, gaps], same⟩

theorem answers_of_core (same : d.core = c.core) (asks : List Ask) :
    d.answers asks = c.answers asks := by
  induction asks generalizing c d with
  | nil => rfl
  | cons ask asks ih =>
      obtain ⟨replies, cores⟩ := answer_of_core same ask
      simp only [answers, replies, ih cores]

/-! ## Reading back -/

/-- The last number that a counter has complete, or 0 if it has none. -/
theorem Sound.reserved_eq (h : c.Sound) (last : c.reserved = 0 ∨ c.reserved ∈ c.completed) :
    c.completed = ∅ ∧ c.reserved = 0 ∨ IsGreatest c.completed c.reserved := by
  rcases last with none | last
  · refine Or.inl ⟨Set.eq_empty_iff_forall_notMem.mpr fun n hn => ?_, none⟩
    have := h.le_reserved hn
    have := (mem_completed.mp hn).1
    omega
  · exact Or.inr ⟨last, fun n hn => h.le_reserved hn⟩

/-- A snapshot that is taken over gives back the counter it was taken of, with nothing handed out
beyond what is complete. -/
theorem Ordered.restore_snapshot (h : c.Ordered) (words : c.InWords) (config : d.config = c.config) :
    ∃ c', d.restore c.snapshot = .ok c' ∧ c'.core = c.core ∧ c'.initial = c.applied ∧
      (c.completed = ∅ ∧ c'.reserved = 0 ∨ IsGreatest c.completed c'.reserved) := by
  obtain ⟨c', restored⟩ := restore_of_valid d (h.snapshot_validate words)
  obtain ⟨sound, completed, last⟩ := restore_spec restored
  rw [h.snapshot_covered words] at completed
  have kept : c'.config = d.config ∧ c'.initial = c'.applied := by
    obtain ⟨-, level, gaps, -, rfl⟩ := restore_cases restored
    exact ⟨rfl, rfl⟩
  have cores := h.core_eq sound.ordered (kept.1.trans config) completed
  have applied : c'.applied = c.applied := by
    change c'.core.applied = c.core.applied
    rw [cores]
  exact ⟨c', restored, cores, kept.2.trans applied, completed ▸ sound.reserved_eq last⟩

/-- What reading back gives is the counter, with nothing handed out beyond what is complete. -/
theorem Ordered.reload_spec (h : c.Ordered) (words : c.InWords) (few : c.gapCount < UInt32.size) :
    ∃ c', c.reload = .ok c' ∧ c'.core = c.core ∧ c'.initial = c.applied ∧
      (c.completed = ∅ ∧ c'.reserved = 0 ∨ IsGreatest c.completed c'.reserved) := by
  have short : c.snapshot.gaps.length < UInt32.size := by
    rwa [snapshot, List.length_map]
  obtain ⟨c', restored, same⟩ := h.restore_snapshot words (show c.reset.config = c.config from rfl)
  refine ⟨c', ?_, same⟩
  unfold reload
  rw [Snapshot.decode_encode (h.snapshot_validate words) short]
  exact restored

/-- A counter that is read back has the snapshot, `applied` and the number of gaps that were
written; the highest number it has handed out is the last complete one; and it answers every
question as the counter that was written does. -/
theorem Reached.reload_answers {allowed : Counter → Call → Prop} {config : Config}
    (h : Reached allowed config c C) (few : c.gapCount < UInt32.size) :
    ∃ c', c.reload = .ok c' ∧ c'.config = config ∧ c'.snapshot = c.snapshot ∧
      c'.applied = c.applied ∧ c'.gapCount = c.gapCount ∧ c'.initial = c.applied ∧
      (C = ∅ ∧ c'.reserved = 0 ∨ IsGreatest C c'.reserved) ∧
      ∀ asks, c'.answers asks = c.answers asks := by
  obtain ⟨ordered, completed, same⟩ := h.spec
  obtain ⟨c', reload, cores, initial, last⟩ := ordered.reload_spec h.inWords few
  have fields : c'.config = c.config ∧ c'.applied = c.applied ∧ c'.gaps = c.gaps := by
    simpa [core] using cores
  obtain ⟨config_eq, applied, gaps⟩ := fields
  refine ⟨c', reload, config_eq.trans same, ?_, applied, by rw [gapCount, gapCount, gaps], initial,
    completed ▸ last, answers_of_core cores⟩
  rw [snapshot, snapshot, applied, gaps]

/-- With 5 and 6 complete, 12 numbers handed out and room for one gap, a counter that is read back
has 6 for the highest, refuses a second gap, and then goes on to 7. -/
theorem reload_answers_one_gap :
    let c := (Call.complete 5 2).perform
      ((Call.reserve 12).perform { config := { maxGaps := 1 } })
    Reached (fun _ _ => True) { maxGaps := 1 } c (Set.Ico 5 7) ∧
      c.gapCount < UInt32.size ∧
      ∃ c', c.reload = .ok c' ∧ c'.snapshot = c.snapshot ∧ IsGreatest (Set.Ico 5 7) c'.reserved ∧
        c'.answers [.complete 9 1, .complete 1 4, .complete 7 1, .isCompleted 7] =
          [.refused (.tooManyGaps 1 9), .done (some (.applied 0 6)), .done (some (.applied 6 7)),
            .known true] := by
  intro c
  have reached : Reached (fun _ _ => True) { maxGaps := 1 } c (∅ ∪ Set.Ico 5 7) :=
    (Reached.empty.succeed (.reserve 12) trivial trivial rfl).succeed
      (.complete 5 2) trivial trivial (by decide)
  rw [Set.empty_union] at reached
  obtain ⟨c', reload, -, snapshot, -, -, -, last, answers⟩ := reached.reload_answers (by decide)
  refine ⟨reached, by decide, c', reload, snapshot, last.resolve_left ?_, ?_⟩
  · rintro ⟨none, -⟩
    exact Set.notMem_empty 5 (none ▸ ⟨le_rfl, by decide⟩)
  · exact (answers _).trans (by decide)

end SegmentLog.Counter
