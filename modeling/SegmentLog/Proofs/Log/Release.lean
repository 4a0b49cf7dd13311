import SegmentLog.Proofs.Ledger.Tidy
import SegmentLog.Proofs.Log.Sheet

/-!
# What a release removes

A release removes segments from the front, one by one, as far as it is told to, but neither the
newest segment nor any that stands behind one that is held. If the pin table is tidy it does just
that, whatever the segments hold: it never comes upon a segment that is in use.
-/
namespace SegmentLog.Log

variable {place : Place} {removed limit : ℕ} {older : List ContentId} {s : Volume × Log}

/-- The same log after some segments at the front were removed: nothing else is gone, and only the
figures in its ledger are others. -/
structure Released (place : Place) (removed : ℕ) (older : List ContentId) (s s' : Volume × Log) :
    Prop where
  heads : Heads place removed older s'
  contents : s'.1.contents = s.1.contents
  log : ∃ stats, s'.2 = { s.2 with ledger := { s.2.ledger with stats } }

theorem Heads.released_self (h : Heads place removed older s) :
    Released place removed older s s := ⟨h, rfl, _, rfl⟩

theorem Released.trans {older : List ContentId} {removed' : ℕ} {s' s'' : Volume × Log}
    (h : Released place removed older s s') (h' : Released place removed' older s' s'') :
    Released place removed' older s s'' := by
  obtain ⟨stats, log⟩ := h.log
  obtain ⟨stats', log'⟩ := h'.log
  exact ⟨h'.heads, h'.contents.trans h.contents, stats', by rw [log', log]⟩

theorem Heads.segments (h : Heads place removed older s) :
    s.2.segments s.1 = .ok (List.range' removed (older.length + 1 - removed)) := by
  rw [Log.segments, h.directory]
  exact h.keeps.stocks.list.trans (by rw [List.length_append, List.length_singleton])

/-- The oldest segment is removed. -/
theorem Heads.remove (h : Heads place removed older s) (lt : removed < older.length) :
    ∃ v', (liftM (s.2.directory.remove removed) : LogM Unit) s = .ok () (v', s.2) ∧
      Released place (removed + 1) older s
        (v', { s.2 with ledger := s.2.ledger.count .removed }) := by
  obtain ⟨v', done, keeps, contents⟩ :=
    h.keeps.remove (by rw [List.length_append, List.length_singleton]; omega)
  refine ⟨v', LogM.run_lift_of_ok ?_ s.2, ⟨h.directory, keeps, h.segment, h.bare, ?_⟩, contents, _,
    rfl⟩
  · rw [h.directory]
    exact done
  · have within := h.within
    rw [Volume.bytes, contents] at *
    exact within

theorem removeBelow_exact (h : Heads place removed older s) (tidy : s.2.ledger.pins.Tidy)
    (le : limit ≤ older.length) (free : ∀ k < limit, s.2.ledger.pins.count k = 0) {count : ℕ}
    (listed : older.length < removed + count) :
    ∃ s', removeBelow limit (List.range' removed count) s = .ok (limit - removed) s' ∧
      Released place (max removed limit) older s s' := by
  -- The walk ends at the limit, which no more of the listing is below.
  induction count generalizing s removed with
  | zero =>
      have := h.keeps.removed_le_older
      omega
  | succ count ih =>
      rw [List.range'_succ, removeBelow]
      by_cases reached : limit ≤ removed
      · rw [if_pos reached, Nat.sub_eq_zero_of_le reached, Nat.max_eq_left reached]
        exact ⟨s, rfl, h.released_self⟩
      have unheld : s.2.ledger.pins.isPinned removed = false := by
        rw [← Bool.not_eq_true, tidy.isPinned_iff, free removed (by omega)]
        exact lt_irrefl 0
      obtain ⟨v', removing, released⟩ := h.remove (by omega)
      obtain ⟨s', done, later⟩ := ih released.heads tidy free (by omega)
      have counted : LogM.enter (·.count .removed) (v', s.2) =
        .ok () (v', { s.2 with ledger := s.2.ledger.count .removed }) := rfl
      refine ⟨s', ?_, ?_⟩
      · rw [if_neg reached, run_bind_of_ok (show LogM.getLog s = .ok s.2 s from rfl), unheld,
          if_neg Bool.false_ne_true]
        dsimp only
        rw [run_bind_of_ok removing, run_bind_of_ok counted, run_bind_of_ok done,
          show limit - removed = limit - (removed + 1) + 1 by omega]
        rfl
      · have := released.trans later
        rwa [show max (removed + 1) limit = max removed limit by omega] at this

/-- A release removes what it is to pass, and says how many segments that were. -/
theorem releaseBefore_exact (h : Heads place removed older s) (tidy : s.2.ledger.pins.Tidy)
    (segment : ℕ) :
    ∃ s', releaseBefore segment s = .ok (s.2.releaseLimit segment - removed) s' ∧
      Released place (max removed (s.2.releaseLimit segment)) older s s' := by
  have below (k : ℕ) (lt : k < s.2.releaseLimit segment) :=
    (lt_releaseLimit_iff tidy segment k).mp lt
  have le : s.2.releaseLimit segment ≤ older.length := by
    by_contra lt
    have := (below older.length (by omega)).2.1
    rw [h.segment] at this
    exact lt_irrefl _ this
  have present := h.keeps.removed_le_older
  have listed := LogM.read_of_ok (f := fun v log => log.segments v) h.segments
  unfold releaseBefore
  rw [run_bind_of_ok (show LogM.getLog s = .ok s.2 s from rfl), run_bind_of_ok listed]
  exact removeBelow_exact h tidy le (fun k lt => (below k lt).2.2 k le_rfl) (by omega)

/-- What is left stands as it stood before. -/
theorem Fills.released {removed' : ℕ} {older : List Sheet} {newest : Sheet} {s' : Volume × Log}
    (h : Fills place removed older newest s)
    (released : Released place removed' (older.map (·.content)) s s') :
    Fills place removed' older newest s' := by
  obtain ⟨v', log'⟩ := s'
  obtain ⟨heads, contents, stats, rfl⟩ := released
  have bytes (id : ContentId) : v'.bytes id = s.1.bytes id := by
    rw [Volume.bytes, Volume.bytes, contents]
  exact ⟨heads, h.content, h.config, h.format, h.position, h.tail, h.bounded,
    fun sheet mem => (bytes _).trans (h.bytes sheet mem), h.filled⟩

end SegmentLog.Log
