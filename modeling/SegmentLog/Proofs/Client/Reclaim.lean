import SegmentLog.Proofs.Client.Kept
import SegmentLog.Proofs.Log.Guards
import SegmentLog.Proofs.Session.Shown

/-!
# What a client can reclaim

Whatever a client has asked for, failed calls among them, the pin table of its log has one pin for
each holder of a segment and nothing else. So a release removes just the segments that stand before
the given one, the newest one and all that are held. The others stay as they are, and replaying the
log gives their records.
-/
namespace SegmentLog

/-! ## Removing a front -/

/-- The segments before a limit stand in front of the others. -/
theorem Volume.split_image (v : Volume) (removed limit : ℕ) (ids : List ContentId) :
    ∃ passed, v.image removed ids = passed ++ v.image (max removed limit) ids ∧
      (∀ e ∈ passed, e.1 < limit) ∧ (∀ e ∈ v.image (max removed limit) ids, limit ≤ e.1) ∧
      passed.length = min (limit - removed) (ids.length - removed) := by
  refine ⟨(v.image removed ids).take (limit - removed), ?_, fun e mem => ?_, fun e mem => ?_, ?_⟩
  · conv_lhs => rw [← List.take_append_drop (limit - removed) (v.image removed ids)]
    rw [image, image, List.drop_drop, show removed + (limit - removed) = max removed limit by omega]
  · obtain ⟨i, lt, rfl⟩ := List.mem_take_iff_getElem.mp mem
    simp only [image, List.getElem_drop, List.getElem_mapIdx]
    omega
  · obtain ⟨id, le, -⟩ := mem_image mem
    omega
  · simp [image]

variable {limit : ℕ} {image passed left : List (ℕ × Bytes)}

theorem filter_front (split : image = passed ++ left) (before : ∀ e ∈ passed, e.1 < limit)
    (behind : ∀ e ∈ left, limit ≤ e.1) :
    image.filter (·.1 < limit) = passed ∧ image.filter (limit ≤ ·.1) = left := by
  subst split
  rw [List.filter_append, List.filter_append]
  constructor
  · rw [List.filter_eq_self.mpr (by simpa using before),
      List.filter_eq_nil_iff.mpr (by simpa using behind), List.append_nil]
  · rw [List.filter_eq_nil_iff.mpr (by simpa using before),
      List.filter_eq_self.mpr (by simpa using behind), List.nil_append]

namespace Log

/-- A release of the segments before one of a log that shows these segments. -/
structure Reclaims (v : Volume) (log : Log) (image : List (ℕ × Bytes)) (segment limit first : ℕ)
    (s : Volume × Log) : Prop where
  /-- It stops at the given segment, at the one that is written, and at the first that is held. -/
  stops : ∀ k, k < limit ↔ k < segment ∧ k < log.active.segment ∧
    ∀ held ≤ k, log.ledger.pins.count held = 0
  /-- It says how many segments there are before that. -/
  done : releaseBefore segment (v, log) = .ok (image.filter (·.1 < limit)).length s
  /-- They are gone, and the others have the bytes that they had. -/
  shows : log.directory.Shows s.1 (image.filter (limit ≤ ·.1))
  /-- These follow each other up to the one that is written. -/
  listed : first ≤ log.active.segment ∧ (image.filter (limit ≤ ·.1)).map (·.1) =
    List.range' first (log.active.segment + 1 - first)
  /-- But for its figures the log is as it was. -/
  log : ∃ stats, s.2 = { log with ledger := { log.ledger with stats } }
  /-- A session gives what the others hold. -/
  replayed : ∃ session s', replayRange none none s = .ok session s' ∧
    (session.drain s'.1).items = (Segment.scanAll (image.filter (limit ≤ ·.1))).1 ∧
    (session.drain s'.1).ending = some (Segment.scanAll (image.filter (limit ≤ ·.1))).2

theorem replayRange_of_openRange {s : Volume × Log} {start stop : Option Pointer}
    {session : Session} (opened : Session.openRange s.2.directory s.1 s.2.config.bufferSize start
      stop = .ok session) :
    ∃ l, replayRange start stop s = .ok session (book s l) := by
  have counted : LogM.enter (·.count .sessionOpened) s =
    .ok () (book s (s.2.ledger.count .sessionOpened)) := rfl
  refine ⟨(s.2.ledger.count .sessionOpened).hold session, ?_⟩
  unfold replayRange
  rw [run_bind_of_ok counted]
  exact run_bind_of_ok (LogM.read_of_ok opened)

/-- A log that shows segments without a gap replays what they hold. -/
theorem replayRange_scanAll {s : Volume × Log} {first n : ℕ}
    (shows : s.2.directory.Shows s.1 image) (follow : image.map (·.1) = List.range' first n)
    (some_segment : 0 < n) (header : ∀ e ∈ image, ∃ f, Header.encode f <+: e.2) :
    ∃ session s', replayRange none none s = .ok session s' ∧
      (session.drain s'.1).items = (Segment.scanAll image).1 ∧
      (session.drain s'.1).ending = some (Segment.scanAll image).2 := by
  have shows : s.2.directory.Shows s.1 ([] ++ image) := shows
  have size := congrArg List.length follow
  rw [List.length_map, List.length_range'] at size
  have starts : (none : Option Pointer).elim (([] : List (ℕ × Bytes)) = []) (·.segment = first) :=
    rfl
  obtain ⟨session, opened, items, ending⟩ := Session.openRange_scanAll
    (List.ne_nil_of_length_pos (size ▸ some_segment)) shows starts (Nat.zero_le _) (size ▸ follow)
    (fun e there => header e (List.mem_of_mem_head? there)) s.2.config.bufferSize
  obtain ⟨l, replaying⟩ := replayRange_of_openRange opened
  exact ⟨session, _, replaying, items, ending⟩

variable {place : Place} {removed : ℕ} {older : List ContentId} {v : Volume} {log : Log}

theorem releaseBefore_reclaims (h : Heads place removed older (v, log))
    (tidy : log.ledger.pins.Tidy)
    (header : ∀ id ∈ older ++ [log.active.store.content], ∃ f, Header.encode f <+: v.bytes id)
    (segment : ℕ) :
    ∃ limit s, removed ≤ older.length ∧ limit ≤ older.length ∧
      Reclaims v log (v.image removed (older ++ [log.active.store.content])) segment limit
        (max removed limit) s ∧
      (v.image removed (older ++ [log.active.store.content])).filter (limit ≤ ·.1) =
        v.image (max removed limit) (older ++ [log.active.store.content]) := by
  obtain ⟨⟨v', log'⟩, done, heads, contents, stats, rfl⟩ := releaseBefore_exact h tidy segment
  have stops := lt_releaseLimit_iff tidy segment
  generalize log.releaseLimit segment = limit at *
  have below : limit ≤ log.active.segment := by
    by_contra lt
    exact absurd ((stops log.active.segment).mp (by omega)).2.1 (lt_irrefl _)
  have active : log.active.segment = older.length := h.segment
  have present := h.keeps.removed_le_older
  obtain ⟨passed, split, before, behind, count⟩ :=
    v.split_image removed limit (older ++ [log.active.store.content])
  obtain ⟨front, rest⟩ := filter_front split before behind
  have length : passed.length = limit - removed := by
    rw [count, List.length_append, List.length_singleton]
    omega
  have keeps : place.Keeps v' (max removed limit) (older ++ [log.active.store.content]) :=
    heads.keeps
  have same : v'.image (max removed limit) (older ++ [log.active.store.content]) =
      v.image (max removed limit) (older ++ [log.active.store.content]) :=
    Volume.image_congr (fun id _ => by rw [Volume.bytes, Volume.bytes, contents]) _
  have directory : log.directory = { place } := h.directory
  have shows : log.directory.Shows v'
      (v.image (max removed limit) (older ++ [log.active.store.content])) := by
    rw [directory, ← same]
    exact keeps.shows
  have keys := Volume.map_fst_image v (max removed limit) (older ++ [log.active.store.content])
  rw [List.length_append, List.length_singleton, ← active] at keys
  refine ⟨limit, (v', { log with ledger := { log.ledger with stats } }), present, active ▸ below,
    ⟨stops, ?_, ?_, ?_, ⟨stats, rfl⟩, ?_⟩, rest⟩
  · rw [front, length]
    exact done
  · rw [rest]
    exact shows
  · rw [rest]
    exact ⟨by omega, keys⟩
  · rw [rest]
    refine replayRange_scanAll shows keys (by omega) fun e mem => ?_
    obtain ⟨id, -, found, bytes⟩ := Volume.mem_image mem
    rw [bytes]
    exact header id (List.mem_of_getElem? found)

end Log

namespace Scene

/-- Whatever a client has asked for, the pins of its log are those of its holders, as many as there
are, and taking pins first makes no difference. A client that started without segments can release
what nobody holds, and the rest is what its log replays: all records that were appended to it, if
they can be read. -/
theorem serve_reclaims (place : Place) (v : Volume) (requests : List Request) :
    (serve requests (start place v)).client.Balanced 0 ∧
    ∀ log, (serve requests (start place v)).client.log = some log →
      Log.PinsFirst ((serve requests (start place v)).client.volume, log) ∧
      (place.Stocks v 0 [] → Place.Room requests.length →
        ∃ image, log.directory.Shows (serve requests (start place v)).client.volume image ∧
          ∀ segment, ∃ limit first s,
            Log.Reclaims (serve requests (start place v)).client.volume log image segment limit
              first s ∧
            ((serve requests (start place v)).Readable →
              Segment.scanAll (image.filter (limit ≤ ·.1)) =
                (((serve requests (start place v)).appended.filter
                  (first ≤ ·.1.segment)).map Client.kept, .finish))) := by
  have pins := balanced_serve (balanced_start place v) requests
  refine ⟨pins, fun log hl => ⟨Log.pinsFirst (pins.pins log hl).1, fun empty room => ?_⟩⟩
  obtain ⟨removed, sheets, layout, -⟩ := (layout_start empty requests).serve
    (balanced_start place v) (room.mono (by simp)) fun _ => id
  obtain ⟨older, newest, rfl, fills, -⟩ := layout.log log hl
  generalize serve requests (start place v) = scene at *
  have ids : older.map (·.content) ++ [log.active.store.content] =
      (older ++ [newest]).map (·.content) := by
    rw [List.map_append, List.map_singleton, fills.content]
  have header : ∀ id ∈ older.map (·.content) ++ [log.active.store.content],
      ∃ f, Header.encode f <+: scene.client.volume.bytes id := by
    intro id mem
    rw [ids] at mem
    obtain ⟨sheet, there, rfl⟩ := List.mem_map.mp mem
    exact ⟨sheet.image.format, layout.bytes sheet there ▸ List.prefix_append ..⟩
  have directory : log.directory = { place } := fills.heads.directory
  refine ⟨_, directory ▸ fills.heads.keeps.shows, fun segment => ?_⟩
  obtain ⟨limit, s, present, within, reclaims, left⟩ :=
    Log.releaseBefore_reclaims fills.heads (pins.pins log hl).1 header segment
  refine ⟨limit, max removed limit, s, reclaims, fun readable => ?_⟩
  rw [List.length_map] at present within
  rw [left, ids]
  exact layout.scanAll readable (by rw [List.length_append, List.length_singleton]; omega)

/-- Guards, sessions and a supply hold segments, one of each is replaced, and some calls fail. -/
def holding : List Request := [
  .call (.openLog {}), .call (.append (update 1)), .call .rotate, .call (.append (update 2)),
  .call .rotate, .call (.append (update 3)), .call (.pin "kept" 1), .call (.pin "kept" 2),
  .call (.pin "gone" 7), .readRecord ⟨7, 15, 0⟩, .readRecord ⟨1, 15, 0⟩,
  .call (.openSession false "all" none), .call (.readSession "all" 2),
  .call (.openSupply "late" 0 none (some ⟨1, 15, 0⟩)),
  .call (.openSupply "lost" 0 none (some ⟨1, 99, 0⟩)), .openRange false "all" (some ⟨9, 0, 0⟩) none,
  .readAll false none none]

theorem serve_reclaims_holding :
    (serve holding (start .memory {})).client.log.map (·.ledger.pins) = some [(1, 3), (2, 1)] ∧
    answer (Client.onLog (Log.releaseBefore 9)) (serve holding (start .memory {})).client = .ok 1 ∧
    ∀ log, (serve holding (start .memory {})).client.log = some log → ∃ image,
      log.directory.Shows (serve holding (start .memory {})).client.volume image ∧
      ∀ segment, ∃ limit first s,
        Log.Reclaims (serve holding (start .memory {})).client.volume log image segment limit first
          s ∧
        ((serve holding (start .memory {})).Readable →
          Segment.scanAll (image.filter (limit ≤ ·.1)) =
            (((serve holding (start .memory {})).appended.filter
              (first ≤ ·.1.segment)).map Client.kept, .finish)) := by
  refine ⟨?_, ?_, fun log opened =>
    ((serve_reclaims .memory {} holding).2 log opened).2 (Place.stocks_memory rfl) (by decide)⟩
  · decide +kernel
  · decide +kernel

end Scene
end SegmentLog
