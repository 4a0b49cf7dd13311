import SegmentLog.Proofs.Client.Scene
import SegmentLog.Proofs.Client.Holders
import SegmentLog.Proofs.Log.Shelf

/-!
# What the log does under those who read it

`Scene.Inv` holds of a scene at all times: the log stands on its shelf, its pins account for all
that the client keeps, and whatever is watched has come through the records up to where it is, in a
segment that is there. Here the log does its work: it may put records and segments behind the
others, which readers only come to later, and releases segments that nobody holds.
-/
namespace SegmentLog

/-- What a client keeps to read with. -/
def Client.feed? (c : Client) : Feed → Option (Held Session)
  | .session name => c.sessions.get? name
  | .supply name => (c.supplies.get? name).map fun h => ⟨h.value.session, h.counted⟩

/-- The client has what is watched, on a segment that is there, and it has come through what is
before its start and what it gave. -/
structure Watch.Kept (w : Watch) (c : Client) (place : Place) (removed : ℕ) (shelf : Shelf)
    (feed : Feed) : Prop where
  log : c.log.isSome
  session : ∃ s skipped, c.feed? feed = some ⟨s, true⟩ ∧ s.Safe removed ∧
    skipped ++ w.due = shelf.items.take w.mark ∧
    s.Tracks place c.volume shelf (skipped ++ w.due) (skipped ++ w.given)
  mark : w.mark ≤ shelf.items.length
  answers : ∀ a ∈ w.answers, ∃ r, a = .ok r ∧ ∀ error, r.ending ≠ some (.failed error)
  complete : w.Ended → w.due <+: w.given

theorem Watch.Kept.served {w : Watch} {c : Client} {place : Place} {removed : ℕ} {shelf : Shelf}
    {feed : Feed} (h : w.Kept c place removed shelf feed) : w.Served shelf.items := by
  obtain ⟨s, skipped, -, -, parts, tracks⟩ := h.session
  have all : skipped ++ (w.due ++ shelf.items.drop w.mark) = shelf.items := by
    rw [← List.append_assoc, parts, List.take_append_drop]
  refine ⟨h.answers, ⟨skipped, all⟩, ?_, h.complete⟩
  have front := tracks.prefix
  rw [← all] at front
  exact (List.prefix_append_right_inj _).mp front

theorem Watch.given_told (w : Watch) (r : Reading) :
    Watch.given { w with answers := w.answers ++ [.ok r] } = w.given ++ r.items := by
  simp [given, readings, Except.toOption]

theorem Watch.ended_told {w : Watch} {r : Reading}
    (h : Watch.Ended { w with answers := w.answers ++ [.ok r] }) : w.Ended ∨ r.ending.isSome := by
  obtain ⟨r', mem, ended⟩ := h
  rw [readings, List.filterMap_append] at mem
  rcases List.mem_append.mp mem with before | now
  · exact .inl ⟨r', before, ended⟩
  · cases List.mem_singleton.mp now
    exact .inr ended

/-- The client read on and was told what it got. -/
theorem Watch.Kept.told {w : Watch} {c c' : Client} {place : Place} {removed : ℕ} {shelf : Shelf}
    {feed : Feed} (h : w.Kept c place removed shelf feed)
    (shelves : place.Shelves c.volume removed shelf)
    {held : Held Session} (found : c.feed? feed = some held) {count : ℕ}
    (log : c'.log.isSome = c.log.isSome) (volume : c'.volume = c.volume)
    (feeds : c'.feed? feed = some ⟨(held.value.take c.volume count).session, held.counted⟩) :
    Watch.Kept { w with answers := w.answers ++ [.ok (held.value.take c.volume count)] } c' place
      removed shelf feed := by
  obtain ⟨opened, ⟨s, skipped, feeding, safe, parts, tracks⟩, mark, answers, complete⟩ := h
  cases found.symm.trans feeding
  obtain ⟨tracks, safe, mild, given⟩ := Session.take_serves shelves tracks safe count
  dsimp only at feeds ⊢
  generalize s.take c.volume count = r at *
  rw [List.append_assoc] at tracks given
  refine ⟨log.trans opened, ⟨r.session, skipped, feeds, safe, parts, ?_⟩, mark, ?_, ?_⟩
  · rw [volume, given_told]
    exact tracks
  · intro a ha
    rcases List.mem_append.mp ha with ha | ha
    · exact answers a ha
    · cases List.mem_singleton.mp ha
      exact ⟨r, rfl, mild⟩
  · intro ended
    rw [given_told]
    rcases ended_told ended with before | now
    · exact (complete before).trans (List.prefix_append _ _)
    · exact (List.prefix_append_right_inj _).mp (given now)

theorem Watch.Kept.congr {w : Watch} {c c' : Client} {place : Place} {removed : ℕ} {shelf : Shelf}
    {feed : Feed} (h : w.Kept c place removed shelf feed) (log : c'.log.isSome = c.log.isSome)
    (volume : c'.volume = c.volume) (feeds : c'.feed? feed = c.feed? feed) :
    w.Kept c' place removed shelf feed := by
  refine ⟨log.trans h.log, ?_, h.mark, h.answers, h.complete⟩
  rw [volume, feeds]
  exact h.session

section
variable (c : Client) (name : String) (feed : Feed)

theorem Client.feed?_insert_session (held : Held Session) :
    ({ c with sessions := c.sessions.insert name held }).feed? feed =
      if feed = .session name then some held else c.feed? feed := by
  cases feed with
  | session other =>
      simp only [feed?, Table.get?_insert, Feed.session.injEq]
      simp only [eq_comm]
  | supply other => rfl

theorem Client.feed?_erase_session :
    ({ c with sessions := Table.erase c.sessions name }).feed? feed =
      if feed = .session name then none else c.feed? feed := by
  cases feed with
  | session other => simp only [feed?, Table.get?_erase, Feed.session.injEq]
  | supply other => rfl

theorem Client.feed?_insert_supply (held : Held Rebalance.Supply) :
    ({ c with supplies := c.supplies.insert name held }).feed? feed =
      if feed = .supply name then some ⟨held.value.session, held.counted⟩ else c.feed? feed := by
  cases feed with
  | session other => rfl
  | supply other =>
      simp only [feed?, Table.get?_insert, Feed.supply.injEq, eq_comm]
      split <;> rfl

theorem Client.feed?_erase_supply :
    ({ c with supplies := Table.erase c.supplies name }).feed? feed =
      if feed = .supply name then none else c.feed? feed := by
  cases feed with
  | session other => rfl
  | supply other =>
      simp only [feed?, Table.get?_erase, Feed.supply.injEq]
      split <;> rfl

end

theorem Client.isSome_relog (c : Client) (f : Ledger → Ledger) :
    (c.relog f).log.isSome = c.log.isSome := Option.isSome_map

namespace Scene

/-- What holds of a scene at all times. -/
structure Inv (place : Place) (scene : Scene) (removed : ℕ) (shelf : Shelf) : Prop where
  located : scene.client.place = some place
  fused : scene.client.fused = none
  shelves : place.Shelves scene.client.volume removed shelf
  items : shelf.items = scene.appended
  log : ∀ log ∈ scene.client.log, Log.Stands place removed (scene.client.volume, log) shelf
  accounted : scene.client.Accounted 0
  kept : ∀ feed w, scene.watches feed = some w → w.Kept scene.client place removed shelf feed

variable {place : Place} {scene : Scene} {removed : ℕ} {shelf : Shelf} {α : Type}

/-! ## Work of the log -/

theorem final_onLog {x : LogM α} {c : Client} {log : Log} (hl : c.log = some log) :
    final (Client.onLog x) c = { c with
      volume := (final x (c.volume, log)).1, log := some (final x (c.volume, log)).2 } := by
  unfold final Client.onLog
  rw [hl]
  dsimp only
  cases x (c.volume, log) with
  | ok a s => rfl
  | error e s => rfl

theorem act_of_error {x : ClientM α} {refusal : Refusal}
    (h : x scene.client = .error refusal scene.client) : scene.act x = scene := by
  rw [act, final_of_error h]

/-- The log went on to a shelf with further records. -/
theorem Inv.passes {log : Log} {s : Volume × Log} {shelf' : Shelf} {started : ℕ}
    {new : List (Pointer × Record)} (h : Inv place scene removed shelf)
    (hl : scene.client.log = some log)
    (passes : Log.Passes place removed started (scene.client.volume, log) s shelf shelf')
    (items : shelf'.items = shelf.items ++ new) :
    Inv place { scene with
      client := { scene.client with volume := s.1, log := some s.2 }
      appended := scene.appended ++ new } removed shelf' := by
  obtain ⟨older, newest, rfl, writes, shelves⟩ := passes.stands
  refine ⟨h.located, h.fused, shelves, by rw [items, h.items], ?_, ?_, ?_⟩
  · rintro _ ⟨⟩
    exact passes.stands
  · obtain ⟨guards, sessions, supplies, pins⟩ := h.accounted
    refine ⟨guards, sessions, supplies, ?_⟩
    rintro _ ⟨⟩
    rw [passes.pins]
    exact pins log hl
  · intro feed w hw
    obtain ⟨-, ⟨session, skipped, feeds, safe, parts, tracks⟩, mark, answers, complete⟩ :=
      h.kept feed w hw
    -- Further records stand behind those that were due, so these are still the same.
    have longer : shelf.items <+: (older ++ [newest]).items := ⟨new, items.symm⟩
    refine ⟨rfl, ⟨session, skipped, feeds, safe, ?_, tracks.extends passes.extended longer shelves⟩,
      mark.trans longer.length_le, answers, complete⟩
    rw [parts, items, List.take_append_of_le_length mark]

/-- Work that writes no record. -/
theorem Inv.act_onLog {x : LogM α} (h : Inv place scene removed shelf)
    (works : ∀ s, Log.Stands place removed s shelf → ∃ shelf',
      Log.Passes place removed 1 s (final x s) shelf shelf' ∧ shelf'.items = shelf.items) :
    ∃ shelf', Inv place (scene.act (Client.onLog x)) removed shelf' ∧
      shelf'.length ≤ shelf.length + 1 := by
  cases hl : scene.client.log with
  | none =>
      refine ⟨shelf, ?_, Nat.le_succ _⟩
      have absent : Client.onLog x scene.client = .error .absent scene.client :=
        Client.onLog_of_none hl
      rwa [act_of_error absent]
  | some log =>
      obtain ⟨shelf', passes, items⟩ := works _ (h.log log hl)
      refine ⟨shelf', ?_, passes.few⟩
      have after := h.passes hl passes (items.trans (List.append_nil _).symm)
      rw [List.append_nil] at after
      rw [act, final_onLog hl]
      exact after

theorem Inv.append (h : Inv place scene removed shelf) (room : Place.Room (shelf.length + 1))
    {record : Record} (wf : record.WellFormed) :
    ∃ shelf', Inv place (scene.append record) removed shelf' ∧
      shelf'.length ≤ shelf.length + 1 := by
  cases hl : scene.client.log with
  | none =>
      refine ⟨shelf, ?_, Nat.le_succ _⟩
      rw [Scene.append, Client.onLog_of_none hl]
      exact h
  | some log =>
      obtain ⟨s, shelf', passes, outcome⟩ := Log.append_appends (h.log log hl) room wf
      refine ⟨shelf', ?_, passes.few⟩
      rcases outcome with ⟨p, appended, items⟩ | ⟨e, failed, items⟩
      · rw [Scene.append, Client.onLog_of_ok hl appended]
        exact h.passes hl passes items
      · rw [Scene.append, Client.onLog_of_error hl failed]
        have after := h.passes hl passes (items.trans (List.append_nil _).symm)
        rwa [List.append_nil] at after

/-! ## Releasing -/

/-- What reads the log holds the segment it is on. -/
theorem held_pos {c : Client} {feed : Feed} {s : Session} {k : ℕ}
    (feeds : c.feed? feed = some ⟨s, true⟩) (on : k ∈ s.current?) : 0 < c.held k := by
  have share : Client.sessionShare k s = 1 := by
    rw [Client.sessionShare, Pins.share, if_pos (Option.mem_def.mp on)]
  cases feed with
  | session name =>
      have := Table.le_total feeds (Held.weigh (Client.sessionShare k))
      change Client.sessionShare k s ≤ _ at this
      unfold Client.held
      omega
  | supply name =>
      obtain ⟨⟨supply, counted⟩, found, same⟩ := Option.map_eq_some_iff.mp feeds
      cases same
      change Client.sessionShare k supply.session = 1 at share
      have := Table.le_total found (Held.weigh (Client.supplyShare k))
      change Client.sessionShare k supply.session + _ ≤ _ at this
      unfold Client.held
      omega

/-- A release passes nothing that reads the log. -/
theorem Inv.releaseBefore (h : Inv place scene removed shelf) (segment : ℕ) :
    ∃ removed',
      Inv place (scene.act (Client.onLog (Log.releaseBefore segment))) removed' shelf := by
  cases hl : scene.client.log with
  | none =>
      refine ⟨removed, ?_⟩
      have absent : Client.onLog (Log.releaseBefore segment) scene.client =
        .error .absent scene.client := Client.onLog_of_none hl
      rwa [act_of_error absent]
  | some log =>
      obtain ⟨⟨removed', stands, le, below⟩, pins⟩ :=
        Log.releaseBefore_releases (h.log log hl) segment
      obtain ⟨sorted, enough⟩ := h.accounted.pins log hl
      refine ⟨removed', ?_⟩
      rw [act, final_onLog hl]
      generalize final (Log.releaseBefore segment) (scene.client.volume, log) = s at stands pins
      obtain ⟨older, newest, same, writes, shelves⟩ := stands
      refine ⟨h.located, h.fused, shelves, h.items, ?_, ?_, ?_⟩
      · rintro _ ⟨⟩
        exact ⟨older, newest, same, writes, shelves⟩
      · refine ⟨h.accounted.guards, h.accounted.sessions, h.accounted.supplies, ?_⟩
        rintro _ ⟨⟩
        rw [pins]
        exact ⟨sorted, enough⟩
      · intro feed w hw
        obtain ⟨-, ⟨session, skipped, feeds, safe, parts, tracks⟩, mark, answers, complete⟩ :=
          h.kept feed w hw
        refine ⟨rfl, ⟨session, skipped, feeds, ?_, parts,
          tracks.extends (.refl _) (List.prefix_refl _) shelves⟩, mark, answers, complete⟩
        -- Its segment is pinned, so the limit of the release is not behind that segment.
        intro k on
        have held := held_pos feeds on
        have limit := Log.releaseLimit_le sorted (held.trans_le (enough k)) segment
        have := safe k on
        dsimp only at below
        omega

end Scene
end SegmentLog
