import SegmentLog.Proofs.Client.Balance
import SegmentLog.Proofs.Log.Release
import SegmentLog.Proofs.Log.Sheet

/-!
# The layout of a client's segments

Whatever a client asks of its log, its segments stay in the layout that logs give them: frames of
the records that were appended, one behind the other, and zeros. `Scene.Layout` says this of all
segments that are there, of what was appended to them, and of the segment that is written. Opening a
log may cut off frames at the end of the newest segment, but only if they cannot be read.
-/
namespace SegmentLog

/-! ## What was appended to each segment -/

/-- What was appended to a segment. -/
def appendedTo (appended : List (Pointer × Record)) (k : ℕ) : List (Pointer × Record) :=
  appended.filter (·.1.segment = k)

/-- The segments hold what was appended to them, from its start on, and all of it if it can be read.
Each pointer leads into one of them, and never back to an earlier one. -/
structure Account (appended : List (Pointer × Record)) (sheets : List Sheet) : Prop where
  ordered : appended.Pairwise (·.1.segment ≤ ·.1.segment)
  reach : ∀ item ∈ appended, item.1.segment < sheets.length ∧
    item.1.offset + item.1.length ≤ Pointer.maxOffset
  records : ∀ k sheet, sheets[k]? = some sheet →
    sheet.image.items k <+: appendedTo appended k ∧
      ((∀ item ∈ appendedTo appended k, item.2.Readable) →
        sheet.image.items k = appendedTo appended k)

variable {appended : List (Pointer × Record)} {sheets older sheets' : List Sheet} {newest : Sheet}
  {frame : Bytes} {record : Record}

theorem appendedTo_concat (item : Pointer × Record) (k : ℕ) :
    appendedTo (appended ++ [item]) k =
      appendedTo appended k ++ if item.1.segment = k then [item] else [] := by
  rw [appendedTo, List.filter_append, appendedTo, List.filter_singleton]
  by_cases here : item.1.segment = k
  · simp [here]
  · simp [here]

theorem Account.appendedTo_next (h : Account appended sheets) :
    appendedTo appended sheets.length = [] := by
  refine List.filter_eq_nil_iff.mpr fun item mem there => ?_
  have := (h.reach item mem).1
  rw [of_decide_eq_true there] at this
  exact lt_irrefl _ this

theorem getElem?_concat_cases {α : Type} {l : List α} {a b : α} {k : ℕ}
    (h : (l ++ [a])[k]? = some b) : l[k]? = some b ∨ k = l.length ∧ a = b := by
  rcases Nat.lt_or_ge k l.length with lt | le
  · exact .inl (List.getElem?_append_left lt ▸ h)
  · rw [List.getElem?_append_right le] at h
    cases behind : k - l.length with
    | zero =>
        rw [behind] at h
        exact .inr ⟨by omega, Option.some.inj h⟩
    | succ n =>
        rw [behind] at h
        cases h

/-- A segment is started that nothing was appended to. -/
theorem Account.start (h : Account appended sheets) {next : Sheet}
    (empty : next.image.frames = []) : Account appended (sheets ++ [next]) := by
  refine ⟨h.ordered, fun item mem => ?_, fun k sheet found => ?_⟩
  · obtain ⟨lt, reach⟩ := h.reach item mem
    exact ⟨by rw [List.length_append]; omega, reach⟩
  · rcases getElem?_concat_cases found with before | ⟨rfl, rfl⟩
    · exact h.records k sheet before
    · rw [h.appendedTo_next, Image.items, empty]
      exact ⟨List.nil_prefix, fun _ => rfl⟩

/-- A record is appended to the newest segment, which has all that was appended to it. -/
theorem Account.push (h : Account appended (older ++ [newest]))
    (whole : newest.image.items older.length = appendedTo appended older.length)
    (reach : newest.image.stop + frame.length ≤ Pointer.maxOffset) (record : Record) :
    Account (appended ++ [(⟨older.length, newest.image.stop, frame.length⟩, record)])
        (older ++ [newest.push frame record]) ∧
      (newest.push frame record).image.items older.length =
        appendedTo (appended ++ [(⟨older.length, newest.image.stop, frame.length⟩, record)])
          older.length := by
  have items : (newest.push frame record).image.items older.length =
      appendedTo (appended ++ [(⟨older.length, newest.image.stop, frame.length⟩, record)])
        older.length := by
    rw [appendedTo_concat, if_pos rfl, ← whole]
    exact Image.items_push record older.length
  refine ⟨⟨?_, List.forall_mem_append.mpr ⟨fun item mem => ?_, List.forall_mem_singleton.mpr ?_⟩,
    fun k sheet found => ?_⟩, items⟩
  · refine List.pairwise_append.mpr ⟨h.ordered, List.pairwise_singleton .., fun item mem => ?_⟩
    refine List.forall_mem_singleton.mpr ?_
    have := (h.reach item mem).1
    rw [List.length_append, List.length_singleton] at this
    exact Nat.le_of_lt_succ this
  · simpa using h.reach item mem
  · exact ⟨by simp, reach⟩
  · rcases getElem?_concat_cases found with before | ⟨rfl, rfl⟩
    · have lt := (List.getElem?_eq_some_iff.mp before).1
      rw [appendedTo_concat, if_neg (Nat.ne_of_gt lt), List.append_nil]
      exact h.records k sheet (by rwa [List.getElem?_append_left lt])
    · rw [items]
      exact ⟨List.prefix_refl _, fun _ => rfl⟩

/-- The segments are as they were, or the log has started another one behind them. -/
inductive Onward (older : List Sheet) (newest : Sheet) : List Sheet → Sheet → Prop
  | stay : Onward older newest older newest
  | turn {next : Sheet} (config : next.config = newest.config)
      (empty : next.image.frames = []) : Onward older newest (older ++ [newest]) next

theorem Onward.of_lands {s : Volume × Log} {older' : List Sheet} {newest' : Sheet}
    (lands : Log.Lands s older newest frame older' newest') (same : newest.config = s.2.config) :
    Onward older newest older' newest' := by
  cases lands with
  | stay fits => exact .stay
  | turn turns config empty => exact .turn (config.trans same.symm) empty

section
variable {older' : List Sheet} {newest' : Sheet} (h : Onward older newest older' newest')
include h

theorem Onward.few : (older' ++ [newest']).length ≤ (older ++ [newest]).length + 1 := by
  cases h with
  | stay => exact Nat.le_succ _
  | turn config empty => simp

theorem Onward.configs {asked : List Request}
    (all : ∀ sheet ∈ older ++ [newest], Request.call (.openLog sheet.config) ∈ asked) :
    ∀ sheet ∈ older' ++ [newest'], Request.call (.openLog sheet.config) ∈ asked := by
  cases h with
  | stay => exact all
  | turn config empty =>
      refine List.forall_mem_append.mpr ⟨all, List.forall_mem_singleton.mpr ?_⟩
      rw [config]
      exact all newest (List.mem_append_right _ List.mem_cons_self)

end

theorem Account.onward {older' : List Sheet} {newest' : Sheet}
    (h : Account appended (older ++ [newest]))
    (whole : newest.image.items older.length = appendedTo appended older.length)
    (onward : Onward older newest older' newest') :
    Account appended (older' ++ [newest']) ∧
      newest'.image.items older'.length = appendedTo appended older'.length := by
  cases onward with
  | stay => exact ⟨h, whole⟩
  | turn config empty =>
      refine ⟨h.start empty, ?_⟩
      rw [h.appendedTo_next, Image.items, empty]
      rfl

theorem Frames.exists_item {fs : Frames} {e : Bytes × Record} (mem : e ∈ fs)
    (segment offset : ℕ) : ∃ p, (p, e.2) ∈ fs.items segment offset := by
  obtain ⟨before, after, rfl⟩ := List.append_of_mem mem
  rw [items_append]
  exact ⟨_, List.mem_append_right _ List.mem_cons_self⟩

/-- Frames that cannot be read are cut off. -/
theorem Account.resume (h : Account appended sheets) (resumed : Log.Resumed sheets sheets') :
    Account appended sheets' := by
  cases resumed with
  | none_there => exact h
  | @newest older newest image frames whole =>
      refine ⟨h.ordered, fun item mem => by simpa using h.reach item mem, fun k sheet found => ?_⟩
      rcases getElem?_concat_cases found with before | ⟨rfl, rfl⟩
      · exact h.records k sheet
          (by rwa [List.getElem?_append_left (List.getElem?_eq_some_iff.mp before).1])
      obtain ⟨front, all⟩ := h.records older.length newest List.getElem?_concat_length
      dsimp only
      constructor
      · obtain ⟨rest, same⟩ := frames
        refine List.IsPrefix.trans ?_ front
        rw [Image.items, Image.items, ← same, Frames.items_append]
        exact List.prefix_append ..
      · intro readable
        have same := all readable
        rw [whole fun e mem => ?_, same]
        obtain ⟨p, there⟩ := Frames.exists_item mem older.length Header.size
        exact readable (p, e.2) (same ▸ there)

/-! ## Requests -/

namespace Scene

/-- The segments are in the layout that logs give them, each with a configuration that was asked
for, and they hold what was appended. If a log is open it has filled the newest one. -/
structure Layout (place : Place) (asked : List Request) (scene : Scene) (removed : ℕ)
    (sheets : List Sheet) : Prop where
  located : scene.client.place = some place
  fused : scene.client.fused = none
  keeps : place.Keeps scene.client.volume removed (sheets.map (·.content))
  bytes : ∀ sheet ∈ sheets, scene.client.volume.bytes sheet.content = sheet.image.bytes
  filled : ∀ sheet ∈ sheets, sheet.Filled
  configs : ∀ sheet ∈ sheets, Request.call (.openLog sheet.config) ∈ asked
  account : Account scene.appended sheets
  log : ∀ log ∈ scene.client.log, ∃ older newest, sheets = older ++ [newest] ∧
    Log.Fills place removed older newest (scene.client.volume, log) ∧
    newest.image.items older.length = appendedTo scene.appended older.length

variable {place : Place} {asked : List Request} {scene scene' : Scene} {removed : ℕ} {log : Log}

/-- A log has filled the segments. -/
theorem Layout.of_fills (located : scene.client.place = some place)
    (fused : scene.client.fused = none) (hl : scene.client.log = some log)
    (fills : Log.Fills place removed older newest (scene.client.volume, log))
    (configs : ∀ sheet ∈ older ++ [newest], Request.call (.openLog sheet.config) ∈ asked)
    (account : Account scene.appended (older ++ [newest]))
    (whole : newest.image.items older.length = appendedTo scene.appended older.length) :
    scene.Layout place asked removed (older ++ [newest]) := by
  refine ⟨located, fused, fills.keeps, fills.bytes, fills.filled, configs, account, ?_⟩
  rintro _ found
  cases hl.symm.trans found
  exact ⟨older, newest, rfl, fills, whole⟩

theorem Layout.aside (h : scene.Layout place asked removed sheets)
    (aside : scene.client.Aside scene'.client) (same : scene'.appended = scene.appended) :
    scene'.Layout place asked removed sheets := by
  obtain ⟨volume, located, fused, f, log⟩ := aside
  refine ⟨located.trans h.located, fused.trans h.fused, volume ▸ h.keeps, volume ▸ h.bytes,
    h.filled, h.configs, same ▸ h.account, ?_⟩
  rw [log, volume, same]
  intro log' found
  obtain ⟨before, hl, rfl⟩ := Option.map_eq_some_iff.mp found
  obtain ⟨older, newest, split, fills, whole⟩ := h.log before hl
  exact ⟨older, newest, split, fills.withLedger _, whole⟩

/-! ### Work on the segments -/

/-- The log went on, and nothing was appended. -/
theorem Layout.onward {older' : List Sheet} {newest' : Sheet} {removed' : ℕ} {s : Volume × Log}
    (h : scene.Layout place asked removed (older ++ [newest]))
    (whole : newest.image.items older.length = appendedTo scene.appended older.length)
    (onward : Onward older newest older' newest')
    (fills : Log.Fills place removed' older' newest' s) :
    Layout place asked { scene with
      client := { scene.client with volume := s.1, log := some s.2 } } removed'
      (older' ++ [newest']) := by
  obtain ⟨account, whole'⟩ := h.account.onward whole onward
  exact .of_fills h.located h.fused rfl fills (onward.configs h.configs) account whole'

/-- Work that appends nothing. -/
theorem Layout.act_onLog {α : Type} {x : LogM α} (h : scene.Layout place asked removed sheets)
    (pins : scene.client.Balanced 0)
    (works : ∀ older newest s, older.length + 1 = sheets.length →
      s.2.ledger.pins.Tidy → Log.Fills place removed older newest s →
      ∃ removed' older' newest', Onward older newest older' newest' ∧
        Log.Fills place removed' older' newest' (final x s)) :
    ∃ removed' sheets', (scene.act (Client.onLog x)).Layout place asked removed' sheets' ∧
      sheets'.length ≤ sheets.length + 1 := by
  cases hl : scene.client.log with
  | none =>
      have absent : Client.onLog x scene.client = .error .absent scene.client :=
        Client.onLog_of_none hl
      rw [act_of_error absent]
      exact ⟨removed, sheets, h, Nat.le_succ _⟩
  | some log =>
      obtain ⟨older, newest, rfl, fills, whole⟩ := h.log log hl
      obtain ⟨removed', older', newest', onward, fills'⟩ :=
        works older newest _ (by simp) (pins.pins log hl).1 fills
      refine ⟨removed', _, ?_, onward.few⟩
      rw [act, final_onLog hl]
      exact h.onward whole onward fills'

theorem Layout.append (h : scene.Layout place asked removed sheets)
    (room : Place.Room (sheets.length + 1)) (record : Record) :
    ∃ sheets', (scene.append record).Layout place asked removed sheets' ∧
      sheets'.length ≤ sheets.length + 1 := by
  cases hl : scene.client.log with
  | none =>
      rw [Scene.append, Client.onLog_of_none hl]
      exact ⟨sheets, h, Nat.le_succ _⟩
  | some log =>
      obtain ⟨older, newest, rfl, fills, whole⟩ := h.log log hl
      rcases Log.append_attempts fills (by simpa using room) record with
        ⟨e, refused⟩ | ⟨frame, older', newest', lands, puts⟩
      · refine ⟨_, ?_, Nat.le_succ _⟩
        rw [Scene.append, Client.onLog_of_error hl refused]
        exact h.onward whole .stay fills
      have onward := Onward.of_lands lands fills.config
      obtain ⟨account, whole'⟩ := h.account.onward whole onward
      by_cases reach : newest'.image.stop + frame.length ≤ Pointer.maxOffset
      · obtain ⟨s', done, fills'⟩ := puts.done reach
        obtain ⟨account, whole'⟩ := account.push whole' reach record
        have few := onward.few
        refine ⟨older' ++ [newest'.push frame record], ?_, by simpa using few⟩
        rw [Scene.append, Client.onLog_of_ok hl done]
        refine .of_fills h.located h.fused rfl fills' ?_ account whole'
        obtain ⟨before, last⟩ := List.forall_mem_append.mp (onward.configs h.configs)
        exact List.forall_mem_append.mpr ⟨before, List.forall_mem_singleton.mpr
          (last newest' List.mem_cons_self)⟩
      · obtain ⟨e, s', refused, fills'⟩ := puts.refused (Nat.lt_of_not_le reach)
        refine ⟨_, ?_, onward.few⟩
        rw [Scene.append, Client.onLog_of_error hl refused]
        exact h.onward whole onward fills'

theorem Layout.logless (h : scene.Layout place asked removed sheets) :
    Layout place asked (scene.turn Client.closeLog) removed sheets := by
  rw [turn, final_of_ok scene.client.closeLog_logless]
  refine ⟨h.located, h.fused, h.keeps, h.bytes, h.filled, h.configs, h.account, ?_⟩
  rintro _ ⟨⟩

theorem Layout.openLog (h : scene.Layout place asked removed sheets)
    (room : Place.Room (sheets.length + 1)) {config : Log.Config}
    (mem : Request.call (.openLog config) ∈ asked) :
    ∃ sheets', (scene.turn (Client.openLog config)).Layout place asked removed sheets' ∧
      sheets'.length ≤ sheets.length + 1 := by
  have found : Client.getDirectory scene.client = .ok { place } scene.client :=
    Client.need_of_some (by rw [h.fused, h.located]; rfl)
  rw [turn, Client.openLog, final_bind_of_ok found,
    final_bind_of_ok scene.client.closeLog_logless]
  rcases Log.openIn_fills (v := scene.client.logless.volume) h.keeps h.bytes h.filled room config
    with ⟨v', log, older, opened, resumed, fills, rfl, -⟩ | ⟨fault, refused⟩
  · rw [final_bind_of_ok (Client.run_lift_of_ok opened), final_bind_of_ok (Client.modify_run ..)]
    have account := h.account.resume resumed
    have configs : ∀ sheet ∈ older, Request.call (.openLog sheet.config) ∈ asked := by
      cases resumed with
      | none_there => exact h.configs
      | @newest _ newest =>
          obtain ⟨before, last⟩ := List.forall_mem_append.mp h.configs
          exact List.forall_mem_append.mpr ⟨before, List.forall_mem_singleton.mpr
            (last newest List.mem_cons_self)⟩
    have same := resumed.length
    have next : log.newSheet.image.items older.length = appendedTo scene.appended older.length :=
      account.appendedTo_next.symm
    refine ⟨older ++ [log.newSheet], ?_, by simp [same]⟩
    exact .of_fills h.located h.fused rfl fills
      (List.forall_mem_append.mpr ⟨configs, List.forall_mem_singleton.mpr mem⟩)
      (account.start rfl) next
  · rw [final_of_error (run_bind_of_error (Client.run_lift_of_error refused))]
    have closed := h.logless
    rw [turn, final_of_ok scene.client.closeLog_logless] at closed
    exact ⟨sheets, closed, Nat.le_succ _⟩

/-! ### Runs -/

theorem appended_opening {α : Type} (scene : Scene) (feed : Feed) (watch : Option Watch)
    (x : ClientM α) (opens : α → Bool) :
    (scene.opening feed watch x opens).appended = scene.appended := by
  unfold opening
  split
  · split
    · rfl
    · rfl
  · rfl

/-- What is done aside appends nothing. -/
theorem appended_ask (scene : Scene) {request : Request} (aside : ¬request.Works) :
    (scene.ask request).appended = scene.appended := by
  cases request with
  | call call =>
      cases call with
      | append record => exact absurd trivial aside
      | openSession direct name start => exact appended_opening ..
      | openSupply name maxGaps counter start => exact appended_opening ..
      | _ => rfl
  | openRange direct name start stop => exact appended_opening ..
  | _ => rfl

/-- One request keeps the layout, and it starts at most one segment. -/
theorem Layout.ask (h : scene.Layout place asked removed sheets) (pins : scene.client.Balanced 0)
    (room : Place.Room (sheets.length + 1)) {request : Request} (mem : request ∈ asked) :
    ∃ removed' sheets', (scene.ask request).Layout place asked removed' sheets' ∧
      sheets'.length ≤ sheets.length + 1 := by
  by_cases works : request.Works
  · cases request with
    | call call =>
        cases call with
        | openLog config => exact ⟨removed, h.openLog room mem⟩
        | closeLog => exact ⟨removed, sheets, h.logless, Nat.le_succ _⟩
        | append record => exact ⟨removed, h.append room record⟩
        | flush =>
            refine h.act_onLog pins fun older newest s _ _ fills => ?_
            obtain ⟨ledger, flushed, fills⟩ := Log.flush_fills fills
            rw [final_of_ok flushed]
            exact ⟨removed, older, newest, .stay, fills⟩
        | rotate =>
            refine h.act_onLog pins fun older newest s length _ fills => ?_
            obtain ⟨s', rotated, next, config, -⟩ :=
              Log.rotate_fills fills (by rwa [← length] at room)
            rw [final_of_ok rotated]
            exact ⟨removed, _, _, .turn (config.trans fills.config.symm) rfl, next⟩
        | releaseBefore segment =>
            refine h.act_onLog pins fun older newest s _ tidy fills => ?_
            obtain ⟨s', done, released⟩ := Log.releaseBefore_exact fills.heads tidy segment
            rw [final_of_ok done]
            exact ⟨_, older, newest, .stay, fills.released released⟩
        | _ => exact works.elim
    | _ => exact works.elim
  · exact ⟨removed, sheets, h.aside (tallies_ask scene request works).aside
      (appended_ask scene works), Nat.le_succ _⟩

theorem Layout.serve {requests : List Request} (h : scene.Layout place asked removed sheets)
    (pins : scene.client.Balanced 0) (room : Place.Room (sheets.length + requests.length))
    (all : ∀ request ∈ requests, request ∈ asked) :
    ∃ removed' sheets', (Scene.serve requests scene).Layout place asked removed' sheets' ∧
      sheets'.length ≤ sheets.length + requests.length := by
  -- A request starts at most one segment, so there is room for one segment for each request.
  induction requests generalizing scene removed sheets with
  | nil => exact ⟨removed, sheets, h, Nat.le_refl _⟩
  | cons request requests ih =>
      obtain ⟨mem, all⟩ := List.forall_mem_cons.mp all
      rw [List.length_cons] at room ⊢
      obtain ⟨removed₁, sheets₁, first, few⟩ := h.ask pins (room.mono (by omega)) mem
      obtain ⟨removed', sheets', later, few'⟩ :=
        ih first (balanced_ask pins request) (room.mono (by omega)) all
      exact ⟨removed', sheets', later, by omega⟩

theorem layout_start {v : Volume} (empty : place.Stocks v 0 []) (asked : List Request) :
    (start place v).Layout place asked 0 [] :=
  ⟨rfl, rfl, ⟨empty, List.nodup_nil, nofun, .inl rfl⟩, nofun, nofun, nofun, ⟨.nil, nofun, nofun⟩,
    nofun⟩

/-! ### What a log shows -/

/-- Where the frame of the next record goes. -/
def nextPlace (log : Log) (newest : Sheet) (frame : Bytes) : Pointer :=
  if log.config.segmentSize < newest.image.stop + frame.length ∧ newest.image.frames ≠ [] then
    ⟨log.active.segment + 1, Header.size, frame.length⟩
  else ⟨log.active.segment, log.head.offset, frame.length⟩

/-- What becomes of the next record. -/
structure NextAppend (v : Volume) (log : Log) (newest : Sheet) (record : Record) : Prop where
  /-- Without a frame it is refused, and nothing is done. -/
  frameless : (∀ frame, Frame.encode log.format record = .ok frame → record.kind = .header) →
    ∃ e, Log.append record (v, log) = .error e (v, log)
  /-- Otherwise it goes where the next record is to go, if a pointer can say where that is. The next
  segment is started first if it goes there. -/
  framed : ∀ frame, Frame.encode log.format record = .ok frame → record.kind ≠ .header →
    (final (Log.append record) (v, log)).2.active.segment = (nextPlace log newest frame).segment ∧
      if (nextPlace log newest frame).offset + frame.length ≤ Pointer.maxOffset then
        ∃ s, Log.append record (v, log) = .ok (nextPlace log newest frame) s ∧
          s.2.head = ⟨(nextPlace log newest frame).segment,
            (nextPlace log newest frame).offset + frame.length, 0⟩
      else ∃ e s, Log.append record (v, log) = .error e s

/-- A log shows the segments that it and those before it have filled. -/
structure LaidOut (asked : List Request) (scene : Scene) (log : Log) (removed : ℕ)
    (older : List Sheet) (newest : Sheet) : Prop where
  /-- The newest segment of the listing is the one that is written. -/
  listed : log.segments scene.client.volume =
    .ok (List.range' removed (older.length + 1 - removed))
  active : removed ≤ older.length ∧ log.active.segment = older.length
  /-- A segment has a header, frames and zeros, and nothing else. -/
  stores : ∀ k sheet, removed ≤ k → (older ++ [newest])[k]? = some sheet →
    log.directory.Stores scene.client.volume k sheet.image.bytes
  filled : ∀ sheet ∈ older ++ [newest], sheet.Filled ∧ .call (.openLog sheet.config) ∈ asked
  account : Account scene.appended (older ++ [newest])
  /-- The segment that is written has all that was appended to it, and just what is reserved. -/
  whole : newest.image.items older.length = appendedTo scene.appended older.length
  config : newest.config = log.config ∧ newest.image.format = log.format
  tail : newest.image.tail = List.replicate (log.config.reserve newest.image.stop) 0
  head : log.head = ⟨older.length, newest.image.stop, 0⟩
  appends : ∀ record, NextAppend scene.client.volume log newest record

theorem nextAppend (fills : Log.Fills place removed older newest (scene.client.volume, log))
    (room : Place.Room (older.length + 2)) (record : Record) :
    NextAppend scene.client.volume log newest record := by
  refine ⟨fun none_ => Log.append_frameless none_, fun frame encoded kind => ?_⟩
  obtain ⟨older', newest', lands, puts⟩ := Log.append_puts fills room kind encoded
  have next : nextPlace log newest frame =
      ⟨older'.length, newest'.image.stop, frame.length⟩ := by
    have segment : log.active.segment = older.length := fills.segment
    have position : log.head.offset = newest.image.stop := fills.position
    cases lands with
    | stay fits =>
        have here : nextPlace log newest frame = _ := if_neg fits
        rw [here, segment, position]
    | turn turns config empty =>
        have stop : newest'.image.stop = Header.size := by rw [Image.stop, empty]; rfl
        have behind : nextPlace log newest frame = _ := if_pos turns
        rw [behind, segment, stop, List.length_append, List.length_singleton]
  rw [next]
  dsimp only
  split
  · rename_i reach
    obtain ⟨s, done, fills'⟩ := puts.done reach
    rw [final_of_ok done]
    refine ⟨fills'.segment, s, done, ?_⟩
    rw [Log.head, fills'.segment, fills'.position, Sheet.stop_push]
  · rename_i beyond
    obtain ⟨e, s, refused, fills'⟩ := puts.refused (Nat.lt_of_not_le beyond)
    rw [final_of_error refused]
    exact ⟨fills'.segment, e, s, refused⟩

theorem Layout.laidOut (h : scene.Layout place asked removed sheets)
    (room : Place.Room (sheets.length + 1)) (hl : scene.client.log = some log) :
    ∃ older newest, LaidOut asked scene log removed older newest := by
  obtain ⟨older, newest, rfl, fills, whole⟩ := h.log log hl
  have directory : log.directory = { place } := fills.heads.directory
  refine ⟨older, newest, ?_, ⟨fills.removed_le, fills.segment⟩,
    fun k sheet there found => ?_, fun sheet mem => ⟨h.filled sheet mem, h.configs sheet mem⟩,
    h.account, whole, ⟨fills.config, fills.format⟩, fills.tail, ?_,
    nextAppend fills (by simpa using room)⟩
  · exact fills.heads.segments.trans (by rw [List.length_map])
  · obtain ⟨s, opened, opens⟩ := h.keeps.stocks.openSegment there
      (by rw [List.getElem?_map, found]; rfl) true
    rw [directory, ← h.bytes sheet (List.mem_of_getElem? found)]
    exact ⟨s, opened, opens.holds⟩
  · rw [Log.head, fills.segment, fills.position]

/-- A client starts without segments and asks for less than there are indexes. Whatever it has
asked for, its log shows the segments that were filled, and every pointer that it was given leads
to where a pointer can lead. -/
theorem serve_laid_out {v : Volume} (empty : place.Stocks v 0 []) {requests : List Request}
    (room : Place.Room (requests.length + 1)) :
    (∀ item ∈ (serve requests (start place v)).appended,
      item.1.offset + item.1.length ≤ Pointer.maxOffset) ∧
    ∀ log, (serve requests (start place v)).client.log = some log → ∃ removed older newest,
      LaidOut requests (serve requests (start place v)) log removed older newest := by
  obtain ⟨removed, sheets, layout, few⟩ := (layout_start empty requests).serve
    (balanced_start place v) (room.mono (by simp)) fun _ => id
  refine ⟨fun item mem => (layout.account.reach item mem).2, fun log hl => ⟨removed, ?_⟩⟩
  exact layout.laidOut (room.mono (by simpa using few)) hl

/-- A record larger than a segment, then a log with a smaller segment size, and a release. -/
def filling : List Request := [
  .call (.openLog { segmentSize := 80, preallocate := true }), .call (.append (update 1)),
  .call (.append (update 2)), .call (.append (.data ⟨⟨1⟩, ⟨0⟩⟩ 3 (List.replicate 90 7))),
  .call (.append (update 4)), .readAll false none none, .call .closeLog,
  .call (.openLog { segmentSize := 60 }), .call (.releaseBefore 1), .call (.append (update 5))]

theorem serve_laid_out_filling :
    ((serve filling (start .memory {})).client.log.map Log.head = some ⟨3, 42, 0⟩ ∧
      (serve filling (start .memory {})).listed = [1, 2, 3] ∧
      ∀ log, (serve filling (start .memory {})).client.log = some log → ∃ removed older newest,
        LaidOut filling (serve filling (start .memory {})) log removed older newest) ∧
    ∀ item ∈ (serve filling (start (.folder ⟨"/log", ["log"]⟩ 0) newFolder)).appended,
      item.1.offset + item.1.length ≤ Pointer.maxOffset := by
  refine ⟨⟨?_, ?_, (serve_laid_out (Place.stocks_memory rfl) (by decide)).2⟩,
    (serve_laid_out stocks_newFolder (by decide)).1⟩
  · decide +kernel
  · decide +kernel

end Scene
end SegmentLog
