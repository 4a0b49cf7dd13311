import SegmentLog.Log
import SegmentLog.Proofs.Success
import SegmentLog.Proofs.Volume.Apart
import SegmentLog.Proofs.Volume.Holds

/-!
# What a log leaves behind

A log is `Laid` on a volume if the volume holds the images of its segments and the log stands where
the frames of the newest one end. Opening, flushing, starting a segment and writing a record each
have a lemma that says what they leave, whether they succeed or fail. Fuses may blow on the way:
what a write leaves then is the front of a frame, which is not cut off before the next opening.
-/
namespace SegmentLog

namespace LogM

theorem run_lift_of_ok {α : Type} {x : VolumeM α} {v v' : Volume} {a : α} (h : x v = .ok a v')
    (log : Log) : (liftM x : LogM α) (v, log) = .ok a (v', log) := by
  simp only [liftM, monadLift, MonadLift.monadLift, h]

theorem run_lift_of_error {α : Type} {x : VolumeM α} {v v' : Volume} {e : Error}
    (h : x v = .error e v') (log : Log) : (liftM x : LogM α) (v, log) = .error e (v', log) := by
  simp only [liftM, monadLift, MonadLift.monadLift, h]

theorem run_lift_eq_ok {α : Type} {x : VolumeM α} {v : Volume} {log : Log} {a : α}
    {s : Volume × Log} :
    (liftM x : LogM α) (v, log) = .ok a s ↔ ∃ v', x v = .ok a v' ∧ s = (v', log) := by
  cases h : x v with
  | error e v' => simp [run_lift_of_error h]
  | ok b v' => simp [run_lift_of_ok h, eq_comm]

section
variable {α : Type} {s : Volume × Log} {f : Volume → Log → Except Error α}

theorem read_of_ok {a : α} (h : f s.1 s.2 = .ok a) : read f s = .ok a s := by
  unfold read
  rw [run_get_bind]
  dsimp only
  rw [h]
  rfl

theorem read_of_error {e : Error} (h : f s.1 s.2 = .error e) : read f s = .error e s := by
  unfold read
  rw [run_get_bind]
  dsimp only
  rw [h]
  rfl

end

end LogM

theorem VolumeM.attempt_of_ok {ε α : Type} {wrap : ε → Error} {f : Volume → Except ε α × Volume}
    {v v' : Volume} {a : α} (h : f v = (.ok a, v')) : attempt wrap f v = .ok a v' := by
  rw [attempt, h]

theorem VolumeM.attempt_of_error {ε α : Type} {wrap : ε → Error}
    {f : Volume → Except ε α × Volume} {v v' : Volume} {fault : ε}
    (h : f v = (.error fault, v')) : attempt wrap f v = .error (wrap fault) v' := by
  rw [attempt, h]

namespace Log

/-- The log writes an image after the older ones, and the volume holds just these. The image ends
in zeros or, once the fuse has blown, in the front of a frame. -/
structure Laid (log : Log) (v : Volume) (older : List Image) (image : Image) : Prop where
  place : log.directory.place = .memory
  wired : log.directory.Wired v
  bounded : log.config.segmentSize ≤ Pointer.maxOffset
  bare : log.directory.fuse = none ∨ log.config.preallocate = false
  active : log.active =
    ⟨older.length, ⟨older.length, .memory false, log.directory.fuse.toList⟩, image.stop⟩
  format : log.format = image.format
  holds : v.Holds (older ++ [image])
  older : ∀ i ∈ older, i.Sound ∧ i.Blank
  sound : image.Sound
  tail : (∃ n, image.tail = List.replicate n 0 ∧ (n = 0 ∨ log.directory.fuse = none)) ∨
    image.Torn ∧ log.directory.hasBlown v = true

/-- What no operation on an open log changes, and that a blown fuse stays blown. -/
structure Follows (s s' : Volume × Log) : Prop where
  directory : s'.2.directory = s.2.directory
  config : s'.2.config = s.2.config
  format : s'.2.format = s.2.format
  fuses : s'.1.fuses.size = s.1.fuses.size
  blown : s.2.directory.hasBlown s.1 = true → s.2.directory.hasBlown s'.1 = true

theorem Follows.refl (s : Volume × Log) : Follows s s := ⟨rfl, rfl, rfl, rfl, id⟩

theorem Follows.trans {s₁ s₂ s₃ : Volume × Log} (h : Follows s₁ s₂) (h' : Follows s₂ s₃) :
    Follows s₁ s₃ where
  directory := h'.directory.trans h.directory
  config := h'.config.trans h.config
  format := h'.format.trans h.format
  fuses := h'.fuses.trans h.fuses
  blown hb := h.directory ▸ h'.blown (h.directory ▸ h.blown hb)

variable {log : Log} {v : Volume} {older : List Image} {image : Image}

/-- A log whose fuse has not blown ends in zeros. -/
theorem Laid.blank (h : log.Laid v older image) (calm : log.directory.hasBlown v = false) :
    ∃ n, image.tail = List.replicate n 0 ∧ (n = 0 ∨ log.directory.fuse = none) := by
  rcases h.tail with blank | ⟨-, blown⟩
  · exact blank
  · rw [calm] at blown
    cases blown

/-- Neither figures nor fuses are part of the layout. -/
theorem Laid.alike (h : log.Laid v older image) {v' : Volume} (alike : v.Alike v')
    (blown : log.directory.hasBlown v = true → log.directory.hasBlown v' = true)
    (ledger : Ledger) : Laid { log with ledger } v' older image where
  place := h.place
  wired := h.wired.alike (Nat.le_of_eq alike.fuses.symm)
  bounded := h.bounded
  bare := h.bare
  active := h.active
  format := h.format
  holds := h.holds.alike alike
  older := h.older
  sound := h.sound
  tail := h.tail.imp_right fun torn => ⟨torn.1, blown torn.2⟩

theorem Follows.of_alike {v' : Volume} (alike : v.Alike v')
    (blown : log.directory.hasBlown v = true → log.directory.hasBlown v' = true)
    (ledger : Ledger) : Follows (v, log) (v', { log with ledger }) :=
  ⟨rfl, rfl, rfl, alike.fuses, blown⟩

/-- The error of a flush or sync that a fuse stopped. -/
def StoppedFlush (e : Error) : Prop :=
  ∃ point, (point = .flush ∨ point = .sync) ∧ e = .storage (.io (.crash point))

theorem flush_cases (h : log.Laid v older image) :
    (∃ v' ledger, flush (v, log) = .ok () (v', { log with ledger }) ∧
      v.Alike v' ∧ log.directory.hasBlown v = false ∧ log.directory.hasBlown v' = false) ∨
    ∃ v' e, flush (v, log) = .error e (v', log) ∧ StoppedFlush e ∧
      v.Alike v' ∧ log.directory.hasBlown v' = true := by
  have fuses : log.active.store.fuses = log.directory.fuse.toList := by rw [h.active]
  have flushed := Directory.passFuses_cases h.wired .flush
  rw [← fuses] at flushed
  unfold flush
  rw [run_bind_of_ok (show LogM.getLog (v, log) = .ok log (v, log) from rfl)]
  rcases flushed with ⟨v₁, passed, alike, calm, still⟩ | ⟨v₁, stopped, alike, blown⟩
  · have step : (liftM (VolumeM.attempt .storage fun v => log.active.store.flush v) : LogM Unit)
        (v, log) = .ok () (v₁, log) :=
      LogM.run_lift_of_ok (VolumeM.attempt_of_ok passed) log
    rw [run_bind_of_ok step]
    have synced := Directory.passFuses_cases
      (h.wired.alike (Nat.le_of_eq alike.fuses.symm)) .sync
    rw [← fuses] at synced
    rcases synced with ⟨v₂, passed, alike', -, still⟩ | ⟨v₂, stopped, alike', blown⟩
    · have step : (liftM (VolumeM.attempt .storage fun v => log.active.store.sync v) : LogM Unit)
          (v₁, log) = .ok () (v₂, log) :=
        LogM.run_lift_of_ok (VolumeM.attempt_of_ok passed) log
      rw [run_bind_of_ok step]
      exact Or.inl ⟨v₂, _, rfl, alike.trans alike', calm, still⟩
    · have step : (liftM (VolumeM.attempt .storage fun v => log.active.store.sync v) : LogM Unit)
          (v₁, log) = .error _ (v₂, log) :=
        LogM.run_lift_of_error (VolumeM.attempt_of_error stopped) log
      rw [run_bind_of_error step]
      exact Or.inr ⟨v₂, _, rfl, ⟨.sync, Or.inr rfl, rfl⟩, alike.trans alike', blown⟩
  · have step : (liftM (VolumeM.attempt .storage fun v => log.active.store.flush v) : LogM Unit)
        (v, log) = .error _ (v₁, log) :=
      LogM.run_lift_of_error (VolumeM.attempt_of_error stopped) log
    rw [run_bind_of_error step]
    exact Or.inr ⟨v₁, _, rfl, ⟨.flush, Or.inl rfl, rfl⟩, alike, blown⟩

/-! ## Starting a segment -/

/-- The image of a segment that was just started. -/
def fresh (format : Format) (n : ℕ) : Image := ⟨format, [], List.replicate n 0⟩

theorem fresh_sound (format : Format) (n : ℕ) : (fresh format n).Sound :=
  ⟨fun _ h => absurd h List.not_mem_nil, (by decide : Header.size ≤ Pointer.maxOffset)⟩

theorem bytes_fresh (format : Format) (n : ℕ) :
    (fresh format n).bytes = Header.encode format ++ List.replicate n 0 := rfl

theorem create_memory {d : Directory} {images : List Image} (place : d.place = .memory)
    (holds : v.Holds images) (calm : d.hasBlown v = false) (image : Image) :
    ∃ v', d.create images.length image.bytes v =
        .ok ⟨images.length, .memory false, d.fuse.toList⟩ v' ∧
      v'.Holds (images ++ [image]) ∧ v'.fuses = v.fuses := by
  have content : v.contents.size = images.length := by simp [holds.contents]
  have absent : v.segments.contains images.length = false := by
    rw [Table.contains, holds.segments, Volume.get?_numbers, if_neg (Nat.lt_irrefl _)]
    rfl
  refine ⟨v.store images.length image.bytes, ?_, ?_, rfl⟩
  · exact (Directory.create_memory_eq_ok place).mpr ⟨calm, absent, by rw [content], rfl⟩
  · rw [Volume.store, content]
    exact holds.push image

/-- A segment is started unless the fuse has blown. -/
theorem create_cases {d : Directory} {c : Config} {images : List Image} (format : Format)
    (place : d.place = .memory) (bare : d.fuse = none ∨ c.preallocate = false)
    (holds : v.Holds images) :
    (∃ v' n, Active.create d c format images.length v =
        .ok ⟨images.length, ⟨images.length, .memory false, d.fuse.toList⟩, Header.size⟩ v' ∧
      v'.Holds (images ++ [fresh format n]) ∧ (n = 0 ∨ d.fuse = none) ∧ v'.fuses = v.fuses ∧
      d.hasBlown v = false) ∨
    ∃ e, Active.create d c format images.length v = .error e v ∧ d.hasBlown v = true := by
  cases calm : d.hasBlown v with
  | true =>
      right
      refine ⟨.storage (.io (.crash .creation)), ?_, rfl⟩
      unfold Active.create Directory.create
      apply run_bind_of_error
      rw [run_get_bind, if_pos calm]
      rfl
  | false =>
      left
      have header : Header.encode format = (fresh format 0).bytes := by
        rw [bytes_fresh, List.replicate_zero, List.append_nil]
      obtain ⟨v₁, created, holds₁, fuses₁⟩ := create_memory place holds calm (fresh format 0)
      rw [← header] at created
      unfold Active.create
      rw [run_bind_of_ok created]
      cases prefilled : c.preallocate with
      | false => exact ⟨v₁, 0, rfl, holds₁, Or.inl rfl, fuses₁, rfl⟩
      | true =>
          have bytes : v₁.bytes images.length = Header.encode format := by
            rw [holds₁.bytes List.getElem?_concat_length, header]
          have filled : (Store.run ⟨images.length, .memory false, d.fuse.toList⟩
              fun v s => s.preallocate v c.segmentSize) v₁ =
                .ok ((), ⟨images.length, .memory false, d.fuse.toList⟩)
                  (v₁.setBytes images.length (fresh format (c.segmentSize - Header.size)).bytes) := by
            rw [Store.run_preallocate_memory rfl, bytes, Header.length_encode, bytes_fresh]
          have none_fuse : d.fuse = none := by
            apply bare.resolve_right
            rw [prefilled]
            exact Bool.noConfusion
          rw [if_pos rfl, run_bind_of_ok filled]
          exact ⟨_, _, rfl, holds₁.setBytes _, Or.inr none_fuse, fuses₁, rfl⟩

/-- No segment is started where there is one. -/
theorem create_taken {d : Directory} {images : List Image} {k : ℕ} (place : d.place = .memory)
    (holds : v.Holds images) (taken : k < images.length) (c : Config) (format : Format) :
    ∃ e, Active.create d c format k v = .error e v := by
  have present : v.segments.contains k = true := by
    rw [Table.contains, holds.segments, Volume.get?_numbers, if_pos taken]
    rfl
  have refused : ∃ e, d.create k (Header.encode format) v = .error e v := by
    unfold Directory.create
    rw [run_get_bind]
    split
    · exact ⟨_, rfl⟩
    · have refused : d.place.create k (Header.encode format) v =
          .error (.argument (.segmentExists k)) v := by
        rw [place]
        unfold Place.create
        dsimp only
        rw [run_get_bind, if_pos present]
        rfl
      exact ⟨_, run_bind_of_error refused⟩
  obtain ⟨e, refused⟩ := refused
  exact ⟨e, run_bind_of_error refused⟩

/-- A rotation seals the image that is written. It fails only on its way through the fuse, or if
there is no index for another segment. -/
theorem rotate_cases (h : log.Laid v older image) :
    (∃ v' log' n, rotate (v, log) = .ok (older ++ [image]).length (v', log') ∧
      log'.Laid v' (older ++ [image]) (fresh log.format n) ∧ Follows (v, log) (v', log') ∧
      log.directory.hasBlown v = false ∧ log.directory.hasBlown v' = false) ∨
    ∃ s e, rotate (v, log) = .error e s ∧ s.2.Laid s.1 older image ∧ Follows (v, log) s ∧
      (log.directory.hasBlown s.1 = true ∨ v.Full) := by
  unfold rotate
  rcases flush_cases h with ⟨v₁, ledger, flushed, alike, calm, still⟩ |
    ⟨v₁, e, stopped, -, alike, blown⟩
  · have laid := h.alike alike (by simp [calm]) ledger
    have segment : log.active.segment + 1 = (older ++ [image]).length := by
      rw [h.active, List.length_append, List.length_singleton]
    rw [run_bind_of_ok flushed, run_bind_of_ok (show LogM.getLog (v₁, { log with ledger }) =
      .ok { log with ledger } (v₁, { log with ledger }) from rfl)]
    dsimp only
    rcases Directory.indexAfter_cases log.active.segment with ⟨full, taken⟩ | after
    · right
      rw [segment] at full taken
      obtain ⟨e, failed⟩ := create_taken h.place laid.holds taken log.config log.format
      rw [run_bind_of_error (LogM.run_lift_of_error failed _)]
      exact ⟨_, e, rfl, laid, .of_alike alike (by simp [calm]) ledger,
        .inr (h.holds.full_iff.mpr full)⟩
    left
    rw [after, segment]
    rcases create_cases log.format h.place h.bare laid.holds with
      ⟨v₂, n, created, holds, few, fuses, -⟩ | ⟨e, -, blown⟩
    · rw [run_bind_of_ok (LogM.run_lift_of_ok created { log with ledger })]
      have older : ∀ i ∈ older ++ [image], i.Sound ∧ i.Blank := by
        intro i hi
        rcases List.mem_append.mp hi with hi | hi
        · exact h.older i hi
        · cases List.mem_singleton.mp hi
          obtain ⟨k, hk, -⟩ := h.blank calm
          exact ⟨h.sound, k, hk⟩
      have wired : log.directory.Wired v₂ := laid.wired.alike (Nat.le_of_eq (by rw [fuses]))
      have still : log.directory.hasBlown v₂ = false := by
        rw [Directory.hasBlown_congr fuses, still]
      have size : v₂.fuses.size = v.fuses.size := by rw [fuses, alike.fuses]
      refine ⟨v₂, { log with
        active := ⟨_, ⟨_, .memory false, log.directory.fuse.toList⟩, Header.size⟩
        ledger := ledger.count .created }, n, rfl, ?_, ⟨rfl, rfl, rfl, size, by simp [calm]⟩, calm,
        still⟩
      exact ⟨h.place, wired, h.bounded, h.bare, rfl, rfl, holds, older, fresh_sound ..,
        Or.inl ⟨n, rfl, few⟩⟩
    · rw [still] at blown
      cases blown
  · right
    rw [run_bind_of_error stopped]
    exact ⟨_, e, rfl, h.alike alike (fun _ => blown) log.ledger,
      .of_alike alike (fun _ => blown) log.ledger, .inl blown⟩

/-! ## What writing comes to -/

/-- A record that has no frame is refused. The frame of any other is put behind the others or, if it
does not fit there, into a segment of its own. -/
theorem write_cases (record : Record) (s : Volume × Log) :
    (∃ e, write record s = .error e s ∧
      ∀ frame, Frame.encode s.2.format record = .ok frame → record.kind = .header) ∨
    ∃ frame, record.kind ≠ .header ∧ Frame.encode s.2.format record = .ok frame ∧
      write record s =
        if s.2.overflows frame.length = true then (rotate >>= fun _ => put frame) s
        else put frame s := by
  have getLog : LogM.getLog s = .ok s.2 s := rfl
  unfold write
  by_cases header : record.kind = .header
  · rw [if_pos header]
    exact .inl ⟨_, rfl, fun _ _ => header⟩
  rw [if_neg header]
  dsimp only
  rw [run_bind_of_ok getLog]
  cases encoded : Frame.encode s.2.format record with
  | error fault => exact .inl ⟨_, rfl, nofun⟩
  | ok frame =>
      have step : (liftM (VolumeM.ofExcept Error.argument (.ok frame)) : LogM Bytes) s =
        .ok frame s := rfl
      refine .inr ⟨frame, header, rfl, ?_⟩
      rw [run_bind_of_ok step, run_bind_of_ok getLog]
      split
      · rfl
      · rfl

section
variable {record : Record} {s s' : Volume × Log}

theorem append_of_ok {p : Pointer} (written : write record s = .ok p s') : append record s =
    if s'.2.config.syncOnWrite = true then (flush >>= fun _ => pure p) s' else .ok p s' := by
  unfold append
  rw [run_bind_of_ok written, run_bind_of_ok (show LogM.getLog s' = .ok s'.2 s' from rfl)]
  split
  · rfl
  · rfl

theorem append_of_error {e : Error} (failed : write record s = .error e s') :
    append record s = .error e s' := by
  unfold append
  rw [run_bind_of_error failed]

end

end Log
end SegmentLog
