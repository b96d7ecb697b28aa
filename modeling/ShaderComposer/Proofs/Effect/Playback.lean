import ShaderComposer.Effect.SpriteSheet
import ShaderComposer.Proofs.Numeric.Exactness

/-!
# Playing a sprite sheet

The time that an animation has played is kept in three places: what was played before, when playing
began and when the last frame was drawn. Together they always tell the frame that is shown
(`SpriteSheet.Tracks`). So a frame that is the first since playing began shows what was held before,
whatever the time is (`SpriteSheet.steady_run`).
-/

namespace ShaderComposer.SpriteSheet

/-! ### Controls -/

/-- What is done with an animation; it is drawn at a time of its material. -/
inductive Control where
  | play
  | pause
  | rewind
  | draw (now : Single)
deriving DecidableEq

def perform (s : SpriteSheet) : Control → SpriteSheet
  | .play => s.play
  | .pause => s.pause
  | .rewind => s.rewind
  | .draw now => s.advance now

def run (s : SpriteSheet) (controls : List Control) : SpriteSheet := controls.foldl perform s

theorem frame_play (s : SpriteSheet) : s.play.frame = s.frame := by
  unfold play
  split <;> rfl

theorem offset_play (s : SpriteSheet) : s.play.offset = s.offset := by
  unfold play
  split <;> rfl

theorem startedAt_play {s : SpriteSheet} (paused : s.playing = false) :
    s.play.startedAt = none := by
  unfold play
  rw [paused]
  rfl

/-! ### Times -/

theorem span_self (now : Single) : span now now = .zero := by
  unfold span
  rw [Single.sub_self]
  cases now.isFinite <;> decide

theorem add_span_self {time : Single} (unsigned : time.IsUnsigned) (now : Single) :
    time + span now now = time := by
  rw [span_self, unsigned.add_zero]

theorem isUnsigned_add_span {time : Single} (unsigned : time.IsUnsigned) (start now : Single) :
    (time + span start now).IsUnsigned := by
  obtain ⟨number, forward⟩ := Single.max_zero (now - start)
  exact unsigned.add number forward

theorem playedSoFar_unstarted {s : SpriteSheet} (unstarted : s.startedAt = none) :
    s.playedSoFar = s.played := by
  unfold playedSoFar
  rw [unstarted]

theorem isUnsigned_playedSoFar {s : SpriteSheet} (unsigned : s.played.IsUnsigned) :
    s.playedSoFar.IsUnsigned := by
  unfold playedSoFar
  split
  · split
    · exact isUnsigned_add_span unsigned _ _
    · exact unsigned
  · exact unsigned

/-! ### What is shown -/

theorem frameAt_zero (s : SpriteSheet) : s.frameAt .zero = 0 := by
  unfold frameAt
  rw [Single.floorCount_zero_mul, Nat.zero_mod]

theorem tileOffset_zero {s : SpriteSheet} (columns : 0 < s.columns) (rows : 0 < s.rows) :
    s.tileOffset 0 = #v[0.0, 0.0] := by
  have across : Single.ofNat (0 % s.columns) * (1.0 / Single.ofNat s.columns) = 0.0 := by
    rw [Nat.zero_mod]
    exact Single.ofNat_zero_mul_recip columns
  have down : Single.ofNat (0 / s.columns) * (1.0 / Single.ofNat s.rows) = 0.0 := by
    rw [Nat.zero_div]
    exact Single.ofNat_zero_mul_recip rows
  exact congr (congrArg (fun x y => (#v[x, y] : Vec 2)) across) down

theorem tileOffset_congr {s t : SpriteSheet} (columns : s.columns = t.columns)
    (rows : s.rows = t.rows) (frame : Nat) : s.tileOffset frame = t.tileOffset frame := by
  cases s
  cases t
  cases columns
  cases rows
  rfl

/-- The animation shows the frame of the time that it has played on the tiles of a sheet, and is
not under way when it is paused. -/
structure Tracks (sheet s : SpriteSheet) : Prop where
  columns : s.columns = sheet.columns
  rows : s.rows = sheet.rows
  frames : s.frames = sheet.frames
  unsigned : s.played.IsUnsigned
  frame_eq : s.frame = s.frameAt s.playedSoFar
  offset_eq : s.offset = s.tileOffset s.frame
  unstarted : s.playing = false → s.startedAt = none

namespace Tracks

variable {sheet s : SpriteSheet}

theorem create (columns rows : Nat) (framesPerSecond : Single) (frames : Nat) (spliced : Bool) :
    Tracks (.create columns rows framesPerSecond frames)
      { SpriteSheet.create columns rows framesPerSecond frames with spliced := spliced } := by
  refine ⟨rfl, rfl, rfl, Single.isUnsigned_zero, ?_, ?_, fun _ => rfl⟩
  · rw [playedSoFar_unstarted rfl]
    exact (frameAt_zero _).symm
  · refine (tileOffset_zero ?_ ?_).symm
    · exact Nat.le_max_right columns 1
    · exact Nat.le_max_right rows 1

theorem play (tracks : Tracks sheet s) : Tracks sheet s.play := by
  unfold SpriteSheet.play
  split
  · exact tracks
  · next paused =>
    -- nothing was under way, so nothing is lost
    have unstarted := tracks.unstarted (Bool.not_eq_true _ ▸ paused)
    refine { tracks with frame_eq := ?_, unstarted := fun _ => rfl }
    have shown := tracks.frame_eq
    rw [playedSoFar_unstarted unstarted] at shown
    rw [playedSoFar_unstarted rfl]
    exact shown

theorem pause (tracks : Tracks sheet s) : Tracks sheet s.pause := by
  have unsigned := isUnsigned_playedSoFar tracks.unsigned
  have shown : s.pause.playedSoFar = s.playedSoFar := playedSoFar_unstarted rfl
  refine { tracks with unsigned := unsigned, frame_eq := ?_, unstarted := fun _ => rfl }
  rw [shown]
  exact tracks.frame_eq

theorem rewind (tracks : Tracks sheet s) (columns : 0 < sheet.columns) (rows : 0 < sheet.rows) :
    Tracks sheet s.rewind := by
  refine { tracks with
    unsigned := Single.isUnsigned_zero, frame_eq := ?_, offset_eq := ?_, unstarted := fun _ => rfl }
  · rw [playedSoFar_unstarted rfl]
    exact (frameAt_zero _).symm
  · refine (tileOffset_zero ?_ ?_).symm
    · exact tracks.columns ▸ columns
    · exact tracks.rows ▸ rows

theorem advance (tracks : Tracks sheet s) (now : Single) : Tracks sheet (s.advance now) := by
  unfold SpriteSheet.advance
  split
  · next playing =>
    refine { tracks with frame_eq := ?_, offset_eq := rfl, unstarted := fun paused => ?_ }
    · unfold playedSoFar
      simp only [playing, if_true]
      rfl
    · rw [playing] at paused
      cases paused
  · exact tracks

theorem perform (tracks : Tracks sheet s) (columns : 0 < sheet.columns) (rows : 0 < sheet.rows)
    (c : Control) : Tracks sheet (s.perform c) := by
  cases c with
  | play => exact tracks.play
  | pause => exact tracks.pause
  | rewind => exact tracks.rewind columns rows
  | draw now => exact tracks.advance now

theorem run (tracks : Tracks sheet s) (columns : 0 < sheet.columns) (rows : 0 < sheet.rows)
    (controls : List Control) : Tracks sheet (s.run controls) := by
  induction controls generalizing s with
  | nil => exact tracks
  | cons c rest ih => exact ih (tracks.perform columns rows c)

/-- The first frame since playing began is the one that was held. -/
theorem advance_unstarted (tracks : Tracks sheet s) (unstarted : s.startedAt = none)
    (now : Single) : (s.advance now).frame = s.frame ∧ (s.advance now).offset = s.offset := by
  have shown := tracks.frame_eq
  rw [playedSoFar_unstarted unstarted] at shown
  have drawn : s.frameAt (s.played + span now now) = s.frame := by
    rw [add_span_self tracks.unsigned, shown]
  unfold SpriteSheet.advance
  split
  · rw [unstarted]
    dsimp only [Option.getD_none]
    rw [drawn]
    exact ⟨rfl, tracks.offset_eq.symm⟩
  · exact ⟨rfl, rfl⟩

end Tracks

/-! ### What a pause holds -/

theorem paused_perform {s : SpriteSheet} (paused : s.playing = false) {c : Control}
    (other : c ≠ .play) : (s.perform c).playing = false := by
  cases c with
  | play => exact absurd rfl other
  | pause => rfl
  | rewind => exact paused
  | draw now => rw [perform, advance_paused paused]; exact paused

theorem paused_run {s : SpriteSheet} (paused : s.playing = false) {controls : List Control}
    (others : .play ∉ controls) : (s.run controls).playing = false := by
  induction controls generalizing s with
  | nil => exact paused
  | cons c rest ih =>
    obtain ⟨other, others⟩ := List.ne_and_not_mem_of_not_mem_cons others
    exact ih (paused_perform paused other.symm) others

theorem held_run {s : SpriteSheet} (paused : s.playing = false) {controls : List Control}
    (others : .play ∉ controls) (kept : .rewind ∉ controls) :
    (s.run controls).frame = s.frame ∧ (s.run controls).offset = s.offset := by
  induction controls generalizing s with
  | nil => exact ⟨rfl, rfl⟩
  | cons c rest ih =>
    obtain ⟨other, others⟩ := List.ne_and_not_mem_of_not_mem_cons others
    obtain ⟨noRewind, kept⟩ := List.ne_and_not_mem_of_not_mem_cons kept
    have same : (s.perform c).frame = s.frame ∧ (s.perform c).offset = s.offset := by
      cases c with
      | play => exact absurd rfl other
      | pause => exact ⟨rfl, rfl⟩
      | rewind => exact absurd rfl noRewind
      | draw now => rw [perform, advance_paused paused]; exact ⟨rfl, rfl⟩
    obtain ⟨frame, offset⟩ := ih (paused_perform paused other.symm) others kept
    exact ⟨frame.trans same.1, offset.trans same.2⟩

/-- What is shown of an animation with so many columns, rows and frames. -/
structure Steady (sheet s : SpriteSheet) : Prop where
  frame_lt : s.frame < sheet.frames
  offset_eq : s.offset = #v[.ofNat (s.frame % sheet.columns) * (1.0 / .ofNat sheet.columns),
    .ofNat (s.frame / sheet.columns) * (1.0 / .ofNat sheet.rows)]
  /-- Drawing a paused animation changes nothing that is shown. -/
  held_of_paused (now : Single) :
    s.playing = false → (s.advance now).frame = s.frame ∧ (s.advance now).offset = s.offset
  /-- Nor does drawing it for the first time since playing began. -/
  held_of_unstarted (now : Single) :
    s.startedAt = none → (s.advance now).frame = s.frame ∧ (s.advance now).offset = s.offset
  /-- After a pause, and whatever is done meanwhile but playing, the first frame drawn shows what
  was held at that time: the frame of the pause unless the animation was rewound. -/
  resumes (meanwhile : List Control) (now : Single) : .play ∉ meanwhile →
    let held := s.pause.run meanwhile
    let drawn := held.play.advance now
    drawn.frame = held.frame ∧ drawn.offset = held.offset ∧
      (.rewind ∉ meanwhile → drawn.frame = s.frame ∧ drawn.offset = s.offset)

theorem Tracks.steady {sheet s : SpriteSheet} (tracks : Tracks sheet s)
    (columns : 0 < sheet.columns) (rows : 0 < sheet.rows) (frames : 0 < sheet.frames) :
    Steady sheet s := by
  constructor
  case frame_lt =>
    rw [tracks.frame_eq, ← tracks.frames]
    exact s.frameAt_lt _ (tracks.frames ▸ frames)
  case offset_eq =>
    exact tracks.offset_eq.trans (tileOffset_congr tracks.columns tracks.rows s.frame)
  case held_of_paused => exact fun now paused => tracks.advance_unstarted (tracks.unstarted paused) now
  case held_of_unstarted => exact fun now unstarted => tracks.advance_unstarted unstarted now
  case resumes =>
    intro meanwhile now others held drawn
    have paused : held.playing = false := paused_run rfl others
    have later : Tracks sheet held.play := (tracks.pause.run columns rows meanwhile).play
    obtain ⟨frame, offset⟩ := later.advance_unstarted (startedAt_play paused) now
    rw [frame_play] at frame
    rw [offset_play] at offset
    refine ⟨frame, offset, fun kept => ?_⟩
    have stopped : s.pause.playing = false := rfl
    obtain ⟨heldFrame, heldOffset⟩ := held_run stopped others kept
    exact ⟨frame.trans heldFrame, offset.trans heldOffset⟩

/-- Whatever was done with an animation, what it shows is steady. -/
theorem steady_run (columns rows : Nat) (framesPerSecond : Single) (frames : Nat) (spliced : Bool)
    (controls : List Control) :
    let sheet := create columns rows framesPerSecond frames
    sheet.frames = max frames 1 ∧ Steady sheet ({ sheet with spliced := spliced }.run controls) := by
  intro sheet
  have columnsPositive : 0 < sheet.columns := Nat.le_max_right columns 1
  have rowsPositive : 0 < sheet.rows := Nat.le_max_right rows 1
  have framesPositive : 0 < sheet.frames := Nat.le_max_right frames 1
  have tracks := (Tracks.create columns rows framesPerSecond frames spliced).run columnsPositive
    rowsPositive controls
  exact ⟨rfl, tracks.steady columnsPositive rowsPositive framesPositive⟩

/-- Paused on its third tile, the animation goes on from there, however late. -/
theorem steady_run_resumed :
    let sheet := create 2 2 1.0 4
    let s := { sheet with spliced := true }.run [.play, .draw 0.0, .draw 2.5]
    let drawn := (s.pause.run [.draw 9.0, .pause]).play.advance 20.0
    s.frame = 2 ∧ drawn.frame = s.frame ∧ drawn.offset = s.offset := by
  intro sheet s drawn
  have steady := (steady_run 2 2 1.0 4 true [.play, .draw 0.0, .draw 2.5]).2
  have kept := (steady.resumes [.draw 9.0, .pause] 20.0 (by decide)).2.2 (by decide)
  exact ⟨by decide, kept⟩

end ShaderComposer.SpriteSheet
