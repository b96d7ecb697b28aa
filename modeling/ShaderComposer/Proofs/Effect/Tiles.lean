import ShaderComposer.Proofs.Effect.Playback

/-!
# Tiles of a sheet

An animation shows the tile of its frame, counted along the rows of the sheet. How many frames there
are is given apart from the columns and rows. The column is always one of the sheet; the row is one
as long as the frame is below the number of tiles. With at most as many frames as tiles the animation
never leaves the sheet, and with more it can be made to (`SpriteSheet.shows_tiles`).
-/

namespace ShaderComposer.SpriteSheet

/-! ### Handling -/

/-- What is done with an animation: it is controlled, or its rate is changed. -/
inductive Handling where
  | control (c : Control)
  | setRate (framesPerSecond : Single)
deriving DecidableEq

def handle (s : SpriteSheet) : Handling → SpriteSheet
  | .control c => s.perform c
  | .setRate rate => { s with framesPerSecond := rate }

def handleAll (s : SpriteSheet) (handlings : List Handling) : SpriteSheet :=
  handlings.foldl handle s

/-! ### The tile that is shown -/

/-- The tile of the frame has a column and a row among so many. -/
def IsOnSheet (columns rows : Nat) (s : SpriteSheet) : Prop :=
  s.frame % columns < columns ∧ s.frame / columns < rows

instance (columns rows : Nat) (s : SpriteSheet) : Decidable (s.IsOnSheet columns rows) :=
  inferInstanceAs (Decidable (_ ∧ _))

/-- The animation goes by the columns, rows and frames of a sheet and shows one of its frames. -/
structure GoesBy (sheet s : SpriteSheet) : Prop where
  columns : s.columns = sheet.columns
  rows : s.rows = sheet.rows
  frames : s.frames = sheet.frames
  frame_lt : s.frame < sheet.frames
  offset_eq : s.offset = sheet.tileOffset s.frame

namespace GoesBy

variable {sheet s : SpriteSheet}

theorem advance (goes : GoesBy sheet s) (now : Single) : GoesBy sheet (s.advance now) := by
  unfold SpriteSheet.advance
  split
  · refine { goes with frame_lt := ?_, offset_eq := ?_ }
    · have positive : 0 < s.frames := by
        have below := goes.frame_lt
        have frames := goes.frames
        omega
      exact goes.frames ▸ s.frameAt_lt _ positive
    · exact tileOffset_congr goes.columns goes.rows _
  · exact goes

theorem rewind (goes : GoesBy sheet s) (columns : 0 < sheet.columns) (rows : 0 < sheet.rows) :
    GoesBy sheet s.rewind := by
  have positive : 0 < sheet.frames := Nat.lt_of_le_of_lt (Nat.zero_le _) goes.frame_lt
  exact { goes with frame_lt := positive, offset_eq := (tileOffset_zero columns rows).symm }

theorem handle (goes : GoesBy sheet s) (columns : 0 < sheet.columns) (rows : 0 < sheet.rows)
    (h : Handling) : GoesBy sheet (s.handle h) := by
  cases h with
  | setRate rate => exact { goes with }
  | control c =>
    cases c with
    | play =>
      show GoesBy sheet s.play
      unfold SpriteSheet.play
      split
      · exact goes
      · exact { goes with }
    | pause => exact { goes with }
    | rewind => exact goes.rewind columns rows
    | draw now => exact goes.advance now

theorem handleAll (goes : GoesBy sheet s) (columns : 0 < sheet.columns) (rows : 0 < sheet.rows)
    (handlings : List Handling) : GoesBy sheet (s.handleAll handlings) := by
  induction handlings generalizing s with
  | nil => exact goes
  | cons h rest ih => exact ih (goes.handle columns rows h)

end GoesBy

theorem goesBy_create (columns rows : Nat) (framesPerSecond : Single) (frames : Nat)
    (spliced : Bool) : GoesBy (create columns rows framesPerSecond frames)
      { create columns rows framesPerSecond frames with spliced := spliced } := by
  have positive : 0 < max frames 1 := Nat.le_max_right frames 1
  refine ⟨rfl, rfl, rfl, positive, (tileOffset_zero ?_ ?_).symm⟩
  · exact Nat.le_max_right columns 1
  · exact Nat.le_max_right rows 1

/-! ### Leaving the sheet -/

/-- One second at a rate of `count` frames each. -/
def lap (count : Nat) : List Handling :=
  [.setRate (.ofNat count), .control .play, .control (.draw 0.0), .control (.draw 1.0)]

theorem frame_lap (columns rows : Nat) (framesPerSecond : Single) (frames : Nat) (spliced : Bool)
    {count : Nat} (positive : 0 < count) (below : count < max frames 1) (small : count < 0x1000000) :
    ({ create columns rows framesPerSecond frames with spliced := spliced }.handleAll
      (lap count)).frame = count := by
  obtain ⟨unsigned, finite, whole⟩ := Single.ofNat_of_lt positive small
  have second : (0.0 : Single) + span 0.0 1.0 = .one := by decide
  calc _ = ((0.0 + span 0.0 1.0) * Single.ofNat count).floorCount % max frames 1 := rfl
    _ = count % max frames 1 := by rw [second, Single.one_mul unsigned finite, whole]
    _ = count := Nat.mod_eq_of_lt below

/-! ### The sheet -/

/-- What is shown of an animation with so many columns, rows and frames. -/
structure ShowsTile (columns rows frames : Nat) (s : SpriteSheet) : Prop where
  frame_lt : s.frame < frames
  column_lt : s.frame % columns < columns
  row_lt_iff : s.frame / columns < rows ↔ s.frame < columns * rows
  offset_eq : s.offset = #v[.ofNat (s.frame % columns) * (1.0 / .ofNat columns),
    .ofNat (s.frame / columns) * (1.0 / .ofNat rows)]

theorem GoesBy.showsTile {sheet s : SpriteSheet} (goes : GoesBy sheet s)
    (columns : 0 < sheet.columns) : ShowsTile sheet.columns sheet.rows sheet.frames s := by
  refine ⟨goes.frame_lt, Nat.mod_lt _ columns, ?_, goes.offset_eq⟩
  rw [Nat.div_lt_iff_lt_mul columns, Nat.mul_comm]

theorem ShowsTile.isOnSheet {columns rows frames : Nat} {s : SpriteSheet}
    (tile : ShowsTile columns rows frames s) (enough : frames ≤ columns * rows) :
    s.IsOnSheet columns rows :=
  ⟨tile.column_lt, tile.row_lt_iff.mpr (Nat.lt_of_lt_of_le tile.frame_lt enough)⟩

/-- Whatever is done with an animation, it shows the tile of one of its frames, in a column of the
sheet. It stays on the sheet if there is a tile for each frame. If there is not, one second at a
suitable rate leads off the sheet; up to so many frames are counted exactly in single precision. -/
theorem shows_tiles (columns rows : Nat) (framesPerSecond : Single) (frames : Nat)
    (spliced : Bool) :
    let s := { create columns rows framesPerSecond frames with spliced := spliced }
    (∀ handlings,
      ShowsTile (max columns 1) (max rows 1) (max frames 1) (s.handleAll handlings)) ∧
    (max frames 1 ≤ max columns 1 * max rows 1 →
      ∀ handlings, (s.handleAll handlings).IsOnSheet (max columns 1) (max rows 1)) ∧
    (max columns 1 * max rows 1 < max frames 1 → max frames 1 ≤ 0x1000000 →
      ∃ handlings, ¬ (s.handleAll handlings).IsOnSheet (max columns 1) (max rows 1)) := by
  intro s
  have columnsPositive : 0 < max columns 1 := Nat.le_max_right columns 1
  have rowsPositive : 0 < max rows 1 := Nat.le_max_right rows 1
  have shown (handlings : List Handling) :
      ShowsTile (max columns 1) (max rows 1) (max frames 1) (s.handleAll handlings) :=
    ((goesBy_create columns rows framesPerSecond frames spliced).handleAll columnsPositive
      rowsPositive handlings).showsTile columnsPositive
  refine ⟨shown, fun enough handlings => (shown handlings).isOnSheet enough, ?_⟩
  intro tooMany few
  have positive : 0 < max columns 1 * max rows 1 := Nat.mul_pos columnsPositive rowsPositive
  have frame := frame_lap columns rows framesPerSecond frames spliced positive tooMany
    (Nat.lt_of_lt_of_le tooMany few)
  refine ⟨lap (max columns 1 * max rows 1), fun on => ?_⟩
  have inside := (shown _).row_lt_iff.mp on.2
  rw [frame] at inside
  exact Nat.lt_irrefl _ inside

/-- Eight frames stay on a sheet of four by two tiles and leave one of two by two. -/
theorem shows_tiles_eight :
    (∀ handlings, ((create 4 2 10.0 8).handleAll handlings).IsOnSheet 4 2) ∧
      ∃ handlings, ¬ ((create 2 2 10.0 8).handleAll handlings).IsOnSheet 2 2 :=
  ⟨(shows_tiles 4 2 10.0 8 false).2.1 (by decide),
    (shows_tiles 2 2 10.0 8 false).2.2 (by decide) (by decide)⟩

/-- The second of two frames is not on a sheet of one tile. -/
theorem leaves_single_tile : ¬ ∀ (columns rows : Nat) (framesPerSecond : Single) (frames : Nat)
    (handlings : List Handling), ((create columns rows framesPerSecond frames).handleAll
      handlings).IsOnSheet (max columns 1) (max rows 1) := by
  intro stays
  have on := stays 1 1 1.0 2 [.control .play, .control (.draw 0.0), .control (.draw 1.0)]
  exact absurd on (by decide)

end ShaderComposer.SpriteSheet
