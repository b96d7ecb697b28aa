import ShaderComposer.Composition
import ShaderComposer.Graphics.Resource

/-!
# Sprite sheet

Steps through the tiles of a sheet at a fixed rate, driven by the material's time. Time counts
while the animation plays: a pause keeps what was played, and playing on starts from there.
-/

namespace ShaderComposer

structure SpriteSheet where
  columns : Nat
  rows : Nat
  framesPerSecond : Single
  frames : Nat
  /-- The fragment changes the texture coordinate itself. -/
  spliced : Bool
  playing : Bool
  /-- The time of the first frame since playing began. -/
  startedAt : Option Single
  /-- How long was played before that. -/
  played : Single
  /-- The time of the last frame. -/
  lastTime : Option Single
  frame : Nat
  offset : Vec 2
deriving DecidableEq

namespace SpriteSheet

open Instruction

/-- A paused animation at its first frame, with at least one column, row and frame. -/
def create (columns rows : Nat) (framesPerSecond : Single) (frames : Nat) : SpriteSheet where
  columns := max columns 1
  rows := max rows 1
  framesPerSecond := framesPerSecond
  frames := max frames 1
  spliced := false
  playing := false
  startedAt := none
  played := 0.0
  lastTime := none
  frame := 0
  offset := #v[0.0, 0.0]

/-- The size of a tile, the sheet being one unit wide and high. -/
def tileSize (s : SpriteSheet) : Vec 2 := #v[1.0 / .ofNat s.columns, 1.0 / .ofNat s.rows]

def tileOffset (s : SpriteSheet) (frame : Nat) : Vec 2 :=
  #v[.ofNat (frame % s.columns) * (1.0 / .ofNat s.columns),
    .ofNat (frame / s.columns) * (1.0 / .ofNat s.rows)]

/-- The time from one moment to another, if it is later. -/
def span (start now : Single) : Single := (now - start).max 0.0

/-- Starts the animation, or lets it go on. -/
def play (s : SpriteSheet) : SpriteSheet :=
  if s.playing then s else { s with playing := true, startedAt := none }

def playedSoFar (s : SpriteSheet) : Single :=
  match s.startedAt, s.lastTime with
  -- the time up to the last frame that was drawn
  | some start, some last => if s.playing then s.played + span start last else s.played
  | _, _ => s.played

def pause (s : SpriteSheet) : SpriteSheet :=
  { s with playing := false, startedAt := none, played := s.playedSoFar }

def rewind (s : SpriteSheet) : SpriteSheet :=
  { s with played := 0.0, startedAt := none, frame := 0, offset := #v[0.0, 0.0] }

/-- The frame that is shown after a time of playing. -/
def frameAt (s : SpriteSheet) (elapsed : Single) : Nat :=
  (elapsed * s.framesPerSecond).floorCount % s.frames

def advance (s : SpriteSheet) (now : Single) : SpriteSheet :=
  if s.playing then
    let start := s.startedAt.getD now
    let frame := s.frameAt (s.played + span start now)
    { s with
      startedAt := some start
      lastTime := some now
      frame := frame
      offset := s.tileOffset frame }
  else s

def fragment (s : SpriteSheet) : Fragment where
  id := "SPRITE_SHEET_VERTEX_SHADER_FRAGMENT"
  location := if s.spliced then .preTransform else .ignore
  declarations := [.uniform .vec2 "uTileSize", .uniform .vec2 "uTileOffset"]
  main :=
    [.expectDeclared,
      .require .gTextureCoord,
      scale (.result 0) (.declared 0),
      add (.result 0) (.declared 1)]
  uniforms := ["uTileSize", "uTileOffset"]

def writes (s : SpriteSheet) : List (String × UniformValue) :=
  [("uTileSize", .vec2 s.tileSize), ("uTileOffset", .vec2 s.offset)]

theorem advance_paused {s : SpriteSheet} (h : s.playing = false) (now : Single) :
    s.advance now = s := by
  simp [advance, h]

theorem frameAt_lt (s : SpriteSheet) (elapsed : Single) (h : 0 < s.frames) :
    s.frameAt elapsed < s.frames := Nat.mod_lt _ h

end SpriteSheet

end ShaderComposer
