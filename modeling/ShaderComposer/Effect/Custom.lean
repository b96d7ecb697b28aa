import ShaderComposer.Composition
import ShaderComposer.Graphics.Resource

/-!
# Custom effects

An effect that is given as data: its fragments, the values it writes each frame and its textures.
-/

namespace ShaderComposer

inductive FrameValue where
  | fixed (value : UniformValue)
  | time
deriving DecidableEq

def FrameValue.at (now : Single) : FrameValue → UniformValue
  | fixed value => value
  | time => .float now

structure CustomStage where
  fragment : Fragment
  writes : List (String × FrameValue)

structure Custom where
  id : String
  vertex : Option CustomStage
  pixel : Option CustomStage
  textures : List (TextureRef × String)

namespace Custom

def stage? (c : Custom) : Stage → Option CustomStage
  | .vertex => c.vertex
  | .fragment => c.pixel

def writes (c : Custom) (stage : Stage) (now : Single) : List (String × UniformValue) :=
  match c.stage? stage with
  | none => []
  | some s => s.writes.map fun (name, value) => (name, value.at now)

end Custom

end ShaderComposer
