import ShaderComposer.Core.Fragment
import ShaderComposer.Core.Vertex
import ShaderComposer.Effect.Basic
import ShaderComposer.Graphics.LocationTable

/-!
# Materials

A material is a pair of core shaders with settings, textures and effects, and the program that was
built from them. Every change to what is built counts its version up; a program that was linked at
another version is stale. This module has the material itself and the changes to it; building and
drawing have modules of their own.
-/

namespace ShaderComposer

/-! ### Types -/

/-- How far a build has come. -/
inductive BuildState where
  | created
  | declared
  | bodyBuilt
  | linked
  | bound
deriving DecidableEq, Inhabited

namespace BuildState

def name : BuildState → String
  | created => "Created"
  | declared => "Declared"
  | bodyBuilt => "BodyBuilt"
  | linked => "Linked"
  | bound => "Bound"

def rank : BuildState → Nat
  | created => 0
  | declared => 1
  | bodyBuilt => 2
  | linked => 3
  | bound => 4

/-- The build has come at least as far as the other. -/
def reaches (s required : BuildState) : Bool := decide (required.rank ≤ s.rank)

def earlier (s t : BuildState) : BuildState := if t.reaches s then s else t

end BuildState

/-- A program, with the context generation and the material version it was linked at. -/
structure LinkedProgram where
  handle : Nat
  generation : Nat
  version : UInt64
deriving DecidableEq, Inhabited

/-- What a material has of a program. -/
inductive ProgramState where
  | none
  | live (program : LinkedProgram)
  /-- A program that a refused rebuild has put out of use. -/
  | retired (program : LinkedProgram)
  /-- A program that went with its context. -/
  | invalidated
deriving DecidableEq, Inhabited

/-- A shader that keeps the locations it looked up: a core shader, or the fragment that an effect
has in a stage. -/
inductive Holder where
  | core (stage : Stage)
  | effect (id : String) (stage : Stage)
deriving DecidableEq, Inhabited

structure Material where
  name : String
  settings : Settings
  /-- The features that the core shaders were made with. -/
  shaderFeatures : Features
  /-- The samplers that the core fragment shader was made with. -/
  samplers : List String
  vertexParams : VertexParams
  fragmentParams : FragmentParams
  textures : List MaterialTexture
  effects : List Effect
  /-- What each shader keeps of the locations it looked up. -/
  held : Holder → LocationTable
  /-- The variables that the fragment of an effect was given back when it last declared. -/
  remembered : String → Stage → Option (List Variable)
  /-- Counts the changes to what is built. -/
  version : UInt64
  /-- How far the last build came. -/
  progress : BuildState
  composed : Option Composition
  composedVersion : UInt64
  program : ProgramState
  locations : LocationTable
  units : UnitPlan
  time : Single
  /-- The stale program was reported. -/
  staleReported : Bool

/-- What an operation leaves behind, and its result. -/
structure Outcome (α : Type) where
  result : Except ShaderError α
  material : Material
  backend : Backend
  log : List LogRecord

namespace Outcome

/-- Goes on with the next operation after a success; the records add up. -/
def andThen {α β : Type} (o : Outcome α) (next : α → Material → Backend → Outcome β) : Outcome β :=
  match o.result with
  | .error e => ⟨.error e, o.material, o.backend, o.log⟩
  | .ok a =>
    let rest := next a o.material o.backend
    { rest with log := o.log ++ rest.log }

end Outcome

namespace Material

def create (name : String) (settings : Settings) : Material where
  name := name
  settings := settings
  shaderFeatures := settings.features
  samplers := []
  vertexParams := {}
  fragmentParams := {}
  textures := []
  effects := []
  held := fun _ => .empty
  remembered := fun _ _ => none
  version := 0
  progress := .created
  composed := none
  composedVersion := 0
  program := .none
  locations := .empty
  units := .empty
  time := .zero
  staleReported := false

/-! ### Views -/

def isCurrent (m : Material) : Bool := m.composedVersion == m.version

def state (m : Material) : BuildState := if m.isCurrent then m.progress else .created

def composition (m : Material) : Option Composition := if m.isCurrent then m.composed else none

/-- The program that the material owns, in use or not. -/
def ownedProgram (m : Material) : Option LinkedProgram :=
  match m.program with
  | .live p | .retired p => some p
  | .none | .invalidated => none

def hasEffect (m : Material) (id : String) : Bool := m.effects.any fun e => e.id == id

/-- How many texture units are asked for if the material has `own` textures. -/
def requestedUnits (m : Material) (own : Nat) : Nat :=
  UnitPlan.requested own (m.effects.map Effect.textureCount)

def report (m : Material) (level : LogLevel) (text : String) : LogRecord :=
  ⟨level, "material `" ++ m.name ++ "`: " ++ text⟩

/-! ### Changes that leave the program in use -/

def setTime (m : Material) (time : Single) : Material :=
  { m with
    time := time
    vertexParams := { m.vertexParams with time := time }
    fragmentParams := { m.fragmentParams with time := time } }

/-- Changes the parameters of effects; for changes that build nothing else. -/
def mapEffects (m : Material) (f : Effect → Effect) : Material :=
  { m with effects := m.effects.map f }

/-! ### Changes to what is built -/

/-- Changes the settings. The version counts up if that asks for a rebuild. -/
def updateSettings (m : Material) (f : Settings → Settings) : Material :=
  let next := f m.settings
  { m with
    settings := next
    -- what was built stays, and the version alone tells that it is out of date
    version := if m.settings.requiresRebuild next then m.version + 1 else m.version }

def setFeatures (m : Material) (features : Features) : Material :=
  m.updateSettings fun s => { s with features := features }

/-- The material at its next version, with nothing built of it yet. -/
def invalidate (m : Material) : Material :=
  { m with
    version := m.version + 1
    progress := .created
    composed := none
    locations := .empty
    units := .empty
    staleReported := false }

/-- Attaches an effect, unless one of the same name is attached. -/
def addEffect (m : Material) (e : Effect) : Bool × Material × List LogRecord :=
  if m.hasEffect e.id then
    (false, m, [m.report .debug ("plugin `" ++ e.id ++ "` already attached")])
  else (true, { m with effects := m.effects ++ [e] }.invalidate, [])

/-- What shaders keep once the effects of some names are gone, and their fragments with them. -/
def heldWithout (m : Material) (gone : String → Bool) : Holder → LocationTable
  | .effect id stage => if gone id then .empty else m.held (.effect id stage)
  | .core stage => m.held (.core stage)

def rememberedWithout (m : Material) (gone : String → Bool) :
    String → Stage → Option (List Variable) :=
  fun id stage => if gone id then none else m.remembered id stage

def removeEffect (m : Material) (id : String) : Bool × Material :=
  if m.hasEffect id then
    (true,
      { m with
        effects := m.effects.filter fun e => e.id != id
        held := m.heldWithout (· == id)
        remembered := m.rememberedWithout (· == id) }.invalidate)
  else (false, m)

def clearEffects (m : Material) : Material :=
  if m.effects.isEmpty then m
  else
    { m with
      effects := []
      held := m.heldWithout fun _ => true
      remembered := m.rememberedWithout fun _ => true }.invalidate

/-- How many texture units a material has if its settings do not say. -/
def defaultTextureUnits : Nat := 8

/-- The settings with directions for cube maps on or off. -/
def withCubeMaps (s : Settings) (on : Bool) : Settings :=
  { s with features := { s.features with cubeMaps := on } }

/-- Adds a texture, unless its name is taken. A cube map turns on directions for cube maps. -/
def addTexture (m : Material) (t : MaterialTexture) :
    Except ShaderError Bool × Material × List LogRecord :=
  if m.textures.any (fun other => other.name == t.name) then
    (.ok false, m, [m.report .debug ("texture `" ++ t.name ++ "` already added")])
  else
    -- there is no backend at hand to ask for its limit
    let limit := m.settings.maxTextureUnits.getD defaultTextureUnits
    let requested := m.requestedUnits (m.textures.length + 1)
    if limit < requested then (.error (.tooManyTextures requested limit), m, [])
    else
      let settings := if t.kind = .cubeMap then withCubeMaps m.settings true else m.settings
      (.ok true, { m with settings := settings, textures := m.textures ++ [t] }.invalidate, [])

/-- Removes the texture of a name. Directions for cube maps go with the last cube map. -/
def removeTexture (m : Material) (name : String) : Bool × Material :=
  match m.textures.find? (fun t => t.name == name) with
  | none => (false, m)
  | some removed =>
    let rest := m.textures.eraseP fun t => t.name == name
    let settings :=
      if removed.kind = .cubeMap ∧ (rest.any fun t => t.kind == .cubeMap) = false then
        withCubeMaps m.settings false
      else m.settings
    (true, { m with settings := settings, textures := rest }.invalidate)

/-! ### Laws -/

theorem version_invalidate (m : Material) : m.invalidate.version = m.version + 1 := rfl

theorem version_updateSettings {m : Material} {f : Settings → Settings}
    (h : m.settings.requiresRebuild (f m.settings) = false) :
    (m.updateSettings f).version = m.version := by
  simp [updateSettings, h]

theorem addTexture_error {m n : Material} {t : MaterialTexture} {e : ShaderError}
    {log : List LogRecord} (h : m.addTexture t = (.error e, n, log)) : n = m := by
  simp only [addTexture] at h
  split at h
  · cases h
  · split at h
    · exact (congrArg (fun o => o.2.1) h).symm
    · cases h

end Material

end ShaderComposer
