import ShaderComposer.Material.Basic

/-!
# Building a material

A build composes the two stages, has the backend compile and link them, and looks up the locations
of all variables. Each step keeps what it needs of the one before; a step that fails says how far
the build came. A program that waits to be rebuilt is refused by every call until the next
successful build, and reported once.
-/

namespace ShaderComposer

/-! ### Composing -/

namespace Material

def unboundedUnits : Nat := 0xffffffff

def planUnits (m : Material) : Except ShaderError UnitPlan :=
  -- the limit of the backend is looked at when compiling
  UnitPlan.assign m.textures.length (m.effects.map Effect.textureCount)
    (m.settings.maxTextureUnits.getD unboundedUnits)

def coreShader (m : Material) : Stage → CoreShader
  | .vertex => CoreVertex.shader m.settings.features m.settings.precision
  | .fragment => CoreFragment.shader m.settings.features m.settings.precision m.textures

def attachedFragments (m : Material) (stage : Stage) : List AttachedFragment :=
  m.effects.filterMap fun e => (e.fragment? stage).map fun f => ⟨f, m.remembered e.id stage⟩

def stageEffects (m : Material) (stage : Stage) : List String :=
  m.effects.filterMap fun e => (e.fragment? stage).map fun _ => e.id

def remember (m : Material) (stage : Stage) (fragments : List AttachedFragment) : Material :=
  let now := (m.stageEffects stage).zip (fragments.map (·.remembered))
  { m with
    remembered := fun id s =>
      if s = stage then (now.lookup id).getD (m.remembered id s) else m.remembered id s }

def composeStage (m : Material) (stage : Stage) : Except ShaderError StageComposition × Material :=
  let (result, fragments) := (m.coreShader stage).compose (m.attachedFragments stage)
    (attachedIds m.effects) m.settings.strictTypes
  (result, m.remember stage fragments)

/-- Composes both stages and plans the units. A failure says how far composing came. -/
def composeStages (m : Material) :
    Except (ShaderError × BuildState) (Composition × UnitPlan) × Material :=
  match m.planUnits with
  | .error e => (.error (e, .created), m)
  | .ok units =>
    match m.composeStage .vertex with
    | (.error e, m) => (.error (e, .created), m)
    | (.ok vertex, m) =>
      match m.composeStage .fragment with
      | (.error e, m) => (.error (e, .declared), m)
      | (.ok fragment, m) => (.ok (⟨vertex, fragment⟩, units), m)

def sourceRecord (m : Material) (source : StageSource) : LogRecord :=
  ⟨.debug, "material `" ++ m.name ++ "` " ++ source.stage.name ++ " source [" ++
    source.digest.hex ++ "]:\n" ++ source.text⟩

def sourceRecords (m : Material) (c : Composition) : List LogRecord :=
  if m.settings.printSources then
    [m.sourceRecord c.vertex.source, m.sourceRecord c.fragment.source]
  else []

/-- What shaders keep once the core shaders are made anew. -/
def heldByEffects (m : Material) : Holder → LocationTable
  | .core _ => .empty
  | .effect id stage => m.held (.effect id stage)

def withComposition (m : Material) (c : Composition) (units : UnitPlan) : Material :=
  { m with
    shaderFeatures := m.settings.features
    samplers := m.textures.map (·.name)
    held := m.heldByEffects
    units := units
    locations := .empty
    composedVersion := m.version
    progress := .bodyBuilt
    composed := some c }

/-- Composes both stages. A failure leaves the core shaders as they are, but not what fragments
remember. -/
def compose (m : Material) (b : Backend) : Outcome Composition :=
  match m.composeStages with
  | (.error (e, reached), m) =>
    ⟨.error e, { m with progress := reached, composed := none }, b, []⟩
  | (.ok (c, units), m) => ⟨.ok c, m.withComposition c units, b, m.sourceRecords c⟩

/-! ### Compiling and linking -/

/-- The limit on texture units: the settings', else the backend's. -/
def unitLimit (m : Material) (b : Backend) : Nat :=
  m.settings.maxTextureUnits.getD b.maxTextureUnits

/-- Gives up the program: it is deleted if its context is still there. -/
def releaseProgram (m : Material) (b : Backend) : Backend :=
  match m.ownedProgram with
  | some p => if p.generation = b.contextGeneration then b.deleteProgram p.handle else b
  | none => b

/-- The material after a refused compilation: its program is out of use. -/
def retire (m : Material) : Material :=
  match m.program with
  | .live p => { m with program := .retired p }
  | _ => m

def programRecord (m : Material) (handle : Nat) : LogRecord :=
  let text := "program ProgramHandle(" ++ toString handle ++ ")"
  if m.program = .none then m.report .debug ("linked " ++ text)
  else m.report .info ("rebuilt " ++ text)

def withLinked (m : Material) (handle generation : Nat) : Material :=
  { m with
    program := .live ⟨handle, generation, m.version⟩
    progress := .linked
    staleReported := false }

/-- Compiles and links a composition; the program that it replaces is given up. -/
def compileComposition (m : Material) (b : Backend) (c : Composition) : Outcome Nat :=
  match b.compileAndLink c.vertex.source.text c.fragment.source.text with
  | (.error r, b) => ⟨.error (.rejected r), m.retire, b, [m.report .error r.message]⟩
  | (.ok handle, b) =>
    let b := m.releaseProgram b
    ⟨.ok handle, m.withLinked handle b.contextGeneration, b, [m.programRecord handle]⟩

/-- The composition to compile: the present one, composed now if there is none. -/
def ensureComposed (m : Material) (b : Backend) : Outcome Composition :=
  match m.composed with
  | some c => if m.state.reaches .bodyBuilt then ⟨.ok c, m, b, []⟩ else m.compose b
  | none => m.compose b

/-- Compiles and links the material, within the limit on texture units. -/
def compile (m : Material) (b : Backend) : Outcome Nat :=
  (m.ensureComposed b).andThen fun c m b =>
    if m.unitLimit b < m.units.total then
      ⟨.error (.tooManyTextures m.units.total (m.unitLimit b)), m, b, []⟩
    else m.compileComposition b c

/-! ### Stale programs -/

def contextLost (m : Material) : Material :=
  { m with
    program := if m.program = .none then .none else .invalidated
    locations := .empty
    progress := m.progress.earlier .declared
    staleReported := false }

/-- The refusal of a stale program, reported once. -/
def refuseStale (m : Material) : Except ShaderError Nat × Material × List LogRecord :=
  (.error (.staleProgram m.name), { m with staleReported := true },
    if m.staleReported then []
    else [m.report .warn "program is stale, skipping until rebuilt"])

/-- The program to work on, if it is up to date and built far enough. -/
def liveProgram (m : Material) (b : Backend) (required : BuildState) :
    Except ShaderError Nat × Material × List LogRecord :=
  match m.program with
  | .none => (.error (.notLinked m.name), m, [])
  | .invalidated | .retired _ => m.refuseStale
  | .live p =>
    -- nobody may have told the material of the loss, so it is looked for here
    if p.generation ≠ b.contextGeneration then m.contextLost.refuseStale
    else if p.version ≠ m.version then m.refuseStale
    else if m.progress.reaches required then (.ok p.handle, m, [])
    else (.error (.notLinked m.name), m, [])

def withProgram {α : Type} (m : Material) (b : Backend) (required : BuildState)
    (act : Nat → Material → Outcome α) : Outcome α :=
  match m.liveProgram b required with
  | (.error e, m, log) => ⟨.error e, m, b, log⟩
  | (.ok handle, m, _) => act handle m

/-! ### Locations -/

/-- The uniforms and attributes whose locations a shader asks for. -/
structure Lookup where
  holder : Holder
  uniforms : List String
  attributes : List String
deriving Inhabited

def coreLookup (m : Material) : Stage → Lookup
  | .vertex =>
    ⟨.core .vertex, (CoreVertex.uniforms m.shaderFeatures).map Role.name,
      (CoreVertex.attributes m.shaderFeatures).map Role.name⟩
  | .fragment =>
    ⟨.core .fragment, (CoreFragment.uniforms m.shaderFeatures).map Role.name ++ m.samplers, []⟩

def effectLookup (e : Effect) (stage : Stage) : Option Lookup :=
  (e.fragment? stage).map fun f => ⟨.effect e.id stage, f.uniforms, f.attributes⟩

/-- What the shaders of a stage ask for: the core's, then each fragment's. -/
def stageLookups (m : Material) (stage : Stage) : List Lookup :=
  m.coreLookup stage :: m.effects.filterMap fun e => effectLookup e stage

/-- What all shaders ask for, the vertex stage first. -/
def lookups (m : Material) : List Lookup := m.stageLookups .vertex ++ m.stageLookups .fragment

/-- Looks up names in a program, shader by shader. -/
def resolveAll (b : Backend) (program : Nat) :
    List Lookup → LocationTable → LocationTable × List LogRecord
  | [], t => (t, [])
  | l :: rest, t =>
    let (next, records) := t.resolve b program l.uniforms l.attributes
    let (last, more) := resolveAll b program rest next
    (last, records ++ more)

/-- What shaders keep of a table: each what it asked for. -/
def keep (t : LocationTable) (lookups : List Lookup) (held : Holder → LocationTable) :
    Holder → LocationTable := fun h =>
  match lookups.find? (·.holder == h) with
  | some l => t.select l.uniforms l.attributes
  | none => held h

def withLocations (m : Material) (t : LocationTable) : Material :=
  { m with locations := t, held := keep t m.lookups m.held, progress := .bound }

def linkLocations (m : Material) (b : Backend) : Outcome Unit :=
  m.withProgram b .linked fun handle m =>
    let (locations, records) := resolveAll b handle m.lookups .empty
    ⟨.ok (), m.withLocations locations, b, records⟩

/-! ### The whole build -/

/-- Composes, compiles and looks up locations. -/
def build (m : Material) (b : Backend) : Outcome Nat :=
  (m.compose b).andThen fun _ m b =>
    (m.compile b).andThen fun handle m b =>
      (m.linkLocations b).andThen fun _ m b => ⟨.ok handle, m, b, []⟩

def release (m : Material) (b : Backend) : Material × Backend :=
  ({ m with program := .none, composed := none, locations := .empty, progress := .created },
    m.releaseProgram b)

/-! ### Laws -/

theorem backend_compose (m : Material) (b : Backend) : (m.compose b).backend = b := by
  unfold compose
  split <;> rfl

end Material

end ShaderComposer
