import ShaderComposer.Material.Build

/-!
# Drawing with a material

The calls of a frame: use the program, bind textures and vertex buffers, write the uniforms. Each
works on the live program only. Every shader goes by the locations that it keeps; a variable that
the program does not have is skipped.
-/

namespace ShaderComposer

/-! ### Calls -/

/-- The write of a value, if the variable has a location. -/
def writeCalls (l : Location) (value : UniformValue) : List GraphicsCall :=
  if l.isValid then [.setUniform l value] else []

/-- The binding of a texture, and of its sampler to the unit. -/
def bindCalls (unit : Nat) (texture : TextureRef) (sampler : Location) : List GraphicsCall :=
  .bindTexture unit texture :: writeCalls sampler (.sampler unit)

/-- The binding of a buffer, if there is one and the attribute has a location. -/
def attributeCalls (l : Location) (buffer : Option VertexBuffer) : List GraphicsCall :=
  match buffer with
  | some v => if l.isValid then [.bindAttribute l v] else []
  | none => []

namespace Material

/-- The location of a uniform for the core shader of a stage. -/
def coreUniform (m : Material) (stage : Stage) (name : String) : Location :=
  (m.held (.core stage)).uniformLocation name

/-- The location of a name for the fragment that an effect has in a stage. -/
def effectLocation (m : Material) (e : Effect) (stage : Stage) (name : String) : Location :=
  match e.fragment? stage with
  | some _ => (m.held (.effect e.id stage)).locate name
  | none => .notFound

/-! ### Uniforms -/

def coreWrites (m : Material) : Stage → List GraphicsCall
  | .vertex =>
    (CoreVertex.writes m.shaderFeatures m.vertexParams).flatMap fun (name, value) =>
      writeCalls (m.coreUniform .vertex name) value
  | .fragment =>
    (CoreFragment.writes m.shaderFeatures m.fragmentParams).flatMap fun (name, value) =>
      writeCalls (m.coreUniform .fragment name) value

def effectWrites (m : Material) (stage : Stage) (e : Effect) : List GraphicsCall :=
  (e.writes stage m.time).flatMap fun (name, value) =>
    writeCalls (m.effectLocation e stage name) value

def stageWrites (m : Material) (stage : Stage) : List GraphicsCall :=
  m.coreWrites stage ++ m.effects.flatMap (m.effectWrites stage)

/-- Brings the effects to the material's time and writes all uniforms. -/
def applyParams (m : Material) (b : Backend) : Outcome Unit :=
  m.withProgram b .bound fun _ m =>
    let m := m.mapEffects fun e => e.advance m.time
    ⟨.ok (), m, b.recordAll (m.stageWrites .vertex ++ m.stageWrites .fragment), []⟩

/-! ### Textures -/

/-- The material's own textures that fit below a limit, with their units. -/
def coreUnits (m : Material) (limit : Nat) : List (Nat × MaterialTexture) :=
  let count := min m.units.core limit
  (List.range count).zip m.textures

/-- The effects whose units all fit below a limit, with their units. -/
def effectUnits (m : Material) (limit : Nat) : List (UnitRange × Effect) :=
  (m.effects.zipIdx.map fun (e, i) => (m.units.effectRange i, e)).filter fun (r, _) =>
    !r.isEmpty && decide (r.stop ≤ limit)

/-- The textures of an effect, with their units and the names of their samplers. -/
def effectBindings (r : UnitRange) (e : Effect) : List (Nat × TextureRef × String) :=
  r.toList.zip e.textures

def textureBindings (m : Material) (limit : Nat) : List GraphicsCall :=
  (((m.coreUnits limit).zip m.samplers).flatMap fun ((unit, t), sampler) =>
      bindCalls unit t.texture (m.coreUniform .fragment sampler)) ++
    (m.effectUnits limit).flatMap fun (r, e) =>
      (effectBindings r e).flatMap fun (unit, texture, sampler) =>
        bindCalls unit texture (m.effectLocation e .fragment sampler)

def textureReleases (m : Material) (limit : Nat) : List GraphicsCall :=
  ((m.coreUnits limit).map fun (unit, t) => .unbindTexture unit t.texture.target) ++
    (m.effectUnits limit).flatMap fun (r, e) =>
      (effectBindings r e).map fun (unit, texture, _) => .unbindTexture unit texture.target

def overflowRecords (m : Material) (limit : Nat) : List LogRecord :=
  if limit < m.units.total then
    [m.report .error (toString m.units.total ++ " texture units needed, backend has " ++
      toString limit ++ "; extra textures left unbound")]
  else []

/-- Binds all textures that fit; gives the number of units. -/
def bindTextures (m : Material) (b : Backend) : Outcome Nat :=
  m.withProgram b .bound fun _ m =>
    let limit := b.maxTextureUnits
    ⟨.ok (min m.units.total limit), m, b.recordAll (m.textureBindings limit),
      m.overflowRecords limit⟩

def unbindTextures (m : Material) (b : Backend) : Outcome Unit :=
  m.withProgram b .bound fun _ m =>
    ⟨.ok (), m, b.recordAll (m.textureReleases b.maxTextureUnits), []⟩

/-! ### Program and attributes -/

def useProgram (m : Material) (b : Backend) : Outcome Unit :=
  m.withProgram b .bound fun handle m => ⟨.ok (), m, b.record (.useProgram handle), []⟩

def attributeBindings (m : Material) (v : MeshBuffers) : List GraphicsCall :=
  ((CoreVertex.streams m.shaderFeatures v).flatMap fun (name, buffer) =>
      attributeCalls ((m.held (.core .vertex)).attributeLocation name) buffer) ++
    m.effects.flatMap fun e =>
      (e.streams v).flatMap fun (name, buffer) =>
        attributeCalls (m.effectLocation e .vertex name) buffer

def bindAttributes (m : Material) (b : Backend) (v : MeshBuffers) : Outcome Unit :=
  m.withProgram b .bound fun _ m => ⟨.ok (), m, b.recordAll (m.attributeBindings v), []⟩

/-! ### Activation -/

inductive Activation where
  | ready (textureUnits : Nat)
  /-- The program waits to be rebuilt; nothing was done. -/
  | skipped
deriving DecidableEq, Inhabited

/-- Uses the program, binds textures and writes uniforms. A stale program is skipped. -/
def activate (m : Material) (b : Backend) : Outcome Activation :=
  let used := m.useProgram b
  match used.result with
  | .error (.staleProgram _) => { used with result := .ok .skipped }
  | _ =>
    used.andThen fun _ m b =>
      (m.bindTextures b).andThen fun units m b =>
        (m.applyParams b).andThen fun _ m b => ⟨.ok (.ready units), m, b, []⟩

end Material

end ShaderComposer
