import ShaderComposer.Material.Frame
import ShaderComposer.Proofs.Graphics.Programs

/-!
# Runs

Any number of materials that share one backend, and what can be done to them: the operations of a
material, the settings of its built-in effects, losing the context and making a compilation fail.
A run is a list of such steps. `World.mutations` counts how often a run changes what a material
builds, and `World.links` lists the programs that a run links, each with the two sources that the
backend was given for it.
-/

namespace ShaderComposer

/-! ### Settings of built-in effects -/

/-- A change of the parameters of a built-in effect. -/
inductive EffectSetting where
  | fogParams (color : Vec 3) (near far : Single)
  | fogEnabled (enabled : Bool)
  | alphaThreshold (threshold : Single)
  | shadowTexture (map : TextureRef)
  | lightMatrix (matrix : Mat4)
  | lightDirection (direction : Vec 3)
  | shadowInfluence (influence : Single)
  | boneMatrices (bones : List Mat4)
  | playSprites
  | pauseSprites
  | rewindSprites
  | spriteRate (framesPerSecond : Single)

def EffectSetting.apply : EffectSetting → Effect → Effect
  | fogParams color near far, .fog f => .fog { f with color := color, near := near, far := far }
  | fogEnabled enabled, .fog f => .fog { f with enabled := enabled }
  | alphaThreshold threshold, .alphaMask a => .alphaMask { a with threshold := threshold }
  | shadowTexture map, .shadowMap s => .shadowMap { s with map := some map }
  | lightMatrix matrix, .shadowMap s => .shadowMap { s with lightMvp := matrix }
  | lightDirection direction, .shadowMap s => .shadowMap { s with lightDirection := direction }
  | shadowInfluence influence, .shadowMap s => .shadowMap { s with influence := influence }
  | boneMatrices bones, .skeletal s => .skeletal { s with bones := bones }
  | playSprites, .spriteSheet s => .spriteSheet s.play
  | pauseSprites, .spriteSheet s => .spriteSheet s.pause
  | rewindSprites, .spriteSheet s => .spriteSheet s.rewind
  | spriteRate rate, .spriteSheet s => .spriteSheet { s with framesPerSecond := rate }
  | _, e => e

/-! ### Operations -/

/-- A call that works on the live program. -/
inductive FrameCall where
  | useProgram
  | applyParams
  | bindTextures
  | unbindTextures
  | bindAttributes (buffers : MeshBuffers)

inductive Operation where
  | setFeatures (features : Features)
  | updateSettings (f : Settings → Settings)
  | addTexture (t : MaterialTexture)
  | removeTexture (name : String)
  | addEffect (e : Effect)
  | removeEffect (id : String)
  | clearEffects
  | setTime (time : Single)
  | setVertexParams (p : VertexParams)
  | setFragmentParams (p : FragmentParams)
  | setEffect (s : EffectSetting)
  | compose
  | compile
  | linkLocations
  | build
  | contextLost
  | release
  | frame (call : FrameCall)
  | activate

inductive Reply where
  | done
  | flag (changed : Bool)
  | program (handle : Nat)
  | units (count : Nat)
  | activation (a : Material.Activation)
deriving DecidableEq

namespace Outcome

def map {α β : Type} (f : α → β) (o : Outcome α) : Outcome β :=
  ⟨o.result.map f, o.material, o.backend, o.log⟩

end Outcome

def FrameCall.perform (m : Material) (b : Backend) : FrameCall → Outcome Reply
  | useProgram => (m.useProgram b).map fun _ => .done
  | applyParams => (m.applyParams b).map fun _ => .done
  | bindTextures => (m.bindTextures b).map .units
  | unbindTextures => (m.unbindTextures b).map fun _ => .done
  | bindAttributes v => (m.bindAttributes b v).map fun _ => .done

namespace Operation

def perform (m : Material) (b : Backend) : Operation → Outcome Reply
  | setFeatures features => ⟨.ok .done, m.setFeatures features, b, []⟩
  | updateSettings f => ⟨.ok .done, m.updateSettings f, b, []⟩
  | addTexture t =>
    let (result, n, log) := m.addTexture t
    ⟨result.map .flag, n, b, log⟩
  | removeTexture name => ⟨.ok (.flag (m.removeTexture name).1), (m.removeTexture name).2, b, []⟩
  | addEffect e =>
    let (added, n, log) := m.addEffect e
    ⟨.ok (.flag added), n, b, log⟩
  | removeEffect id => ⟨.ok (.flag (m.removeEffect id).1), (m.removeEffect id).2, b, []⟩
  | clearEffects => ⟨.ok .done, m.clearEffects, b, []⟩
  | setTime time => ⟨.ok .done, m.setTime time, b, []⟩
  | setVertexParams p => ⟨.ok .done, { m with vertexParams := p }, b, []⟩
  | setFragmentParams p => ⟨.ok .done, { m with fragmentParams := p }, b, []⟩
  | setEffect s => ⟨.ok .done, m.mapEffects s.apply, b, []⟩
  | compose => (m.compose b).map fun _ => .done
  | compile => (m.compile b).map .program
  | linkLocations => (m.linkLocations b).map fun _ => .done
  | build => (m.build b).map .program
  | contextLost => ⟨.ok .done, m.contextLost, b, []⟩
  | release => ⟨.ok .done, (m.release b).1, (m.release b).2, []⟩
  | frame call => call.perform m b
  | activate => (m.activate b).map .activation

/-- The operation links a new program: it compiles, alone or in a build, and succeeds. -/
def Relinks (m : Material) (b : Backend) (op : Operation) : Prop :=
  (op = .compile ∨ op = .build) ∧ ∃ handle, (op.perform m b).result = .ok (.program handle)

end Operation

/-! ### Programs and their sources -/

namespace Material

/-- The sources that compiling gives to the backend, if it comes that far. -/
def submission? (m : Material) (b : Backend) : Option (String × String) :=
  let composed := m.ensureComposed b
  match composed.result with
  | .error _ => none
  | .ok c =>
    if composed.material.unitLimit b < composed.material.units.total then none
    else some (c.vertex.source.text, c.fragment.source.text)

def link? (m : Material) (b : Backend) : Option Link :=
  match m.submission? b with
  | none => none
  | some (vertex, fragment) =>
    match (b.compileAndLink vertex fragment).1 with
    | .ok handle => some ⟨handle, vertex, fragment⟩
    | .error _ => none

/-- The rejection that compiling meets, if it does. -/
def rejection? (m : Material) (b : Backend) : Option Rejection :=
  match m.submission? b with
  | none => none
  | some (vertex, fragment) =>
    match (b.compileAndLink vertex fragment).1 with
    | .ok _ => none
    | .error r => some r

end Material

namespace Operation

def link? (m : Material) (b : Backend) : Operation → Option Link
  | .compile => m.link? b
  | .build =>
    match (m.compose b).result with
    | .ok _ => (m.compose b).material.link? b
    | .error _ => none
  | _ => none

def rejection? (m : Material) (b : Backend) : Operation → Option Rejection
  | .compile => m.rejection? b
  | .build =>
    match (m.compose b).result with
    | .ok _ => (m.compose b).material.rejection? b
    | .error _ => none
  | _ => none

/-- The operation puts the program of a material that has one out of use. -/
def Invalidates (m : Material) (b : Backend) : Operation → Prop
  | .addTexture t => (m.addTexture t).1 = .ok true
  | .removeTexture name => (m.removeTexture name).1 = true
  | .addEffect e => (m.addEffect e).1 = true
  | .removeEffect id => (m.removeEffect id).1 = true
  | .clearEffects => m.effects ≠ []
  | .updateSettings f => m.settings.requiresRebuild (f m.settings) = true
  | .setFeatures features =>
    m.settings.requiresRebuild { m.settings with features := features } = true
  | .contextLost => True
  | op => (op.rejection? m b).isSome = true

end Operation

/-! ### Worlds and runs -/

structure World where
  materials : List Material
  backend : Backend

inductive Step where
  | material (index : Nat) (op : Operation)
  | loseContext
  | failNextCompile (stage : Option Stage) (log : String)

namespace World

/-- New materials, given by names and settings, with a new backend that has so many units. -/
def fresh (materials : List (String × Settings)) (unitLimit : Nat) : World :=
  ⟨materials.map fun (name, settings) => Material.create name settings, .create unitLimit false⟩

def put (w : World) (i : Nat) (m : Material) (b : Backend) : World := ⟨w.materials.set i m, b⟩

/-- The world after a step. A step of a material that does not exist changes nothing. -/
def step (w : World) : Step → World
  | .material i op =>
    match w.materials[i]? with
    | none => w
    | some m => w.put i (op.perform m w.backend).material (op.perform m w.backend).backend
  | .loseContext => { w with backend := w.backend.loseContext }
  | .failNextCompile stage log => { w with backend := w.backend.failNextCompile stage log }

def run (w : World) (steps : List Step) : World := steps.foldl step w

def link? (w : World) : Step → Option Link
  | .material i op =>
    match w.materials[i]? with
    | none => none
    | some m => op.link? m w.backend
  | _ => none

def links : World → List Step → List Link
  | _, [] => []
  | w, s :: rest => (w.link? s).toList ++ links (w.step s) rest

def version? (w : World) (i : Nat) : Option UInt64 := (w.materials[i]?).map (·.version)

/-- How often a run changes what a material builds. -/
def mutations (i : Nat) : World → List Step → Nat
  | _, [] => 0
  | w, s :: rest =>
    (if (w.step s).version? i = w.version? i then 0 else 1) + mutations i (w.step s) rest

/-- Every step of a run has a property in the world that it is taken in. -/
def Along (P : World → Step → Prop) : World → List Step → Prop
  | _, [] => True
  | w, s :: rest => P w s ∧ Along P (w.step s) rest

/-- The step invalidates the program of a material, or loses its context. -/
def Invalidates (i : Nat) (w : World) : Step → Prop
  | .material j op => j = i ∧ ∃ m, w.materials[i]? = some m ∧ op.Invalidates m w.backend
  | .loseContext => True
  | .failNextCompile .. => False

def Relinks (i : Nat) (w : World) : Step → Prop
  | .material j op => j = i ∧ ∃ m, w.materials[i]? = some m ∧ op.Relinks m w.backend
  | _ => False

/-- A material has the program, in use or not. -/
def Owns (w : World) (i : Nat) (p : LinkedProgram) : Prop :=
  ∃ m, w.materials[i]? = some m ∧ m.ownedProgram = some p

end World

end ShaderComposer
