import ShaderComposer.Proofs.Material.Run

/-!
# Materials on any backend

A material asks little of a graphics backend: to compile and link two sources, to look up the
locations of a program, to make calls and to delete programs, and it reads off the number of texture
units and the generation of the context. `GraphicsBackend` is this interface, and the headless
backend is one instance of it. The operations that ask a backend for something are stated here for
every instance; the others are the ones that there are. On the headless backend both agree
(`Operation.performOn_headless`).
-/

namespace ShaderComposer

/-! ### Backends -/

/-- What a material asks of a graphics backend. The states of a backend are the values of the type.
-/
class GraphicsBackend (β : Type) where
  compileAndLink : β → String → String → Except Rejection Nat × β
  uniformLocation : β → Nat → String → Location
  attributeLocation : β → Nat → String → Location
  maxTextureUnits : β → Nat
  /-- Counts the contexts there have been. -/
  contextGeneration : β → Nat
  /-- Any call of a frame. -/
  call : β → GraphicsCall → β
  deleteProgram : β → Nat → β

instance : GraphicsBackend Backend where
  compileAndLink := Backend.compileAndLink
  uniformLocation := Backend.uniformLocation
  attributeLocation := Backend.attributeLocation
  maxTextureUnits := Backend.maxTextureUnits
  contextGeneration := Backend.contextGeneration
  call := Backend.record
  deleteProgram := Backend.deleteProgram

/-- What an operation leaves behind, and its result. -/
structure OutcomeOn (β α : Type) where
  result : Except ShaderError α
  material : Material
  backend : β
  log : List LogRecord

namespace OutcomeOn

variable {β α γ : Type}

/-- Goes on with the next operation after a success; the records add up. -/
def andThen (o : OutcomeOn β α) (next : α → Material → β → OutcomeOn β γ) : OutcomeOn β γ :=
  match o.result with
  | .error e => ⟨.error e, o.material, o.backend, o.log⟩
  | .ok a =>
    let rest := next a o.material o.backend
    { rest with log := o.log ++ rest.log }

def map (f : α → γ) (o : OutcomeOn β α) : OutcomeOn β γ :=
  ⟨o.result.map f, o.material, o.backend, o.log⟩

theorem of_result_map {f : α → γ} {o : OutcomeOn β α} {c : γ} (ok : (o.map f).result = .ok c) :
    ∃ a, f a = c := by
  obtain ⟨result, _, _, _⟩ := o
  cases result with
  | error e => cases ok
  | ok a => exact ⟨a, Except.ok.inj ok⟩

theorem map_ok_iff {f : α → γ} {o : OutcomeOn β α} :
    (∃ c, (o.map f).result = .ok c) ↔ ∃ a, o.result = .ok a := by
  obtain ⟨result, _, _, _⟩ := o
  cases result <;> simp [map, Except.map]

theorem of_result_andThen {o : OutcomeOn β α} {next : α → Material → β → OutcomeOn β γ} {c : γ}
    (ok : (o.andThen next).result = .ok c) :
    ∃ a, o.result = .ok a ∧ (next a o.material o.backend).result = .ok c ∧
      (o.andThen next).material = (next a o.material o.backend).material ∧
      (o.andThen next).backend = (next a o.material o.backend).backend := by
  obtain ⟨result, _, _, _⟩ := o
  cases result with
  | error e => cases ok
  | ok a => exact ⟨a, rfl, ok, rfl, rfl⟩

end OutcomeOn

/-- What an operation that asks nothing of its backend leaves behind on another. -/
def Outcome.on {α β : Type} (o : Outcome α) (b : β) : OutcomeOn β α :=
  ⟨o.result, o.material, b, o.log⟩

/-! ### Location tables -/

namespace LocationTable

/-- The table once it was asked for a uniform that the backend has at a location. -/
def learnUniform (t : LocationTable) (name : String) (l : Location) :
    LocationTable × List LogRecord :=
  if (t.uniforms.lookup name).isSome then (t, [])
  else ({ t with uniforms := t.uniforms ++ [(name, l)] }, missingRecords "uniform" "writes" name l)

/-- The table once it was asked for an attribute that the backend has at a location. -/
def learnAttribute (t : LocationTable) (name : String) (l : Location) :
    LocationTable × List LogRecord :=
  if (t.attributes.lookup name).isSome then (t, [])
  else
    ({ t with attributes := t.attributes ++ [(name, l)] },
      missingRecords "attribute" "binds" name l)

variable {β : Type} [GraphicsBackend β]

def resolveOn (t : LocationTable) (b : β) (program : Nat) (uniforms attributes : List String) :
    LocationTable × List LogRecord :=
  let (next, records) := resolveEach
    (fun t name => t.learnUniform name (GraphicsBackend.uniformLocation b program name)) uniforms t
  let (last, more) := resolveEach
    (fun t name => t.learnAttribute name (GraphicsBackend.attributeLocation b program name))
    attributes next
  (last, records ++ more)

theorem resolveOn_headless (t : LocationTable) (b : Backend) (program : Nat)
    (uniforms attributes : List String) :
    t.resolveOn b program uniforms attributes = t.resolve b program uniforms attributes := rfl

end LocationTable

namespace Material

variable {α β : Type} [GraphicsBackend β]

/-! ### Building -/

def composeOn (m : Material) (b : β) : OutcomeOn β Composition := (m.compose default).on b

def ensureComposedOn (m : Material) (b : β) : OutcomeOn β Composition :=
  (m.ensureComposed default).on b

def unitLimitOn (m : Material) (b : β) : Nat :=
  m.settings.maxTextureUnits.getD (GraphicsBackend.maxTextureUnits b)

def releaseProgramOn (m : Material) (b : β) : β :=
  match m.ownedProgram with
  | some p =>
    if p.generation = GraphicsBackend.contextGeneration b then
      GraphicsBackend.deleteProgram b p.handle
    else b
  | none => b

def compileCompositionOn (m : Material) (b : β) (c : Composition) : OutcomeOn β Nat :=
  match GraphicsBackend.compileAndLink b c.vertex.source.text c.fragment.source.text with
  | (.error r, b) => ⟨.error (.rejected r), m.retire, b, [m.report .error r.message]⟩
  | (.ok handle, b) =>
    let b := m.releaseProgramOn b
    ⟨.ok handle, m.withLinked handle (GraphicsBackend.contextGeneration b), b,
      [m.programRecord handle]⟩

def compileOn (m : Material) (b : β) : OutcomeOn β Nat :=
  (m.ensureComposedOn b).andThen fun c m b =>
    if m.unitLimitOn b < m.units.total then
      ⟨.error (.tooManyTextures m.units.total (m.unitLimitOn b)), m, b, []⟩
    else m.compileCompositionOn b c

def liveProgramOn (m : Material) (b : β) (required : BuildState) :
    Except ShaderError Nat × Material × List LogRecord :=
  match m.program with
  | .none => (.error (.notLinked m.name), m, [])
  | .invalidated | .retired _ => m.refuseStale
  | .live p =>
    if p.generation ≠ GraphicsBackend.contextGeneration b then m.contextLost.refuseStale
    else if p.version ≠ m.version then m.refuseStale
    else if m.progress.reaches required then (.ok p.handle, m, [])
    else (.error (.notLinked m.name), m, [])

def withProgramOn (m : Material) (b : β) (required : BuildState)
    (act : Nat → Material → OutcomeOn β α) : OutcomeOn β α :=
  match m.liveProgramOn b required with
  | (.error e, m, log) => ⟨.error e, m, b, log⟩
  | (.ok handle, m, _) => act handle m

def resolveAllOn (b : β) (program : Nat) :
    List Lookup → LocationTable → LocationTable × List LogRecord
  | [], t => (t, [])
  | l :: rest, t =>
    let (next, records) := t.resolveOn b program l.uniforms l.attributes
    let (last, more) := resolveAllOn b program rest next
    (last, records ++ more)

/-- What all shaders ask for, as a program has it. -/
def lookUpOn (m : Material) (b : β) (program : Nat) : LocationTable × List LogRecord :=
  resolveAllOn b program m.lookups .empty

def linkLocationsOn (m : Material) (b : β) : OutcomeOn β Unit :=
  m.withProgramOn b .linked fun handle m =>
    ⟨.ok (), m.withLocations (m.lookUpOn b handle).1, b, (m.lookUpOn b handle).2⟩

/-- What a build does after composing. -/
def finishOn (m : Material) (b : β) : OutcomeOn β Nat :=
  (m.compileOn b).andThen fun handle m b =>
    (m.linkLocationsOn b).andThen fun _ m b => ⟨.ok handle, m, b, []⟩

def buildOn (m : Material) (b : β) : OutcomeOn β Nat :=
  (m.composeOn b).andThen fun _ m b => m.finishOn b

def releaseOn (m : Material) (b : β) : Material × β :=
  ({ m with program := .none, composed := none, locations := .empty, progress := .created },
    m.releaseProgramOn b)

/-! ### Drawing -/

def callAll (b : β) (calls : List GraphicsCall) : β := calls.foldl GraphicsBackend.call b

def useProgramOn (m : Material) (b : β) : OutcomeOn β Unit :=
  m.withProgramOn b .bound fun handle m =>
    ⟨.ok (), m, GraphicsBackend.call b (.useProgram handle), []⟩

def applyParamsOn (m : Material) (b : β) : OutcomeOn β Unit :=
  m.withProgramOn b .bound fun _ m =>
    let m := m.mapEffects fun e => e.advance m.time
    ⟨.ok (), m, callAll b (m.stageWrites .vertex ++ m.stageWrites .fragment), []⟩

def bindTexturesOn (m : Material) (b : β) : OutcomeOn β Nat :=
  m.withProgramOn b .bound fun _ m =>
    let limit := GraphicsBackend.maxTextureUnits b
    ⟨.ok (min m.units.total limit), m, callAll b (m.textureBindings limit),
      m.overflowRecords limit⟩

def unbindTexturesOn (m : Material) (b : β) : OutcomeOn β Unit :=
  m.withProgramOn b .bound fun _ m =>
    ⟨.ok (), m, callAll b (m.textureReleases (GraphicsBackend.maxTextureUnits b)), []⟩

def bindAttributesOn (m : Material) (b : β) (v : MeshBuffers) : OutcomeOn β Unit :=
  m.withProgramOn b .bound fun _ m => ⟨.ok (), m, callAll b (m.attributeBindings v), []⟩

def activateOn (m : Material) (b : β) : OutcomeOn β Activation :=
  let used := m.useProgramOn b
  match used.result with
  | .error (.staleProgram _) => { used with result := .ok .skipped }
  | _ =>
    used.andThen fun _ m b =>
      (m.bindTexturesOn b).andThen fun units m b =>
        (m.applyParamsOn b).andThen fun _ m b => ⟨.ok (.ready units), m, b, []⟩

end Material

/-! ### Operations -/

section

variable {β : Type} [GraphicsBackend β]

def FrameCall.performOn (m : Material) (b : β) : FrameCall → OutcomeOn β Reply
  | useProgram => (m.useProgramOn b).map fun _ => .done
  | applyParams => (m.applyParamsOn b).map fun _ => .done
  | bindTextures => (m.bindTexturesOn b).map .units
  | unbindTextures => (m.unbindTexturesOn b).map fun _ => .done
  | bindAttributes v => (m.bindAttributesOn b v).map fun _ => .done

/-- An operation on any backend. Those that are not named ask nothing of it. -/
def Operation.performOn (m : Material) (b : β) : Operation → OutcomeOn β Reply
  | compile => (m.compileOn b).map .program
  | linkLocations => (m.linkLocationsOn b).map fun _ => .done
  | build => (m.buildOn b).map .program
  | release => ⟨.ok .done, (m.releaseOn b).1, (m.releaseOn b).2, []⟩
  | frame call => call.performOn m b
  | activate => (m.activateOn b).map .activation
  | op => (op.perform m default).on b

end

/-! ### The headless backend -/

/-- What an operation on the headless backend leaves behind. -/
def Outcome.headless {α : Type} (o : Outcome α) : OutcomeOn Backend α := o.on o.backend

namespace Material

theorem callAll_headless (b : Backend) (calls : List GraphicsCall) :
    callAll b calls = b.recordAll calls := by
  induction calls generalizing b with
  | nil => simp [callAll, Backend.recordAll]
  | cons c rest ih =>
    have next : callAll b (c :: rest) = callAll (b.record c) rest := rfl
    rw [next, ih]
    simp [Backend.recordAll, Backend.record]

theorem resolveAllOn_headless (b : Backend) (program : Nat) (lookups : List Lookup)
    (t : LocationTable) : resolveAllOn b program lookups t = resolveAll b program lookups t := by
  induction lookups generalizing t with
  | nil => rfl
  | cons l rest ih => simp only [resolveAllOn, resolveAll, LocationTable.resolveOn_headless, ih]

theorem withProgramOn_headless {α : Type} {m : Material} {b : Backend} {required : BuildState}
    {act : Nat → Material → OutcomeOn Backend α} {acts : Nat → Material → Outcome α}
    (same : ∀ handle m, act handle m = (acts handle m).headless) :
    m.withProgramOn b required act = (m.withProgram b required acts).headless := by
  have given : m.liveProgramOn b required = m.liveProgram b required := rfl
  unfold withProgramOn withProgram
  rw [given]
  rcases m.liveProgram b required with ⟨_ | handle, n, log⟩
  · rfl
  · exact same handle n

theorem andThen_headless {α γ : Type} (o : Outcome α) {next : α → Material → Backend → Outcome γ}
    {nextOn : α → Material → Backend → OutcomeOn Backend γ}
    (same : ∀ a m b, nextOn a m b = (next a m b).headless) :
    o.headless.andThen nextOn = (o.andThen next).headless := by
  obtain ⟨result, m, b, log⟩ := o
  cases result with
  | error e => rfl
  | ok a => simp only [Outcome.headless, Outcome.on, OutcomeOn.andThen, Outcome.andThen, same]

variable (m : Material) (b : Backend)

theorem composeOn_headless : m.composeOn b = (m.compose b).headless := by
  unfold composeOn compose
  rcases m.composeStages with ⟨_ | _, n⟩ <;> rfl

theorem ensureComposedOn_headless : m.ensureComposedOn b = (m.ensureComposed b).headless := by
  unfold ensureComposedOn ensureComposed
  cases m.composed with
  | none => exact m.composeOn_headless b
  | some c =>
    cases far : m.state.reaches .bodyBuilt with
    | true => rfl
    | false =>
      simp only [Bool.false_eq_true, ite_false]
      exact m.composeOn_headless b

theorem compileCompositionOn_headless (c : Composition) :
    m.compileCompositionOn b c = (m.compileComposition b c).headless := by
  have asked : GraphicsBackend.compileAndLink b c.vertex.source.text c.fragment.source.text =
      b.compileAndLink c.vertex.source.text c.fragment.source.text := rfl
  unfold compileCompositionOn compileComposition
  rw [asked]
  rcases b.compileAndLink c.vertex.source.text c.fragment.source.text with ⟨_ | _, d⟩ <;> rfl

theorem compileOn_headless : m.compileOn b = (m.compile b).headless := by
  unfold compileOn compile
  rw [ensureComposedOn_headless]
  refine andThen_headless _ fun c m b => ?_
  have limit : m.unitLimitOn b = m.unitLimit b := rfl
  rw [limit]
  by_cases exceeds : m.unitLimit b < m.units.total
  · rw [if_pos exceeds, if_pos exceeds]
    rfl
  · rw [if_neg exceeds, if_neg exceeds]
    exact m.compileCompositionOn_headless b c

theorem linkLocationsOn_headless : m.linkLocationsOn b = (m.linkLocations b).headless := by
  refine withProgramOn_headless fun handle m => ?_
  rw [lookUpOn, resolveAllOn_headless]
  rfl

theorem buildOn_headless : m.buildOn b = (m.build b).headless := by
  unfold buildOn build
  rw [composeOn_headless]
  refine andThen_headless _ fun _ m b => ?_
  rw [finishOn, compileOn_headless]
  refine andThen_headless _ fun handle m b => ?_
  rw [linkLocationsOn_headless]
  exact andThen_headless _ fun _ _ _ => rfl

theorem useProgramOn_headless : m.useProgramOn b = (m.useProgram b).headless :=
  withProgramOn_headless fun _ _ => rfl

theorem applyParamsOn_headless : m.applyParamsOn b = (m.applyParams b).headless := by
  refine withProgramOn_headless fun _ m => ?_
  dsimp only
  rw [callAll_headless]
  rfl

theorem bindTexturesOn_headless : m.bindTexturesOn b = (m.bindTextures b).headless := by
  refine withProgramOn_headless fun _ m => ?_
  dsimp only
  rw [callAll_headless]
  rfl

theorem unbindTexturesOn_headless : m.unbindTexturesOn b = (m.unbindTextures b).headless := by
  refine withProgramOn_headless fun _ m => ?_
  rw [callAll_headless]
  rfl

theorem bindAttributesOn_headless (v : MeshBuffers) :
    m.bindAttributesOn b v = (m.bindAttributes b v).headless := by
  refine withProgramOn_headless fun _ m => ?_
  rw [callAll_headless]
  rfl

theorem activateOn_headless : m.activateOn b = (m.activate b).headless := by
  unfold activateOn activate
  rw [useProgramOn_headless]
  generalize m.useProgram b = used
  have bound (units : Nat) (m : Material) (b : Backend) :
      ((m.applyParamsOn b).andThen fun _ m b => ⟨.ok (Activation.ready units), m, b, []⟩) =
        ((m.applyParams b).andThen fun _ m b => ⟨.ok (.ready units), m, b, []⟩).headless := by
    rw [applyParamsOn_headless]
    exact andThen_headless _ fun _ _ _ => rfl
  have rest : (used.headless.andThen fun _ m b => (m.bindTexturesOn b).andThen fun units m b =>
      (m.applyParamsOn b).andThen fun _ m b => ⟨.ok (Activation.ready units), m, b, []⟩) =
        (used.andThen fun _ m b => (m.bindTextures b).andThen fun units m b =>
          (m.applyParams b).andThen fun _ m b => ⟨.ok (.ready units), m, b, []⟩).headless := by
    refine andThen_headless _ fun _ m b => ?_
    rw [bindTexturesOn_headless]
    exact andThen_headless _ bound
  dsimp only
  rw [rest]
  obtain ⟨result, n, c, log⟩ := used
  cases result with
  | ok _ => rfl
  | error e => cases e <;> rfl

end Material

theorem Outcome.map_headless {α γ : Type} (f : α → γ) (o : Outcome α) :
    o.headless.map f = (o.map f).headless := rfl

theorem FrameCall.performOn_headless (m : Material) (b : Backend) (call : FrameCall) :
    call.performOn m b = (call.perform m b).headless := by
  cases call with
  | useProgram => rw [performOn, m.useProgramOn_headless b, Outcome.map_headless, perform]
  | applyParams => rw [performOn, m.applyParamsOn_headless b, Outcome.map_headless, perform]
  | bindTextures => rw [performOn, m.bindTexturesOn_headless b, Outcome.map_headless, perform]
  | unbindTextures => rw [performOn, m.unbindTexturesOn_headless b, Outcome.map_headless, perform]
  | bindAttributes v => rw [performOn, m.bindAttributesOn_headless b, Outcome.map_headless, perform]

/-- On the headless backend an operation is the one that there is. -/
theorem Operation.performOn_headless (m : Material) (b : Backend) (op : Operation) :
    op.performOn m b = (op.perform m b).headless := by
  cases op with
  | compose => exact congrArg (OutcomeOn.map fun _ => Reply.done) (m.composeOn_headless b)
  | compile => rw [performOn, m.compileOn_headless b, Outcome.map_headless, perform]
  | linkLocations => rw [performOn, m.linkLocationsOn_headless b, Outcome.map_headless, perform]
  | build => rw [performOn, m.buildOn_headless b, Outcome.map_headless, perform]
  | frame call => exact call.performOn_headless m b
  | activate => rw [performOn, m.activateOn_headless b, Outcome.map_headless, perform]
  | release => rfl
  | setFeatures _ | updateSettings _ | addTexture _ | removeTexture _ | addEffect _
  | removeEffect _ | clearEffects | setTime _ | setVertexParams _ | setFragmentParams _
  | setEffect _ | contextLost => rfl

end ShaderComposer
