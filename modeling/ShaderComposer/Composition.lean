import ShaderComposer.Script.Instruction
import ShaderComposer.Source.Layout

/-!
# Composing a stage

A stage is composed of a core shader and the fragments of the attached effects. All of them first
declare, the core before the fragments in order. Then `main()` is put together slot by slot
(`Slot.order`): a slot is a phase of the core or the bucket of the fragments with one insert
location. Every piece is recorded on the same body, so that automatic names stay apart. A fragment
that is ignored declares its variables and never runs.
-/

namespace ShaderComposer

/-! ### Shaders -/

/-- Where the `main()` of a fragment goes. -/
inductive InsertLocation where
  | preTransform
  | preLighting
  | postTransform
  | postLighting
  | ignore
deriving DecidableEq, Inhabited

namespace InsertLocation

def all : List InsertLocation := [preTransform, preLighting, postTransform, postLighting, ignore]

def name : InsertLocation → String
  | preTransform => "PRE_TRANSFORM"
  | preLighting => "PRE_LIGHTING"
  | postTransform => "POST_TRANSFORM"
  | postLighting => "POST_LIGHTING"
  | ignore => "IGNORE"

end InsertLocation

structure Fragment where
  id : String
  location : InsertLocation
  declarations : List DeclareStep
  main : List Instruction
  /-- The uniforms whose locations are looked up after linking. -/
  uniforms : List String := []
  /-- The attributes whose locations are looked up after linking. -/
  attributes : List String := []
deriving Inhabited

inductive Phase where
  | inputs
  | transform
  | lighting
  | output
deriving DecidableEq, Inhabited

def Phase.name : Phase → String
  | inputs => "Inputs"
  | transform => "Transform"
  | lighting => "Lighting"
  | output => "Output"

/-- The shader that fragments are spliced into. -/
structure CoreShader where
  stage : Stage
  id : String
  declarations : List DeclareStep
  phase : Phase → List Instruction
deriving Inhabited

/-! ### Slots -/

inductive Slot where
  | core (phase : Phase)
  | bucket (location : InsertLocation)
deriving DecidableEq, Inhabited

namespace Slot

def name : Slot → String
  | core phase => "core " ++ phase.name
  | bucket location => location.name

/-- The slots of `main()` in order. -/
def order : List Slot :=
  [core .inputs, bucket .preTransform, core .transform, bucket .preLighting, core .lighting,
    bucket .postLighting, bucket .postTransform, core .output]

end Slot

/-! ### Results -/

/-- A piece of `main()`: who recorded it, where it stands and how many statements it has. -/
structure Segment where
  owner : String
  slot : Slot
  statements : Nat
deriving DecidableEq, Inhabited

inductive Contribution where
  | spliced (id : String) (stage : Stage) (location : InsertLocation) (statements : Nat)
  | metadataOnly (id : String) (stage : Stage)
deriving DecidableEq, Inhabited

namespace Contribution

def id : Contribution → String
  | spliced id _ _ _ => id
  | metadataOnly id _ => id

def stage : Contribution → Stage
  | spliced _ stage _ _ => stage
  | metadataOnly _ stage => stage

/-- The insert location of a fragment that was spliced in. -/
def location? : Contribution → Option InsertLocation
  | spliced _ _ location _ => some location
  | metadataOnly _ _ => none

def statements : Contribution → Nat
  | spliced _ _ _ n => n
  | metadataOnly _ _ => 0

end Contribution

structure StageComposition where
  source : StageSource
  segments : List Segment
  contributions : List Contribution
deriving DecidableEq, Inhabited

structure Composition where
  vertex : StageComposition
  fragment : StageComposition
deriving DecidableEq, Inhabited

/-- What became of all fragments, the vertex stage first. -/
def Composition.contributions (c : Composition) : List Contribution :=
  c.vertex.contributions ++ c.fragment.contributions

/-! ### Declaring -/

/-- A fragment of an attached effect. From one composition to the next it keeps the variables that
its declarations gave back, which its `main()` goes by. -/
structure AttachedFragment where
  fragment : Fragment
  remembered : Option (List Variable)
deriving Inhabited

def Fragment.attach (f : Fragment) : AttachedFragment := ⟨f, none⟩

/-- The declarations of an owner that must not have begun before. -/
def Registry.declareAll (r : Registry) (owner : String) (steps : List DeclareStep) :
    Except ShaderError Declaring :=
  match r.begin? owner with
  | none => .error (r.conflict owner .repeatedShader)
  | some begun =>
    match Declaring.run owner steps ⟨begun, []⟩ with
    | (d, none) => .ok d
    | (_, some e) => .error e

/-- The declarations of fragments in order. Each keeps what it is given back, also if one after it
is refused. -/
def Registry.declareAttached (r : Registry) :
    List AttachedFragment → Except ShaderError Registry × List AttachedFragment
  | [] => (.ok r, [])
  | f :: rest =>
    match r.declareAll f.fragment.id f.fragment.declarations with
    | .error e => (.error e, f :: rest)
    | .ok d =>
      let (result, others) := d.registry.declareAttached rest
      (result, { f with remembered := some d.declared } :: others)

/-! ### Recording -/

/-- A script that records one segment of `main()`, with the variables that its owner declared. -/
structure Piece where
  owner : String
  slot : Slot
  script : List Instruction
  declared : Option (List Variable)
deriving Inhabited

def Piece.record (symbols : Symbols) (b : Body) (p : Piece) :
    Except ShaderError (List Stmt × Body) :=
  let start : Instruction.Run := ⟨{ b with owner := p.owner }, []⟩
  match Instruction.runAll ⟨symbols, p.declared⟩ p.script start with
  | .error e => .error e
  | .ok r =>
    match r.body.segment with
    | .error e => .error e
    | .ok statements => .ok (statements, r.body.nextSegment)

/-- What a recorded piece says about its fragment, if it is one. -/
def Piece.contribution (stage : Stage) (p : Piece) (statements : List Stmt) :
    Option Contribution :=
  match p.slot with
  | .core _ => none
  | .bucket location => some (.spliced p.owner stage location (Stmt.countAll statements))

/-- A `main()` under way: the body that all pieces are recorded on, and what they have given so
far. -/
structure Assembly where
  body : Body
  statements : List Stmt
  segments : List Segment
  contributions : List Contribution
deriving Inhabited

namespace Assembly

def empty (stage : Stage) (strict : Bool) : Assembly := ⟨.empty stage strict, [], [], []⟩

def record (stage : Stage) (symbols : Symbols) (p : Piece) (a : Assembly) :
    Except ShaderError Assembly :=
  match p.record symbols a.body with
  | .error e => .error e
  | .ok (statements, next) =>
    .ok {
      body := next
      statements := a.statements ++ statements
      segments := a.segments ++ [⟨p.owner, p.slot, Stmt.countAll statements⟩]
      contributions := a.contributions ++ (p.contribution stage statements).toList }

/-- Records the fragments of an insert location, passing over all others. -/
def recordBucket (stage : Stage) (symbols : Symbols) (location : InsertLocation) :
    List AttachedFragment → Assembly → Except ShaderError Assembly
  | [], a => .ok a
  | f :: rest, a =>
    if f.fragment.location = location then
      match a.record stage symbols
          ⟨f.fragment.id, .bucket location, f.fragment.main, f.remembered⟩ with
      | .error e => .error e
      | .ok next => recordBucket stage symbols location rest next
    else recordBucket stage symbols location rest a

/-- Records slots in order: the core for its phases, the fragments for their locations. -/
def recordSlots (symbols : Symbols) (core : CoreShader) (own : List Variable)
    (fragments : List AttachedFragment) : List Slot → Assembly → Except ShaderError Assembly
  | [], a => .ok a
  | .core phase :: rest, a =>
    match a.record core.stage symbols ⟨core.id, .core phase, core.phase phase, some own⟩ with
    | .error e => .error e
    | .ok next => recordSlots symbols core own fragments rest next
  | .bucket location :: rest, a =>
    match recordBucket core.stage symbols location fragments a with
    | .error e => .error e
    | .ok next => recordSlots symbols core own fragments rest next

end Assembly

/-! ### Composing -/

namespace CoreShader

/-- Puts `main()` together once everything is declared. -/
def assemble (core : CoreShader) (own : List Variable) (registry : Registry)
    (fragments : List AttachedFragment) (attached : List String) (strict : Bool) :
    Except ShaderError StageComposition :=
  match Assembly.recordSlots (registry.symbols attached) core own fragments Slot.order
      (.empty core.stage strict) with
  | .error e => .error e
  | .ok a =>
    let ignored := fragments.filter fun f => f.fragment.location == .ignore
    .ok {
      source := registry.source (Stmt.renderBlock 1 a.statements)
      segments := a.segments
      contributions :=
        a.contributions ++ ignored.map fun f => .metadataOnly f.fragment.id core.stage }

/-- Composes a stage from its core shader and the stage's fragments in order, and gives the
fragments with what they keep. -/
def compose (core : CoreShader) (fragments : List AttachedFragment) (attached : List String)
    (strict : Bool) : Except ShaderError StageComposition × List AttachedFragment :=
  match (Registry.empty core.stage).declareAll core.id core.declarations with
  | .error e => (.error e, fragments)
  | .ok own =>
    match own.registry.declareAttached fragments with
    | (.error e, kept) => (.error e, kept)
    | (.ok registry, kept) => (core.assemble own.declared registry kept attached strict, kept)

end CoreShader

/-! ### A fragment by itself -/

/-- Declares for an owner and gives the variables it got back. An owner that has begun before is
passed over and gets none. The registry keeps what was declared before a refusal. -/
def Registry.declareOnce (r : Registry) (owner : String) (steps : List DeclareStep) :
    Registry × Except ShaderError (Option (List Variable)) :=
  match r.begin? owner with
  | none => (r, .ok none)
  | some begun =>
    match Declaring.run owner steps ⟨begun, []⟩ with
    | (d, none) => (d.registry, .ok (some d.declared))
    | (d, some e) => (d.registry, .error e)

/-- Records the `main()` of a fragment by itself, with the variables it has declared, if it has. -/
def Fragment.recordAlone (f : Fragment) (symbols : Symbols) (strict : Bool)
    (declared : Option (List Variable)) : Except ShaderError (List Stmt) :=
  let start : Instruction.Run := ⟨{ Body.empty symbols.stage strict with owner := f.id }, []⟩
  match Instruction.runAll ⟨symbols, declared⟩ f.main start with
  | .error e => .error e
  | .ok r => r.body.segment

/-- Tries a fragment alone: a core owner declares, then the fragment if it is to, and its `main()`
is recorded with the given fragments attached. Gives the statements and the registry at the end. -/
def Fragment.tryAlone (f : Fragment) (stage : Stage) (strict : Bool) (core : List DeclareStep)
    (declares : Bool) (attached : List String) : Except ShaderError (List Stmt) × Registry :=
  match (Registry.empty stage).declareOnce "core" core with
  | (r, .error e) => (.error e, r)
  | (r, .ok _) =>
    match if declares then r.declareOnce f.id f.declarations else (r, .ok none) with
    | (r, .error e) => (.error e, r)
    | (r, .ok declared) => (f.recordAlone (r.symbols attached) strict declared, r)

end ShaderComposer
