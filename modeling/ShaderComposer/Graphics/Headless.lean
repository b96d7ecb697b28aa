import ShaderComposer.Error
import ShaderComposer.Graphics.Resource
import ShaderComposer.Graphics.SourceScan

/-!
# The headless backend

A backend without a device. It accepts two sources if each defines `main()` and closes its braces
and if the vertex stage declares every varying of the fragment stage with the same type. A linked
program gives locations to the uniforms and attributes that its sources mention outside their
declarations, numbered in order of declaration. Losing the context drops all programs and starts a
new generation. Every call that changes state is recorded.
-/

namespace ShaderComposer

/-! ### Programs -/

/-- The locations of a linked program by name, in order. -/
structure ProgramInterface where
  uniforms : List String
  attributes : List String
deriving DecidableEq, Inhabited

namespace ProgramInterface

/-- The place of a name among others, as a location. -/
def locate (names : List String) (name : String) : Location :=
  if names.contains name then names.idxOf name else .notFound

def uniformLocation (p : ProgramInterface) (name : String) : Location := locate p.uniforms name

def attributeLocation (p : ProgramInterface) (name : String) : Location := locate p.attributes name

/-- Names that are declared and mentioned, each once and in order of first declaration. -/
def active (mentioned : SourceScan.Text → Bool)
    (declared : List (SourceScan.Text × SourceScan.Text)) : List String :=
  ((declared.map (·.1)).filter mentioned).eraseDups.map String.ofList

def ofSources (vertex fragment : SourceScan.Text) : ProgramInterface :=
  let mentioned := fun name => SourceScan.mentions name vertex || SourceScan.mentions name fragment
  let declared := SourceScan.declarations
  ⟨active mentioned (declared "uniform".toList vertex ++ declared "uniform".toList fragment),
    active mentioned (declared "attribute".toList vertex)⟩

end ProgramInterface

/-! ### Acceptance -/

/-- Both sources of a program, as one text. -/
def joinedSources (vertex fragment : String) : String := vertex ++ "\n" ++ fragment

/-- The source that a rejection at a stage is about: the stage's, or both at linking. -/
def rejectedSource (vertex fragment : String) : Option Stage → String
  | some .vertex => vertex
  | some .fragment => fragment
  | none => joinedSources vertex fragment

/-- What is wrong with one varying of the fragment stage; of several declarations of one name the
vertex stage's last one counts. -/
def varyingFault (vertexVaryings : List (SourceScan.Text × SourceScan.Text))
    (v : SourceScan.Text × SourceScan.Text) : Option String :=
  match vertexVaryings.reverse.lookup v.1 with
  | none => some ("varying `" ++ String.ofList v.1 ++ "` is not written by the vertex stage")
  | some ty =>
    if ty = v.2 then none
    else some ("varying `" ++ String.ofList v.1 ++ "` is " ++ String.ofList ty ++
      " in the vertex stage but " ++ String.ofList v.2 ++ " in the fragment stage")

def linkFault (vertex fragment : SourceScan.Text) : Option String :=
  let written := SourceScan.declarations "varying".toList vertex
  (SourceScan.declarations "varying".toList fragment).findSome? (varyingFault written)

/-- Why two sources are refused: the stage and the log. -/
def sourceFault (vertex fragment : String) : Option (Option Stage × String) :=
  match SourceScan.stageFault vertex.toList with
  | some log => some (some .vertex, log)
  | none =>
    match SourceScan.stageFault fragment.toList with
    | some log => some (some .fragment, log)
    | none => (linkFault vertex.toList fragment.toList).map fun log => (none, log)

/-! ### The backend -/

/-- A backend and all that was asked of it. Handles come from a counter of 32 bits, which starts over
after the last one; a program that is linked then takes the place of the one that had its handle. -/
structure Backend where
  nextProgram : UInt32
  programs : List (Nat × ProgramInterface)
  generation : Nat
  unitLimit : Nat
  /-- A plain backend tells nothing about itself: it reports eight units and generation zero. -/
  plain : Bool
  /-- The failure that the next compilation meets. -/
  pendingFailure : Option (Option Stage × String)
  compileCount : Nat
  calls : List GraphicsCall
deriving Inhabited

namespace Backend

def create (unitLimit : Nat) (plain : Bool) : Backend := ⟨1, [], 0, unitLimit, plain, none, 0, []⟩

def maxTextureUnits (b : Backend) : Nat := if b.plain then 8 else b.unitLimit

def contextGeneration (b : Backend) : Nat := if b.plain then 0 else b.generation

def record (b : Backend) (call : GraphicsCall) : Backend := { b with calls := b.calls ++ [call] }

def recordAll (b : Backend) (calls : List GraphicsCall) : Backend :=
  { b with calls := b.calls ++ calls }

def isAlive (b : Backend) (program : Nat) : Bool := (b.programs.lookup program).isSome

/-- The location of a uniform; programs that are not alive have none. -/
def uniformLocation (b : Backend) (program : Nat) (name : String) : Location :=
  match b.programs.lookup program with
  | some p => p.uniformLocation name
  | none => .notFound

def attributeLocation (b : Backend) (program : Nat) (name : String) : Location :=
  match b.programs.lookup program with
  | some p => p.attributeLocation name
  | none => .notFound

def compileAndLink (b : Backend) (vertex fragment : String) : Except Rejection Nat × Backend :=
  let counted := { b with compileCount := b.compileCount + 1, pendingFailure := none }
  -- a failure that waits is met whatever the sources are
  match b.pendingFailure.or (sourceFault vertex fragment) with
  | some (stage, log) => (.error ⟨stage, rejectedSource vertex fragment stage, log⟩, counted)
  | none =>
    let handle := b.nextProgram.toNat
    (.ok handle,
      { counted with
        nextProgram := b.nextProgram + 1
        programs := b.programs.filter (·.1 != handle) ++
          [(handle, .ofSources vertex.toList fragment.toList)] })

def deleteProgram (b : Backend) (program : Nat) : Backend :=
  { b with programs := b.programs.filter (·.1 != program) }.record (.deleteProgram program)

def failNextCompile (b : Backend) (stage : Option Stage) (log : String) : Backend :=
  { b with pendingFailure := some (stage, log) }

def loseContext (b : Backend) : Backend :=
  { b with programs := [], generation := b.generation + 1 }

def clearCalls (b : Backend) : Backend := { b with calls := [] }

/-- The texture units that textures were bound to, in order. -/
def boundUnits (b : Backend) : List Nat :=
  b.calls.filterMap fun
    | .bindTexture unit _ => some unit
    | _ => none

/-- The value last written to the location of a program's uniform. -/
def lastUniform (b : Backend) (program : Nat) (name : String) : Option UniformValue :=
  let location := b.uniformLocation program name
  if location.isValid then
    b.calls.reverse.findSome? fun
      | .setUniform l value => if l = location then some value else none
      | _ => none
  else none

/-! ### Laws -/

/-- A compilation that fails changes the count and uses up the pending failure, nothing else. -/
theorem compileAndLink_error {b c : Backend} {vertex fragment : String} {r : Rejection}
    (h : b.compileAndLink vertex fragment = (.error r, c)) :
    c = { b with compileCount := b.compileCount + 1, pendingFailure := none } := by
  unfold compileAndLink at h
  dsimp only at h
  split at h
  · exact (congrArg Prod.snd h).symm
  · cases h

theorem isAlive_loseContext (b : Backend) (program : Nat) :
    b.loseContext.isAlive program = false := rfl

end Backend

end ShaderComposer
