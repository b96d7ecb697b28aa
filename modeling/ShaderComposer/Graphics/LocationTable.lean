import ShaderComposer.Graphics.Headless
import ShaderComposer.Report

/-!
# Location tables

The locations that were looked up in a program, by name. A name is asked of the backend once and
answered from the table afterwards; a name that the program does not have is remembered too, and
reported once.
-/

namespace ShaderComposer

/-! ### Tables -/

structure LocationTable where
  uniforms : List (String × Location)
  attributes : List (String × Location)
deriving DecidableEq, Inhabited

namespace LocationTable

def empty : LocationTable := ⟨[], []⟩

def uniformLocation (t : LocationTable) (name : String) : Location :=
  (t.uniforms.lookup name).getD .notFound

def attributeLocation (t : LocationTable) (name : String) : Location :=
  (t.attributes.lookup name).getD .notFound

def size (t : LocationTable) : Nat := t.uniforms.length + t.attributes.length

def sortedUniforms (t : LocationTable) : List (String × Location) :=
  t.uniforms.mergeSort fun a b => a.1 ≤ b.1

def missingRecords (kind consequence name : String) (l : Location) : List LogRecord :=
  if l.isValid then []
  else [⟨.debug, kind ++ " `" ++ name ++ "`: no location, " ++ consequence ++ " will be skipped"⟩]

def resolveUniform (t : LocationTable) (b : Backend) (program : Nat) (name : String) :
    LocationTable × List LogRecord :=
  if (t.uniforms.lookup name).isSome then (t, [])
  else
    let l := b.uniformLocation program name
    ({ t with uniforms := t.uniforms ++ [(name, l)] }, missingRecords "uniform" "writes" name l)

def resolveAttribute (t : LocationTable) (b : Backend) (program : Nat) (name : String) :
    LocationTable × List LogRecord :=
  if (t.attributes.lookup name).isSome then (t, [])
  else
    let l := b.attributeLocation program name
    ({ t with attributes := t.attributes ++ [(name, l)] },
      missingRecords "attribute" "binds" name l)

def resolveEach (look : LocationTable → String → LocationTable × List LogRecord) :
    List String → LocationTable → LocationTable × List LogRecord
  | [], t => (t, [])
  | name :: rest, t =>
    let (next, records) := look t name
    let (last, more) := resolveEach look rest next
    (last, records ++ more)

def resolve (t : LocationTable) (b : Backend) (program : Nat) (uniforms attributes : List String) :
    LocationTable × List LogRecord :=
  let (next, records) := resolveEach (fun t name => t.resolveUniform b program name) uniforms t
  let (last, more) := resolveEach (fun t name => t.resolveAttribute b program name) attributes next
  (last, records ++ more)

def select (t : LocationTable) (uniforms attributes : List String) : LocationTable :=
  ⟨uniforms.map fun name => (name, t.uniformLocation name),
    attributes.map fun name => (name, t.attributeLocation name)⟩

/-- The location of a name; an attribute goes before a uniform of the same name. -/
def locate (t : LocationTable) (name : String) : Location :=
  match t.attributes.lookup name with
  | some l => l
  | none => t.uniformLocation name

end LocationTable

end ShaderComposer
