import ShaderComposer.Source.Digest
import ShaderComposer.Source.Registry

/-!
# The text of a stage

A stage's text has a header line, directives, default precisions, one section for each kind of
variable that is declared, the helper functions and `main()`. Its digest is part of it.
-/

namespace ShaderComposer

structure StageSource where
  stage : Stage
  text : String
  digest : Digest
deriving DecidableEq, Inhabited

def StageSource.ofText (stage : Stage) (text : String) : StageSource := ⟨stage, text, .ofText text⟩

namespace Registry

/-- Lines, each with its end. -/
def lines (texts : List String) : String := String.join (texts.map (· ++ "\n"))

/-- A section after a blank line; a section without lines is left out. -/
def block (texts : List String) : String :=
  if texts.isEmpty then "" else "\n" ++ lines texts

/-- The kinds of variables in the order of their sections. -/
def sections : List Qualifier := [.uniform, .vertexInput, .varying, .const, .global]

def header (stage : Stage) : String := "// loom " ++ stage.name ++ " shader"

def precisionLine (p : DataType × Precision) : String :=
  "precision " ++ p.2.keyword ++ " " ++ p.1.name ++ ";"

def render (r : Registry) (body : String) : String :=
  lines (header r.stage :: r.directives ++ r.precisions.map precisionLine) ++
    String.join (sections.map fun q => block ((r.withQualifier q).map (·.declaration))) ++
    String.join (r.helpers.map fun f => block [f.text]) ++
    "\nvoid main() \x7b\n" ++ body ++ "\x7d\n"

def source (r : Registry) (body : String) : StageSource := .ofText r.stage (r.render body)

end Registry

end ShaderComposer
