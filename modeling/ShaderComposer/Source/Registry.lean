import ShaderComposer.Error
import ShaderComposer.Glsl.Role

/-!
# The declarations of a stage

A `Registry` collects what the shaders of one stage declare, in order and with its owners. A name
is registered once: another owner may declare it again in the same way, which changes nothing and
gives back the registered variable; every other repetition is a conflict. Directives are kept
once, the first default precision of a type holds, and a helper function may be repeated word for
word. A refused call leaves the registry as it was.
-/

namespace ShaderComposer

/-- A registered variable and the owner that declared it first. -/
structure Entry where
  var : Variable
  owner : String
deriving Inhabited

/-- A helper function: its name and its whole text. -/
structure HelperFunction where
  name : String
  text : String
deriving DecidableEq, Inhabited

structure Registry where
  stage : Stage
  entries : List Entry
  directives : List String
  precisions : List (DataType × Precision)
  helpers : List HelperFunction
  /-- The owners that have begun to declare. -/
  owners : List String
deriving Inhabited

namespace Registry

def empty (stage : Stage) : Registry := ⟨stage, [], [], [], [], []⟩

/-! ### Views -/

def entry? (r : Registry) (name : String) : Option Entry :=
  r.entries.find? fun e => e.var.name == name

def get? (r : Registry) (name : String) : Option Variable := (r.entry? name).map (·.var)

def ownerOf? (r : Registry) (name : String) : Option String := (r.entry? name).map (·.owner)

def vars (r : Registry) : List Variable := r.entries.map (·.var)

def withQualifier (r : Registry) (q : Qualifier) : List Variable :=
  r.vars.filter (·.qualifier == q)

def hasBegun (r : Registry) (owner : String) : Bool := r.owners.contains owner

/-! ### Declaring -/

/-- The registry after an owner has begun; an owner begins once. -/
def begin? (r : Registry) (owner : String) : Option Registry :=
  if r.hasBegun owner then none else some { r with owners := r.owners ++ [owner] }

def conflict (r : Registry) (name : String) (cause : ConflictCause) : ShaderError :=
  .declarationConflict r.stage name cause

/-- Why a variable can have no place in the stage at all. -/
def misplaced? (r : Registry) (owner : String) (v : Variable) : Option ConflictCause :=
  match v.qualifier, r.stage with
  | .functionLocal, _ => some (.localOutsideMain owner)
  | .vertexInput, .fragment => some (.attributeInFragment owner)
  | _, _ => none

/-- The declaration repeats the registered one: constants with their values, others in shape. -/
def repeats (v earlier : Variable) : Bool :=
  if v.qualifier == .const then earlier.same v else earlier.sameShape v

theorem sameShape_of_repeats {v earlier : Variable} (repeated : repeats v earlier = true) :
    earlier.sameShape v = true := by
  unfold repeats at repeated
  split at repeated
  · exact Variable.sameShape_of_same repeated
  · exact repeated

/-- Declares a variable and gives back the one that is registered under its name. -/
def declare (r : Registry) (owner : String) (v : Variable) :
    Except ShaderError (Variable × Registry) :=
  match r.misplaced? owner v with
  | some cause => .error (r.conflict v.name cause)
  | none =>
    match r.entry? v.name with
    | none => .ok (v, { r with entries := r.entries ++ [⟨v, owner⟩] })
    | some e =>
      -- nobody may repeat its own declaration, not even to the letter
      if e.owner == owner then .error (r.conflict v.name (.declaredTwice owner))
      else if repeats v e.var then .ok (e.var, r)
      else .error (r.conflict v.name (.differs owner v e.owner e.var))

/-- Adds a directive line, unless it is there already. -/
def addDirective (r : Registry) (line : String) : Registry :=
  if r.directives.contains line then r else { r with directives := r.directives ++ [line] }

/-- Sets the default precision of a type, unless it has one. -/
def setPrecision (r : Registry) (ty : DataType) (precision : Precision) : Registry :=
  if r.precisions.any (·.1 == ty) then r
  else { r with precisions := r.precisions ++ [(ty, precision)] }

/-- Adds a helper function; the same name may come again with the same text only. -/
def addHelper (r : Registry) (owner : String) (helper : HelperFunction) :
    Except ShaderError Registry :=
  match r.helpers.find? (·.name == helper.name) with
  | none => .ok { r with helpers := r.helpers ++ [helper] }
  | some earlier =>
    if earlier = helper then .ok r else .error (r.conflict helper.name (.functionBody owner))

/-! ### Laws -/

/-- A declaration that succeeds with a fresh name puts it last. -/
theorem declare_fresh {r : Registry} {owner : String} {v : Variable}
    (place : r.misplaced? owner v = none) (fresh : r.entry? v.name = none) :
    r.declare owner v = .ok (v, { r with entries := r.entries ++ [⟨v, owner⟩] }) := by
  simp [declare, place, fresh]

theorem declare_twice {r : Registry} {owner : String} {v : Variable} {e : Entry}
    (place : r.misplaced? owner v = none) (known : r.entry? v.name = some e)
    (own : e.owner = owner) :
    r.declare owner v = .error (r.conflict v.name (.declaredTwice owner)) := by
  simp [declare, place, known, own]

end Registry

/-! ### Symbols -/

/-- What a `main()` can ask for once everything is declared: the shared variables by role, and
which fragments are attached. -/
structure Symbols where
  stage : Stage
  shared : List (Role × Variable)
  fragments : List String
deriving Inhabited

/-- The registered variable of a role, if it has the role's type and qualifier. -/
def Registry.roleVariable? (r : Registry) (role : Role) : Option Variable :=
  (r.get? role.name).filter fun v =>
    v.type == role.var.type && v.qualifier == role.var.qualifier

def Registry.symbols (r : Registry) (fragments : List String) : Symbols :=
  ⟨r.stage, Role.all.filterMap fun role => (r.roleVariable? role).map fun v => (role, v), fragments⟩

namespace Symbols

def get? (s : Symbols) (role : Role) : Option Variable := s.shared.lookup role

/-- The variable of a role, which some shader must have declared. -/
def require (s : Symbols) (role : Role) : Except ShaderError Variable :=
  match s.get? role with
  | some v => .ok v
  | none => .error (.missingGlobal s.stage role.name)

def hasFragment (s : Symbols) (id : String) : Bool := s.fragments.contains id

/-- The roles that have a variable, in the order of all roles. -/
def roles (s : Symbols) : List Role := Role.all.filter fun role => (s.get? role).isSome

end Symbols

end ShaderComposer
