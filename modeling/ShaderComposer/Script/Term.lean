import ShaderComposer.Source.Registry

/-!
# Expression templates

A `Term` is an expression with references that are filled in later: to the variables that its
fragment declared and to the expressions that earlier steps gave back. `Term.build` fills them in.
What has to look at the type of a part, such as indexing, is decided then.
-/

namespace ShaderComposer

/-- A variable of a template. -/
inductive VariableRef where
  | given (v : Variable)
  | declared (n : Nat)
deriving Inhabited

/-- An expression template. -/
inductive Term where
  | var (name : String) (type : Option DataType)
  | literal (value : Literal)
  | variableRef (v : VariableRef)
  /-- The expression that the `n`-th step with a result gave back. -/
  | result (n : Nat)
  | binary (op : BinaryOp) (lhs rhs : Term)
  | negate (operand : Term)
  | swizzle (base : Term) (components : String)
  /-- A column of a matrix or a component of a vector. -/
  | elementOf (base index : Term)
  | elementAt (v : VariableRef) (index : Term)
  | index (base index : Term) (type : Option DataType)
  | call (function : Builtin) (arguments : List Term)
  | construct (type : DataType) (arguments : List Term)
  | group (inner : Term)
deriving Inhabited

/-- What the references of a template stand for. -/
structure Bindings where
  declared : List Variable
  results : List Expr
deriving Inhabited

def VariableRef.build (env : Bindings) : VariableRef → Variable
  | given v => v
  | declared n => env.declared.getD n default

namespace Term

mutual
def build (env : Bindings) : Term → Expr
  | var name ty => .var name ty
  | literal value => .literal value
  | variableRef v => (v.build env).reference
  | result n => env.results.getD n default
  | binary op l r => .binary op (l.build env) (r.build env)
  | negate e => .negate (e.build env)
  | swizzle b components => .swizzle (b.build env) components
  | elementOf b i => (b.build env).elementAt (i.build env)
  | elementAt v i => (v.build env).elementAt (i.build env)
  | index b i ty => .index (b.build env) (i.build env) ty
  | call f as => .call f (buildAll env as)
  | construct ty as => .construct ty (buildAll env as)
  | group e => .group (e.build env)
def buildAll (env : Bindings) : List Term → List Expr
  | [] => []
  | t :: ts => t.build env :: buildAll env ts
end

/-! ### Writing templates -/

def declared (n : Nat) : Term := variableRef (.declared n)

def role (r : Role) : Term := variableRef (.given r.var)

def float (x : Single) : Term := literal (.float x)

instance : Add Term := ⟨binary .add⟩
instance : Sub Term := ⟨binary .sub⟩
instance : Mul Term := ⟨binary .mul⟩
instance : Div Term := ⟨binary .div⟩

end Term

def Term.mat4OfColumns (entries : List Single) : Term :=
  .construct .mat4 (entries.map fun x => .literal (.float x))

def Term.glPosition : Term := .var "gl_Position" (some .vec4)

def Term.glFragColor : Term := .var "gl_FragColor" (some .vec4)

end ShaderComposer
