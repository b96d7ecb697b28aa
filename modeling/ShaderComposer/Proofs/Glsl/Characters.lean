import ShaderComposer.Composition

/-!
# Characters of texts

What is printed, character by character: expressions, conditions, statements, declarations and
whole stages. Reading a text back goes over its characters, and so do the checks of a backend.
-/

namespace ShaderComposer

/-! ### Expressions -/

def parenthesizedChars (needed : Bool) (text : List Char) : List Char :=
  if needed then '(' :: (text ++ [')']) else text

theorem toList_parenthesized (needed : Bool) (text : String) :
    (parenthesized needed text).toList = parenthesizedChars needed text.toList := by
  unfold parenthesized parenthesizedChars
  split
  · simp
  · rfl

namespace Literal

def chars : Literal → List Char
  | float v =>
    if v.isFinite then (if v.isNegative then ['-'] else []) ++ FloatLiteral.magnitude v
    else ['0', '.', '0']
  | int v => (toString v).toList
  | bool v => if v then ['t', 'r', 'u', 'e'] else ['f', 'a', 'l', 's', 'e']

theorem toList_render (l : Literal) : l.render.toList = l.chars := by
  cases l with
  | float v => rw [render, v.literal_eq, String.toList_ofList, chars, Single.decimalText]
  | int v => rfl
  | bool v => cases v <;> rfl

end Literal

namespace Expr

mutual
def chars : Expr → List Char
  | var name _ => name.toList
  | literal l => l.chars
  | binary op l r =>
    parenthesizedChars (l.precedence < op.precedence) l.chars ++
      ' ' :: (op.symbol.toList ++
        ' ' :: parenthesizedChars (r.precedence ≤ op.precedence) r.chars)
  | negate e => '-' :: parenthesizedChars (e.precedence ≤ Precedence.unary) e.chars
  | swizzle b c => parenthesizedChars (b.precedence < Precedence.atom) b.chars ++ '.' :: c.toList
  | index b i _ =>
    parenthesizedChars (b.precedence < Precedence.atom) b.chars ++ '[' :: (i.chars ++ [']'])
  | call f as => f.name.toList ++ '(' :: (argumentChars as ++ [')'])
  | construct ty as => ty.name.toList ++ '(' :: (argumentChars as ++ [')'])
  | group e => '(' :: (e.chars ++ [')'])
def argumentChars : List Expr → List Char
  | [] => []
  | a :: as => a.chars ++ moreChars as
def moreChars : List Expr → List Char
  | [] => []
  | a :: as => ',' :: ' ' :: (a.chars ++ moreChars as)
end

mutual
theorem toList_render : (e : Expr) → e.render.toList = e.chars
  | var name _ => by simp only [render, chars]
  | literal l => by simp only [render, chars, l.toList_render]
  | binary op l r => by
    simp [render, chars, toList_parenthesized, toList_render l, toList_render r]
  | negate e => by simp [render, chars, toList_parenthesized, toList_render e]
  | swizzle b c => by simp [render, chars, toList_parenthesized, toList_render b]
  | index b i _ => by simp [render, chars, toList_parenthesized, toList_render b, toList_render i]
  | call f as => by simp [render, chars, toList_renderArguments as]
  | construct ty as => by simp [render, chars, toList_renderArguments as]
  | group e => by simp [render, chars, toList_render e]
theorem toList_renderArguments : (as : List Expr) → (renderArguments as).toList = argumentChars as
  | [] => by simp [renderArguments, argumentChars]
  | a :: as => by
    simp [renderArguments, argumentChars, toList_render a, toList_renderMore as]
theorem toList_renderMore : (as : List Expr) → (renderMore as).toList = moreChars as
  | [] => by simp [renderMore, moreChars]
  | a :: as => by simp [renderMore, moreChars, toList_render a, toList_renderMore as]
end

end Expr

/-! ### Conditions and statements -/

def Comparison.chars (c : Comparison Expr) : List Char :=
  c.lhs.chars ++ ' ' :: (c.relation.symbol.toList ++ ' ' :: c.rhs.chars)

theorem Comparison.toList_render (c : Comparison Expr) : c.render.toList = c.chars := by
  simp [render, chars, Expr.toList_render]

def Condition.chars (c : Condition Expr) : List Char :=
  c.first.chars ++ c.rest.flatMap fun (op, comparison) =>
    ' ' :: (op.symbol.toList ++ ' ' :: comparison.chars)

theorem Condition.toList_render (c : Condition Expr) : c.render.toList = c.chars := by
  simp [render, chars, Comparison.toList_render, List.flatMap_map]

namespace Stmt

def initialChars : Option Expr → List Char
  | none => []
  | some value => " = ".toList ++ value.chars

def indentChars (depth : Nat) : List Char := List.replicate (4 * depth) ' '

mutual
def chars (depth : Nat) : Stmt → List Char
  | declare ty name value =>
    indentChars depth ++ (ty.name.toList ++ (" ".toList ++ (name.toList ++
      (initialChars value ++ ";\n".toList))))
  | assign target op value =>
    indentChars depth ++ (target.chars ++ (" ".toList ++ (op.symbol.toList ++ (" ".toList ++
      (value.chars ++ ";\n".toList)))))
  | branch branches none => indentChars depth ++ (branchesChars depth branches ++ "\n".toList)
  | branch branches (some block) =>
    indentChars depth ++ (branchesChars depth branches ++ (" else \x7b\n".toList ++
      (blockChars (depth + 1) block ++ (indentChars depth ++ "\x7d\n".toList))))
  | discard => indentChars depth ++ "discard;\n".toList
def branchesChars (depth : Nat) : List (Condition Expr × List Stmt) → List Char
  | [] => []
  | (condition, block) :: rest =>
    "if (".toList ++ (condition.chars ++ (") \x7b\n".toList ++ (blockChars (depth + 1) block ++
      (indentChars depth ++ ("\x7d".toList ++ elseIfsChars depth rest)))))
def elseIfsChars (depth : Nat) : List (Condition Expr × List Stmt) → List Char
  | [] => []
  | (condition, block) :: rest =>
    " else if (".toList ++ (condition.chars ++ (") \x7b\n".toList ++
      (blockChars (depth + 1) block ++ (indentChars depth ++ ("\x7d".toList ++
        elseIfsChars depth rest)))))
def blockChars (depth : Nat) : List Stmt → List Char
  | [] => []
  | s :: rest => s.chars depth ++ blockChars depth rest
end

theorem toList_renderInitial (value : Option Expr) :
    (renderInitial value).toList = initialChars value := by
  cases value with
  | none => exact String.toList_empty
  | some e => simp only [renderInitial, initialChars, String.toList_append, e.toList_render]

theorem toList_indent (depth : Nat) : (indent depth).toList = indentChars depth :=
  String.toList_ofList

mutual
theorem toList_render (depth : Nat) : (s : Stmt) → (s.render depth).toList = s.chars depth
  | declare ty name value => by
    show (indent depth ++ ty.name ++ " " ++ name ++ renderInitial value ++ ";\n").toList = _
    simp only [String.toList_append, List.append_assoc, toList_indent, toList_renderInitial]
    rfl
  | assign target op value => by
    show (indent depth ++ target.render ++ " " ++ op.symbol ++ " " ++ value.render ++
      ";\n").toList = _
    simp only [String.toList_append, List.append_assoc, toList_indent, Expr.toList_render]
    rfl
  | branch branches none => by
    simp only [render_branch, String.toList_append, List.append_assoc, toList_indent,
      toList_renderBranches depth branches]
    rfl
  | branch branches (some block) => by
    simp only [render_branch_else, String.toList_append, List.append_assoc, toList_indent,
      toList_renderBranches depth branches, toList_renderBlock (depth + 1) block]
    rfl
  | discard => by
    show (indent depth ++ "discard;\n").toList = _
    simp only [String.toList_append, toList_indent]
    rfl
theorem toList_renderBranches (depth : Nat) : (branches : List (Condition Expr × List Stmt)) →
    (renderBranches depth branches).toList = branchesChars depth branches
  | [] => String.toList_empty
  | (condition, block) :: rest => by
    simp only [renderBranches_cons, String.toList_append, List.append_assoc,
      Condition.toList_render, toList_indent, toList_renderBlock (depth + 1) block,
      toList_renderElseIfs depth rest]
    rfl
theorem toList_renderElseIfs (depth : Nat) : (branches : List (Condition Expr × List Stmt)) →
    (renderElseIfs depth branches).toList = elseIfsChars depth branches
  | [] => String.toList_empty
  | (condition, block) :: rest => by
    simp only [renderElseIfs_cons, String.toList_append, List.append_assoc,
      Condition.toList_render, toList_indent, toList_renderBlock (depth + 1) block,
      toList_renderElseIfs depth rest]
    rfl
theorem toList_renderBlock (depth : Nat) : (block : List Stmt) →
    (renderBlock depth block).toList = blockChars depth block
  | [] => String.toList_empty
  | s :: rest => by
    simp only [renderBlock_cons, String.toList_append, toList_render depth s,
      toList_renderBlock depth rest]
    rfl
end

end Stmt

/-! ### Stages -/

def Variable.chars (v : Variable) : List Char :=
  (Variable.leading v.qualifier.keyword).toList ++
    ((Variable.leading (v.precision.map Precision.keyword)).toList ++ (v.type.name.toList ++
      (" ".toList ++ (v.name.toList ++ ((Variable.lengthSuffix v.arrayLength).toList ++
        (Stmt.initialChars v.initial ++ ";".toList))))))

theorem Variable.toList_declaration (v : Variable) : v.declaration.toList = v.chars := by
  have initial : (Variable.initialText v.initial).toList = Stmt.initialChars v.initial :=
    Stmt.toList_renderInitial v.initial
  simp only [declaration, chars, String.toList_append, List.append_assoc, initial]

namespace Registry

def linesChars (texts : List (List Char)) : List Char := texts.flatMap (· ++ ['\n'])

theorem toList_lines (texts : List String) :
    (lines texts).toList = linesChars (texts.map String.toList) := by
  simp [lines, linesChars, List.flatMap_map]

def blockChars (texts : List (List Char)) : List Char :=
  if texts.isEmpty then [] else '\n' :: linesChars texts

theorem toList_block (texts : List String) :
    (block texts).toList = blockChars (texts.map String.toList) := by
  cases texts with
  | nil => simp [block, blockChars]
  | cons t rest => simp [block, blockChars, toList_lines]

def chars (r : Registry) (body : List Char) : List Char :=
  linesChars ((header r.stage).toList :: r.directives.map String.toList ++
      r.precisions.map fun p => (precisionLine p).toList) ++
    (sections.flatMap (fun q => blockChars ((r.withQualifier q).map Variable.chars)) ++
      (r.helpers.flatMap (fun f => blockChars [f.text.toList]) ++
        ("\nvoid main() \x7b\n".toList ++ (body ++ ['\x7d', '\n']))))

theorem toList_render (r : Registry) (body : String) :
    (r.render body).toList = r.chars body.toList := by
  have declarations (vars : List Variable) :
      (vars.map (·.declaration)).map String.toList = vars.map Variable.chars := by
    simp [Variable.toList_declaration]
  simp [render, chars, toList_lines, List.flatMap_map, toList_block, declarations,
    Function.comp_def]

end Registry

def CoreShader.chars (core : CoreShader) (fragments : List AttachedFragment)
    (attached : List String) (strict : Bool) : Except ShaderError (List Char) :=
  match (Registry.empty core.stage).declareAll core.id core.declarations with
  | .error e => .error e
  | .ok own =>
    match own.registry.declareAttached fragments with
    | (.error e, _) => .error e
    | (.ok registry, kept) =>
      match Assembly.recordSlots (registry.symbols attached) core own.declared kept Slot.order
          (.empty core.stage strict) with
      | .error e => .error e
      | .ok a => .ok (registry.chars (Stmt.blockChars 1 a.statements))

theorem CoreShader.compose_of_chars {core : CoreShader} {fragments : List AttachedFragment}
    {attached : List String} {strict : Bool} {text : List Char}
    (ok : core.chars fragments attached strict = .ok text) :
    ∃ c, (core.compose fragments attached strict).1 = .ok c ∧ c.source.text.toList = text := by
  unfold chars at ok
  unfold compose assemble
  -- both go through the same steps, so each step is taken in both at once
  generalize (Registry.empty core.stage).declareAll core.id core.declarations = declared at ok ⊢
  cases declared with
  | error e => cases ok
  | ok own =>
    dsimp only at ok ⊢
    generalize own.registry.declareAttached fragments = begun at ok ⊢
    obtain ⟨e | registry, kept⟩ := begun
    · cases ok
    · dsimp only at ok ⊢
      generalize Assembly.recordSlots (registry.symbols attached) core own.declared kept Slot.order
        (.empty core.stage strict) = recorded at ok ⊢
      cases recorded with
      | error e => cases ok
      | ok a =>
        refine ⟨_, rfl, ?_⟩
        rw [← Except.ok.inj ok, ← Stmt.toList_renderBlock]
        exact Registry.toList_render _ _

end ShaderComposer
