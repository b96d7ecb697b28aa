import ShaderComposer.Proofs.Glsl.Nesting
import ShaderComposer.Proofs.Glsl.Reading

/-!
# The structure of a printed block

A block of statements can be told from its text alone. Every line is indented by the braces that
are open before it, the braces are balanced and have the blocks of the statements between them,
and a reader that goes over the lines once, with a stack of the conditionals that are open, finds
the outline of the statements again (`Stmt.isPrintOf_renderBlock`).
-/

namespace ShaderComposer

open SourceScan (Text isIdentifier Clean braceDepth depthAfter depthAfter_append depthAfter_cons)
open Registry (linesChars)

/-! ### Outlines -/

/-- What a statement looks like: a line of text, or the arms of a conditional and the block of its
`else`, which may be empty. -/
inductive Outline where
  | line (text : Text)
  | conditional (arms : List (Text × List Outline)) (otherwise : Option (List Outline))

namespace Stmt

def declareChars (ty : DataType) (name : String) (value : Option Expr) : Text :=
  ty.name.toList ++ ' ' :: (name.toList ++ (initialChars value ++ [';']))

def assignChars (target : Expr) (op : AssignOp) (value : Expr) : Text :=
  target.chars ++ ' ' :: (op.symbol.toList ++ ' ' :: (value.chars ++ [';']))

mutual
def outline : Stmt → Outline
  | declare ty name value => .line (declareChars ty name value)
  | assign target op value => .line (assignChars target op value)
  | branch branches none => .conditional (outlineBranches branches) none
  | branch branches (some block) =>
    .conditional (outlineBranches branches) (some (outlineBlock block))
  | discard => .line "discard;".toList
def outlineBranches : List (Condition Expr × List Stmt) → List (Text × List Outline)
  | [] => []
  | (condition, block) :: rest => (condition.chars, outlineBlock block) :: outlineBranches rest
def outlineBlock : List Stmt → List Outline
  | [] => []
  | s :: rest => s.outline :: outlineBlock rest
end

end Stmt

/-! ### Reading an outline -/

namespace Outline

/-- What a line does, its indentation apart. -/
inductive LineKind where
  | statement
  | opening (condition : Text)
  | elseIf (condition : Text)
  | otherwise
  | closing
deriving DecidableEq

/-- The text between a beginning and an end, if there are both. -/
def between? (start finish line : Text) : Option Text :=
  if start.isPrefixOf line && finish.isSuffixOf line then
    some ((line.drop start.length).take (line.length - start.length - finish.length))
  else none

def kind? (content : Text) : Option LineKind :=
  if content.getLast? = some ';' then some .statement
  else if content = "\x7d".toList then some .closing
  else if content = "\x7d else \x7b".toList then some .otherwise
  else
    match between? "if (".toList ") \x7b".toList content with
    | some condition => some (.opening condition)
    | none => (between? "\x7d else if (".toList ") \x7b".toList content).map .elseIf

/-- A conditional whose last brace is open: what stands before it, its arms so far, and the
condition of the arm that is being read, none for an `else`. -/
structure Open where
  outer : List Outline
  arms : List (Text × List Outline)
  guard : Option Text

/-- Where a reader stands between two lines: the conditionals that are open, the innermost first,
and what has been read inside of them. -/
structure Reader where
  stack : List Open
  current : List Outline

namespace Reader

def step (r : Reader) (line : Text) : Option Reader :=
  let content := line.dropWhile (· == ' ')
  match kind? content, r.stack with
  | some .statement, stack => some ⟨stack, r.current ++ [.line content]⟩
  | some (.opening condition), stack => some ⟨⟨r.current, [], some condition⟩ :: stack, []⟩
  | some (.elseIf condition), ⟨outer, arms, some guard⟩ :: stack =>
    some ⟨⟨outer, arms ++ [(guard, r.current)], some condition⟩ :: stack, []⟩
  | some .otherwise, ⟨outer, arms, some guard⟩ :: stack =>
    some ⟨⟨outer, arms ++ [(guard, r.current)], none⟩ :: stack, []⟩
  | some .closing, ⟨outer, arms, some guard⟩ :: stack =>
    some ⟨stack, outer ++ [.conditional (arms ++ [(guard, r.current)]) none]⟩
  | some .closing, ⟨outer, arms, none⟩ :: stack =>
    some ⟨stack, outer ++ [.conditional arms (some r.current)]⟩
  | _, _ => none

def run (r : Reader) (ls : List Text) : Option Reader := ls.foldlM step r

theorem run_cons (r : Reader) (l : Text) (ls : List Text) :
    r.run (l :: ls) = (r.step l).bind fun s => s.run ls := rfl

theorem run_append (r : Reader) (ls ms : List Text) :
    r.run (ls ++ ms) = (r.run ls).bind fun s => s.run ms :=
  List.foldlM_append

end Reader

def read (text : Text) : Option (List Outline) :=
  match (Reader.mk [] []).run (SourceScan.lines text) with
  | some ⟨[], outlines⟩ => some outlines
  | _ => none

/-! ### Kinds of lines -/

theorem kind?_statement (text : Text) : kind? (text ++ [';']) = some .statement := by
  rw [kind?, if_pos (List.getLast?_concat)]

theorem between?_append (start condition finish : Text) :
    between? start finish (start ++ (condition ++ finish)) = some condition := by
  have before : start.isPrefixOf (start ++ (condition ++ finish)) = true :=
    List.isPrefixOf_iff_prefix.mpr (List.prefix_append _ _)
  have after : finish.isSuffixOf (start ++ (condition ++ finish)) = true := by
    rw [List.isSuffixOf_iff_suffix, ← List.append_assoc]
    exact List.suffix_append _ _
  have length : (start ++ (condition ++ finish)).length - start.length - finish.length =
      condition.length := by
    simp only [List.length_append]
    omega
  rw [between?, before, after, length, List.drop_left, List.take_left]
  rfl

theorem getLast?_guard (start condition : Text) :
    (start ++ (condition ++ ") \x7b".toList)).getLast? = some '\x7b' := by
  have split : start ++ (condition ++ ") \x7b".toList) =
      (start ++ (condition ++ [')', ' '])) ++ ['\x7b'] := by
    simp
  rw [split, List.getLast?_concat]

theorem kind?_opening (condition : Text) :
    kind? ("if (".toList ++ (condition ++ ") \x7b".toList)) = some (.opening condition) := by
  rw [kind?, between?_append, getLast?_guard, if_neg (by decide), if_neg (by rintro ⟨⟩),
    if_neg (by rintro ⟨⟩)]

theorem kind?_elseIf (condition : Text) :
    kind? ('\x7d' :: (" else if (".toList ++ (condition ++ ") \x7b".toList))) =
      some (.elseIf condition) := by
  have line : '\x7d' :: (" else if (".toList ++ (condition ++ ") \x7b".toList)) =
      "\x7d else if (".toList ++ (condition ++ ") \x7b".toList) := rfl
  have other : between? "if (".toList ") \x7b".toList
      ("\x7d else if (".toList ++ (condition ++ ") \x7b".toList)) = none := rfl
  rw [line, kind?, other, between?_append, getLast?_guard, if_neg (by decide),
    if_neg (by rintro ⟨⟩), if_neg (by rintro ⟨⟩)]
  rfl

theorem kind?_otherwise : kind? ('\x7d' :: " else \x7b".toList) = some .otherwise := by
  decide

theorem kind?_closing : kind? ['\x7d'] = some .closing := by
  decide

end Outline

/-! ### How a line begins -/

/-- The text begins with neither a space nor a closing brace. -/
def Visible (text : Text) : Prop := ∃ c rest, text = c :: rest ∧ c ≠ ' ' ∧ c ≠ '\x7d'

theorem Visible.append {text : Text} (visible : Visible text) (rest : Text) :
    Visible (text ++ rest) := by
  obtain ⟨c, others, rfl, apart⟩ := visible
  exact ⟨c, others ++ rest, rfl, apart⟩

theorem Begins.visible {text : Text} (begins : Begins text) : Visible text := by
  obtain ⟨c, rest, rfl, first⟩ := begins
  refine ⟨c, rest, rfl, ?_, ?_⟩ <;> rintro rfl <;> exact absurd first (by decide)

theorem visible_minus (rest : Text) : Visible ('-' :: rest) := ⟨'-', rest, rfl, by decide, by decide⟩

theorem visible_parenthesizedChars {text : Text} (visible : Visible text) (needed : Bool) :
    Visible (parenthesizedChars needed text) := by
  cases needed with
  | true => exact ⟨'(', text ++ [')'], rfl, by decide, by decide⟩
  | false => exact visible

theorem Literal.visible_chars (l : Literal) : Visible l.chars := by
  cases l with
  | float v =>
    simp only [chars]
    split
    · cases v.isNegative with
      | true => exact visible_minus _
      | false =>
        have begins := begins_of_digital (FloatLiteral.digital_numeral v)
          (FloatLiteral.whole_numeral_ne_nil v)
        rw [← FloatLiteral.magnitude_eq_text] at begins
        exact begins.visible
    · exact ⟨'0', ['.', '0'], rfl, by decide, by decide⟩
  | int v =>
    simp only [chars]
    rcases Int.lt_or_le v 0 with negative | nonneg
    · rw [Numeral.toList_toString_of_neg negative]
      exact visible_minus _
    · have begins := begins_of_digital (Numeral.digital_ofNat v.toNat) Nat.toDigits_ne_nil
      rw [Numeral.text_ofNat, ← Numeral.toList_toString_of_nonneg nonneg] at begins
      exact begins.visible
  | bool v =>
    cases v with
    | true => exact (begins_of_isWord rfl).visible
    | false => exact (begins_of_isWord rfl).visible

theorem visible_head (h : Head) : Visible h.name.toList :=
  (begins_of_isWord (isWord_of_isName h.isName_name)).visible

theorem Expr.visible_chars : (e : Expr) → e.allNames isWord = true → Visible e.chars
  | .var _ _, named => (begins_of_isWord named).visible
  | .literal l, _ => l.visible_chars
  | .binary _ l r, named => by
    obtain ⟨left, _⟩ := Bool.and_eq_true_iff.mp named
    exact (visible_parenthesizedChars (visible_chars l left) _).append _
  | .negate e, _ => visible_minus _
  | .swizzle b _, named => by
    obtain ⟨base, _⟩ := Bool.and_eq_true_iff.mp named
    exact (visible_parenthesizedChars (visible_chars b base) _).append _
  | .index b _ _, named => by
    obtain ⟨base, _⟩ := Bool.and_eq_true_iff.mp named
    exact (visible_parenthesizedChars (visible_chars b base) _).append _
  | .call f _, _ => (visible_head (.function f)).append _
  | .construct ty _, _ => (visible_head (.type ty)).append _
  | .group _, _ => ⟨'(', _, rfl, by decide, by decide⟩

theorem indentChars_append {content : Text} (begins : ∀ c ∈ content.head?, c ≠ ' ') (depth : Nat) :
    (Stmt.indentChars depth ++ content).dropWhile (· == ' ') = content ∧
      ((Stmt.indentChars depth ++ content).takeWhile (· == ' ')).length = 4 * depth := by
  have spaces : ∀ c ∈ Stmt.indentChars depth, (c == ' ') = true := by
    intro c mem
    rw [(List.mem_replicate.mp mem).2]
    rfl
  have stop : content.dropWhile (· == ' ') = content ∧ content.takeWhile (· == ' ') = [] := by
    cases content with
    | nil => exact ⟨rfl, rfl⟩
    | cons c content =>
      have other : c ≠ ' ' := begins c rfl
      simp [other]
  rw [List.dropWhile_append_of_pos spaces, List.takeWhile_append_of_pos spaces, stop.1, stop.2,
    List.append_nil, Stmt.indentChars, List.length_replicate]
  exact ⟨rfl, rfl⟩

theorem Visible.head {text : Text} (visible : Visible text) : ∀ c ∈ text.head?, c ≠ ' ' := by
  obtain ⟨c, rest, rfl, apart, _⟩ := visible
  rintro _ ⟨⟩
  exact apart

/-! ### Reading the lines of statements -/

namespace Outline.Reader

open Stmt (indentChars)

variable (depth : Nat) (stack : List Open) (current : List Outline)

theorem run_statement {text : Text} (visible : Visible (text ++ [';'])) :
    (mk stack current).run [indentChars depth ++ (text ++ [';'])] =
      some ⟨stack, current ++ [.line (text ++ [';'])]⟩ := by
  rw [run_cons, step, (indentChars_append visible.head depth).1, kind?_statement]
  rfl

theorem step_opening (condition : Text) :
    (mk stack current).step (indentChars depth ++ ("if (".toList ++ (condition ++ ") \x7b".toList))) =
      some ⟨⟨current, [], some condition⟩ :: stack, []⟩ := by
  have first : ∀ c ∈ ("if (".toList ++ (condition ++ ") \x7b".toList)).head?, c ≠ ' ' := by
    rintro _ ⟨⟩
    decide
  rw [step, (indentChars_append first depth).1, kind?_opening]

theorem dropWhile_close (rest : Text) :
    (indentChars depth ++ '\x7d' :: rest).dropWhile (· == ' ') = '\x7d' :: rest := by
  refine (indentChars_append ?_ depth).1
  rintro _ ⟨⟩
  decide

theorem step_elseIf (outer : List Outline) (arms : List (Text × List Outline))
    (guard condition : Text) :
    (mk (⟨outer, arms, some guard⟩ :: stack) current).step
        (indentChars depth ++ '\x7d' :: (" else if (".toList ++ (condition ++ ") \x7b".toList))) =
      some ⟨⟨outer, arms ++ [(guard, current)], some condition⟩ :: stack, []⟩ := by
  rw [step, dropWhile_close, kind?_elseIf]

theorem step_otherwise (outer : List Outline) (arms : List (Text × List Outline)) (guard : Text) :
    (mk (⟨outer, arms, some guard⟩ :: stack) current).step
        (indentChars depth ++ '\x7d' :: " else \x7b".toList) =
      some ⟨⟨outer, arms ++ [(guard, current)], none⟩ :: stack, []⟩ := by
  rw [step, dropWhile_close, kind?_otherwise]

theorem run_close (outer : List Outline) (arms : List (Text × List Outline)) (guard : Text) :
    (mk (⟨outer, arms, some guard⟩ :: stack) current).run [indentChars depth ++ ['\x7d']] =
      some ⟨stack, outer ++ [.conditional (arms ++ [(guard, current)]) none]⟩ := by
  rw [run_cons, step, dropWhile_close, kind?_closing]
  rfl

theorem run_closeElse (outer : List Outline) (arms : List (Text × List Outline)) :
    (mk (⟨outer, arms, none⟩ :: stack) current).run [indentChars depth ++ ['\x7d']] =
      some ⟨stack, outer ++ [.conditional arms (some current)]⟩ := by
  rw [run_cons, step, dropWhile_close, kind?_closing]
  rfl

end Outline.Reader

namespace Stmt

open Outline (Reader Open)
open Outline.Reader (run_cons run_append)

/-- The lines close the last arm of a conditional and bring its `else`. -/
def Closes (last : List Text) (otherwise : Option (List Outline)) : Prop :=
  ∀ (outer : List Outline) (arms : List (Text × List Outline)) (guard : Text) (stack : List Open)
    (inner : List Outline),
    (Reader.mk (⟨outer, arms, some guard⟩ :: stack) inner).run last =
      some ⟨stack, outer ++ [.conditional (arms ++ [(guard, inner)]) otherwise]⟩

theorem visible_name (ty : DataType) : Visible ty.name.toList := visible_head (.type ty)

mutual
/-- After the lines of a statement the reader has its outline. -/
theorem run_lines (depth : Nat) : (s : Stmt) → s.isShaped isWord = true →
    (stack : List Open) → (current : List Outline) →
    (Reader.mk stack current).run (s.lines depth) = some ⟨stack, current ++ [s.outline]⟩
  | declare ty name value, _, stack, current => by
    have text : declareChars ty name value =
        (ty.name.toList ++ ' ' :: (name.toList ++ initialChars value)) ++ [';'] := by
      simp [declareChars]
    have read := Reader.run_statement depth stack current
      (((visible_name ty).append (' ' :: (name.toList ++ initialChars value))).append [';'])
    rw [← text] at read
    exact read
  | assign target op value, shaped, stack, current => by
    obtain ⟨left, _⟩ := Bool.and_eq_true_iff.mp shaped
    have text : assignChars target op value =
        (target.chars ++ ' ' :: (op.symbol.toList ++ ' ' :: value.chars)) ++ [';'] := by
      simp [assignChars]
    have read := Reader.run_statement depth stack current
      (((target.visible_chars left).append (' ' :: (op.symbol.toList ++ ' ' :: value.chars))).append
        [';'])
    rw [← text] at read
    exact read
  | branch branches none, shaped, stack, current => by
    obtain ⟨nonempty, all⟩ := Bool.and_eq_true_iff.mp shaped
    refine run_branchLines depth branches all (by simpa using nonempty) ?_ stack current
    intro outer arms guard stack inner
    exact Reader.run_close depth stack inner outer arms guard
  -- the line of the `else` closes the last arm, and the last line closes its block
  | branch branches (some block), shaped, stack, current => by
    obtain ⟨both, others⟩ := Bool.and_eq_true_iff.mp shaped
    obtain ⟨nonempty, all⟩ := Bool.and_eq_true_iff.mp both
    refine run_branchLines depth branches all (by simpa using nonempty) ?_ stack current
    intro outer arms guard stack inner
    rw [run_cons, Reader.step_otherwise, Option.bind_some, run_append,
      run_blockLines (depth + 1) block others, Option.bind_some, Reader.run_closeElse]
    rfl
  | discard, _, stack, current => by
    have read := Reader.run_statement depth stack current
      (⟨'d', "iscard;".toList, rfl, by decide, by decide⟩ : Visible ("discard".toList ++ [';']))
    exact read
theorem run_branchLines (depth : Nat) : (branches : List (Condition Expr × List Stmt)) →
    areShapedBranches isWord branches = true → branches ≠ [] →
    {last : List Text} → {otherwise : Option (List Outline)} → Closes last otherwise →
    (stack : List Open) → (current : List Outline) →
    (Reader.mk stack current).run (branchLines depth last branches) =
      some ⟨stack, current ++ [.conditional (outlineBranches branches) otherwise]⟩
  | [], _, nonempty, _, _, _, _, _ => absurd rfl nonempty
  | (condition, block) :: rest, shaped, _, last, otherwise, closes, stack, current => by
    obtain ⟨_, inside, others⟩ := areShapedBranches_cons.mp shaped
    rw [branchLines, run_cons, Reader.step_opening, Option.bind_some, run_append,
      run_blockLines (depth + 1) block inside, Option.bind_some,
      run_elseIfLines depth rest others closes]
    rfl
theorem run_elseIfLines (depth : Nat) : (branches : List (Condition Expr × List Stmt)) →
    areShapedBranches isWord branches = true →
    {last : List Text} → {otherwise : Option (List Outline)} → Closes last otherwise →
    (outer : List Outline) → (arms : List (Text × List Outline)) → (guard : Text) →
    (stack : List Open) → (inner : List Outline) →
    (Reader.mk (⟨outer, arms, some guard⟩ :: stack) inner).run (elseIfLines depth last branches) =
      some ⟨stack, outer ++
        [.conditional (arms ++ (guard, inner) :: outlineBranches branches) otherwise]⟩
  | [], _, _, _, closes, outer, arms, guard, stack, inner => closes outer arms guard stack inner
  | (condition, block) :: rest, shaped, last, otherwise, closes, outer, arms, guard, stack,
      inner => by
    obtain ⟨_, inside, others⟩ := areShapedBranches_cons.mp shaped
    rw [elseIfLines, run_cons, Reader.step_elseIf, Option.bind_some, run_append,
      run_blockLines (depth + 1) block inside, Option.bind_some,
      run_elseIfLines depth rest others closes, List.append_assoc]
    rfl
theorem run_blockLines (depth : Nat) : (block : List Stmt) → areShaped isWord block = true →
    (stack : List Open) → (current : List Outline) →
    (Reader.mk stack current).run (blockLines depth block) =
      some ⟨stack, current ++ outlineBlock block⟩
  | [], _, stack, current => by
    rw [outlineBlock, List.append_nil]
    rfl
  | s :: rest, shaped, stack, current => by
    obtain ⟨first, others⟩ := Bool.and_eq_true_iff.mp shaped
    rw [blockLines, run_append, run_lines depth s first, Option.bind_some,
      run_blockLines depth rest others, List.append_assoc]
    rfl
end

end Stmt

/-! ### Indentation -/

/-- How many blocks a line stands in. A brace that it begins with has closed one. -/
def lineNesting (opened : Nat) (line : Text) : Nat :=
  if (line.dropWhile (· == ' ')).head? = some '\x7d' then opened - 1 else opened

/-- Every line is one line, and indented by the depth of the text and the blocks it stands in. -/
def IsIndented (base opened : Nat) (ls : List Text) : Prop :=
  ∀ before line after, ls = before ++ line :: after → Clean line ∧
    ∃ inside, depthAfter opened before = some inside ∧
      (line.takeWhile (· == ' ')).length = 4 * (base + lineNesting inside line)

namespace IsIndented

variable {base opened next : Nat} {ls ms : List Text}

theorem nil : IsIndented base opened [] := by
  intro before line after whole
  exact absurd whole.symm (List.append_ne_nil_of_right_ne_nil _ (List.cons_ne_nil _ _))

theorem append (first : IsIndented base opened ls) (within : depthAfter opened ls = some next)
    (second : IsIndented base next ms) : IsIndented base opened (ls ++ ms) := by
  intro before line after whole
  rcases List.append_eq_append_iff.mp whole with ⟨more, rfl, rest⟩ | ⟨more, rfl, rest⟩
  · obtain ⟨clean, inside, depth, indented⟩ := second more line after rest
    refine ⟨clean, inside, ?_, indented⟩
    rw [depthAfter_append, within, Option.bind_some, depth]
  · cases more with
    | nil =>
      obtain ⟨clean, inside, depth, indented⟩ := second [] line after rest.symm
      obtain rfl : next = _ := Option.some.inj depth
      rw [List.append_nil] at within
      exact ⟨clean, next, within, indented⟩
    | cons l more =>
      obtain ⟨rfl, _⟩ := List.cons.inj rest
      exact first before line more rfl

theorem singleton {line : Text} (clean : Clean line)
    (indented : (line.takeWhile (· == ' ')).length = 4 * (base + lineNesting opened line)) :
    IsIndented base opened [line] := by
  intro before l after whole
  cases before with
  | nil =>
    obtain ⟨rfl, _⟩ := List.cons.inj whole
    exact ⟨clean, opened, rfl, indented⟩
  | cons b before =>
    have rest := (List.cons.inj whole).2
    exact absurd rest.symm (List.append_ne_nil_of_right_ne_nil _ (List.cons_ne_nil _ _))

theorem cons {line : Text} (clean : Clean line)
    (indented : (line.takeWhile (· == ' ')).length = 4 * (base + lineNesting opened line))
    (within : braceDepth opened line = some next) (rest : IsIndented base next ls) :
    IsIndented base opened (line :: ls) := by
  refine (singleton clean indented).append ?_ rest
  rw [depthAfter_cons, within]
  rfl

end IsIndented

namespace Stmt

theorem length_indent {content : Text} (visible : Visible content) {depth base opened : Nat}
    (same : base + opened = depth) :
    ((indentChars depth ++ content).takeWhile (· == ' ')).length =
      4 * (base + lineNesting opened (indentChars depth ++ content)) := by
  obtain ⟨text, length⟩ := indentChars_append visible.head depth
  have other : content.head? ≠ some '\x7d' := by
    obtain ⟨c, rest, rfl, _, apart⟩ := visible
    intro closing
    exact apart (Option.some.inj closing)
  rw [length, lineNesting, text, if_neg other, same]

theorem length_indent_close (rest : Text) {depth base opened : Nat} (same : base + opened = depth) :
    ((indentChars depth ++ '\x7d' :: rest).takeWhile (· == ' ')).length =
      4 * (base + lineNesting (opened + 1) (indentChars depth ++ '\x7d' :: rest)) := by
  have first : ∀ c ∈ ('\x7d' :: rest).head?, c ≠ ' ' := by
    rintro _ ⟨⟩
    decide
  obtain ⟨text, length⟩ := indentChars_append first depth
  rw [length, lineNesting, text, if_pos List.head?_cons, Nat.add_sub_cancel, same]

theorem clean_indent (depth : Nat) {content : Text} (clean : Clean content) :
    Clean (indentChars depth ++ content) :=
  clean_append (inert_indentChars depth).clean clean

theorem clean_guard {word : Text} (inert : Inert word) {condition : Condition Expr}
    (named : condition.all (·.allNames isSpelled) = true) :
    Clean (word ++ (condition.chars ++ ") \x7b".toList)) :=
  clean_append inert.clean
    (clean_append (Condition.inert_chars named).clean (clean_text (by decide) (by decide)))

theorem visible_if (rest : Text) : Visible ("if (".toList ++ rest) :=
  ⟨'i', 'f' :: ' ' :: '(' :: rest, rfl, by decide, by decide⟩

theorem indented_close (rest : Text) (clean : Clean rest) {depth base opened : Nat}
    (same : base + opened = depth) :
    Clean (indentChars depth ++ '\x7d' :: rest) ∧
      ((indentChars depth ++ '\x7d' :: rest).takeWhile (· == ' ')).length =
        4 * (base + lineNesting (opened + 1) (indentChars depth ++ '\x7d' :: rest)) := by
  have closing : Clean ['\x7d'] := ⟨by decide, by decide⟩
  exact ⟨clean_indent depth (clean_append closing clean), length_indent_close rest same⟩

theorem isIndented_body {base opened : Nat} {depth : Nat} {block : List Stmt}
    (shaped : areShaped isWord block = true) {last : List Text}
    (inside : IsIndented base (opened + 1) (blockLines (depth + 1) block))
    (closing : IsIndented base (opened + 1) last) :
    IsIndented base (opened + 1) (blockLines (depth + 1) block ++ last) := by
  have spelled := areShaped_mono isSpelled_of_isWord block shaped
  exact inside.append (depthAfter_blockLines (depth + 1) block spelled (opened + 1)) closing

mutual
theorem isIndented_lines {base opened : Nat} (depth : Nat) (same : base + opened = depth) :
    (s : Stmt) → s.isShaped isWord = true → IsIndented base opened (s.lines depth)
  | declare ty name value, shaped =>
    .singleton
      (clean_indent depth (inert_declare (isShaped_mono isSpelled_of_isWord _ shaped)).clean)
      (length_indent ((visible_name ty).append _) same)
  | assign target op value, shaped =>
    .singleton
      (clean_indent depth (inert_assign (isShaped_mono isSpelled_of_isWord _ shaped)).clean)
      (length_indent ((target.visible_chars (Bool.and_eq_true_iff.mp shaped).1).append _) same)
  | branch branches none, shaped => by
    obtain ⟨nonempty, all⟩ := Bool.and_eq_true_iff.mp shaped
    obtain ⟨clean, indented⟩ := indented_close [] ⟨by decide, by decide⟩ same
    exact isIndented_branchLines depth same branches all (by simpa using nonempty)
      (.singleton clean indented)
  | branch branches (some block), shaped => by
    obtain ⟨both, others⟩ := Bool.and_eq_true_iff.mp shaped
    obtain ⟨nonempty, all⟩ := Bool.and_eq_true_iff.mp both
    obtain ⟨clean, indented⟩ := indented_close [] ⟨by decide, by decide⟩ same
    obtain ⟨clean', indented'⟩ := indented_close " else \x7b".toList
      (clean_text (by decide) (by decide)) same
    have opening : braceDepth (opened + 1) (indentChars depth ++ '\x7d' :: " else \x7b".toList) =
        some (opened + 1) := braceDepth_close depth opened _
    have deeper : base + (opened + 1) = depth + 1 := by omega
    have inside := isIndented_blockLines (depth + 1) deeper block others
    exact isIndented_branchLines depth same branches all (by simpa using nonempty)
      (.cons clean' indented' opening (isIndented_body others inside (.singleton clean indented)))
  | discard, _ =>
    .singleton (clean_indent depth (clean_text (by decide) (by decide)))
      (length_indent ⟨'d', "iscard;".toList, rfl, by decide, by decide⟩ same)
theorem isIndented_branchLines {base opened : Nat} (depth : Nat) (same : base + opened = depth) :
    (branches : List (Condition Expr × List Stmt)) → areShapedBranches isWord branches = true →
    branches ≠ [] → {last : List Text} → IsIndented base (opened + 1) last →
    IsIndented base opened (branchLines depth last branches)
  | [], _, nonempty, _, _ => absurd rfl nonempty
  | (condition, block) :: rest, shaped, _, last, closing => by
    obtain ⟨first, inner, others⟩ := areShapedBranches_cons.mp shaped
    have named := Condition.all_mono (Expr.allNames_mono isSpelled_of_isWord) first
    have opening : braceDepth opened
        (indentChars depth ++ ("if (".toList ++ (condition.chars ++ ") \x7b".toList))) =
          some (opened + 1) := by
      rw [SourceScan.braceDepth_append, (inert_indentChars depth).braceDepth, Option.bind_some,
        braceDepth_open named inert_if.1]
    have deeper : base + (opened + 1) = depth + 1 := by omega
    have inside := isIndented_blockLines (depth + 1) deeper block inner
    exact .cons (clean_indent depth (clean_guard inert_if.1 named))
      (length_indent (visible_if _) same) opening
      (isIndented_body inner inside (isIndented_elseIfLines depth same rest others closing))
theorem isIndented_elseIfLines {base opened : Nat} (depth : Nat) (same : base + opened = depth) :
    (branches : List (Condition Expr × List Stmt)) → areShapedBranches isWord branches = true →
    {last : List Text} → IsIndented base (opened + 1) last →
    IsIndented base (opened + 1) (elseIfLines depth last branches)
  | [], _, _, closing => closing
  | (condition, block) :: rest, shaped, last, closing => by
    obtain ⟨first, inner, others⟩ := areShapedBranches_cons.mp shaped
    have named := Condition.all_mono (Expr.allNames_mono isSpelled_of_isWord) first
    obtain ⟨clean, indented⟩ := indented_close _ (clean_guard inert_if.2 named) same
    have opening : braceDepth (opened + 1)
        (indentChars depth ++ '\x7d' :: (" else if (".toList ++ (condition.chars ++ ") \x7b".toList))) =
          some (opened + 1) := by
      rw [braceDepth_close, braceDepth_open named inert_if.2]
    have deeper : base + (opened + 1) = depth + 1 := by omega
    have inside := isIndented_blockLines (depth + 1) deeper block inner
    exact .cons clean indented opening
      (isIndented_body inner inside (isIndented_elseIfLines depth same rest others closing))
theorem isIndented_blockLines {base opened : Nat} (depth : Nat) (same : base + opened = depth) :
    (block : List Stmt) → areShaped isWord block = true →
    IsIndented base opened (blockLines depth block)
  | [], _ => .nil
  | s :: rest, shaped => by
    obtain ⟨first, others⟩ := Bool.and_eq_true_iff.mp shaped
    have spelled := isShaped_mono isSpelled_of_isWord s first
    exact (isIndented_lines depth same s first).append (depthAfter_lines depth s spelled opened)
      (isIndented_blockLines depth same rest others)
end

/-! ### The text of a block -/

theorem lines_linesChars {ls : List Text} (clean : ∀ l ∈ ls, Clean l) :
    SourceScan.lines (linesChars ls) = ls := by
  induction ls with
  | nil => rfl
  | cons l ls ih =>
    have first := clean l List.mem_cons_self
    have rest := ih fun k mem => clean k (List.mem_cons_of_mem l mem)
    rw [linesChars_cons, SourceScan.lines, SourceScan.linesFrom_append [] l _ first.1,
      List.append_nil, SourceScan.endedLine_clean first]
    exact congrArg _ rest

/-- The text shows the structure of a block that is printed at a depth. -/
structure IsPrintOf (depth : Nat) (block : List Stmt) (text : Text) : Prop where
  indented (before : List Text) (line : Text) (after : List Text) :
    SourceScan.lines text = before ++ line :: after → ∃ opened,
      depthAfter 0 before = some opened ∧
        (line.takeWhile (· == ' ')).length = 4 * (depth + lineNesting opened line)
  balanced : IsBalanced text
  count : text.count '\x7b' = (innerBlocks depth block).length
  between (before inside after : Text) :
    text = before ++ '\x7b' :: (inside ++ '\x7d' :: after) → IsBalanced inside →
      ∃ outer body, (innerBlocks depth block)[before.count '\x7b']? = some (outer, body) ∧
        inside = '\n' :: ((renderBlock (outer + 1) body).toList ++ (indent outer).toList)
  outlined : Outline.read text = some (outlineBlock block)

theorem lines_renderBlock (depth : Nat) {block : List Stmt}
    (shaped : areShaped isWord block = true) :
    SourceScan.lines (renderBlock depth block).toList = blockLines depth block := by
  have indented : IsIndented depth 0 (blockLines depth block) :=
    isIndented_blockLines depth rfl block shaped
  have clean : ∀ l ∈ blockLines depth block, Clean l := by
    intro l mem
    obtain ⟨before, after, whole⟩ := List.append_of_mem mem
    exact (indented before l after whole).1
  rw [toList_renderBlock, blockChars_eq depth block shaped, lines_linesChars clean]

theorem read_renderBlock (depth : Nat) {block : List Stmt}
    (shaped : areShaped isWord block = true) :
    Outline.read (renderBlock depth block).toList = some (outlineBlock block) := by
  rw [Outline.read, lines_renderBlock depth shaped, run_blockLines depth block shaped]
  rfl

/-- A printed block shows its structure, and whatever block has the same text has the same
outline. -/
theorem isPrintOf_renderBlock (depth : Nat) {block : List Stmt}
    (shaped : areShaped isWord block = true) :
    IsPrintOf depth block (renderBlock depth block).toList ∧
      ∀ (other : Nat) (statements : List Stmt), areShaped isWord statements = true →
        renderBlock other statements = renderBlock depth block →
          outlineBlock statements = outlineBlock block := by
  have encloses := encloses_blockChars depth block (areShaped_mono isSpelled_of_isWord block shaped)
  rw [← toList_renderBlock] at encloses
  constructor
  · constructor
    · intro before line after whole
      rw [lines_renderBlock depth shaped] at whole
      have lines : IsIndented depth 0 (blockLines depth block) :=
        isIndented_blockLines depth rfl block shaped
      obtain ⟨_, opened, reached, indented⟩ := lines before line after whole
      exact ⟨opened, reached, indented⟩
    · exact encloses.balanced
    · rw [encloses.count, List.length_map]
    · intro before inside after whole balanced
      have here := encloses.between before inside after whole balanced
      rw [List.getElem?_map, Option.map_eq_some_iff] at here
      obtain ⟨⟨outer, body⟩, found, rfl⟩ := here
      refine ⟨outer, body, found, ?_⟩
      rw [toList_renderBlock, toList_indent]
      rfl
    · exact read_renderBlock depth shaped
  · intro other statements shaped' same
    have read := read_renderBlock other shaped'
    rw [same, read_renderBlock depth shaped] at read
    exact (Option.some.inj read).symm

/-- An `else` with an `if` of its own that has an empty `else`. -/
theorem isPrintOf_renderBlock_nested :
    let guard : Condition Expr := ⟨⟨.var "a" (some .float), .lt, .var "b" (some .float)⟩, []⟩
    let block : List Stmt := [.branch [(guard, [.discard]), (guard, [])]
      (some [.branch [(guard, [.assign (.var "c" none) .set (.var "a" none)])] (some [])])]
    areShaped isWord block = true ∧ IsPrintOf 1 block (renderBlock 1 block).toList := by
  intro guard block
  have shaped : areShaped isWord block = true := by decide
  exact ⟨shaped, (isPrintOf_renderBlock 1 shaped).1⟩

end Stmt

end ShaderComposer
