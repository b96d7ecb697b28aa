import Mathlib.Data.List.Induction
import ShaderComposer.Proofs.Glsl.Lines

/-!
# Blocks between braces

A brace and the brace that closes it have a balanced text between them. In the text of a block of
statements this is the block of a branch or of an `else`, printed one level deeper: the blocks stand
in the order of their opening braces (`Stmt.encloses_blockChars`).
-/

namespace ShaderComposer

open SourceScan (Text braceDepth braceDepth_append braceDepth_add)
open Registry (linesChars)

/-! ### Balanced texts -/

/-- As many braces are closed as opened, and no beginning closes more than it opens. -/
structure IsBalanced (text : Text) : Prop where
  opened (start : Text) : start <+: text → start.count '\x7d' ≤ start.count '\x7b'
  closed : text.count '\x7d' = text.count '\x7b'

theorem isBalanced_iff {text : Text} : IsBalanced text ↔ braceDepth 0 text = some 0 := by
  rw [SourceScan.braceDepth_eq_some_iff]
  constructor
  · rintro ⟨opened, closed⟩
    exact ⟨by simpa using opened, by simpa using closed.symm⟩
  · rintro ⟨opened, closed⟩
    exact ⟨by simpa using opened, by simpa using closed.symm⟩

theorem IsBalanced.append {u v : Text} (first : IsBalanced u) (second : IsBalanced v) :
    IsBalanced (u ++ v) := by
  rw [isBalanced_iff] at first second ⊢
  rw [braceDepth_append, first]
  exact second

theorem IsBalanced.wrap {u : Text} (balanced : IsBalanced u) :
    IsBalanced ('\x7b' :: (u ++ ['\x7d'])) := by
  have inside : braceDepth 1 u = some 1 := braceDepth_add (isBalanced_iff.mp balanced) 1
  rw [isBalanced_iff]
  show braceDepth 1 (u ++ ['\x7d']) = some 0
  rw [braceDepth_append, inside]
  rfl

/-- A text that ends inside of braces is not balanced. -/
theorem not_isBalanced_open {before a rest : Text} (inside : IsBalanced (a ++ rest)) :
    ¬ IsBalanced (before ++ '\x7b' :: a) := by
  intro balanced
  rw [isBalanced_iff, braceDepth_append] at inside balanced
  obtain ⟨d, _, opened⟩ := Option.bind_eq_some_iff.mp balanced
  obtain ⟨k, within, _⟩ := Option.bind_eq_some_iff.mp inside
  have deeper : braceDepth (0 + (d + 1)) a = some (k + (d + 1)) := braceDepth_add within (d + 1)
  rw [Nat.zero_add] at deeper
  have closed : braceDepth (d + 1) a = some 0 := opened
  rw [closed] at deeper
  have none := Option.some.inj deeper
  omega

/-- What stands before a brace that closes too much is not the whole of a balanced text. -/
theorem not_isBalanced_close {inner after : Text} (balanced : IsBalanced inner) :
    ¬ IsBalanced (inner ++ '\x7d' :: after) := by
  intro closed
  rw [isBalanced_iff, braceDepth_append, isBalanced_iff.mp balanced] at closed
  cases closed

/-! ### What braces enclose -/

/-- The text is balanced, and between its n-th opening brace and the brace that closes it stands
the n-th of the bodies. -/
structure Encloses (text : Text) (bodies : List Text) : Prop where
  balanced : IsBalanced text
  count : text.count '\x7b' = bodies.length
  between (before inner after : Text) : text = before ++ '\x7b' :: (inner ++ '\x7d' :: after) →
    IsBalanced inner → bodies[before.count '\x7b']? = some inner

theorem encloses_nothing {text : Text} (opening : '\x7b' ∉ text) (closing : '\x7d' ∉ text) :
    Encloses text [] := by
  refine ⟨isBalanced_iff.mpr (SourceScan.braceDepth_plain opening closing 0),
    List.count_eq_zero.mpr opening, ?_⟩
  rintro before inner after rfl
  exact absurd (List.mem_append_right before List.mem_cons_self) opening

theorem Inert.encloses {text : Text} (inert : Inert text) : Encloses text [] := by
  refine encloses_nothing ?_ ?_ <;> intro mem <;> cases inert _ mem

namespace Encloses

variable {u v : Text} {bodies others : List Text}

theorem append (first : Encloses u bodies) (second : Encloses v others) :
    Encloses (u ++ v) (bodies ++ others) := by
  refine ⟨first.balanced.append second.balanced, ?_, ?_⟩
  · rw [List.count_append, first.count, second.count, List.length_append]
  · intro before inner after whole balanced
    rcases List.append_eq_append_iff.mp whole with ⟨a, rfl, rest⟩ | ⟨a, split, rest⟩
    · have later := second.between a inner after rest balanced
      rw [List.count_append, first.count, List.getElem?_append_right (Nat.le_add_right _ _),
        Nat.add_sub_cancel_left]
      exact later
    · cases a with
      | nil =>
        rw [List.append_nil] at split
        subst split
        have later := second.between [] inner after rest.symm balanced
        rw [first.count, List.getElem?_append_right (Nat.le_refl _), Nat.sub_self]
        exact later
      | cons c a =>
        have same : inner ++ '\x7d' :: after = a ++ v := (List.cons.inj rest).2
        obtain rfl : '\x7b' = c := (List.cons.inj rest).1
        -- The brace that closes is in the first text too, since that is balanced.
        have goesOn {more : Text} (goes : inner = a ++ more) : False := by
          rw [goes] at balanced
          have opened : IsBalanced (before ++ '\x7b' :: a) := split ▸ first.balanced
          exact not_isBalanced_open balanced opened
        rcases List.append_eq_append_iff.mp same with ⟨w, within, closing⟩ | ⟨w, goes, _⟩
        · cases w with
          | nil =>
            rw [List.append_nil] at within
            exact (goesOn (by rw [within, List.append_nil])).elim
          | cons d w =>
            obtain ⟨rfl, _⟩ := List.cons.inj closing
            rw [within] at split
            have here := first.between before inner w split balanced
            have bound : before.count '\x7b' < bodies.length := by
              rw [← first.count, split, List.count_append, List.count_cons_self]
              omega
            rw [List.getElem?_append_left bound]
            exact here
        · exact (goesOn goes).elim

theorem wrap (encloses : Encloses u bodies) : Encloses ('\x7b' :: (u ++ ['\x7d'])) (u :: bodies) := by
  refine ⟨encloses.balanced.wrap, ?_, ?_⟩
  · rw [List.count_cons_self, List.count_append, encloses.count]
    rfl
  · intro before inner after whole balanced
    -- the first brace opens the new body, each later one a body of `u`
    cases before with
    | nil =>
      have rest : u ++ ['\x7d'] = inner ++ '\x7d' :: after := (List.cons.inj whole).2
      rcases List.append_eq_append_iff.mp rest with ⟨w, rfl, closing⟩ | ⟨w, split, closing⟩
      · cases w with
        | nil => rw [List.append_nil]; rfl
        | cons c w =>
          have short := congrArg List.length closing
          simp only [List.length_append, List.length_cons, List.length_nil] at short
          omega
      · cases w with
        | nil =>
          rw [List.append_nil] at split
          rw [split]
          rfl
        | cons c w =>
          obtain ⟨rfl, _⟩ := List.cons.inj closing
          have outer := encloses.balanced
          rw [split] at outer
          exact absurd outer (not_isBalanced_close balanced)
    | cons c before =>
      obtain rfl : '\x7b' = c := (List.cons.inj whole).1
      have rest : u ++ ['\x7d'] = before ++ '\x7b' :: (inner ++ '\x7d' :: after) :=
        (List.cons.inj whole).2
      rw [List.count_cons_self, List.getElem?_cons_succ]
      rcases after.eq_nil_or_concat with rfl | ⟨after, last, rfl⟩
      · have shape : before ++ '\x7b' :: (inner ++ ['\x7d']) = (before ++ '\x7b' :: inner) ++ ['\x7d'] := by
          simp
        rw [shape] at rest
        have outer := encloses.balanced
        rw [(List.append_inj_left' rest rfl)] at outer
        have closed : IsBalanced (inner ++ []) := by rwa [List.append_nil]
        exact absurd outer (not_isBalanced_open closed)
      · have shape : before ++ '\x7b' :: (inner ++ '\x7d' :: (after ++ [last])) =
            (before ++ '\x7b' :: (inner ++ '\x7d' :: after)) ++ [last] := by
          simp
        rw [List.concat_eq_append, shape] at rest
        exact encloses.between before inner after (List.append_inj_left' rest rfl) balanced

end Encloses

/-! ### The blocks of statements -/

namespace Stmt

mutual
/-- The blocks in braces in the order of their opening braces, each with the depth of the statement
that it belongs to. -/
def inner (depth : Nat) : Stmt → List (Nat × List Stmt)
  | declare _ _ _ => []
  | assign _ _ _ => []
  | branch branches none => innerBranches depth branches
  | branch branches (some block) =>
    innerBranches depth branches ++ (depth, block) :: innerBlocks (depth + 1) block
  | discard => []
def innerBranches (depth : Nat) : List (Condition Expr × List Stmt) → List (Nat × List Stmt)
  | [] => []
  | (_, block) :: rest =>
    (depth, block) :: (innerBlocks (depth + 1) block ++ innerBranches depth rest)
def innerBlocks (depth : Nat) : List Stmt → List (Nat × List Stmt)
  | [] => []
  | s :: rest => s.inner depth ++ innerBlocks depth rest
end

/-- What is printed between the braces of a block. -/
def bodyChars (body : Nat × List Stmt) : Text :=
  '\n' :: (blockChars (body.1 + 1) body.2 ++ indentChars body.1)

theorem encloses_braced {depth : Nat} {block : List Stmt} {bodies others : List Text}
    {head tail : Text} (inert : Inert head)
    (inside : Encloses (blockChars (depth + 1) block) bodies) (rest : Encloses tail others) :
    Encloses
      (head ++ '\x7b' :: '\n' :: (blockChars (depth + 1) block ++ (indentChars depth ++ '\x7d' :: tail)))
      (bodyChars (depth, block) :: (bodies ++ others)) := by
  have feed : Encloses ['\n'] [] := encloses_nothing (by decide) (by decide)
  have body : Encloses (bodyChars (depth, block)) bodies := by
    have parts := feed.append (inside.append (inert_indentChars depth).encloses)
    rw [List.append_nil] at parts
    exact parts
  have whole := inert.encloses.append (body.wrap.append rest)
  have text : '\x7b' :: (bodyChars (depth, block) ++ ['\x7d']) ++ tail =
      '\x7b' :: '\n' :: (blockChars (depth + 1) block ++ (indentChars depth ++ '\x7d' :: tail)) := by
    simp [bodyChars]
  rw [text] at whole
  exact whole

theorem encloses_line {content : Text} (inert : Inert content) (depth : Nat) :
    Encloses (linesChars [indentChars depth ++ content]) [] := by
  have feed : Encloses ['\n'] [] := encloses_nothing (by decide) (by decide)
  have line := ((inert_indentChars depth).append inert).encloses.append feed
  simpa [linesChars] using line

theorem inert_guard {word : Text} (inert : Inert word) {condition : Condition Expr}
    (named : condition.all (·.allNames isSpelled) = true) :
    Inert (word ++ (condition.chars ++ [')', ' '])) :=
  inert.append ((Condition.inert_chars named).append (inert_of_all (by decide)))

theorem guard_eq (word condition rest : Text) :
    word ++ (condition ++ (") \x7b\n".toList ++ rest)) =
      (word ++ (condition ++ [')', ' '])) ++ '\x7b' :: '\n' :: rest := by
  have opening : ") \x7b\n".toList = [')', ' ', '\x7b', '\n'] := by decide
  simp [opening]

mutual
theorem encloses_chars (depth : Nat) : (s : Stmt) → s.isShaped isSpelled = true →
    Encloses (s.chars depth) ((s.inner depth).map bodyChars)
  | declare ty name value, shaped => by
    rw [chars_eq depth _ shaped]
    exact encloses_line (inert_declare shaped) depth
  | assign target op value, shaped => by
    rw [chars_eq depth _ shaped]
    exact encloses_line (inert_assign shaped) depth
  | branch branches none, shaped => by
    obtain ⟨_, all⟩ := Bool.and_eq_true_iff.mp shaped
    have feed : Encloses "\n".toList [] := encloses_nothing (by decide) (by decide)
    have whole := (inert_indentChars depth).encloses.append
      ((encloses_branchesChars depth branches all).append feed)
    rw [List.append_nil] at whole
    exact whole
  | branch branches (some block), shaped => by
    obtain ⟨both, others⟩ := Bool.and_eq_true_iff.mp shaped
    obtain ⟨_, all⟩ := Bool.and_eq_true_iff.mp both
    have feed : Encloses ['\n'] [] := encloses_nothing (by decide) (by decide)
    have word : Inert " else ".toList := inert_of_all (by decide)
    have last := encloses_braced word (encloses_blockChars (depth + 1) block others) feed
    rw [List.append_nil] at last
    have whole := (inert_indentChars depth).encloses.append
      ((encloses_branchesChars depth branches all).append last)
    rw [inner, List.map_append, List.map_cons]
    exact whole
  | discard, shaped => by
    rw [chars_eq depth _ shaped]
    exact encloses_line (inert_of_all (by decide)) depth
theorem encloses_branchesChars (depth : Nat) : (branches : List (Condition Expr × List Stmt)) →
    areShapedBranches isSpelled branches = true →
      Encloses (branchesChars depth branches) ((innerBranches depth branches).map bodyChars)
  | [], _ => inert_nil.encloses
  | (condition, block) :: rest, shaped => by
    obtain ⟨first, inside, others⟩ := areShapedBranches_cons.mp shaped
    have whole := encloses_braced (inert_guard inert_if.1 first)
      (encloses_blockChars (depth + 1) block inside) (encloses_elseIfsChars depth rest others)
    rw [branchesChars_cons, guard_eq, innerBranches, List.map_cons, List.map_append]
    exact whole
theorem encloses_elseIfsChars (depth : Nat) : (branches : List (Condition Expr × List Stmt)) →
    areShapedBranches isSpelled branches = true →
      Encloses (elseIfsChars depth branches) ((innerBranches depth branches).map bodyChars)
  | [], _ => inert_nil.encloses
  | (condition, block) :: rest, shaped => by
    obtain ⟨first, inside, others⟩ := areShapedBranches_cons.mp shaped
    have whole := encloses_braced (inert_guard inert_if.2 first)
      (encloses_blockChars (depth + 1) block inside) (encloses_elseIfsChars depth rest others)
    rw [elseIfsChars_cons, guard_eq, innerBranches, List.map_cons, List.map_append]
    exact whole
theorem encloses_blockChars (depth : Nat) : (block : List Stmt) → areShaped isSpelled block = true →
    Encloses (blockChars depth block) ((innerBlocks depth block).map bodyChars)
  | [], _ => inert_nil.encloses
  | s :: rest, shaped => by
    obtain ⟨first, others⟩ := Bool.and_eq_true_iff.mp shaped
    rw [blockChars, innerBlocks, List.map_append]
    exact (encloses_chars depth s first).append (encloses_blockChars depth rest others)
end

end Stmt

end ShaderComposer
