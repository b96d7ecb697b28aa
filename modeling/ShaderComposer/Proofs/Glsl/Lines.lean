import ShaderComposer.Proofs.Glsl.Quiet

/-!
# Lines of statements

A block of statements is printed line by line (`Stmt.blockChars_eq`). If its names are made of
letters, digits and underscores, it closes the braces that it opens (`Stmt.depthAfter_blockLines`),
and if they are no words of a declaration, no line declares anything (`Stmt.quiet_blockLines`).
-/

namespace ShaderComposer

open SourceScan (Text isIdentifier isBlank lead Clean)

/-! ### Quiet lines -/

/-- The line ends nowhere inside and begins no declaration. -/
def QuietLine (l : Text) : Prop := Clean l ∧ lead l ∉ declarationWords

theorem clean_append {first second : Text} (one : Clean first) (two : Clean second) :
    Clean (first ++ second) := by
  simp only [Clean, List.mem_append, not_or] at one two ⊢
  exact ⟨⟨one.1, two.1⟩, ⟨one.2, two.2⟩⟩

theorem clean_text {text : Text} (feed : text.contains '\n' = false)
    (carriage : text.contains '\r' = false) : Clean text :=
  ⟨by simpa using feed, by simpa using carriage⟩

/-! ### Lines of statements -/

theorem isSpelled_of_isQuietName {name : Text} (quiet : isQuietName name = true) :
    isSpelled name = true :=
  List.all_eq_true.mpr (isQuietName_iff.mp quiet).1

theorem spelled_initial {value : Option Expr} (quiet : value.all Expr.isQuiet = true) :
    value.all (·.allNames isSpelled) = true := by
  cases value with
  | none => rfl
  | some e => exact e.allNames_of_isQuiet quiet

namespace Stmt

mutual
/-- Names and components are made of identifiers, no name is a word of a declaration, and every
conditional has a branch. -/
def isQuiet : Stmt → Bool
  | declare _ name value => isQuietName name.toList && value.all Expr.isQuiet
  | assign target _ value => target.isQuiet && value.isQuiet
  | branch branches none => !branches.isEmpty && areQuietBranches branches
  | branch branches (some block) =>
    !branches.isEmpty && areQuietBranches branches && areQuiet block
  | discard => true
def areQuietBranches : List (Condition Expr × List Stmt) → Bool
  | [] => true
  | (condition, block) :: rest => condition.isQuiet && areQuiet block && areQuietBranches rest
def areQuiet : List Stmt → Bool
  | [] => true
  | s :: rest => s.isQuiet && areQuiet rest
end

mutual
/-- Names and components have a property, and every conditional has a branch. -/
def isShaped (p : Text → Bool) : Stmt → Bool
  | declare _ name value => p name.toList && value.all (·.allNames p)
  | assign target _ value => target.allNames p && value.allNames p
  | branch branches none => !branches.isEmpty && areShapedBranches p branches
  | branch branches (some block) =>
    !branches.isEmpty && areShapedBranches p branches && areShaped p block
  | discard => true
def areShapedBranches (p : Text → Bool) : List (Condition Expr × List Stmt) → Bool
  | [] => true
  | (condition, block) :: rest =>
    condition.all (·.allNames p) && areShaped p block && areShapedBranches p rest
def areShaped (p : Text → Bool) : List Stmt → Bool
  | [] => true
  | s :: rest => s.isShaped p && areShaped p rest
end

theorem areShapedBranches_cons {p : Text → Bool} {condition : Condition Expr} {block : List Stmt}
    {rest : List (Condition Expr × List Stmt)} :
    areShapedBranches p ((condition, block) :: rest) = true ↔
      condition.all (·.allNames p) = true ∧ areShaped p block = true ∧
        areShapedBranches p rest = true := by
  simp only [areShapedBranches, Bool.and_eq_true, and_assoc]

theorem areQuietBranches_cons {condition : Condition Expr} {block : List Stmt}
    {rest : List (Condition Expr × List Stmt)} :
    areQuietBranches ((condition, block) :: rest) = true ↔
      condition.isQuiet = true ∧ areQuiet block = true ∧ areQuietBranches rest = true := by
  simp only [areQuietBranches, Bool.and_eq_true, and_assoc]

mutual
theorem isShaped_mono {p q : Text → Bool} (weaker : ∀ name, p name = true → q name = true) :
    (s : Stmt) → s.isShaped p = true → s.isShaped q = true
  | declare _ name none, shaped => by
    obtain ⟨plain, _⟩ := Bool.and_eq_true_iff.mp shaped
    exact Bool.and_eq_true_iff.mpr ⟨weaker name.toList plain, rfl⟩
  | declare _ name (some e), shaped => by
    obtain ⟨plain, initial⟩ := Bool.and_eq_true_iff.mp shaped
    exact Bool.and_eq_true_iff.mpr ⟨weaker name.toList plain, e.allNames_mono weaker initial⟩
  | assign target _ value, shaped => by
    obtain ⟨left, right⟩ := Bool.and_eq_true_iff.mp shaped
    exact Bool.and_eq_true_iff.mpr
      ⟨target.allNames_mono weaker left, value.allNames_mono weaker right⟩
  | branch branches none, shaped => by
    obtain ⟨nonempty, all⟩ := Bool.and_eq_true_iff.mp shaped
    exact Bool.and_eq_true_iff.mpr ⟨nonempty, areShapedBranches_mono weaker branches all⟩
  | branch branches (some block), shaped => by
    obtain ⟨both, others⟩ := Bool.and_eq_true_iff.mp shaped
    obtain ⟨nonempty, all⟩ := Bool.and_eq_true_iff.mp both
    exact Bool.and_eq_true_iff.mpr ⟨Bool.and_eq_true_iff.mpr
      ⟨nonempty, areShapedBranches_mono weaker branches all⟩, areShaped_mono weaker block others⟩
  | discard, _ => rfl
theorem areShapedBranches_mono {p q : Text → Bool}
    (weaker : ∀ name, p name = true → q name = true) :
    (branches : List (Condition Expr × List Stmt)) → areShapedBranches p branches = true →
      areShapedBranches q branches = true
  | [], _ => rfl
  | (condition, block) :: rest, shaped => by
    obtain ⟨first, inner, others⟩ := areShapedBranches_cons.mp shaped
    exact areShapedBranches_cons.mpr ⟨Condition.all_mono (Expr.allNames_mono weaker) first,
      areShaped_mono weaker block inner, areShapedBranches_mono weaker rest others⟩
theorem areShaped_mono {p q : Text → Bool} (weaker : ∀ name, p name = true → q name = true) :
    (block : List Stmt) → areShaped p block = true → areShaped q block = true
  | [], _ => rfl
  | s :: rest, shaped => by
    obtain ⟨first, others⟩ := Bool.and_eq_true_iff.mp shaped
    exact Bool.and_eq_true_iff.mpr ⟨isShaped_mono weaker s first, areShaped_mono weaker rest others⟩
end

mutual
theorem isShaped_of_isQuiet : (s : Stmt) → s.isQuiet = true → s.isShaped isSpelled = true
  | declare _ name value, quiet => by
    obtain ⟨plain, initial⟩ := Bool.and_eq_true_iff.mp quiet
    exact Bool.and_eq_true_iff.mpr
      ⟨isSpelled_of_isQuietName plain, spelled_initial initial⟩
  | assign target _ value, quiet => by
    obtain ⟨left, right⟩ := Bool.and_eq_true_iff.mp quiet
    exact Bool.and_eq_true_iff.mpr
      ⟨target.allNames_of_isQuiet left, value.allNames_of_isQuiet right⟩
  | branch branches none, quiet => by
    obtain ⟨nonempty, all⟩ := Bool.and_eq_true_iff.mp quiet
    exact Bool.and_eq_true_iff.mpr ⟨nonempty, areShapedBranches_of_areQuiet branches all⟩
  | branch branches (some block), quiet => by
    obtain ⟨both, others⟩ := Bool.and_eq_true_iff.mp quiet
    obtain ⟨nonempty, all⟩ := Bool.and_eq_true_iff.mp both
    exact Bool.and_eq_true_iff.mpr ⟨Bool.and_eq_true_iff.mpr
      ⟨nonempty, areShapedBranches_of_areQuiet branches all⟩, areShaped_of_areQuiet block others⟩
  | discard, _ => rfl
theorem areShapedBranches_of_areQuiet : (branches : List (Condition Expr × List Stmt)) →
    areQuietBranches branches = true → areShapedBranches isSpelled branches = true
  | [], _ => rfl
  | (condition, block) :: rest, quiet => by
    obtain ⟨first, inner, others⟩ := areQuietBranches_cons.mp quiet
    exact areShapedBranches_cons.mpr ⟨Condition.all_mono Expr.allNames_of_isQuiet first,
      areShaped_of_areQuiet block inner, areShapedBranches_of_areQuiet rest others⟩
theorem areShaped_of_areQuiet : (block : List Stmt) → areQuiet block = true →
    areShaped isSpelled block = true
  | [], _ => rfl
  | s :: rest, quiet => by
    obtain ⟨first, others⟩ := Bool.and_eq_true_iff.mp quiet
    exact Bool.and_eq_true_iff.mpr ⟨isShaped_of_isQuiet s first, areShaped_of_areQuiet rest others⟩
end

mutual
def lines (depth : Nat) : Stmt → List Text
  | declare ty name value =>
    [indentChars depth ++ (ty.name.toList ++ ' ' :: (name.toList ++ (initialChars value ++ [';'])))]
  | assign target op value =>
    [indentChars depth ++ (target.chars ++ ' ' :: (op.symbol.toList ++
      ' ' :: (value.chars ++ [';'])))]
  | branch branches none => branchLines depth [indentChars depth ++ ['\x7d']] branches
  | branch branches (some block) =>
    branchLines depth ((indentChars depth ++ '\x7d' :: " else \x7b".toList) ::
      (blockLines (depth + 1) block ++ [indentChars depth ++ ['\x7d']])) branches
  | discard => [indentChars depth ++ "discard;".toList]
def branchLines (depth : Nat) (last : List Text) :
    List (Condition Expr × List Stmt) → List Text
  | [] => last
  | (condition, block) :: rest =>
    (indentChars depth ++ ("if (".toList ++ (condition.chars ++ ") \x7b".toList))) ::
      (blockLines (depth + 1) block ++ elseIfLines depth last rest)
def elseIfLines (depth : Nat) (last : List Text) :
    List (Condition Expr × List Stmt) → List Text
  | [] => last
  | (condition, block) :: rest =>
    (indentChars depth ++ '\x7d' :: (" else if (".toList ++ (condition.chars ++ ") \x7b".toList))) ::
      (blockLines (depth + 1) block ++ elseIfLines depth last rest)
def blockLines (depth : Nat) : List Stmt → List Text
  | [] => []
  | s :: rest => s.lines depth ++ blockLines depth rest
end

open Registry (linesChars)

theorem linesChars_cons (l : Text) (ls : List Text) :
    linesChars (l :: ls) = l ++ '\n' :: linesChars ls := by
  simp [linesChars]

theorem linesChars_append (first second : List Text) :
    linesChars (first ++ second) = linesChars first ++ linesChars second :=
  List.flatMap_append

theorem opening_eq : ") \x7b\n".toList = ") \x7b".toList ++ ['\n'] := by
  decide

theorem branchesChars_cons (depth : Nat) (condition : Condition Expr) (block : List Stmt)
    (rest : List (Condition Expr × List Stmt)) :
    branchesChars depth ((condition, block) :: rest) =
      "if (".toList ++ (condition.chars ++ (") \x7b\n".toList ++ (blockChars (depth + 1) block ++
        (indentChars depth ++ '\x7d' :: elseIfsChars depth rest)))) := rfl

theorem elseIfsChars_cons (depth : Nat) (condition : Condition Expr) (block : List Stmt)
    (rest : List (Condition Expr × List Stmt)) :
    elseIfsChars depth ((condition, block) :: rest) =
      " else if (".toList ++ (condition.chars ++ (") \x7b\n".toList ++
        (blockChars (depth + 1) block ++ (indentChars depth ++ '\x7d' :: elseIfsChars depth rest)))) :=
  rfl

mutual
theorem chars_eq {p : Text → Bool} (depth : Nat) : (s : Stmt) → s.isShaped p = true →
    s.chars depth = linesChars (s.lines depth)
  | declare ty name value, _ => by
    simp [chars, lines, linesChars]
  | assign target op value, _ => by
    simp [chars, lines, linesChars]
  | branch branches none, shaped => by
    obtain ⟨nonempty, all⟩ := Bool.and_eq_true_iff.mp shaped
    have closing : linesChars [indentChars depth ++ ['\x7d']] =
        indentChars depth ++ '\x7d' :: "\n".toList := by
      simp [linesChars]
    rw [chars, lines]
    exact branchesChars_eq depth branches all (by simpa using nonempty) closing
  | branch branches (some block), shaped => by
    obtain ⟨both, others⟩ := Bool.and_eq_true_iff.mp shaped
    obtain ⟨nonempty, all⟩ := Bool.and_eq_true_iff.mp both
    have closing : linesChars ((indentChars depth ++ '\x7d' :: " else \x7b".toList) ::
        (blockLines (depth + 1) block ++ [indentChars depth ++ ['\x7d']])) =
          indentChars depth ++ '\x7d' :: (" else \x7b\n".toList ++
            (blockChars (depth + 1) block ++ (indentChars depth ++ "\x7d\n".toList))) := by
      rw [blockChars_eq (depth + 1) block others]
      simp [linesChars]
    rw [chars, lines]
    exact branchesChars_eq depth branches all (by simpa using nonempty) closing
  | discard, _ => by
    simp [chars, lines, linesChars]
theorem branchesChars_eq {p : Text → Bool} (depth : Nat) : (branches : List (Condition Expr × List Stmt)) →
    areShapedBranches p branches = true → branches ≠ [] → {last : List Text} → {tail : Text} →
    linesChars last = indentChars depth ++ '\x7d' :: tail →
    indentChars depth ++ (branchesChars depth branches ++ tail) =
      linesChars (branchLines depth last branches)
  | [], _, nonempty, _, _, _ => absurd rfl nonempty
  | (condition, block) :: rest, shaped, _, last, tail, closing => by
    obtain ⟨_, inner, others⟩ := areShapedBranches_cons.mp shaped
    rw [branchLines, linesChars_cons, linesChars_append, ← blockChars_eq (depth + 1) block inner,
      ← elseIfsChars_eq depth rest others closing, branchesChars_cons, opening_eq]
    simp only [List.append_assoc, List.cons_append, List.nil_append]
theorem elseIfsChars_eq {p : Text → Bool} (depth : Nat) : (branches : List (Condition Expr × List Stmt)) →
    areShapedBranches p branches = true → {last : List Text} → {tail : Text} →
    linesChars last = indentChars depth ++ '\x7d' :: tail →
    indentChars depth ++ '\x7d' :: (elseIfsChars depth branches ++ tail) =
      linesChars (elseIfLines depth last branches)
  | [], _, last, tail, closing => by
    rw [elseIfLines, closing]
    rfl
  | (condition, block) :: rest, shaped, last, tail, closing => by
    obtain ⟨_, inner, others⟩ := areShapedBranches_cons.mp shaped
    rw [elseIfLines, linesChars_cons, linesChars_append, ← blockChars_eq (depth + 1) block inner,
      ← elseIfsChars_eq depth rest others closing, elseIfsChars_cons, opening_eq]
    simp only [List.append_assoc, List.cons_append, List.nil_append]
theorem blockChars_eq {p : Text → Bool} (depth : Nat) : (block : List Stmt) → areShaped p block = true →
    blockChars depth block = linesChars (blockLines depth block)
  | [], _ => rfl
  | s :: rest, shaped => by
    obtain ⟨first, others⟩ := Bool.and_eq_true_iff.mp shaped
    rw [blockChars, blockLines, linesChars_append, chars_eq depth s first,
      blockChars_eq depth rest others]
end

/-! ### What the lines are -/

theorem lead_indentChars (depth : Nat) (rest : Text) :
    lead (indentChars depth ++ rest) = lead rest := by
  unfold indentChars
  induction 4 * depth with
  | zero => rfl
  | succ n ih => rw [List.replicate_succ, List.cons_append, lead_space, ih]

theorem inert_indentChars (depth : Nat) : Inert (indentChars depth) := by
  intro c mem
  rw [(List.mem_replicate.mp mem).2]
  decide

theorem quietLine_indent {text : Text} (clean : Clean text) (other : lead text ∉ declarationWords)
    (depth : Nat) : QuietLine (indentChars depth ++ text) :=
  ⟨clean_append (inert_indentChars depth).clean clean, by rwa [lead_indentChars]⟩

theorem inert_initialChars {value : Option Expr} (named : value.all (·.allNames isSpelled) = true) :
    Inert (initialChars value) := by
  cases value with
  | none => exact inert_nil
  | some e =>
    exact (inert_of_all (by decide)).append (e.inert_chars named)

theorem inert_of_isSpelled {name : Text} (spelled : isSpelled name = true) : Inert name :=
  inert_of_identifiers (List.all_eq_true.mp spelled)

theorem inert_declare {ty : DataType} {name : String} {value : Option Expr}
    (shaped : (declare ty name value).isShaped isSpelled = true) :
    Inert (ty.name.toList ++ ' ' :: (name.toList ++ (initialChars value ++ [';']))) := by
  obtain ⟨spelled, initial⟩ := Bool.and_eq_true_iff.mp shaped
  exact (inert_of_isSpelled ty.isSpelled_name).append (.cons (by decide)
    ((inert_of_isSpelled spelled).append
      ((inert_initialChars initial).append (.cons (by decide) inert_nil))))

theorem assignOp_symbol_eq (op : AssignOp) : Inert op.symbol.toList ∧
    ∃ c others, op.symbol.toList = c :: others ∧ isBlank c = false ∧ isIdentifier c = false := by
  cases op <;> exact ⟨inert_of_all (by decide), _, _, rfl, by decide, by decide⟩

theorem inert_assign {target value : Expr} {op : AssignOp}
    (shaped : (assign target op value).isShaped isSpelled = true) :
    Inert (target.chars ++ ' ' :: (op.symbol.toList ++ ' ' :: (value.chars ++ [';']))) := by
  obtain ⟨left, right⟩ := Bool.and_eq_true_iff.mp shaped
  exact (target.inert_chars left).append (.cons (by decide) ((assignOp_symbol_eq op).1.append
    (.cons (by decide) ((value.inert_chars right).append (.cons (by decide) inert_nil)))))

theorem quietLine_close (depth : Nat) {rest : Text} (clean : Clean rest) :
    QuietLine (indentChars depth ++ '\x7d' :: rest) := by
  have closing : Clean ['\x7d'] := ⟨by decide, by decide⟩
  refine quietLine_indent (clean_append closing clean) ?_ depth
  show lead ('\x7d' :: rest) ∉ declarationWords
  rw [lead_sign (by decide) (by decide)]
  exact nil_notMem_declarationWords

theorem quietLine_open (depth : Nat) {condition : Condition Expr} (quiet : condition.isQuiet = true) :
    QuietLine (indentChars depth ++ ("if (".toList ++ (condition.chars ++ ") \x7b".toList))) := by
  have inert := Condition.inert_chars (Condition.all_mono Expr.allNames_of_isQuiet quiet)
  have word : ∀ c ∈ "if".toList, isIdentifier c = true := List.all_eq_true.mp (by decide)
  refine quietLine_indent (clean_append (clean_text (by decide) (by decide))
    (clean_append inert.clean (clean_text (by decide) (by decide)))) ?_ depth
  have begins := lead_word word (by decide) (by decide : isIdentifier ' ' = false)
    ('(' :: (condition.chars ++ ") \x7b".toList))
  have text : "if (".toList ++ (condition.chars ++ ") \x7b".toList) =
      "if".toList ++ ' ' :: '(' :: (condition.chars ++ ") \x7b".toList) := rfl
  rw [text, begins]
  decide

mutual
theorem quiet_lines (depth : Nat) : (s : Stmt) → s.isQuiet = true →
    ∀ l ∈ s.lines depth, QuietLine l
  | declare ty name value, quiet => by
    intro l mem
    obtain rfl := List.mem_singleton.mp mem
    have word := (isQuietName_iff.mp ty.quiet_name).1
    refine quietLine_indent (inert_declare (isShaped_of_isQuiet _ quiet)).clean ?_ depth
    rw [lead_word word (ty.toList_name_ne_nil) (by decide)]
    exact (isQuietName_iff.mp ty.quiet_name).2
  | assign target op value, quiet => by
    intro l mem
    obtain rfl := List.mem_singleton.mp mem
    obtain ⟨left, _⟩ := Bool.and_eq_true_iff.mp quiet
    obtain ⟨_, c, others, symbol, notBlank, sign⟩ := assignOp_symbol_eq op
    refine quietLine_indent (inert_assign (isShaped_of_isQuiet _ quiet)).clean ?_ depth
    rw [symbol]
    exact target.lead_chars left (stops_space notBlank sign _)
  | branch branches none, quiet => by
    obtain ⟨_, all⟩ := Bool.and_eq_true_iff.mp quiet
    refine quiet_branchLines depth branches all fun l mem => ?_
    obtain rfl := List.mem_singleton.mp mem
    exact quietLine_close depth ⟨by decide, by decide⟩
  | branch branches (some block), quiet => by
    obtain ⟨both, others⟩ := Bool.and_eq_true_iff.mp quiet
    obtain ⟨_, all⟩ := Bool.and_eq_true_iff.mp both
    refine quiet_branchLines depth branches all fun l mem => ?_
    rcases List.mem_cons.mp mem with rfl | mem
    · exact quietLine_close depth (clean_text (by decide) (by decide))
    · rcases List.mem_append.mp mem with mem | mem
      · exact quiet_blockLines (depth + 1) block others l mem
      · obtain rfl := List.mem_singleton.mp mem
        exact quietLine_close depth ⟨by decide, by decide⟩
  | discard, _ => by
    intro l mem
    obtain rfl := List.mem_singleton.mp mem
    exact quietLine_indent (clean_text (by decide) (by decide)) (by decide) depth
theorem quiet_branchLines (depth : Nat) : (branches : List (Condition Expr × List Stmt)) →
    areQuietBranches branches = true → {last : List Text} → (∀ l ∈ last, QuietLine l) →
    ∀ l ∈ branchLines depth last branches, QuietLine l
  | [], _, _, closing => closing
  | (condition, block) :: rest, quiet, last, closing => by
    obtain ⟨first, inner, others⟩ := areQuietBranches_cons.mp quiet
    intro l mem
    rcases List.mem_cons.mp mem with rfl | mem
    · exact quietLine_open depth first
    · rcases List.mem_append.mp mem with mem | mem
      · exact quiet_blockLines (depth + 1) block inner l mem
      · exact quiet_elseIfLines depth rest others closing l mem
theorem quiet_elseIfLines (depth : Nat) : (branches : List (Condition Expr × List Stmt)) →
    areQuietBranches branches = true → {last : List Text} → (∀ l ∈ last, QuietLine l) →
    ∀ l ∈ elseIfLines depth last branches, QuietLine l
  | [], _, _, closing => closing
  | (condition, block) :: rest, quiet, last, closing => by
    obtain ⟨first, inner, others⟩ := areQuietBranches_cons.mp quiet
    have inert := Condition.inert_chars (Condition.all_mono Expr.allNames_of_isQuiet first)
    intro l mem
    rcases List.mem_cons.mp mem with rfl | mem
    · exact quietLine_close depth (clean_append (clean_text (by decide) (by decide))
        (clean_append inert.clean (clean_text (by decide) (by decide))))
    · rcases List.mem_append.mp mem with mem | mem
      · exact quiet_blockLines (depth + 1) block inner l mem
      · exact quiet_elseIfLines depth rest others closing l mem
theorem quiet_blockLines (depth : Nat) : (block : List Stmt) → areQuiet block = true →
    ∀ l ∈ blockLines depth block, QuietLine l
  | [], _ => by
    intro l mem
    cases mem
  | s :: rest, quiet => by
    obtain ⟨first, others⟩ := Bool.and_eq_true_iff.mp quiet
    intro l mem
    rcases List.mem_append.mp mem with mem | mem
    · exact quiet_lines depth s first l mem
    · exact quiet_blockLines depth rest others l mem
end

/-! ### Braces of the lines -/

open SourceScan (braceDepth braceDepth_append depthAfter depthAfter_cons depthAfter_append)

theorem depthAfter_line {l : Text} (inert : Inert l) (depth d : Nat) :
    depthAfter d [indentChars depth ++ l] = some d := by
  rw [depthAfter_cons, ((inert_indentChars depth).append inert).braceDepth d]
  rfl

theorem braceDepth_close (depth d : Nat) (rest : Text) :
    braceDepth (d + 1) (indentChars depth ++ '\x7d' :: rest) = braceDepth d rest := by
  rw [braceDepth_append, (inert_indentChars depth).braceDepth]
  rfl

theorem braceDepth_open {condition : Condition Expr} (named : condition.all (·.allNames isSpelled) = true)
    {word : Text} (inert : Inert word) (d : Nat) :
    braceDepth d (word ++ (condition.chars ++ ") \x7b".toList)) = some (d + 1) := by
  have opening : braceDepth d ") \x7b".toList = some (d + 1) := rfl
  rw [braceDepth_append, inert.braceDepth, Option.bind_some, braceDepth_append,
    (Condition.inert_chars named).braceDepth, Option.bind_some, opening]

theorem inert_if : Inert "if (".toList ∧ Inert " else if (".toList :=
  ⟨inert_of_all (by decide), inert_of_all (by decide)⟩

mutual
theorem depthAfter_lines (depth : Nat) : (s : Stmt) → s.isShaped isSpelled = true → (d : Nat) →
    depthAfter d (s.lines depth) = some d
  | declare ty name value, shaped, d => depthAfter_line (inert_declare shaped) depth d
  | assign target op value, shaped, d => depthAfter_line (inert_assign shaped) depth d
  | branch branches none, shaped, d => by
    obtain ⟨nonempty, all⟩ := Bool.and_eq_true_iff.mp shaped
    refine depthAfter_branchLines depth branches all (by simpa using nonempty) (fun d => ?_) d
    rw [depthAfter_cons, braceDepth_close]
    rfl
  | branch branches (some block), shaped, d => by
    obtain ⟨both, others⟩ := Bool.and_eq_true_iff.mp shaped
    obtain ⟨nonempty, all⟩ := Bool.and_eq_true_iff.mp both
    refine depthAfter_branchLines depth branches all (by simpa using nonempty) (fun d => ?_) d
    have opening : braceDepth d " else \x7b".toList = some (d + 1) := rfl
    rw [depthAfter_cons, braceDepth_close, opening, Option.bind_some, depthAfter_append,
      depthAfter_blockLines (depth + 1) block others, Option.bind_some, depthAfter_cons,
      braceDepth_close]
    rfl
  | discard, _, d => depthAfter_line (inert_of_all (by decide)) depth d
theorem depthAfter_branchLines (depth : Nat) : (branches : List (Condition Expr × List Stmt)) →
    areShapedBranches isSpelled branches = true → branches ≠ [] → {last : List Text} →
    (∀ d, depthAfter (d + 1) last = some d) →
    (d : Nat) → depthAfter d (branchLines depth last branches) = some d
  | [], _, nonempty, _, _, _ => absurd rfl nonempty
  | (condition, block) :: rest, shaped, _, last, closing, d => by
    obtain ⟨first, inner, others⟩ := areShapedBranches_cons.mp shaped
    rw [branchLines, depthAfter_cons, braceDepth_append, (inert_indentChars depth).braceDepth,
      Option.bind_some, braceDepth_open first inert_if.1, Option.bind_some, depthAfter_append,
      depthAfter_blockLines (depth + 1) block inner, Option.bind_some]
    exact depthAfter_elseIfLines depth rest others closing d
theorem depthAfter_elseIfLines (depth : Nat) : (branches : List (Condition Expr × List Stmt)) →
    areShapedBranches isSpelled branches = true → {last : List Text} →
    (∀ d, depthAfter (d + 1) last = some d) →
    (d : Nat) → depthAfter (d + 1) (elseIfLines depth last branches) = some d
  | [], _, _, closing, d => closing d
  | (condition, block) :: rest, shaped, last, closing, d => by
    obtain ⟨first, inner, others⟩ := areShapedBranches_cons.mp shaped
    rw [elseIfLines, depthAfter_cons, braceDepth_close, braceDepth_open first inert_if.2,
      Option.bind_some, depthAfter_append, depthAfter_blockLines (depth + 1) block inner,
      Option.bind_some]
    exact depthAfter_elseIfLines depth rest others closing d
theorem depthAfter_blockLines (depth : Nat) : (block : List Stmt) → areShaped isSpelled block = true →
    (d : Nat) → depthAfter d (blockLines depth block) = some d
  | [], _, _ => rfl
  | s :: rest, shaped, d => by
    obtain ⟨first, others⟩ := Bool.and_eq_true_iff.mp shaped
    rw [blockLines, depthAfter_append, depthAfter_lines depth s first, Option.bind_some]
    exact depthAfter_blockLines depth rest others d
end

end Stmt

end ShaderComposer
