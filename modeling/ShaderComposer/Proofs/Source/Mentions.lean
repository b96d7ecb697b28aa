import ShaderComposer.Proofs.Glsl.Words

/-!
# What a body mentions

A backend gives no location to a variable that no line mentions outside declarations. Declarations
begin with a qualifier, and a block of statements whose names are no qualifiers has none among its
words. So it mentions exactly the words of its tree, and a stage mentions those and what it mentions
without a body (`Stmt.mentions_iff_mem_words`).
-/

namespace ShaderComposer

open SourceScan (Text isIdentifier isBlank isDeclaration lines linesFrom mentions qualifiers tokens)

/-! ### Lines -/

theorem freeWords_endedLine (before : Text) :
    freeWords (SourceScan.endedLine before) = freeWords before.reverse := by
  unfold SourceScan.endedLine
  split
  · rw [List.reverse_cons, freeWords_cut (by decide), freeWords_nil, List.append_nil]
  · rfl

theorem freeWords_linesFrom (before text : Text) :
    (linesFrom before text).flatMap freeWords = freeWords (before.reverse ++ text) := by
  induction text generalizing before with
  | nil =>
    cases before with
    | nil => rfl
    | cons c before => simp [linesFrom]
  | cons c text ih =>
    rw [linesFrom]
    split
    · next feed =>
      rw [feed, freeWords_cut (by decide), List.flatMap_cons, freeWords_endedLine, ih]
      rfl
    · rw [ih, List.reverse_cons, List.append_assoc, List.singleton_append]

theorem freeWords_lines (text : Text) : (lines text).flatMap freeWords = freeWords text :=
  freeWords_linesFrom [] text

/-! ### Declarations -/

theorem isFreeWord_of_mem_qualifiers {q : Text} (mem : q ∈ qualifiers) : isFreeWord q = true := by
  have free : qualifiers.all isFreeWord = true := by decide
  exact List.all_eq_true.mp free q mem

theorem freeWords_trimStart (line : Text) :
    freeWords (SourceScan.trimStart line) = freeWords line := by
  induction line with
  | nil => rfl
  | cons c line ih =>
    unfold SourceScan.trimStart at ih ⊢
    cases blank : isBlank c with
    | false => rw [List.dropWhile_cons_of_neg (by simp [blank])]
    | true =>
      have stop : isIdentifier c = false := by
        cases identifier : isIdentifier c with
        | false => rfl
        | true => exact blank.symm.trans (isBlank_of_isIdentifier identifier)
      rw [List.dropWhile_cons_of_pos blank, ih, freeWords_cons stop]

/-- A declaration has its qualifier among its words. -/
theorem exists_qualifier_of_isDeclaration {line : Text} (declares : isDeclaration line = true) :
    ∃ q ∈ qualifiers, q ∈ freeWords line := by
  obtain ⟨q, known, found⟩ := List.any_eq_true.mp declares
  obtain ⟨rest, after⟩ := Option.isSome_iff_exists.mp found
  have spelled : isSpelled q = true :=
    List.all_eq_true.mpr (SourceScan.word_of_mem_qualifiers q known)
  refine ⟨q, known, ?_⟩
  rw [← freeWords_trimStart, SourceScan.eq_of_after? after, List.append_assoc,
    List.singleton_append, freeWords_cut (by decide), freeWords_of_isSpelled spelled]
  simp [isFreeWord_of_mem_qualifiers known]

/-- A text without qualifiers declares nothing, so it mentions its words. -/
theorem mentions_iff_mem_freeWords {text name : Text} (free : isFreeWord name = true)
    (apart : ∀ q ∈ qualifiers, q ∉ freeWords text) :
    mentions name text = true ↔ name ∈ freeWords text := by
  have plain : ∀ l ∈ lines text, isDeclaration l = false := by
    intro l mem
    cases declares : isDeclaration l with
    | false => rfl
    | true =>
      obtain ⟨q, known, inside⟩ := exists_qualifier_of_isDeclaration declares
      refine absurd ?_ (apart q known)
      rw [← freeWords_lines]
      exact List.mem_flatMap.mpr ⟨l, mem, inside⟩
  rw [← freeWords_lines, List.mem_flatMap, mentions, List.any_eq_true]
  refine exists_congr fun l => and_congr_right fun mem => ?_
  rw [plain l mem, mem_freeWords_iff free]
  simp

/-! ### Stages -/

theorem mentions_append_lineFeed (name text rest : Text) :
    mentions name (text ++ '\n' :: rest) =
      (mentions name (text ++ ['\n']) || mentions name rest) := by
  rw [mentions, lines, SourceScan.linesFrom_append_lineFeed, List.any_append]
  rfl

/-- A line ends right before the body. -/
theorem Registry.exists_front (r : Registry) :
    ∃ front, ∀ body, r.chars body = front ++ '\n' :: (body ++ ['\x7d', '\n']) := by
  refine ⟨linesChars ((header r.stage).toList :: r.directives.map String.toList ++
      r.precisions.map fun p => (precisionLine p).toList) ++
    (sections.flatMap (fun q => blockChars ((r.withQualifier q).map Variable.chars)) ++
      (r.helpers.flatMap (fun f => blockChars [f.text.toList]) ++ "\nvoid main() \x7b".toList)),
    fun body => ?_⟩
  have opening : "\nvoid main() \x7b\n".toList = "\nvoid main() \x7b".toList ++ ['\n'] := by decide
  rw [chars, opening]
  simp only [List.append_assoc, List.singleton_append]

/-- Nothing but letters, digits and underscores, and no qualifier. -/
def isOrdinary (word : Text) : Bool := isSpelled word && !qualifiers.contains word

theorem Builtin.isOrdinary_name (f : Builtin) : isOrdinary f.name.toList = true := by
  cases f <;> decide

theorem DataType.isOrdinary_name (ty : DataType) : isOrdinary ty.name.toList = true := by
  cases ty <;> decide

namespace Stmt

variable {block : List Stmt} (named : allNames isOrdinary block = true)

include named in
theorem ordinary_words : ∀ w ∈ words block, isOrdinary w = true :=
  forall_words Builtin.isOrdinary_name DataType.isOrdinary_name named

include named in
/-- The free words of a printed block before something silent are those of its tree. -/
theorem freeWords_renderBlock (depth : Nat) {closing : Text} (silent : freeWords closing = []) :
    freeWords ((renderBlock depth block).toList ++ closing) =
      (words block).filter isFreeWord := by
  have spelled : ∀ w ∈ words block, isSpelled w = true :=
    fun w mem => (Bool.and_eq_true_iff.mp (ordinary_words named w mem)).1
  rw [toList_renderBlock, freeWords_blockChars depth block spelled, silent, List.append_nil]
  rfl

include named in
theorem mentions_renderBlock {name : Text} (free : isFreeWord name = true) (depth : Nat)
    {closing : Text} (silent : freeWords closing = []) :
    mentions name ((renderBlock depth block).toList ++ closing) = true ↔ name ∈ words block := by
  have all := freeWords_renderBlock named depth silent
  rw [mentions_iff_mem_freeWords free, all, List.mem_filter]
  · exact and_iff_left free
  · intro q known mem
    rw [all] at mem
    have other := ordinary_words named q (List.mem_filter.mp mem).1
    simp [isOrdinary, known] at other

/-- A name other than those that statements and truth values are written with is a piece of a
printed block, and is mentioned by it, exactly if it is a word of the tree. A stage with that body
mentions what it mentions without, and the words of the tree. -/
theorem mentions_iff_mem_words (named : allNames isOrdinary block = true) {name : Text}
    (free : isFreeWord name = true) (depth : Nat) :
    (name ∈ tokens (renderBlock depth block).toList ↔ name ∈ words block) ∧
    (mentions name (renderBlock depth block).toList = true ↔ name ∈ words block) ∧
    ∀ r : Registry, (mentions name (r.source (renderBlock depth block)).text.toList = true ↔
      mentions name (r.source "").text.toList = true ∨ name ∈ words block) := by
  have all := freeWords_renderBlock named depth freeWords_nil
  have whole := mentions_renderBlock named free depth freeWords_nil
  rw [List.append_nil] at all whole
  refine ⟨?_, whole, fun r => ?_⟩
  · rw [← mem_freeWords_iff free, all, List.mem_filter]
    exact and_iff_left free
  · -- the brace that closes `main()` follows the body on its last line
    have closing : freeWords ['\x7d', '\n'] = [] := by decide
    have closed := mentions_renderBlock named free depth closing
    have empty : mentions name ("".toList ++ ['\x7d', '\n']) = true ↔ name ∈ words [] :=
      mentions_renderBlock (rfl : allNames isOrdinary [] = true) free depth closing
    obtain ⟨front, text⟩ := r.exists_front
    have stage (body : String) : mentions name (r.source body).text.toList =
        (mentions name (front ++ ['\n']) || mentions name (body.toList ++ ['\x7d', '\n'])) := by
      rw [← mentions_append_lineFeed, ← text]
      exact congrArg (mentions name) (r.toList_render body)
    rw [stage, stage, Bool.or_eq_true, Bool.or_eq_true, closed, empty]
    simp [words, gatherAll]

/-- A local with the smallest value, `1e-45`, that a conditional compares with a component. -/
def smallest : List Stmt :=
  let e45 : Expr := .var "e45" (some .float)
  [.declare .float "e45" (some (.float ⟨1⟩)),
    .branch [(.compare (.swizzle (.var "lowp" (some .vec2)) "x") .lt e45, [.discard])]
      (some [.assign e45 .set (.negate e45)])]

theorem mentions_iff_mem_words_smallest :
    mentions "e45".toList (renderBlock 1 smallest).toList = true ∧
    ¬ mentions ['e'] (renderBlock 1 smallest).toList = true ∧
    ¬ mentions ['e'] ((Registry.empty .fragment).source (renderBlock 1 smallest)).text.toList =
      true := by
  have named : allNames isOrdinary smallest = true := by decide
  have same := mentions_iff_mem_words named (by decide : isFreeWord "e45".toList = true) 1
  have other := mentions_iff_mem_words named (by decide : isFreeWord ['e'] = true) 1
  refine ⟨same.2.1.mpr (by decide), fun mentioned => ?_, fun mentioned => ?_⟩
  · exact absurd (other.2.1.mp mentioned) (by decide)
  · exact ((other.2.2 _).mp mentioned).elim (by decide +kernel) (by decide)

end Stmt

end ShaderComposer
