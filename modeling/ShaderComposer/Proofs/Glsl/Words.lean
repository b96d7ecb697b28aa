import ShaderComposer.Proofs.Glsl.Lines
import ShaderComposer.Proofs.Script.Checking

/-!
# Words of printed texts

A text is cut into words at the characters that no identifier has. What is printed for a tree has
such a character wherever two names meet, and the digits, points and exponents of constants never
look like a name. So the words of a printed block, those that statements and truth values are
written with apart, are the words of the tree, one by one (`Stmt.freeWords_blockChars`).
-/

namespace ShaderComposer

open SourceScan (Text isIdentifier tokens)
open Numeral (EndsWord endsWord_cons exponentText fractionText)

/-! ### Free words -/

/-- The words that statements and truth values are written with. -/
def fixedWords : List Text :=
  ["if".toList, "else".toList, "discard".toList, "true".toList, "false".toList]

/-- An identifier that no statement and no truth value is written with. -/
def isFreeWord (word : Text) : Bool := isWord word && !fixedWords.contains word

/-- The free words of a text, in order. -/
def freeWords (text : Text) : List Text := (tokens text).filter isFreeWord

theorem mem_freeWords_iff {word text : Text} (free : isFreeWord word = true) :
    word ∈ freeWords text ↔ word ∈ tokens text := by
  simp [freeWords, free]

theorem freeWords_nil : freeWords [] = [] := rfl

theorem freeWords_cut {c : Char} (stop : isIdentifier c = false) (first second : Text) :
    freeWords (first ++ c :: second) = freeWords first ++ freeWords second := by
  have separates : (!isIdentifier c) = true := by simp [stop]
  rw [freeWords, tokens, SourceScan.splitOn_cut separates, List.filter_append]
  rfl

theorem freeWords_cons {c : Char} (stop : isIdentifier c = false) (text : Text) :
    freeWords (c :: text) = freeWords text :=
  freeWords_cut stop [] text

/-- Texts are read apart where the second does not go on with an identifier. -/
theorem freeWords_append {second : Text} (ends : EndsWord second) (first : Text) :
    freeWords (first ++ second) = freeWords first ++ freeWords second := by
  cases second with
  | nil => rw [List.append_nil, freeWords_nil, List.append_nil]
  | cons c second =>
    have stop := ends c rfl
    rw [freeWords_cut stop, freeWords_cons stop]

theorem freeWords_of_isSpelled {word : Text} (spelled : isSpelled word = true) :
    freeWords word = [word].filter isFreeWord := by
  have plain : ∀ c ∈ word, (!isIdentifier c) = false := by
    intro c mem
    simp [List.all_eq_true.mp spelled c mem]
  rw [freeWords, tokens, SourceScan.splitOn_plain plain]

/-- The text has no free word, and none begins with its end. -/
def isSilent (text : Text) : Bool :=
  (freeWords text).isEmpty && text.getLast?.all fun c => !isIdentifier c

theorem freeWords_silent {text : Text} (silent : isSilent text = true) (rest : Text) :
    freeWords (text ++ rest) = freeWords rest := by
  obtain ⟨none, last⟩ := Bool.and_eq_true_iff.mp silent
  rw [List.isEmpty_iff] at none
  rcases List.eq_nil_or_concat text with rfl | ⟨start, c, rfl⟩
  · rfl
  · have stop : isIdentifier c = false := by simpa using last
    rw [List.concat_eq_append, freeWords_cut stop] at none
    rw [List.concat_eq_append, List.append_assoc, List.singleton_append, freeWords_cut stop,
      (List.append_eq_nil_iff.mp none).1, List.nil_append]

/-! ### Constants -/

/-- What begins with a digit is no name. -/
theorem freeWords_of_digit {c : Char} (digit : c.isDigit = true) {rest : Text}
    (spelled : isSpelled rest = true) : freeWords (c :: rest) = [] := by
  have all : isSpelled (c :: rest) = true := by
    rw [isSpelled, List.all_cons, Numeral.isIdentifier_of_isDigit digit, Bool.true_and]
    exact spelled
  rw [freeWords_of_isSpelled all, List.filter_eq_nil_iff]
  intro word mem
  obtain rfl := List.mem_singleton.mp mem
  simp [isFreeWord, isWord, digit]

theorem freeWords_digits {digits : Text} (all : ∀ c ∈ digits, c.isDigit = true) :
    freeWords digits = [] := by
  cases digits with
  | nil => rfl
  | cons c digits =>
    exact freeWords_of_digit (all c List.mem_cons_self)
      (isSpelled_digits fun d mem => all d (List.mem_cons_of_mem c mem))

/-- An exponent after digits is no name either: the letter goes with the digits before it. -/
theorem freeWords_exponent {digits : Text} (all : ∀ c ∈ digits, c.isDigit = true)
    (nonempty : digits ≠ []) (e : Option Int) : freeWords (digits ++ exponentText e) = [] := by
  obtain ⟨c, digits, rfl⟩ := List.exists_cons_of_ne_nil nonempty
  have digit := all c List.mem_cons_self
  have spelled := isSpelled_digits fun d mem => all d (List.mem_cons_of_mem c mem)
  have marked {power : Text} (written : isSpelled power = true) :
      freeWords (c :: (digits ++ 'e' :: power)) = [] := by
    refine freeWords_of_digit digit ?_
    rw [isSpelled] at spelled written ⊢
    rw [List.all_append, List.all_cons, spelled, written]
    rfl
  cases e with
  | none =>
    rw [exponentText, List.append_nil]
    exact freeWords_of_digit digit spelled
  | some n =>
    rw [exponentText, List.cons_append]
    rcases Int.lt_or_le n 0 with negative | nonneg
    -- the minus cuts the text: the letter stays with the digits before it
    · have text : c :: (digits ++ 'e' :: '-' :: Nat.toDigits 10 (-n).toNat) =
          c :: (digits ++ ['e']) ++ '-' :: Nat.toDigits 10 (-n).toNat := by simp
      rw [Numeral.toList_toString_of_neg negative, text, freeWords_cut (by decide), marked rfl,
        freeWords_digits Numeral.isDigit_of_mem_toDigits, List.append_nil]
    · rw [Numeral.toList_toString_of_nonneg nonneg]
      exact marked (isSpelled_digits Numeral.isDigit_of_mem_toDigits)

/-- No exponent comes right after the point. -/
def Numeral.Parted (n : Numeral) : Prop := n.fraction = some [] → n.exponent = none

theorem Numeral.freeWords_text {n : Numeral} (digital : n.Digital) (whole : n.whole ≠ [])
    (parted : n.Parted) : freeWords n.text = [] := by
  rw [text]
  cases written : n.fraction with
  | none => exact freeWords_exponent digital.whole whole n.exponent
  | some fraction =>
    have all := digital.fraction fraction written
    rw [fractionText, List.cons_append, freeWords_cut (by decide), freeWords_digits digital.whole,
      List.nil_append]
    by_cases empty : fraction = []
    · rw [parted (written.trans (congrArg some empty)), empty]
      rfl
    · exact freeWords_exponent all empty n.exponent

namespace FloatLiteral

theorem parted_positional (digits : Text) (point : Int) :
    (positionalNumeral digits point).Parted := by
  unfold positionalNumeral
  split
  · exact fun _ => rfl
  · split <;> exact fun _ => rfl

theorem parted_scientific (digits : Text) (exponent : Int) :
    (scientificNumeral digits exponent).Parted := by
  intro empty
  unfold scientificNumeral at empty
  dsimp only at empty
  split at empty
  · cases empty
  · next nonempty =>
    rw [Option.some.inj empty] at nonempty
    exact absurd rfl nonempty

theorem parted_numeral (x : Single) : (numeral x).Parted := by
  unfold numeral
  split
  · exact fun _ => rfl
  · unfold decimalNumeral
    dsimp only
    split
    · exact parted_positional _ _
    · exact parted_scientific _ _

theorem freeWords_magnitude (x : Single) : freeWords (magnitude x) = [] := by
  rw [magnitude_eq_text]
  exact Numeral.freeWords_text (digital_numeral x) (whole_numeral_ne_nil x) (parted_numeral x)

end FloatLiteral

theorem Literal.freeWords_chars (l : Literal) : freeWords l.chars = [] := by
  cases l with
  | float v =>
    rw [chars]
    split
    · split
      · rw [List.singleton_append, freeWords_cons (by decide), FloatLiteral.freeWords_magnitude]
      · exact FloatLiteral.freeWords_magnitude v
    · decide
  | int v =>
    rw [chars]
    rcases Int.lt_or_le v 0 with negative | nonneg
    · rw [Numeral.toList_toString_of_neg negative, freeWords_cons (by decide)]
      exact freeWords_digits Numeral.isDigit_of_mem_toDigits
    · rw [Numeral.toList_toString_of_nonneg nonneg]
      exact freeWords_digits Numeral.isDigit_of_mem_toDigits
  | bool v => cases v <;> decide

example : freeWords "e45 < -1.5e-45".toList = ["e45".toList] := by
  decide

/-! ### Expressions -/

theorem freeWords_parenthesizedChars (needed : Bool) (text : Text) :
    freeWords (parenthesizedChars needed text) = freeWords text := by
  unfold parenthesizedChars
  split
  · rw [freeWords_cons (by decide), freeWords_cut (by decide), freeWords_nil, List.append_nil]
  · rfl

theorem freeWords_joined {sign : Text} (silent : isSilent (' ' :: sign) = true)
    (first second : Text) :
    freeWords (first ++ ' ' :: (sign ++ ' ' :: second)) = freeWords first ++ freeWords second := by
  have rest := freeWords_silent silent (' ' :: second)
  rw [List.cons_append, freeWords_cons (by decide), freeWords_cons (by decide)] at rest
  rw [freeWords_cut (by decide), rest]

theorem BinaryOp.silent_symbol (op : BinaryOp) : isSilent (' ' :: op.symbol.toList) = true := by
  cases op <;> decide

theorem Relation.silent_symbol (r : Relation) : isSilent (' ' :: r.symbol.toList) = true := by
  cases r <;> decide

theorem LogicOp.silent_symbol (op : LogicOp) : isSilent (' ' :: op.symbol.toList) = true := by
  cases op <;> decide

theorem AssignOp.silent_symbol (op : AssignOp) : isSilent (' ' :: op.symbol.toList) = true := by
  cases op <;> decide

namespace Expr

mutual
/-- The words that an expression is written with: names, selections, functions and types. The type
that is noted at a variable or an indexing is not written. -/
def words : Expr → List Text
  | var name _ => [name.toList]
  | literal _ => []
  | binary _ l r => l.words ++ r.words
  | negate e => e.words
  | swizzle b c => b.words ++ [c.toList]
  | index b i _ => b.words ++ i.words
  | call f as => f.name.toList :: argumentWords as
  | construct ty as => ty.name.toList :: argumentWords as
  | group e => e.words
def argumentWords : List Expr → List Text
  | [] => []
  | a :: as => a.words ++ argumentWords as
end

theorem endsWord_moreChars {as : List Expr} {rest : Text} (ends : EndsWord rest) :
    EndsWord (moreChars as ++ rest) := by
  cases as with
  | nil => exact ends
  | cons a as => exact endsWord_cons (by decide) _

theorem freeWords_call {name arguments : Text} (spelled : isSpelled name = true) {ws : List Text}
    (inner : freeWords (arguments ++ [')']) = ws.filter isFreeWord) :
    freeWords (name ++ '(' :: (arguments ++ [')'])) = (name :: ws).filter isFreeWord := by
  rw [freeWords_cut (by decide), freeWords_of_isSpelled spelled, inner, ← List.filter_append]
  rfl

mutual
/-- The free words of a printed expression are those of the tree. -/
theorem freeWords_chars : (e : Expr) → (∀ w ∈ e.words, isSpelled w = true) →
    freeWords e.chars = e.words.filter isFreeWord
  | var name _, spelled => freeWords_of_isSpelled (spelled name.toList List.mem_cons_self)
  | literal l, _ => l.freeWords_chars
  | binary op l r, spelled => by
    obtain ⟨left, right⟩ := List.forall_mem_append.mp spelled
    rw [chars, freeWords_joined op.silent_symbol, freeWords_parenthesizedChars,
      freeWords_parenthesizedChars, freeWords_chars l left, freeWords_chars r right, words,
      List.filter_append]
  | negate e, spelled => by
    rw [chars, freeWords_cons (by decide), freeWords_parenthesizedChars, freeWords_chars e spelled,
      words]
  | swizzle b c, spelled => by
    obtain ⟨base, selection⟩ := List.forall_mem_append.mp spelled
    rw [chars, freeWords_cut (by decide), freeWords_parenthesizedChars, freeWords_chars b base,
      freeWords_of_isSpelled (selection c.toList List.mem_cons_self), words, List.filter_append]
  | index b i _, spelled => by
    obtain ⟨base, place⟩ := List.forall_mem_append.mp spelled
    rw [chars, freeWords_cut (by decide), freeWords_parenthesizedChars, freeWords_chars b base,
      freeWords_cut (by decide), freeWords_chars i place, freeWords_nil, List.append_nil, words,
      List.filter_append]
  | call f as, spelled => by
    have inner := fun w mem => spelled w (List.mem_cons_of_mem _ mem)
    exact freeWords_call f.isSpelled_name (freeWords_argumentChars as inner)
  | construct ty as, spelled => by
    have inner := fun w mem => spelled w (List.mem_cons_of_mem _ mem)
    exact freeWords_call ty.isSpelled_name (freeWords_argumentChars as inner)
  | group e, spelled => by
    rw [chars, freeWords_cons (by decide), freeWords_cut (by decide), freeWords_chars e spelled,
      freeWords_nil, List.append_nil, words]
theorem freeWords_argumentChars : (as : List Expr) → (∀ w ∈ argumentWords as, isSpelled w = true) →
    freeWords (argumentChars as ++ [')']) = (argumentWords as).filter isFreeWord
  | [], _ => freeWords_cons (by decide) []
  | a :: as, spelled => by
    obtain ⟨first, others⟩ := List.forall_mem_append.mp spelled
    rw [argumentChars, List.append_assoc,
      freeWords_append (endsWord_moreChars (endsWord_cons (by decide) [])),
      freeWords_chars a first, freeWords_moreChars as others, argumentWords, List.filter_append]
theorem freeWords_moreChars : (as : List Expr) → (∀ w ∈ argumentWords as, isSpelled w = true) →
    freeWords (moreChars as ++ [')']) = (argumentWords as).filter isFreeWord
  | [], _ => freeWords_cons (by decide) []
  | a :: as, spelled => by
    obtain ⟨first, others⟩ := List.forall_mem_append.mp spelled
    rw [moreChars, List.cons_append, List.cons_append, List.append_assoc,
      freeWords_cons (by decide), freeWords_cons (by decide),
      freeWords_append (endsWord_moreChars (endsWord_cons (by decide) [])),
      freeWords_chars a first, freeWords_moreChars as others, argumentWords, List.filter_append]
end

mutual
/-- What functions and types have, and the names and selections of an expression, its words have. -/
theorem forall_words {p : Text → Bool} (functions : ∀ f : Builtin, p f.name.toList = true)
    (types : ∀ ty : DataType, p ty.name.toList = true) :
    (e : Expr) → e.allNames p = true → ∀ w ∈ e.words, p w = true
  | var name _, named => List.forall_mem_singleton.mpr named
  | literal _, _ => nofun
  | binary _ l r, named => by
    obtain ⟨left, right⟩ := Bool.and_eq_true_iff.mp named
    exact List.forall_mem_append.mpr
      ⟨forall_words functions types l left, forall_words functions types r right⟩
  | negate e, named => forall_words functions types e named
  | swizzle b c, named => by
    obtain ⟨base, selection⟩ := Bool.and_eq_true_iff.mp named
    exact List.forall_mem_append.mpr
      ⟨forall_words functions types b base, List.forall_mem_singleton.mpr selection⟩
  | index b i _, named => by
    obtain ⟨base, place⟩ := Bool.and_eq_true_iff.mp named
    exact List.forall_mem_append.mpr
      ⟨forall_words functions types b base, forall_words functions types i place⟩
  | call f as, named =>
    List.forall_mem_cons.mpr ⟨functions f, forall_argumentWords functions types as named⟩
  | construct ty as, named =>
    List.forall_mem_cons.mpr ⟨types ty, forall_argumentWords functions types as named⟩
  | group e, named => forall_words functions types e named
theorem forall_argumentWords {p : Text → Bool} (functions : ∀ f : Builtin, p f.name.toList = true)
    (types : ∀ ty : DataType, p ty.name.toList = true) :
    (as : List Expr) → argumentNames p as = true → ∀ w ∈ argumentWords as, p w = true
  | [], _ => nofun
  | a :: as, named => by
    obtain ⟨first, others⟩ := Bool.and_eq_true_iff.mp named
    exact List.forall_mem_append.mpr
      ⟨forall_words functions types a first, forall_argumentWords functions types as others⟩
end

end Expr

/-! ### Conditions -/

def Comparison.words (c : Comparison Expr) : List Text := c.operands.flatMap Expr.words

def Condition.words (c : Condition Expr) : List Text := c.operands.flatMap Expr.words

theorem Comparison.words_eq (c : Comparison Expr) : c.words = c.lhs.words ++ c.rhs.words := by
  simp [words, operands]

theorem Comparison.freeWords_chars {c : Comparison Expr}
    (spelled : ∀ w ∈ c.words, isSpelled w = true) :
    freeWords c.chars = c.words.filter isFreeWord := by
  rw [words_eq] at spelled ⊢
  obtain ⟨left, right⟩ := List.forall_mem_append.mp spelled
  rw [chars, freeWords_joined c.relation.silent_symbol, c.lhs.freeWords_chars left,
    c.rhs.freeWords_chars right, List.filter_append]

/-- The comparisons that are joined to the first, as they are printed after it. -/
theorem Condition.endsWord_rest (rest : List (LogicOp × Comparison Expr)) :
    EndsWord (rest.flatMap fun (op, comparison) =>
      ' ' :: (op.symbol.toList ++ ' ' :: comparison.chars)) := by
  cases rest with
  | nil => nofun
  | cons _ _ => exact endsWord_cons (by decide) _

theorem Condition.freeWords_rest (rest : List (LogicOp × Comparison Expr))
    (spelled : ∀ w ∈ rest.flatMap (·.2.words), isSpelled w = true) :
    freeWords (rest.flatMap fun (op, comparison) =>
      ' ' :: (op.symbol.toList ++ ' ' :: comparison.chars)) =
        (rest.flatMap (·.2.words)).filter isFreeWord := by
  induction rest with
  | nil => rfl
  | cons joined rest ih =>
    obtain ⟨first, others⟩ := List.forall_mem_append.mp (List.flatMap_cons ▸ spelled)
    have here := freeWords_joined joined.1.silent_symbol [] joined.2.chars
    rw [List.flatMap_cons, freeWords_append (endsWord_rest rest), ih others, List.flatMap_cons, List.filter_append,
      ← Comparison.freeWords_chars first]
    exact congrArg (· ++ _) here

theorem Condition.freeWords_chars {c : Condition Expr}
    (spelled : ∀ w ∈ c.words, isSpelled w = true) :
    freeWords c.chars = c.words.filter isFreeWord := by
  have split : c.words = c.first.words ++ c.rest.flatMap (·.2.words) := by
    simp [words, operands, comparisons, Comparison.words, List.flatMap_assoc, List.flatMap_map]
  rw [split] at spelled ⊢
  obtain ⟨first, others⟩ := List.forall_mem_append.mp spelled
  rw [chars, freeWords_append (endsWord_rest c.rest), Comparison.freeWords_chars first,
    freeWords_rest _ others, List.filter_append]

/-! ### Statements -/

namespace Stmt

def simpleWords : Stmt → List Text
  | declare ty name value => ty.name.toList :: name.toList :: value.toList.flatMap Expr.words
  | assign target _ value => target.words ++ value.words
  | branch _ _ | discard => []

/-- The words of a block at any depth: variables, locals, selections, types and functions. -/
def words (block : List Stmt) : List Text := gatherAll simpleWords Condition.words block

/-- Every name, also of a local, and every selection at any depth has a property. -/
def allNames (p : Text → Bool) (block : List Stmt) : Bool :=
  (expressions block).all (·.allNames p) && (locals block).all (p ·.toList)

/-- What functions and types have, and the names and selections of a block, its words have. -/
theorem forall_words {p : Text → Bool} (functions : ∀ f : Builtin, p f.name.toList = true)
    (types : ∀ ty : DataType, p ty.name.toList = true) {block : List Stmt}
    (named : allNames p block = true) : ∀ w ∈ words block, p w = true := by
  obtain ⟨all, plain⟩ := Bool.and_eq_true_iff.mp named
  have inside {e : Expr} (mem : e ∈ expressions block) : ∀ w ∈ e.words, p w = true :=
    e.forall_words functions types (List.all_eq_true.mp all e mem)
  intro w mem
  rcases (mem_gatherAll block).mp mem with ⟨s, leaf, here⟩ | ⟨c, guard, here⟩
  · have operand {e : Expr} (mem : e ∈ s.operands) : e ∈ expressions block :=
      (mem_gatherAll block).mpr (Or.inl ⟨s, leaf, mem⟩)
    cases s with
    | declare ty name value =>
      have named : name ∈ locals block :=
        (mem_gatherAll block).mpr (Or.inl ⟨_, leaf, List.mem_singleton_self name⟩)
      rcases List.mem_cons.mp here with rfl | here
      · exact types ty
      · rcases List.mem_cons.mp here with rfl | here
        · exact List.all_eq_true.mp plain name named
        · obtain ⟨e, known, here⟩ := List.mem_flatMap.mp here
          exact inside (operand known) w here
    | assign target op value =>
      rcases List.mem_append.mp here with here | here
      · exact inside (operand List.mem_cons_self) w here
      · exact inside (operand (List.mem_cons_of_mem _ List.mem_cons_self)) w here
    | branch | discard => cases here
  · obtain ⟨e, known, here⟩ := List.mem_flatMap.mp here
    exact inside ((mem_gatherAll block).mpr (Or.inr ⟨c, guard, known⟩)) w here

theorem freeWords_indentChars (depth : Nat) (rest : Text) :
    freeWords (indentChars depth ++ rest) = freeWords rest := by
  unfold indentChars
  induction 4 * depth with
  | zero => rfl
  | succ n ih => rw [List.replicate_succ, List.cons_append, freeWords_cons (by decide), ih]

theorem endsWord_initialChars (value : Option Expr) (rest : Text) :
    EndsWord (initialChars value ++ (";\n".toList ++ rest)) := by
  cases value with
  | none => exact endsWord_cons (c := ';') (by decide) _
  | some e => exact endsWord_cons (c := ' ') (by decide) _

theorem freeWords_initialChars {value : Option Expr}
    (spelled : ∀ w ∈ value.toList.flatMap Expr.words, isSpelled w = true) (rest : Text) :
    freeWords (initialChars value ++ (";\n".toList ++ rest)) =
      (value.toList.flatMap Expr.words).filter isFreeWord ++ freeWords rest := by
  cases value with
  | none => exact freeWords_silent (by decide) rest
  | some e =>
    have ends : EndsWord (";\n".toList ++ rest) := endsWord_initialChars none rest
    have same : (some e).toList.flatMap Expr.words = e.words := List.append_nil _
    rw [same] at spelled ⊢
    rw [initialChars, List.append_assoc, freeWords_silent (by decide), freeWords_append ends,
      e.freeWords_chars spelled, freeWords_silent (by decide)]

theorem freeWords_close (depth : Nat) (rest : Text) :
    freeWords (indentChars depth ++ '\x7d' :: rest) = freeWords rest := by
  rw [freeWords_indentChars, freeWords_cons (by decide)]

/-- A branch between its opening and the brace that closes it, if the words of its block are
known. -/
theorem freeWords_branch {opening : Text} (silent : isSilent opening = true)
    {condition : Condition Expr} (spelled : ∀ w ∈ condition.words, isSpelled w = true)
    {block : Text} {ws : List Text}
    (inner : ∀ rest, freeWords (block ++ rest) = ws.filter isFreeWord ++ freeWords rest)
    (depth : Nat) (rest : Text) :
    freeWords (opening ++ (condition.chars ++ (") \x7b\n".toList ++
      (block ++ (indentChars depth ++ '\x7d' :: rest))))) =
        (condition.words ++ ws).filter isFreeWord ++ freeWords rest := by
  have ends (rest : Text) : EndsWord (") \x7b\n".toList ++ rest) :=
    endsWord_cons (c := ')') (by decide) _
  rw [freeWords_silent silent, freeWords_append (ends _), Condition.freeWords_chars spelled,
    freeWords_silent (by decide), inner, freeWords_close, List.filter_append, List.append_assoc]

-- A statement ends with a sign, so the words of what follows come after its own, whatever that is.
mutual
theorem freeWords_chars (depth : Nat) : (s : Stmt) →
    (∀ w ∈ s.gather simpleWords Condition.words, isSpelled w = true) → (rest : Text) →
    freeWords (s.chars depth ++ rest) =
      (s.gather simpleWords Condition.words).filter isFreeWord ++ freeWords rest
  | declare ty name value, spelled, rest => by
    have named : isSpelled name.toList = true :=
      spelled _ (List.mem_cons_of_mem _ List.mem_cons_self)
    have initial : ∀ w ∈ value.toList.flatMap Expr.words, isSpelled w = true :=
      fun w mem => spelled w (List.mem_cons_of_mem _ (List.mem_cons_of_mem _ mem))
    have text : (declare ty name value).chars depth ++ rest = indentChars depth ++
        (ty.name.toList ++ ' ' :: (name.toList ++ (initialChars value ++ (";\n".toList ++ rest)))) := by
      simp [chars]
    rw [text, freeWords_indentChars, freeWords_cut (by decide),
      freeWords_append (endsWord_initialChars value rest), freeWords_initialChars initial,
      freeWords_of_isSpelled ty.isSpelled_name, freeWords_of_isSpelled named, ← List.append_assoc,
      ← List.append_assoc, ← List.filter_append, ← List.filter_append]
    rfl
  | assign target op value, spelled, rest => by
    obtain ⟨left, right⟩ := List.forall_mem_append.mp spelled
    have text : (assign target op value).chars depth ++ rest =
        indentChars depth ++ (target.chars ++ ' ' :: (op.symbol.toList ++
          ' ' :: (value.chars ++ (";\n".toList ++ rest)))) := by
      simp [chars]
    have ends : EndsWord (";\n".toList ++ rest) := endsWord_initialChars none rest
    rw [text, freeWords_indentChars, freeWords_joined op.silent_symbol,
      target.freeWords_chars left, freeWords_append ends, value.freeWords_chars right,
      freeWords_silent (by decide), ← List.append_assoc, ← List.filter_append]
    rfl
  | branch branches none, spelled, rest => by
    simp only [chars, List.append_assoc]
    rw [freeWords_indentChars, freeWords_branchesChars depth branches spelled,
      freeWords_silent (by decide)]
    rfl
  | branch branches (some block), spelled, rest => by
    obtain ⟨guarded, otherwise⟩ := List.forall_mem_append.mp spelled
    have text : (branch branches (some block)).chars depth ++ rest =
        indentChars depth ++ (branchesChars depth branches ++ (" else \x7b\n".toList ++
          (blockChars (depth + 1) block ++ (indentChars depth ++ '\x7d' :: '\n' :: rest)))) := by
      simp [chars]
    rw [text, freeWords_indentChars, freeWords_branchesChars depth branches guarded,
      freeWords_silent (by decide), freeWords_blockChars (depth + 1) block otherwise,
      freeWords_close, freeWords_cons (by decide), ← List.append_assoc, ← List.filter_append]
    rfl
  | discard, _, rest => by
    rw [chars, List.append_assoc, freeWords_indentChars, freeWords_silent (by decide)]
    rfl
theorem freeWords_branchesChars (depth : Nat) : (branches : List (Condition Expr × List Stmt)) →
    (∀ w ∈ gatherBranches simpleWords Condition.words branches, isSpelled w = true) →
    (rest : Text) → freeWords (branchesChars depth branches ++ rest) =
      (gatherBranches simpleWords Condition.words branches).filter isFreeWord ++ freeWords rest
  | [], _, _ => rfl
  | (condition, block) :: others, spelled, rest => by
    obtain ⟨guard, inner⟩ := List.forall_mem_append.mp spelled
    obtain ⟨here, later⟩ := List.forall_mem_append.mp inner
    rw [branchesChars_cons]
    simp only [List.append_assoc, List.cons_append]
    rw [freeWords_branch (by decide) guard (freeWords_blockChars (depth + 1) block here),
      freeWords_elseIfsChars depth others later, gatherBranches, ← List.append_assoc,
      ← List.append_assoc, ← List.filter_append]
theorem freeWords_elseIfsChars (depth : Nat) : (branches : List (Condition Expr × List Stmt)) →
    (∀ w ∈ gatherBranches simpleWords Condition.words branches, isSpelled w = true) →
    (rest : Text) → freeWords (elseIfsChars depth branches ++ rest) =
      (gatherBranches simpleWords Condition.words branches).filter isFreeWord ++ freeWords rest
  | [], _, _ => rfl
  | (condition, block) :: others, spelled, rest => by
    obtain ⟨guard, inner⟩ := List.forall_mem_append.mp spelled
    obtain ⟨here, later⟩ := List.forall_mem_append.mp inner
    rw [elseIfsChars_cons]
    simp only [List.append_assoc, List.cons_append]
    rw [freeWords_branch (by decide) guard (freeWords_blockChars (depth + 1) block here),
      freeWords_elseIfsChars depth others later, gatherBranches, ← List.append_assoc,
      ← List.append_assoc, ← List.filter_append]
/-- The free words of a printed block are those of the tree, and then come those of the rest. -/
theorem freeWords_blockChars (depth : Nat) : (block : List Stmt) →
    (∀ w ∈ gatherAll simpleWords Condition.words block, isSpelled w = true) → (rest : Text) →
    freeWords (blockChars depth block ++ rest) =
      (gatherAll simpleWords Condition.words block).filter isFreeWord ++ freeWords rest
  | [], _, _ => rfl
  | s :: others, spelled, rest => by
    obtain ⟨first, later⟩ := List.forall_mem_append.mp spelled
    rw [blockChars, List.append_assoc, freeWords_chars depth s first,
      freeWords_blockChars depth others later, gatherAll, List.filter_append, List.append_assoc]
end

end Stmt

end ShaderComposer
