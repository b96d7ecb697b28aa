import ShaderComposer.Proofs.Glsl.Characters
import ShaderComposer.Proofs.Glsl.Lexis

/-!
# The alphabet of expressions

An expression whose names are made of letters, digits and underscores is printed with those
characters, spaces and the signs of arithmetic, calls and selections (`Expr.printed_chars`).
Nothing that ends a line or a statement, opens a block or compares two values is among them.
-/

namespace ShaderComposer

open SourceScan (Text isIdentifier)

/-- Nothing but letters, digits and underscores. -/
def isSpelled (name : Text) : Bool := name.all isIdentifier

def expressionSigns : Text := [' ', '+', '-', '*', '/', '%', '.', ',', '(', ')', '[', ']']

/-- A character that expressions are printed with. -/
def isPrinted (c : Char) : Bool := isIdentifier c || expressionSigns.contains c

theorem isPrinted_of_isIdentifier {c : Char} (identifier : isIdentifier c = true) :
    isPrinted c = true := by
  simp [isPrinted, identifier]

theorem printed_of_isSpelled {name : Text} (spelled : isSpelled name = true) :
    name.all isPrinted = true := by
  apply List.all_eq_true.mpr
  intro c mem
  exact isPrinted_of_isIdentifier (List.all_eq_true.mp spelled c mem)

theorem isSpelled_of_isWord (word : Text) (isWord : isWord word = true) :
    isSpelled word = true := by
  cases word with
  | nil => rfl
  | cons c word =>
    simp only [ShaderComposer.isWord, Bool.and_eq_true] at isWord
    rw [isSpelled, List.all_cons, isWord.1.2, isWord.2]
    rfl

theorem notMem_of_printed {text : Text} (printed : text.all isPrinted = true) {c : Char}
    (other : isPrinted c = false) : c ∉ text := by
  intro mem
  rw [List.all_eq_true.mp printed c mem] at other
  cases other

theorem all_parenthesizedChars (needed : Bool) (text : Text) :
    (parenthesizedChars needed text).all isPrinted = text.all isPrinted := by
  have paren : isPrinted '(' = true ∧ isPrinted ')' = true := by decide
  unfold parenthesizedChars
  split
  · simp [paren]
  · rfl

/-! ### Constants -/

theorem isSpelled_digits {digits : Text} (all : ∀ c ∈ digits, c.isDigit = true) :
    isSpelled digits = true :=
  List.all_eq_true.mpr fun c mem => Numeral.isIdentifier_of_isDigit (all c mem)

theorem printed_digits {digits : Text} (all : ∀ c ∈ digits, c.isDigit = true) :
    digits.all isPrinted = true :=
  printed_of_isSpelled (isSpelled_digits all)

theorem printed_toString (i : Int) : (toString i).toList.all isPrinted = true := by
  rcases Int.lt_or_le i 0 with negative | nonneg
  · have minus : isPrinted '-' = true := by decide
    rw [Numeral.toList_toString_of_neg negative, List.all_cons, minus, Bool.true_and]
    exact printed_digits Numeral.isDigit_of_mem_toDigits
  · rw [Numeral.toList_toString_of_nonneg nonneg]
    exact printed_digits Numeral.isDigit_of_mem_toDigits

theorem Numeral.printed_text {n : Numeral} (digital : n.Digital) : n.text.all isPrinted = true := by
  have fraction : (fractionText n.fraction).all isPrinted = true := by
    cases written : n.fraction with
    | none => rfl
    | some digits =>
      rw [fractionText, List.all_cons, printed_digits (digital.fraction digits written)]
      rfl
  have exponent : (exponentText n.exponent).all isPrinted = true := by
    cases n.exponent with
    | none => rfl
    | some e =>
      rw [exponentText, List.all_cons, printed_toString e]
      rfl
  rw [text, List.all_append, List.all_append, printed_digits digital.whole, fraction, exponent]
  rfl

theorem Literal.printed_chars (l : Literal) : l.chars.all isPrinted = true := by
  cases l with
  | float v =>
    have magnitude := Numeral.printed_text (FloatLiteral.digital_numeral v)
    rw [← FloatLiteral.magnitude_eq_text] at magnitude
    simp only [chars]
    split
    · rw [List.all_append, magnitude]
      cases v.isNegative <;> rfl
    · decide
  | int v => exact printed_toString v
  | bool v => cases v <;> decide

/-! ### Expressions -/

theorem BinaryOp.printed_symbol (op : BinaryOp) : op.symbol.toList.all isPrinted = true := by
  cases op <;> decide

theorem Builtin.isSpelled_name (f : Builtin) : isSpelled f.name.toList = true := by
  cases f <;> decide

theorem DataType.isSpelled_name (ty : DataType) : isSpelled ty.name.toList = true := by
  cases ty <;> decide

namespace Expr

mutual
/-- Every name and every selection has a property. -/
def allNames (p : Text → Bool) : Expr → Bool
  | var name _ => p name.toList
  | literal _ => true
  | binary _ l r => l.allNames p && r.allNames p
  | negate e => e.allNames p
  | swizzle b c => b.allNames p && p c.toList
  | index b i _ => b.allNames p && i.allNames p
  | call _ as => argumentNames p as
  | construct _ as => argumentNames p as
  | group e => e.allNames p
def argumentNames (p : Text → Bool) : List Expr → Bool
  | [] => true
  | a :: as => a.allNames p && argumentNames p as
end

mutual
theorem allNames_mono {p q : Text → Bool} (weaker : ∀ name, p name = true → q name = true) :
    (e : Expr) → e.allNames p = true → e.allNames q = true
  | var name _, named => weaker name.toList named
  | literal _, _ => rfl
  | binary _ l r, named => by
    obtain ⟨left, right⟩ := Bool.and_eq_true_iff.mp named
    exact Bool.and_eq_true_iff.mpr ⟨allNames_mono weaker l left, allNames_mono weaker r right⟩
  | negate e, named => allNames_mono weaker e named
  | swizzle b c, named => by
    obtain ⟨base, selection⟩ := Bool.and_eq_true_iff.mp named
    exact Bool.and_eq_true_iff.mpr ⟨allNames_mono weaker b base, weaker c.toList selection⟩
  | index b i _, named => by
    obtain ⟨base, place⟩ := Bool.and_eq_true_iff.mp named
    exact Bool.and_eq_true_iff.mpr ⟨allNames_mono weaker b base, allNames_mono weaker i place⟩
  | call _ as, named => argumentNames_mono weaker as named
  | construct _ as, named => argumentNames_mono weaker as named
  | group e, named => allNames_mono weaker e named
theorem argumentNames_mono {p q : Text → Bool} (weaker : ∀ name, p name = true → q name = true) :
    (as : List Expr) → argumentNames p as = true → argumentNames q as = true
  | [], _ => rfl
  | a :: as, named => by
    obtain ⟨first, others⟩ := Bool.and_eq_true_iff.mp named
    exact Bool.and_eq_true_iff.mpr ⟨allNames_mono weaker a first, argumentNames_mono weaker as others⟩
end

mutual
/-- An expression is printed with the characters of its names and those of the alphabet. -/
theorem printed_chars : (e : Expr) → e.allNames isSpelled = true →
    e.chars.all isPrinted = true
  | var name _, named => printed_of_isSpelled named
  | literal l, _ => l.printed_chars
  | binary op l r, named => by
    obtain ⟨left, right⟩ := Bool.and_eq_true_iff.mp named
    simp [chars, all_parenthesizedChars, printed_chars l left, printed_chars r right,
      op.printed_symbol]
    decide
  | negate e, named => by
    rw [chars, List.all_cons, all_parenthesizedChars, printed_chars e named]
    rfl
  | swizzle b c, named => by
    obtain ⟨base, selection⟩ := Bool.and_eq_true_iff.mp named
    rw [chars, List.all_append, List.all_cons, all_parenthesizedChars, printed_chars b base,
      printed_of_isSpelled selection]
    rfl
  | index b i _, named => by
    obtain ⟨base, place⟩ := Bool.and_eq_true_iff.mp named
    rw [chars, List.all_append, List.all_cons, List.all_append, all_parenthesizedChars,
      printed_chars b base, printed_chars i place]
    rfl
  | call f as, named => by
    rw [chars, List.all_append, List.all_cons, List.all_append,
      printed_of_isSpelled f.isSpelled_name, printed_argumentChars as named]
    rfl
  | construct ty as, named => by
    rw [chars, List.all_append, List.all_cons, List.all_append,
      printed_of_isSpelled ty.isSpelled_name, printed_argumentChars as named]
    rfl
  | group e, named => by
    rw [chars, List.all_cons, List.all_append, printed_chars e named]
    rfl
theorem printed_argumentChars : (as : List Expr) →
    argumentNames isSpelled as = true → (argumentChars as).all isPrinted = true
  | [], _ => rfl
  | a :: as, named => by
    obtain ⟨first, others⟩ := Bool.and_eq_true_iff.mp named
    rw [argumentChars, List.all_append, printed_chars a first, printed_moreChars as others]
    rfl
theorem printed_moreChars : (as : List Expr) →
    argumentNames isSpelled as = true → (moreChars as).all isPrinted = true
  | [], _ => rfl
  | a :: as, named => by
    obtain ⟨first, others⟩ := Bool.and_eq_true_iff.mp named
    rw [moreChars, List.all_cons, List.all_cons, List.all_append, printed_chars a first,
      printed_moreChars as others]
    rfl
end

end Expr

end ShaderComposer
