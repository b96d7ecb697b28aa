import ShaderComposer.Proofs.Glsl.Characters
import ShaderComposer.Proofs.Glsl.Lexis

/-!
# Reading expressions back

The text of an expression is an expression of the language, and its tree is the expression itself
up to what a text cannot tell (`Expr.normal`): groups and annotations are gone, a negative literal
is a minus on its magnitude and a float without a finite value is zero. The tokens are those that
the printer means (`Expr.tokens`), and they make up a phrase of the strength of the expression.
-/

namespace ShaderComposer

open SourceScan (Text isIdentifier)

/-! ### What a text tells -/

/-- A literal as it is read: the sign is an operator, and a float without a finite value is zero. -/
def Literal.normal : Literal → Expr
  | float v =>
    if v.isFinite then
      if v.isNegative then .negate (.float v.neg) else .float v
    else .float .zero
  | int v => if v < 0 then .negate (.literal (.int (-v))) else .literal (.int v)
  | bool v => .literal (.bool v)

namespace Expr

mutual
/-- An expression as it is read: without groups and annotations. -/
def normal : Expr → Expr
  | var name _ => var name none
  | literal l => l.normal
  | binary op l r => binary op l.normal r.normal
  | negate e => negate e.normal
  | swizzle b c => swizzle b.normal c
  | index b i _ => index b.normal i.normal none
  | call f as => call f (normals as)
  | construct ty as => construct ty (normals as)
  | group e => e.normal
def normals : List Expr → List Expr
  | [] => []
  | a :: as => a.normal :: normals as
end

def isInt : Expr → Bool
  | literal (.int _) => true
  | _ => false

mutual
/-- Names and components are identifiers, and no components are selected from a literal whole
number. -/
def isPlain : Expr → Bool
  | var name _ => isName name
  | literal _ => true
  | binary _ l r => l.isPlain && r.isPlain
  | negate e => e.isPlain
  | swizzle b c => b.isPlain && isName c && !b.isInt
  | index b i _ => b.isPlain && i.isPlain
  | call _ as => arePlain as
  | construct _ as => arePlain as
  | group e => e.isPlain
def arePlain : List Expr → Bool
  | [] => true
  | a :: as => a.isPlain && arePlain as
end

end Expr

/-! ### Tokens of an expression -/

def parenthesizedTokens (needed : Bool) (ts : List Token) : List Token :=
  if needed then .leftParen :: (ts ++ [.rightParen]) else ts

def Literal.tokens : Literal → List Token
  | float v =>
    if v.isFinite then
      if v.isNegative then [.operator .sub, .float v.neg] else [.float v]
    else [.float .zero]
  | int v => if v < 0 then [.operator .sub, .int (-v).toNat] else [.int v.toNat]
  | bool v => [.boolean v]

namespace Expr

mutual
def tokens : Expr → List Token
  | var name _ => [.word name]
  | literal l => l.tokens
  | binary op l r =>
    parenthesizedTokens (l.precedence < op.precedence) l.tokens ++
      .operator op :: parenthesizedTokens (r.precedence ≤ op.precedence) r.tokens
  | negate e => .operator .sub :: parenthesizedTokens (e.precedence ≤ Precedence.unary) e.tokens
  | swizzle b c =>
    parenthesizedTokens (b.precedence < Precedence.atom) b.tokens ++ [.dot, .word c]
  | index b i _ =>
    parenthesizedTokens (b.precedence < Precedence.atom) b.tokens ++
      .leftBracket :: (i.tokens ++ [.rightBracket])
  | call f as =>
    .word f.name :: .leftParen :: ([Token.comma].intercalate (argumentTokens as) ++ [.rightParen])
  | construct ty as =>
    .word ty.name :: .leftParen :: ([Token.comma].intercalate (argumentTokens as) ++ [.rightParen])
  | group e => .leftParen :: (e.tokens ++ [.rightParen])
def argumentTokens : List Expr → List (List Token)
  | [] => []
  | a :: as => a.tokens :: argumentTokens as
end

end Expr

/-! ### The tokens are a phrase -/

theorem Derives.weaken {p q : Phrase} {ts : List Token} {e : Expr} (derives : Derives p ts e)
    (le : q.strength ≤ p.strength) : Derives q ts e := by
  have sum : ∀ {r : Phrase}, Derives r ts e → Derives .sum ts e := by
    intro r derives
    cases r with
    | sum => exact derives
    | product => exact derives.term
    | signed => exact derives.factor.term
    | operand => exact derives.bare.factor.term
  cases p with
  | sum =>
    cases q with
    | sum => exact derives
    | _ => exact absurd le (by decide)
  | product =>
    cases q with
    | sum => exact sum derives
    | product => exact derives
    | _ => exact absurd le (by decide)
  | signed =>
    cases q with
    | sum => exact sum derives
    | product => exact derives.factor
    | signed => exact derives
    | operand => exact absurd le (by decide)
  | operand =>
    cases q with
    | sum => exact sum derives
    | product => exact derives.bare.factor
    | signed => exact derives.bare
    | operand => exact derives

theorem Phrase.one_le_strength (p : Phrase) : Phrase.sum.strength ≤ p.strength := by
  cases p <;> decide

/-- Parentheses make a phrase of any strength, and are needed where it would be too weak. -/
theorem Derives.parenthesized {p q : Phrase} {ts : List Token} {e : Expr} {needed : Bool}
    (derives : Derives p ts e) (le : needed = false → q.strength ≤ p.strength) :
    Derives q (parenthesizedTokens needed ts) e := by
  cases needed with
  | true =>
    have inner := derives.weaken p.one_le_strength
    exact inner.parentheses.weaken (by cases q <;> decide)
  | false => exact derives.weaken (le rfl)

theorem Literal.derives_tokens (l : Literal) :
    ∃ p, (Expr.literal l).precedence ≤ p.strength ∧ Derives p l.tokens l.normal := by
  cases l with
  | float v =>
    cases finite : v.isFinite with
    | false =>
      refine ⟨.operand, Expr.precedence_le_atom _, ?_⟩
      simp only [tokens, normal, finite]
      exact .float .zero
    | true =>
      cases negative : v.isNegative with
      | true =>
        refine ⟨.signed, ?_, ?_⟩
        · simp [Expr.precedence, isNegative, negative, Phrase.strength]
        · simp only [tokens, normal, finite, negative]
          exact .minus (.bare (.float v.neg))
      | false =>
        refine ⟨.operand, Expr.precedence_le_atom _, ?_⟩
        simp only [tokens, normal, finite, negative]
        exact .float v
  | int v =>
    by_cases negative : v < 0
    · have same : ((-v).toNat : Int) = -v := Int.toNat_of_nonneg (by omega)
      have derives := Derives.int (-v).toNat
      rw [same] at derives
      refine ⟨.signed, ?_, ?_⟩
      · simp [Expr.precedence, isNegative, negative, Phrase.strength]
      · simp only [tokens, normal, negative]
        exact .minus (.bare derives)
    · have same : (v.toNat : Int) = v := Int.toNat_of_nonneg (by omega)
      have derives := Derives.int v.toNat
      rw [same] at derives
      refine ⟨.operand, Expr.precedence_le_atom _, ?_⟩
      simp only [tokens, normal, negative]
      exact derives
  | bool v => exact ⟨.operand, Nat.le_refl _, .boolean v⟩

/-- An operator makes a phrase of its own strength, with a stronger one on its right. -/
theorem BinaryOp.derives (op : BinaryOp) : ∃ p q : Phrase,
    p.strength = op.precedence ∧ q.strength = op.precedence + 1 ∧
      ∀ {ts us : List Token} {l r : Expr}, Derives p ts l → Derives q us r →
        Derives p (ts ++ .operator op :: us) (.binary op l r) := by
  cases op with
  | add | sub =>
    exact ⟨.sum, .product, rfl, rfl, fun left right => .sum (by decide) left right⟩
  | mul | div | rem =>
    exact ⟨.product, .signed, rfl, rfl, fun left right => .product (by decide) left right⟩

namespace Expr

mutual
/-- The tokens of an expression are a phrase that is as strong as it. -/
theorem derives_tokens : (e : Expr) → ∃ p, e.precedence ≤ p.strength ∧ Derives p e.tokens e.normal
  | var name _ => ⟨.operand, Nat.le_refl _, .identifier name⟩
  | literal l => l.derives_tokens
  -- an operand without parentheses binds at least as strongly as its place asks
  | binary op l r => by
    obtain ⟨p, strong, left⟩ := derives_tokens l
    obtain ⟨q, strong', right⟩ := derives_tokens r
    obtain ⟨s, t, own, next, binary⟩ := op.derives
    refine ⟨s, Nat.le_of_eq own.symm,
      binary (left.parenthesized fun free => ?_) (right.parenthesized fun free => ?_)⟩
    · rw [own]
      exact Nat.le_trans (Nat.not_lt.mp (of_decide_eq_false free)) strong
    · rw [next]
      exact Nat.le_trans (Nat.not_le.mp (of_decide_eq_false free)) strong'
  | negate e => by
    obtain ⟨p, strong, inner⟩ := derives_tokens e
    refine ⟨.signed, Nat.le_refl _, .minus (inner.parenthesized fun free => ?_)⟩
    exact Nat.le_trans (Nat.le_of_lt (Nat.not_le.mp (of_decide_eq_false free))) strong
  | swizzle b c => by
    obtain ⟨p, strong, inner⟩ := derives_tokens b
    refine ⟨.operand, Nat.le_refl _, .field c (inner.parenthesized fun free => ?_)⟩
    exact Nat.le_trans (Nat.not_lt.mp (of_decide_eq_false free)) strong
  | index b i _ => by
    obtain ⟨p, strong, inner⟩ := derives_tokens b
    obtain ⟨q, _, within⟩ := derives_tokens i
    refine ⟨.operand, Nat.le_refl _, .element (inner.parenthesized fun free => ?_)
      (within.weaken q.one_le_strength)⟩
    exact Nat.le_trans (Nat.not_lt.mp (of_decide_eq_false free)) strong
  | call f as => by
    obtain ⟨pairs, tokens, trees, derives⟩ := derives_arguments as
    have calls := Derives.call (.function f) pairs derives
    rw [tokens, trees] at calls
    exact ⟨.operand, Nat.le_refl _, calls⟩
  | construct ty as => by
    obtain ⟨pairs, tokens, trees, derives⟩ := derives_arguments as
    have calls := Derives.call (.type ty) pairs derives
    rw [tokens, trees] at calls
    exact ⟨.operand, Nat.le_refl _, calls⟩
  | group e => by
    obtain ⟨p, _, inner⟩ := derives_tokens e
    exact ⟨.operand, Nat.le_refl _, .parentheses (inner.weaken p.one_le_strength)⟩
theorem derives_arguments : (as : List Expr) → ∃ pairs : List (List Token × Expr),
    pairs.map (·.1) = argumentTokens as ∧ pairs.map (·.2) = normals as ∧
      ∀ a ∈ pairs, Derives .sum a.1 a.2
  | [] => ⟨[], rfl, rfl, fun _ none => absurd none List.not_mem_nil⟩
  | a :: as => by
    obtain ⟨p, _, inner⟩ := derives_tokens a
    obtain ⟨pairs, tokens, trees, derives⟩ := derives_arguments as
    refine ⟨(a.tokens, a.normal) :: pairs, ?_, ?_, ?_⟩
    · rw [List.map_cons, tokens]
      rfl
    · rw [List.map_cons, trees]
      rfl
    · intro b mem
      rcases List.mem_cons.mp mem with rfl | mem
      · exact inner.weaken p.one_le_strength
      · exact derives b mem
end

end Expr

/-! ### The text is cut into the tokens -/

open Numeral (EndsWord)

/-- What may follow an expression: no word that goes on, and a selection only after what it can be
selected from. -/
def Expr.Ends (e : Expr) (rest : Text) : Prop :=
  EndsWord rest ∧ (rest.head? = some '.' → e.precedence = Precedence.atom ∧ e.isInt = false)

theorem Expr.ends_cons (e : Expr) {c : Char} (rest : Text) (word : isIdentifier c = false)
    (point : c ≠ '.') : e.Ends (c :: rest) := by
  refine ⟨?_, fun same => absurd (Option.some.inj same) point⟩
  rintro _ ⟨⟩
  exact word

theorem Expr.ends_nil (e : Expr) : e.Ends [] := by
  refine ⟨?_, fun none => by cases none⟩
  rintro _ ⟨⟩

theorem Expr.Ends.of_weak {d e : Expr} {rest : Text} (ends : e.Ends rest)
    (weak : e.precedence ≠ Precedence.atom) : d.Ends rest :=
  ⟨ends.1, fun point => absurd (ends.2 point).1 weak⟩

/-- The text begins with a word, a numeral or a parenthesis. -/
def Begins (text : Text) : Prop := ∃ c rest, text = c :: rest ∧ (isIdentifier c = true ∨ c = '(')

theorem Begins.append {text : Text} (begins : Begins text) (rest : Text) :
    Begins (text ++ rest) := by
  obtain ⟨c, more, rfl, first⟩ := begins
  exact ⟨c, more ++ rest, rfl, first⟩

theorem Begins.parenthesized {needed : Bool} {text : Text}
    (begins : needed = false → Begins text) : Begins (parenthesizedChars needed text) := by
  cases needed with
  | true => exact ⟨'(', text ++ [')'], rfl, Or.inr rfl⟩
  | false => exact begins rfl

theorem begins_of_isWord {word : Text} (isWord : isWord word = true) : Begins word := by
  cases word with
  | nil => cases isWord
  | cons c rest =>
    simp only [ShaderComposer.isWord, Bool.and_eq_true] at isWord
    exact ⟨c, rest, rfl, Or.inl isWord.1.2⟩

theorem begins_of_digital {n : Numeral} (digital : n.Digital) (nonempty : n.whole ≠ []) :
    Begins n.text := by
  obtain ⟨c, whole, eq⟩ := List.exists_cons_of_ne_nil nonempty
  have digit := digital.whole c (eq ▸ List.mem_cons_self)
  refine Begins.append ?_ _
  exact ⟨c, whole, eq, Or.inl (Numeral.isIdentifier_of_isDigit digit)⟩

theorem Lexes.minus {text : Text} {ts : List Token} (begins : Begins text)
    (lexes : Lexes text ts) : Lexes ('-' :: text) (.operator .sub :: ts) := by
  obtain ⟨c, rest, rfl, first⟩ := begins
  refine .token (munch_minus ?_) lexes
  rintro _ ⟨⟩
  constructor
  · rintro rfl
    exact absurd first (by decide)
  · rintro rfl
    exact absurd first (by decide)

namespace Literal

theorem begins_chars {l : Literal} (atom : (Expr.literal l).precedence = Precedence.atom) :
    Begins l.chars := by
  have unsigned : l.isNegative = false := by
    cases sign : l.isNegative with
    | false => rfl
    | true =>
      rw [Expr.precedence, if_pos sign] at atom
      cases atom
  cases l with
  | float v =>
    have sign : v.isNegative = false := unsigned
    cases finite : v.isFinite with
    | false =>
      simp only [chars, finite]
      exact ⟨'0', ['.', '0'], rfl, Or.inl rfl⟩
    | true =>
      simp only [chars, finite, sign, FloatLiteral.magnitude_eq_text]
      exact begins_of_digital (FloatLiteral.digital_numeral v) (FloatLiteral.whole_numeral_ne_nil v)
  | int v =>
    have nonneg : 0 ≤ v := Int.not_lt.mp (of_decide_eq_false unsigned)
    have text := begins_of_digital (Numeral.digital_ofNat v.toNat) Nat.toDigits_ne_nil
    rw [Numeral.text_ofNat, ← Numeral.toList_toString_of_nonneg nonneg] at text
    exact text
  | bool v =>
    cases v with
    | true => exact begins_of_isWord rfl
    | false => exact begins_of_isWord rfl

theorem lexes_ofNat {n : Nat} {rest : Text} {ts : List Token} (ends : EndsWord rest)
    (point : rest.head? ≠ some '.') (lexes : Lexes rest ts) :
    Lexes (Nat.toDigits 10 n ++ rest) (.int n :: ts) := by
  have munched := munch_numeral (Numeral.digital_ofNat n) Nat.toDigits_ne_nil
    ⟨ends, fun _ _ => point⟩ (Numeral.token?_ofNat n)
  rw [Numeral.text_ofNat] at munched
  exact .token munched lexes

theorem lexes_chars (l : Literal) {rest : Text} {ts : List Token}
    (ends : (Expr.literal l).Ends rest) (lexes : Lexes rest ts) :
    Lexes (l.chars ++ rest) (l.tokens ++ ts) := by
  cases l with
  | float v =>
    cases finite : v.isFinite with
    | false =>
      have read := Numeral.token?_zero
      have munched := munch_numeral Numeral.digital_zero (List.cons_ne_nil _ _)
        (Numeral.ends_of_float read ends.1) read
      simp only [chars, tokens, finite]
      exact .token munched lexes
    | true =>
      have read := FloatLiteral.token?_numeral finite
      have digital := FloatLiteral.digital_numeral v
      have whole := FloatLiteral.whole_numeral_ne_nil v
      have munched := munch_numeral digital whole (Numeral.ends_of_float read ends.1) read
      have number := Lexes.token munched lexes
      cases negative : v.isNegative with
      | true =>
        rw [negative] at number
        simp only [chars, tokens, finite, negative, FloatLiteral.magnitude_eq_text]
        exact .minus ((begins_of_digital digital whole).append rest) number
      | false =>
        rw [negative] at number
        simp only [chars, tokens, finite, negative, FloatLiteral.magnitude_eq_text]
        exact number
  | int v =>
    have point : rest.head? ≠ some '.' := fun same => by cases (ends.2 same).2
    by_cases negative : v < 0
    · have begins := begins_of_digital (Numeral.digital_ofNat (-v).toNat) Nat.toDigits_ne_nil
      rw [Numeral.text_ofNat] at begins
      simp only [chars, tokens, negative, Numeral.toList_toString_of_neg negative]
      exact .minus (begins.append rest) (lexes_ofNat ends.1 point lexes)
    · have nonneg := Int.not_lt.mp negative
      simp only [chars, tokens, negative, Numeral.toList_toString_of_nonneg nonneg]
      exact lexes_ofNat ends.1 point lexes
  | bool v =>
    cases v with
    | true => exact .token (munch_word rfl ends.1) lexes
    | false => exact .token (munch_word rfl ends.1) lexes

end Literal

namespace Expr

theorem begins_chars : (e : Expr) → e.isPlain = true → e.precedence = Precedence.atom →
    Begins e.chars
  | var name _, plain, _ => begins_of_isWord (isWord_of_isName plain)
  | literal l, _, atom => l.begins_chars atom
  | binary op l r, _, atom => absurd atom (Nat.ne_of_lt (Nat.lt_succ_of_lt op.precedence_lt_unary))
  | negate e, _, atom => by cases atom
  | swizzle b c, plain, _ => by
    simp only [isPlain, Bool.and_eq_true] at plain
    refine Begins.append (.parenthesized fun free => begins_chars b plain.1.1 ?_) _
    exact Nat.le_antisymm b.precedence_le_atom (Nat.not_lt.mp (of_decide_eq_false free))
  | index b i _, plain, _ => by
    simp only [isPlain, Bool.and_eq_true] at plain
    refine Begins.append (.parenthesized fun free => begins_chars b plain.1 ?_) _
    exact Nat.le_antisymm b.precedence_le_atom (Nat.not_lt.mp (of_decide_eq_false free))
  | call f as, _, _ => (begins_of_isWord (isWord_of_isName (Head.function f).isName_name)).append _
  | construct ty as, _, _ =>
    (begins_of_isWord (isWord_of_isName (Head.type ty).isName_name)).append _
  | group e, _, _ => ⟨'(', _, rfl, Or.inr rfl⟩

/-- Reading an expression, whatever follows it. -/
def Cuts (e : Expr) : Prop :=
  ∀ (rest : Text) (ts : List Token), e.Ends rest → Lexes rest ts →
    Lexes (e.chars ++ rest) (e.tokens ++ ts)

theorem Cuts.parenthesized {e : Expr} (cuts : e.Cuts) (needed : Bool) {rest : Text}
    {ts : List Token} (ends : needed = false → e.Ends rest) (lexes : Lexes rest ts) :
    Lexes (parenthesizedChars needed e.chars ++ rest)
      (parenthesizedTokens needed e.tokens ++ ts) := by
  cases needed with
  | true =>
    have closed : Lexes (')' :: rest) (.rightParen :: ts) := .token rfl lexes
    have inner := cuts _ _ (e.ends_cons rest rfl (by decide)) closed
    simp only [parenthesizedChars, parenthesizedTokens, if_true, List.cons_append,
      List.append_assoc, List.nil_append]
    exact .token rfl inner
  | false => exact cuts _ _ (ends rfl) lexes

theorem lexes_call (h : Head) {text : Text} {ts : List Token} (lexes : Lexes text ts) :
    Lexes (h.name.toList ++ '(' :: text) (.word h.name :: .leftParen :: ts) := by
  have ends : EndsWord ('(' :: text) := Numeral.endsWord_cons rfl text
  have munched := munch_word (isWord_of_isName h.isName_name) ends
  rw [wordToken_of_isName h.isName_name] at munched
  exact .token munched (.token rfl lexes)

theorem intercalate_comma (first : List Token) (more : List (List Token)) :
    [Token.comma].intercalate (first :: more) = first ++ more.flatMap (Token.comma :: ·) := by
  induction more generalizing first with
  | nil => simp [List.intercalate]
  | cons second more ih =>
    have split : [Token.comma].intercalate (first :: second :: more) =
        first ++ .comma :: [Token.comma].intercalate (second :: more) := rfl
    rw [split, ih, List.flatMap_cons]
    rfl

mutual
theorem lexes_chars : (e : Expr) → e.isPlain = true → e.Cuts
  | var name _, plain, _, _, ends, lexes => by
    have munched := munch_word (isWord_of_isName plain) ends.1
    rw [wordToken_of_isName plain] at munched
    exact .token munched lexes
  | literal l, _, _, _, ends, lexes => l.lexes_chars ends lexes
  | binary op l r, plain, rest, ts, ends, lexes => by
    simp only [isPlain, Bool.and_eq_true] at plain
    have weak : (binary op l r).precedence ≠ Precedence.atom :=
      Nat.ne_of_lt (Nat.lt_succ_of_lt op.precedence_lt_unary)
    have right := Cuts.parenthesized (lexes_chars r plain.2) (r.precedence ≤ op.precedence)
      (fun _ => ends.of_weak weak) lexes
    have left := Cuts.parenthesized (lexes_chars l plain.1) (l.precedence < op.precedence)
      (fun _ => l.ends_cons _ rfl (by decide)) (right.operator op)
    simp only [chars, tokens, List.append_assoc, List.cons_append]
    exact left
  | negate e, plain, rest, ts, ends, lexes => by
    have weak : (negate e).precedence ≠ Precedence.atom := Nat.ne_of_lt (Nat.lt_succ_self _)
    have begins : Begins (parenthesizedChars (e.precedence ≤ Precedence.unary) e.chars) :=
      .parenthesized fun free => begins_chars e plain (Nat.le_antisymm e.precedence_le_atom
        (Nat.not_le.mp (of_decide_eq_false free)))
    have operand := Cuts.parenthesized (lexes_chars e plain) (e.precedence ≤ Precedence.unary)
      (fun _ => ends.of_weak weak) lexes
    simp only [chars, tokens, List.cons_append]
    exact .minus (begins.append rest) operand
  | swizzle b c, plain, rest, ts, ends, lexes => by
    simp only [isPlain, Bool.and_eq_true, Bool.not_eq_true'] at plain
    have isWord := isWord_of_isName plain.1.2
    have component := munch_word isWord ends.1
    rw [wordToken_of_isName plain.1.2] at component
    have selects : Lexes ('.' :: (c.toList ++ rest)) (.dot :: .word c :: ts) :=
      .token (munch_dot isWord) (.token component lexes)
    have base := Cuts.parenthesized (lexes_chars b plain.1.1) (b.precedence < Precedence.atom)
      (fun free => ?_) selects
    · simp only [chars, tokens, List.append_assoc, List.cons_append, List.nil_append]
      exact base
    -- a whole number would take the dot in, and what is selected from is none
    · refine ⟨?_, fun _ => ⟨Nat.le_antisymm b.precedence_le_atom
        (Nat.not_lt.mp (of_decide_eq_false free)), plain.2⟩⟩
      rintro _ ⟨⟩
      rfl
  | index b i _, plain, rest, ts, _, lexes => by
    simp only [isPlain, Bool.and_eq_true] at plain
    have closed : Lexes (']' :: rest) (.rightBracket :: ts) := .token rfl lexes
    have within := lexes_chars i plain.2 _ _ (i.ends_cons rest rfl (by decide)) closed
    have bracket : Lexes ('[' :: (i.chars ++ ']' :: rest))
        (.leftBracket :: (i.tokens ++ .rightBracket :: ts)) := .token rfl within
    have base := Cuts.parenthesized (lexes_chars b plain.1) (b.precedence < Precedence.atom)
      (fun _ => b.ends_cons _ rfl (by decide)) bracket
    simp only [chars, tokens, List.append_assoc, List.cons_append, List.nil_append]
    exact base
  | call f as, plain, rest, ts, _, lexes => by
    have calls := lexes_call (.function f) (lexes_arguments as plain (.token rfl lexes))
    simp only [chars, tokens, List.append_assoc, List.cons_append, List.nil_append]
    exact calls
  | construct ty as, plain, rest, ts, _, lexes => by
    have calls := lexes_call (.type ty) (lexes_arguments as plain (.token rfl lexes))
    simp only [chars, tokens, List.append_assoc, List.cons_append, List.nil_append]
    exact calls
  | group e, plain, rest, ts, _, lexes => by
    have closed : Lexes (')' :: rest) (.rightParen :: ts) := .token rfl lexes
    have inner := lexes_chars e plain _ _ (e.ends_cons rest rfl (by decide)) closed
    simp only [chars, tokens, List.append_assoc, List.cons_append, List.nil_append]
    exact .token rfl inner
theorem lexes_arguments : (as : List Expr) → arePlain as = true → {rest : Text} →
    {ts : List Token} → Lexes (')' :: rest) ts →
      Lexes (argumentChars as ++ ')' :: rest) ([Token.comma].intercalate (argumentTokens as) ++ ts)
  | [], _, _, _, lexes => lexes
  | a :: as, plain, rest, ts, lexes => by
    simp only [arePlain, Bool.and_eq_true] at plain
    obtain ⟨more, ends⟩ := lexes_more as plain.2 lexes
    have first := lexes_chars a plain.1 _ _ (ends a) more
    rw [argumentTokens, intercalate_comma, argumentChars, List.append_assoc, List.append_assoc]
    exact first
theorem lexes_more : (as : List Expr) → arePlain as = true → {rest : Text} → {ts : List Token} →
    Lexes (')' :: rest) ts →
      Lexes (moreChars as ++ ')' :: rest) ((argumentTokens as).flatMap (Token.comma :: ·) ++ ts) ∧
        ∀ e : Expr, e.Ends (moreChars as ++ ')' :: rest)
  | [], _, rest, _, lexes => ⟨lexes, fun e => e.ends_cons rest rfl (by decide)⟩
  | a :: as, plain, rest, ts, lexes => by
    simp only [arePlain, Bool.and_eq_true] at plain
    obtain ⟨more, ends⟩ := lexes_more as plain.2 lexes
    have next := lexes_chars a plain.1 _ _ (ends a) more
    rw [argumentTokens, List.flatMap_cons, moreChars]
    simp only [List.append_assoc, List.cons_append]
    exact ⟨.token rfl (.space rfl next), fun e => e.ends_cons _ rfl (by decide)⟩
end

/-! ### Round trip -/

theorem parses_render {e : Expr} (plain : e.isPlain = true) : Parses e.render e.normal := by
  obtain ⟨p, _, derives⟩ := e.derives_tokens
  have lexes := e.lexes_chars plain _ _ e.ends_nil .done
  rw [List.append_nil, List.append_nil, ← e.toList_render] at lexes
  exact ⟨e.tokens, lexes, derives.weaken p.one_le_strength⟩

/-- The tree of a plain expression's text is the expression as it is read, and no other. Plain
expressions with one text are therefore read alike. -/
theorem parses_render_iff {e : Expr} (plain : e.isPlain = true) :
    (∀ tree, Parses e.render tree ↔ tree = e.normal) ∧
      ∀ d : Expr, d.isPlain = true → d.render = e.render → d.normal = e.normal := by
  have only (tree : Expr) : Parses e.render tree ↔ tree = e.normal := by
    constructor
    · exact fun parses => parses.unique (parses_render plain)
    · rintro rfl
      exact parses_render plain
  refine ⟨only, fun d plain' same => (only d.normal).mp ?_⟩
  rw [← same]
  exact parses_render plain'

theorem parses_render_difference :
    (binary .sub (var "a" none) (group (binary .sub (var "b" (some .int)) (literal (.int (-2)))))
      ).isPlain = true ∧
    ∀ tree, Parses (binary .sub (var "a" none)
        (group (binary .sub (var "b" (some .int)) (literal (.int (-2)))))).render tree ↔
      tree = binary .sub (var "a" none)
        (binary .sub (var "b" none) (negate (literal (.int 2)))) := by
  have plain : (binary .sub (var "a" none)
      (group (binary .sub (var "b" (some .int)) (literal (.int (-2)))))).isPlain = true := by
    decide
  exact ⟨plain, (parses_render_iff plain).1⟩

end Expr

end ShaderComposer
