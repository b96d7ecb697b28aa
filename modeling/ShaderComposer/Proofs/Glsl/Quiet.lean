import ShaderComposer.Proofs.Glsl.Alphabet
import ShaderComposer.Proofs.Graphics.Scanning

/-!
# Expressions that declare nothing

A backend tells the declarations of a source by the words that lines begin with. If names have
nothing but letters, digits and underscores and are no words that declarations are made of, an
expression has no end of a line and no brace in it (`Expr.inert_chars`) and begins no declaration
(`Expr.lead_chars`).
-/

namespace ShaderComposer

open SourceScan (Text isIdentifier isBlank lead qualifiers Clean)

/-! ### Names -/

/-- The words that declarations are made of, types apart. -/
def declarationWords : List Text := qualifiers ++ SourceScan.precisions

/-- Nothing but letters, digits and underscores, and no word of a declaration. The name may be
empty: it is then a reference to nothing. -/
def isQuietName (name : Text) : Bool := name.all isIdentifier && !declarationWords.contains name

/-- Neither the end of a line nor a brace. -/
def isInert (c : Char) : Bool := c != '\n' && c != '\r' && c != '\x7b' && c != '\x7d'

def Inert (text : Text) : Prop := ∀ c ∈ text, isInert c = true

theorem isInert_of_isIdentifier {c : Char} (identifier : isIdentifier c = true) :
    isInert c = true := by
  simp only [isInert, Bool.and_eq_true, bne_iff_ne, ne_eq]
  refine ⟨⟨⟨?_, ?_⟩, ?_⟩, ?_⟩ <;> rintro rfl <;> cases identifier

theorem isBlank_of_isIdentifier {c : Char} (identifier : isIdentifier c = true) :
    isBlank c = false := by
  have range : 48 ≤ c.toNat ∧ c.toNat ≤ 122 := by
    have spelled : ((decide (65 ≤ c.val ∧ c.val ≤ 90) || (97 ≤ c.val && c.val ≤ 122)) ||
        (48 ≤ c.val && c.val ≤ 57) || c == '_') = true := identifier
    simp only [Bool.or_eq_true, Bool.and_eq_true, decide_eq_true_eq, beq_iff_eq,
      UInt32.le_iff_toNat_le] at spelled
    rcases spelled with ((⟨low, high⟩ | ⟨low, high⟩) | ⟨low, high⟩) | rfl
    · exact ⟨Nat.le_trans (by decide) low, Nat.le_trans high (by decide)⟩
    · exact ⟨Nat.le_trans (by decide) low, Nat.le_trans high (by decide)⟩
    · exact ⟨Nat.le_trans (by decide) low, Nat.le_trans high (by decide)⟩
    · decide
  simp only [isBlank, Bool.or_eq_false_iff, Bool.and_eq_false_iff, decide_eq_false_iff_not,
    beq_eq_false_iff_ne, ne_eq]
  omega

theorem blankless_of_identifiers {word : Text} (all : ∀ c ∈ word, isIdentifier c = true) :
    ∀ c ∈ word, isBlank c = false := fun c mem => isBlank_of_isIdentifier (all c mem)

theorem isQuietName_iff {name : Text} :
    isQuietName name = true ↔ (∀ c ∈ name, isIdentifier c = true) ∧ name ∉ declarationWords := by
  simp [isQuietName]

theorem Inert.append {first second : Text} (one : Inert first) (two : Inert second) :
    Inert (first ++ second) := by
  intro c mem
  rcases List.mem_append.mp mem with mem | mem
  · exact one c mem
  · exact two c mem

theorem Inert.cons {c : Char} {rest : Text} (first : isInert c = true) (others : Inert rest) :
    Inert (c :: rest) := by
  intro d mem
  rcases List.mem_cons.mp mem with rfl | mem
  · exact first
  · exact others d mem

theorem inert_nil : Inert [] := by
  intro c mem
  cases mem

theorem inert_of_all {text : Text} (all : text.all isInert = true) : Inert text :=
  List.all_eq_true.mp all

theorem inert_of_identifiers {name : Text} (all : ∀ c ∈ name, isIdentifier c = true) :
    Inert name := fun c mem => isInert_of_isIdentifier (all c mem)

theorem Inert.clean {text : Text} (inert : Inert text) : Clean text := by
  constructor
  · intro mem
    cases inert _ mem
  · intro mem
    cases inert _ mem

theorem Inert.braceDepth {text : Text} (inert : Inert text) (depth : Nat) :
    SourceScan.braceDepth depth text = some depth := by
  refine SourceScan.braceDepth_plain ?_ ?_ depth
  · intro mem
    cases inert _ mem
  · intro mem
    cases inert _ mem

/-- A name with a beginning that no word of a declaration has. -/
theorem isQuietName_append {start rest : Text}
    (apart : (start.all isIdentifier && declarationWords.all fun word => !start.isPrefixOf word) = true)
    (others : ∀ c ∈ rest, isIdentifier c = true) : isQuietName (start ++ rest) = true := by
  obtain ⟨begins, apart⟩ := Bool.and_eq_true_iff.mp apart
  refine isQuietName_iff.mpr ⟨fun c mem => ?_, fun mem => ?_⟩
  · rcases List.mem_append.mp mem with mem | mem
    · exact List.all_eq_true.mp begins c mem
    · exact others c mem
  · have other := List.all_eq_true.mp apart _ mem
    rw [List.isPrefixOf_iff_prefix.mpr ⟨rest, rfl⟩] at other
    cases other

theorem isIdentifier_of_mem_toString {n : Nat} : ∀ c ∈ (toString n).toList, isIdentifier c = true := by
  intro c mem
  have digits : (toString n).toList = Nat.toDigits 10 n := Nat.toList_repr
  rw [digits] at mem
  exact Numeral.isIdentifier_of_isDigit (Numeral.isDigit_of_mem_toDigits c mem)

/-! ### Expressions -/

theorem inert_of_printed {text : Text} (printed : text.all isPrinted = true) : Inert text := by
  have apart (c : Char) (other : isPrinted c = false) : c ∉ text := notMem_of_printed printed other
  intro c mem
  simp only [isInert, Bool.and_eq_true, bne_iff_ne, ne_eq]
  refine ⟨⟨⟨?_, ?_⟩, ?_⟩, ?_⟩ <;> rintro rfl <;> exact apart _ (by decide) mem

theorem Builtin.quiet_name (f : Builtin) : isQuietName f.name.toList = true := by
  cases f <;> decide

theorem DataType.quiet_name (ty : DataType) : isQuietName ty.name.toList = true := by
  cases ty <;> decide

theorem DataType.toList_name_ne_nil (ty : DataType) : ty.name.toList ≠ [] := by
  cases ty <;> decide

namespace Expr

mutual
/-- Names and components are made of identifiers, and no name is a word of a declaration. -/
def isQuiet : Expr → Bool
  | var name _ => isQuietName name.toList
  | literal _ => true
  | binary _ l r => l.isQuiet && r.isQuiet
  | negate e => e.isQuiet
  | swizzle b c => b.isQuiet && c.toList.all isIdentifier
  | index b i _ => b.isQuiet && i.isQuiet
  | call _ as => areQuiet as
  | construct _ as => areQuiet as
  | group e => e.isQuiet
def areQuiet : List Expr → Bool
  | [] => true
  | a :: as => a.isQuiet && areQuiet as
end

mutual
theorem allNames_of_isQuiet : (e : Expr) → e.isQuiet = true → e.allNames isSpelled = true
  | var name _, quiet => List.all_eq_true.mpr (isQuietName_iff.mp quiet).1
  | literal _, _ => rfl
  | binary _ l r, quiet => by
    obtain ⟨left, right⟩ := Bool.and_eq_true_iff.mp quiet
    exact Bool.and_eq_true_iff.mpr ⟨allNames_of_isQuiet l left, allNames_of_isQuiet r right⟩
  | negate e, quiet => allNames_of_isQuiet e quiet
  | swizzle b c, quiet => by
    obtain ⟨base, components⟩ := Bool.and_eq_true_iff.mp quiet
    exact Bool.and_eq_true_iff.mpr ⟨allNames_of_isQuiet b base, components⟩
  | index b i _, quiet => by
    obtain ⟨base, place⟩ := Bool.and_eq_true_iff.mp quiet
    exact Bool.and_eq_true_iff.mpr ⟨allNames_of_isQuiet b base, allNames_of_isQuiet i place⟩
  | call _ as, quiet => argumentNames_of_areQuiet as quiet
  | construct _ as, quiet => argumentNames_of_areQuiet as quiet
  | group e, quiet => allNames_of_isQuiet e quiet
theorem argumentNames_of_areQuiet : (as : List Expr) → areQuiet as = true →
    argumentNames isSpelled as = true
  | [], _ => rfl
  | a :: as, quiet => by
    obtain ⟨first, others⟩ := Bool.and_eq_true_iff.mp quiet
    exact Bool.and_eq_true_iff.mpr ⟨allNames_of_isQuiet a first, argumentNames_of_areQuiet as others⟩
end

theorem inert_chars (e : Expr) (named : e.allNames isSpelled = true) : Inert e.chars :=
  inert_of_printed (e.printed_chars named)

end Expr

/-! ### How a statement begins -/

/-- The text goes on with something other than an identifier, and an identifier after that is no
word of a declaration. -/
def Stops (rest : Text) : Prop :=
  ∃ c others, rest = c :: others ∧ isIdentifier c = false ∧ lead rest ∉ declarationWords

theorem lead_of_not_isBlank {c : Char} (notBlank : isBlank c = false) (rest : Text) :
    lead (c :: rest) = (c :: rest).takeWhile isIdentifier := by
  rw [lead, SourceScan.trimStart, List.dropWhile_cons_of_neg (by simp [notBlank])]

theorem nil_notMem_declarationWords : [] ∉ declarationWords := by
  decide

theorem lead_sign {c : Char} (notBlank : isBlank c = false) (sign : isIdentifier c = false)
    (rest : Text) : lead (c :: rest) = [] := by
  rw [lead_of_not_isBlank notBlank, List.takeWhile_cons_of_neg (by simp [sign])]

theorem stops_sign {c : Char} (notBlank : isBlank c = false) (sign : isIdentifier c = false)
    (rest : Text) : Stops (c :: rest) :=
  ⟨c, rest, rfl, sign, by rw [lead_sign notBlank sign]; exact nil_notMem_declarationWords⟩

theorem lead_space (rest : Text) : lead (' ' :: rest) = lead rest := by
  have blank : isBlank ' ' = true := by decide
  rw [lead, SourceScan.trimStart, List.dropWhile_cons_of_pos blank]
  rfl

theorem stops_space {c : Char} (notBlank : isBlank c = false) (sign : isIdentifier c = false)
    (rest : Text) : Stops (' ' :: c :: rest) :=
  ⟨' ', _, rfl, by decide, by
    rw [lead_space, lead_sign notBlank sign]
    exact nil_notMem_declarationWords⟩

theorem trimStart_word {word : Text} (all : ∀ c ∈ word, isIdentifier c = true)
    (nonempty : word ≠ []) (rest : Text) : SourceScan.trimStart (word ++ rest) = word ++ rest := by
  cases word with
  | nil => exact absurd rfl nonempty
  | cons d word =>
    have visible := isBlank_of_isIdentifier (all d List.mem_cons_self)
    rw [List.cons_append, SourceScan.trimStart, List.dropWhile_cons_of_neg (by simp [visible])]

theorem lead_word {word : Text} (all : ∀ c ∈ word, isIdentifier c = true) (nonempty : word ≠ [])
    {c : Char} (stop : isIdentifier c = false) (rest : Text) :
    lead (word ++ c :: rest) = word := by
  rw [lead, trimStart_word all nonempty]
  exact SourceScan.takeWhile_append_stop all stop rest

theorem lead_quietName {name rest : Text} (quiet : isQuietName name = true) (stops : Stops rest) :
    lead (name ++ rest) ∉ declarationWords := by
  obtain ⟨all, other⟩ := isQuietName_iff.mp quiet
  obtain ⟨c, others, rfl, stop, later⟩ := stops
  by_cases empty : name = []
  · rw [empty]
    exact later
  · rw [lead_word all empty stop]
    exact other

theorem lead_digit {c : Char} (digit : c.isDigit = true) (rest : Text) :
    lead (c :: rest) ∉ declarationWords := by
  have identifier := Numeral.isIdentifier_of_isDigit digit
  rw [lead_of_not_isBlank (isBlank_of_isIdentifier identifier), List.takeWhile_cons_of_pos identifier]
  have heads : (declarationWords.all fun word => word.head?.all fun d => !d.isDigit) = true := by
    decide
  intro mem
  have other := List.all_eq_true.mp heads _ mem
  rw [List.head?_cons, Option.all_some, digit] at other
  cases other

theorem lead_digits {digits : Text} (all : ∀ c ∈ digits, c.isDigit = true) (some : digits ≠ [])
    (rest : Text) : lead (digits ++ rest) ∉ declarationWords := by
  cases digits with
  | nil => exact absurd rfl some
  | cons c digits => exact lead_digit (all c List.mem_cons_self) _

theorem lead_minus (rest : Text) : lead ('-' :: rest) ∉ declarationWords := by
  rw [lead_sign (by decide) (by decide)]
  exact nil_notMem_declarationWords

theorem Literal.lead_chars (l : Literal) {rest : Text} (stops : Stops rest) :
    lead (l.chars ++ rest) ∉ declarationWords := by
  cases l with
  | float v =>
    simp only [chars]
    split
    · split
      · exact lead_minus _
      · rw [FloatLiteral.magnitude_eq_text, Numeral.text, List.nil_append, List.append_assoc]
        exact lead_digits (FloatLiteral.digital_numeral v).whole (FloatLiteral.whole_numeral_ne_nil v) _
    · exact lead_digit (by decide) _
  | int v =>
    simp only [chars]
    rcases Int.lt_or_le v 0 with negative | nonneg
    · rw [Numeral.toList_toString_of_neg negative]
      exact lead_minus _
    · rw [Numeral.toList_toString_of_nonneg nonneg]
      exact lead_digits Numeral.isDigit_of_mem_toDigits Nat.toDigits_ne_nil _
  | bool v =>
    cases v with
    | true => exact lead_quietName (by decide : isQuietName ['t', 'r', 'u', 'e'] = true) stops
    | false => exact lead_quietName (by decide : isQuietName ['f', 'a', 'l', 's', 'e'] = true) stops

theorem BinaryOp.symbol_eq (op : BinaryOp) :
    ∃ c others, op.symbol.toList = c :: others ∧ isBlank c = false ∧ isIdentifier c = false := by
  cases op <;> exact ⟨_, _, rfl, by decide, by decide⟩

namespace Expr

theorem lead_parenthesized {text rest : Text} (plain : lead (text ++ rest) ∉ declarationWords)
    (needed : Bool) : lead (parenthesizedChars needed text ++ rest) ∉ declarationWords := by
  unfold parenthesizedChars
  split
  · rw [List.cons_append, lead_sign (by decide) (by decide)]
    exact nil_notMem_declarationWords
  · exact plain

/-- An expression begins no declaration. -/
theorem lead_chars : (e : Expr) → e.isQuiet = true → {rest : Text} → Stops rest →
    lead (e.chars ++ rest) ∉ declarationWords
  | var name _, quiet, rest, stops => lead_quietName quiet stops
  | literal l, _, rest, stops => l.lead_chars stops
  | binary op l r, quiet, rest, stops => by
    obtain ⟨left, _⟩ := Bool.and_eq_true_iff.mp quiet
    obtain ⟨c, others, symbol, notBlank, sign⟩ := op.symbol_eq
    rw [chars, symbol, List.append_assoc]
    exact lead_parenthesized (lead_chars l left (stops_space notBlank sign _)) _
  | negate e, _, rest, _ => lead_minus _
  | swizzle b c, quiet, rest, _ => by
    obtain ⟨base, _⟩ := Bool.and_eq_true_iff.mp quiet
    rw [chars, List.append_assoc]
    exact lead_parenthesized (lead_chars b base (stops_sign (by decide) (by decide) _)) _
  | index b i _, quiet, rest, _ => by
    obtain ⟨base, _⟩ := Bool.and_eq_true_iff.mp quiet
    rw [chars, List.append_assoc]
    exact lead_parenthesized (lead_chars b base (stops_sign (by decide) (by decide) _)) _
  | call f as, _, rest, _ => by
    rw [chars, List.append_assoc]
    exact lead_quietName f.quiet_name (stops_sign (by decide) (by decide) _)
  | construct ty as, _, rest, _ => by
    rw [chars, List.append_assoc]
    exact lead_quietName ty.quiet_name (stops_sign (by decide) (by decide) _)
  | group e, _, rest, _ => by
    rw [chars, List.cons_append, lead_sign (by decide) (by decide)]
    exact nil_notMem_declarationWords

end Expr

/-! ### Conditions -/

def Comparison.all {ε : Type} (p : ε → Bool) (c : Comparison ε) : Bool := p c.lhs && p c.rhs

def Condition.all {ε : Type} (p : ε → Bool) (c : Condition ε) : Bool :=
  c.first.all p && c.rest.all fun joined => joined.2.all p

theorem Comparison.all_mono {ε : Type} {p q : ε → Bool} (weaker : ∀ x, p x = true → q x = true)
    {c : Comparison ε} (holds : c.all p = true) : c.all q = true := by
  obtain ⟨left, right⟩ := Bool.and_eq_true_iff.mp holds
  exact Bool.and_eq_true_iff.mpr ⟨weaker c.lhs left, weaker c.rhs right⟩

theorem Condition.all_mono {ε : Type} {p q : ε → Bool} (weaker : ∀ x, p x = true → q x = true)
    {c : Condition ε} (holds : c.all p = true) : c.all q = true := by
  obtain ⟨first, others⟩ := Bool.and_eq_true_iff.mp holds
  refine Bool.and_eq_true_iff.mpr ⟨Comparison.all_mono weaker first, List.all_eq_true.mpr ?_⟩
  intro joined mem
  exact Comparison.all_mono weaker (List.all_eq_true.mp others joined mem)

def Condition.isQuiet (c : Condition Expr) : Bool := c.all Expr.isQuiet

theorem Relation.inert_symbol (r : Relation) : Inert r.symbol.toList := by
  cases r <;> exact inert_of_all (by decide)

theorem LogicOp.inert_symbol (op : LogicOp) : Inert op.symbol.toList := by
  cases op <;> exact inert_of_all (by decide)

theorem Comparison.inert_chars {c : Comparison Expr}
    (named : c.all (·.allNames isSpelled) = true) : Inert c.chars := by
  obtain ⟨left, right⟩ := Bool.and_eq_true_iff.mp named
  exact (c.lhs.inert_chars left).append (.cons (by decide)
    (c.relation.inert_symbol.append (.cons (by decide) (c.rhs.inert_chars right))))

theorem Condition.inert_chars {c : Condition Expr}
    (named : c.all (·.allNames isSpelled) = true) : Inert c.chars := by
  obtain ⟨first, others⟩ := Bool.and_eq_true_iff.mp named
  refine (Comparison.inert_chars first).append fun d mem => ?_
  obtain ⟨p, inside, here⟩ := List.mem_flatMap.mp mem
  have each := Comparison.inert_chars (List.all_eq_true.mp others p inside)
  exact Inert.cons (by decide) (p.1.inert_symbol.append (.cons (by decide) each)) d here

end ShaderComposer
