import ShaderComposer.Proofs.Glsl.Numerals

/-!
# Tokens of a text

A text is cut into tokens from left to right, the longest token first, with white space between
them. Words are identifiers or truth values, numerals are constants, and a sign that would begin a
longer sign is no operator. A text has at most one sequence of tokens.
-/

namespace ShaderComposer

open SourceScan (Text isIdentifier)

/-! ### Words -/

/-- Letters, digits and underscores, no digit first. -/
def isWord : Text → Bool
  | [] => false
  | c :: rest => !c.isDigit && isIdentifier c && rest.all isIdentifier

def isName (name : String) : Bool :=
  isWord name.toList && name.toList != ['t', 'r', 'u', 'e'] &&
    name.toList != ['f', 'a', 'l', 's', 'e']

def wordToken (word : Text) : Token :=
  if word = ['t', 'r', 'u', 'e'] then .boolean true
  else if word = ['f', 'a', 'l', 's', 'e'] then .boolean false
  else .word (String.ofList word)

theorem wordToken_of_isName {name : String} (plain : isName name = true) :
    wordToken name.toList = .word name := by
  obtain ⟨⟨_, notTrue⟩, notFalse⟩ := by simpa [isName] using plain
  rw [wordToken, if_neg notTrue, if_neg notFalse, String.ofList_toList]

theorem isWord_of_isName {name : String} (plain : isName name = true) :
    isWord name.toList = true := by
  simp only [isName, Bool.and_eq_true] at plain
  exact plain.1.1

theorem Head.isName_name (h : Head) : isName h.name = true := by
  have each : ∀ h ∈ Head.all, isName h.name = true := by decide +kernel
  exact each h h.mem_all

/-! ### Tokens -/

/-- An operator, unless its sign goes on with one of the characters of a longer sign. -/
def sign? (op : BinaryOp) (longer : Text) (rest : Text) : Option (Token × Text) :=
  if rest.head?.any longer.contains then none else some (.operator op, rest)

/-- The sign that a text starts with. A point before a digit begins a constant. -/
def symbol? : Text → Option (Token × Text)
  | '+' :: rest => sign? .add ['+', '='] rest
  | '-' :: rest => sign? .sub ['-', '='] rest
  | '*' :: rest => sign? .mul ['='] rest
  | '/' :: rest => sign? .div ['=', '/', '*'] rest
  | '%' :: rest => sign? .rem ['='] rest
  | '.' :: rest =>
    if rest.head?.any Char.isDigit then Numeral.constant? ('.' :: rest) else some (.dot, rest)
  | ',' :: rest => some (.comma, rest)
  | '(' :: rest => some (.leftParen, rest)
  | ')' :: rest => some (.rightParen, rest)
  | '[' :: rest => some (.leftBracket, rest)
  | ']' :: rest => some (.rightBracket, rest)
  | _ => none

/-- The token that a text starts with, and the rest. -/
def munch : Text → Option (Token × Text)
  | [] => none
  | c :: rest =>
    if c.isDigit then Numeral.constant? (c :: rest)
    else if isIdentifier c then
      some (wordToken (c :: rest.takeWhile isIdentifier), rest.dropWhile isIdentifier)
    else symbol? (c :: rest)

def isSpace (c : Char) : Bool := [' ', '\t', '\n', '\x0b', '\x0c', '\r'].contains c

/-- The tokens of a text. -/
inductive Lexes : Text → List Token → Prop
  | done : Lexes [] []
  | space {c : Char} {text : Text} {ts : List Token} :
    isSpace c = true → Lexes text ts → Lexes (c :: text) ts
  | token {text rest : Text} {t : Token} {ts : List Token} :
    munch text = some (t, rest) → Lexes rest ts → Lexes text (t :: ts)

/-- A text that is an expression, with its tree. -/
def Parses (text : String) (tree : Expr) : Prop :=
  ∃ ts, Lexes text.toList ts ∧ Derives .sum ts tree

theorem munch_space {c : Char} (space : isSpace c = true) (text : Text) :
    munch (c :: text) = none := by
  simp only [isSpace, List.contains_iff_mem, List.mem_cons, List.not_mem_nil, or_false] at space
  rcases space with rfl | rfl | rfl | rfl | rfl | rfl <;> rfl

theorem Lexes.unique {text : Text} {ts us : List Token} (first : Lexes text ts)
    (second : Lexes text us) : ts = us := by
  induction first generalizing us with
  | done =>
    cases second with
    | done => rfl
    | token munched _ => cases munched
  | space space _ ih =>
    cases second with
    | space _ rest => exact ih rest
    | token munched _ => rw [munch_space space] at munched; cases munched
  | token munched _ ih =>
    cases second with
    | done => cases munched
    | space space _ => rw [munch_space space] at munched; cases munched
    | token again rest =>
      cases munched.symm.trans again
      rw [ih rest]

theorem Parses.unique {text : String} {d e : Expr} (first : Parses text d)
    (second : Parses text e) : d = e := by
  obtain ⟨ts, lexes, derives⟩ := first
  obtain ⟨us, lexes', derives'⟩ := second
  rw [← lexes.unique lexes'] at derives'
  exact derives.unique derives'

/-! ### Reading one token -/

theorem munch_word {word rest : Text} (isWord : isWord word = true)
    (ends : Numeral.EndsWord rest) : munch (word ++ rest) = some (wordToken word, rest) := by
  cases word with
  | nil => cases isWord
  | cons c word =>
    simp only [ShaderComposer.isWord, Bool.and_eq_true, Bool.not_eq_true',
      List.all_eq_true] at isWord
    obtain ⟨⟨first, letter⟩, all⟩ := isWord
    have stop : rest.takeWhile isIdentifier = [] ∧ rest.dropWhile isIdentifier = rest := by
      cases rest with
      | nil => exact ⟨rfl, rfl⟩
      | cons c rest =>
        have no := ends c rfl
        simp [no]
    rw [List.cons_append, munch, if_neg (by simp [first]), if_pos letter,
      List.takeWhile_append_of_pos all, List.dropWhile_append_of_pos all, stop.1, stop.2,
      List.append_nil]

theorem munch_numeral {n : Numeral} {rest : Text} {t : Token} (digital : n.Digital)
    (nonempty : n.whole ≠ []) (ends : n.Ends rest) (constant : n.token? = some t) :
    munch (n.text ++ rest) = some (t, rest) := by
  obtain ⟨c, whole, eq⟩ := List.exists_cons_of_ne_nil nonempty
  have digit : c.isDigit = true := digital.whole c (eq ▸ List.mem_cons_self)
  have read := Numeral.constant?_text digital ends
  rw [constant] at read
  have text : n.text ++ rest = c :: (whole ++
      (Numeral.fractionText n.fraction ++ Numeral.exponentText n.exponent) ++ rest) := by
    rw [Numeral.text, eq, List.cons_append, List.cons_append]
  rw [text] at read ⊢
  rw [munch, if_pos digit, read]
  rfl

theorem munch_minus {rest : Text} (single : ∀ c ∈ rest.head?, c ≠ '-' ∧ c ≠ '=') :
    munch ('-' :: rest) = some (.operator .sub, rest) := by
  have short : rest.head?.any ['-', '='].contains = false := by
    cases rest with
    | nil => rfl
    | cons c rest =>
      have differs := single c rfl
      simp [differs]
  show sign? .sub ['-', '='] rest = _
  rw [sign?, short]
  rfl

theorem munch_dot {word rest : Text} (isWord : isWord word = true) :
    munch ('.' :: (word ++ rest)) = some (.dot, word ++ rest) := by
  cases word with
  | nil => cases isWord
  | cons c word =>
    have first : c.isDigit = false := by
      simp only [ShaderComposer.isWord, Bool.and_eq_true, Bool.not_eq_true'] at isWord
      exact isWord.1.1
    exact if_neg (by simp [first])

theorem Lexes.operator (op : BinaryOp) {text : Text} {ts : List Token} (lexes : Lexes text ts) :
    Lexes (' ' :: (op.symbol.toList ++ ' ' :: text)) (.operator op :: ts) := by
  refine .space rfl ?_
  cases op <;> exact .token rfl (.space rfl lexes)

end ShaderComposer
