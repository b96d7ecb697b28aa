/-!
# Reading a shader source

The few facts that a headless backend reads off a source: its lines, whether it defines `main()`
and closes its braces, which variables its declaration lines declare, and which names the other
lines mention. Texts are lists of characters here.
-/

namespace ShaderComposer.SourceScan

abbrev Text := List Char

/-! ### Lines and words -/

/-- The line that ends here, given backwards: a carriage return before the line feed belongs to
the line's end. -/
def endedLine : Text → Text
  | '\r' :: before => before.reverse
  | before => before.reverse

/-- The lines from here on, given the current line so far backwards. -/
def linesFrom : Text → Text → List Text
  | before, [] => if before.isEmpty then [] else [before.reverse]
  | before, c :: rest =>
    if c = '\n' then endedLine before :: linesFrom [] rest else linesFrom (c :: before) rest

/-- The lines of a text, without their ends. -/
def lines (text : Text) : List Text := linesFrom [] text

def isBlank (c : Char) : Bool :=
  let n := c.toNat
  (9 ≤ n && n ≤ 13) || n == 0x20 || n == 0x85 || n == 0xa0 || n == 0x1680 ||
    (0x2000 ≤ n && n ≤ 0x200a) || n == 0x2028 || n == 0x2029 || n == 0x202f || n == 0x205f ||
    n == 0x3000

def trimStart (text : Text) : Text := text.dropWhile isBlank

/-- The maximal runs of characters that do not separate, empty runs included; at least one. -/
def splitOn (separates : Char → Bool) : Text → List Text
  | [] => [[]]
  | c :: rest =>
    if separates c then [] :: splitOn separates rest
    else
      match splitOn separates rest with
      | [] => [[c]]
      | first :: others => (c :: first) :: others

def words (text : Text) : List Text := (splitOn isBlank text).filter (!·.isEmpty)

/-- The text after an opening, if it starts with it. -/
def after? : Text → Text → Option Text
  | [], text => some text
  | _ :: _, [] => none
  | p :: opening, c :: text => if p = c then after? opening text else none

def contains (needle : Text) : Text → Bool
  | [] => needle.isEmpty
  | c :: rest => needle.isPrefixOf (c :: rest) || contains needle rest

/-! ### Checks of a stage -/

/-- The depth of open braces after a line, unless a brace closes more than was opened. -/
def braceDepth : Nat → Text → Option Nat
  | depth, [] => some depth
  | depth, c :: rest =>
    if c = '\x7b' then braceDepth (depth + 1) rest
    else if c = '\x7d' then
      match depth with
      | 0 => none
      | outer + 1 => braceDepth outer rest
    else braceDepth depth rest

/-- What is wrong with the braces of numbered lines, from an open depth on. -/
def braceFault : Nat → Nat → List Text → Option String
  | _, 0, [] => none
  | _, _ + 1, [] => some "ERROR: unexpected end of source, missing '\x7d'"
  | number, depth, line :: rest =>
    match braceDepth depth line with
    | none => some ("ERROR: 0:" ++ toString number ++ ": unexpected '\x7d'")
    | some next => braceFault (number + 1) next rest

def stageFault (text : Text) : Option String :=
  if contains "void main()".toList text then braceFault 1 0 (lines text)
  else some "no definition of main() found"

/-! ### Declarations -/

def qualifiers : List Text := ["uniform".toList, "attribute".toList, "varying".toList]

/-- The words that may stand between a qualifier and a type. -/
def precisions : List Text := ["lowp".toList, "mediump".toList, "highp".toList]

/-- What follows a qualifier and a space at the start of a line. -/
def afterQualifier? (qualifier line : Text) : Option Text :=
  after? (qualifier ++ [' ']) (trimStart line)

def isDeclaration (line : Text) : Bool :=
  qualifiers.any fun q => (afterQualifier? q line).isSome

/-- The name and type of the variable that a line declares with a qualifier. -/
def declaration? (qualifier line : Text) : Option (Text × Text) :=
  match afterQualifier? qualifier line with
  | none => none
  | some rest =>
    let declared := rest.takeWhile fun c => c != ';' && c != '[' && c != '='
    match (words declared).filter fun w => !precisions.contains w with
    | ty :: name :: _ => some (name, ty)
    | _ => none

/-- The names and types that a source declares with a qualifier, in order. -/
def declarations (qualifier source : Text) : List (Text × Text) :=
  (lines source).filterMap (declaration? qualifier)

/-! ### References -/

def isIdentifier (c : Char) : Bool := c.isAlphanum || c == '_'

/-- The pieces of a line between characters that no identifier has. -/
def tokens (line : Text) : List Text := splitOn (!isIdentifier ·) line

/-- A line of the source other than its declaration lines mentions the name. -/
def mentions (name source : Text) : Bool :=
  (lines source).any fun line => !isDeclaration line && (tokens line).contains name

/-! ### Laws -/

/-- A line feed ends the line, and the next line starts afresh. -/
theorem linesFrom_append (before line rest : Text) (plain : '\n' ∉ line) :
    linesFrom before (line ++ '\n' :: rest) =
      endedLine (line.reverse ++ before) :: linesFrom [] rest := by
  induction line generalizing before with
  | nil => simp [linesFrom]
  | cons c line ih =>
    have hc : c ≠ '\n' := fun h => plain (h ▸ List.mem_cons_self)
    have hline : '\n' ∉ line := fun h => plain (List.mem_cons_of_mem _ h)
    simp [linesFrom, hc, ih (c :: before) hline]

theorem linesFrom_plain (before line : Text) (plain : '\n' ∉ line)
    (some : before ≠ [] ∨ line ≠ []) : linesFrom before line = [before.reverse ++ line] := by
  induction line generalizing before with
  | nil =>
    cases before with
    | nil => simp at some
    | cons c before => simp [linesFrom]
  | cons c line ih =>
    have hc : c ≠ '\n' := fun h => plain (h ▸ List.mem_cons_self)
    have rest : '\n' ∉ line := fun h => plain (List.mem_cons_of_mem _ h)
    simp [linesFrom, hc, ih (c :: before) rest (Or.inl (List.cons_ne_nil _ _))]

end ShaderComposer.SourceScan
