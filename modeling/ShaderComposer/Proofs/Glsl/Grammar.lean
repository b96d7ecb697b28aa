import ShaderComposer.Glsl.Expr.Render

/-!
# Expression grammar

The expression grammar of the shading language, as far as the library writes it, and its parse
trees. Sums and products associate to the left, a prefix minus binds stronger than both, and
selections, indexings and calls bind strongest. Parentheses leave no node in a tree.

No list of tokens has two trees. The proof reads tokens from left to right and keeps what is open
on a stack (`Reader`): every derivation makes the reader arrive at its tree, and the reader has no
choice.
-/

namespace ShaderComposer

/-! ### Tokens and trees -/

/-- The tokens of expressions. Signless constants carry their values. -/
inductive Token where
  | word (name : String)
  | boolean (value : Bool)
  | int (value : Nat)
  | float (value : Single)
  | operator (op : BinaryOp)
  | dot
  | comma
  | leftParen
  | rightParen
  | leftBracket
  | rightBracket
deriving DecidableEq

/-- What can be called: a function or the constructor of a type. -/
inductive Head where
  | function (f : Builtin)
  | type (ty : DataType)
deriving DecidableEq

namespace Head

def name : Head → String
  | function f => f.name
  | type ty => ty.name

def apply : Head → List Expr → Expr
  | function f, arguments => .call f arguments
  | type ty, arguments => .construct ty arguments

def all : List Head := Builtin.all.map function ++ DataType.all.map type

def named? (word : String) : Option Head := all.find? fun h => h.name = word

theorem mem_all (h : Head) : h ∈ all := by
  cases h with
  | function f => exact List.mem_append_left _ (List.mem_map_of_mem f.mem_all)
  | type ty => cases ty <;> decide

theorem named?_name (h : Head) : named? h.name = some h := by
  have each : ∀ h ∈ all, named? h.name = some h := by decide
  exact each h h.mem_all

end Head

/-- The four strengths of the grammar, the weakest first. -/
inductive Phrase where
  | sum
  | product
  | signed
  | operand
deriving DecidableEq

/-- The tokens are a phrase of the grammar with this tree. -/
inductive Derives : Phrase → List Token → Expr → Prop
  | identifier (name : String) : Derives .operand [.word name] (.var name none)
  | boolean (value : Bool) : Derives .operand [.boolean value] (.literal (.bool value))
  | int (value : Nat) : Derives .operand [.int value] (.literal (.int value))
  | float (value : Single) : Derives .operand [.float value] (.literal (.float value))
  | parentheses {ts : List Token} {e : Expr} :
    Derives .sum ts e → Derives .operand (.leftParen :: (ts ++ [.rightParen])) e
  | field {ts : List Token} {e : Expr} (name : String) :
    Derives .operand ts e → Derives .operand (ts ++ [.dot, .word name]) (.swizzle e name)
  | element {ts us : List Token} {e i : Expr} :
    Derives .operand ts e → Derives .sum us i →
      Derives .operand (ts ++ .leftBracket :: (us ++ [.rightBracket])) (.index e i none)
  | call (head : Head) (arguments : List (List Token × Expr)) :
    (∀ a ∈ arguments, Derives .sum a.1 a.2) →
      Derives .operand
        (.word head.name :: .leftParen ::
          ([Token.comma].intercalate (arguments.map (·.1)) ++ [.rightParen]))
        (head.apply (arguments.map (·.2)))
  | bare {ts : List Token} {e : Expr} : Derives .operand ts e → Derives .signed ts e
  | minus {ts : List Token} {e : Expr} :
    Derives .signed ts e → Derives .signed (.operator .sub :: ts) (.negate e)
  | factor {ts : List Token} {e : Expr} : Derives .signed ts e → Derives .product ts e
  | product {ts us : List Token} {l r : Expr} {op : BinaryOp} :
    op ∈ [BinaryOp.mul, .div, .rem] → Derives .product ts l → Derives .signed us r →
      Derives .product (ts ++ .operator op :: us) (.binary op l r)
  | term {ts : List Token} {e : Expr} : Derives .product ts e → Derives .sum ts e
  | sum {ts us : List Token} {l r : Expr} {op : BinaryOp} :
    op ∈ [BinaryOp.add, .sub] → Derives .sum ts l → Derives .product us r →
      Derives .sum (ts ++ .operator op :: us) (.binary op l r)

/-! ### A reader without choices -/

/-- What is open to the left of an operand. -/
inductive Frame where
  | minus
  | binary (op : BinaryOp) (lhs : Expr)
  | paren
  | index (base : Expr)
  | call (head : Head) (arguments : List Expr)

/-- Where a reader stands between two tokens, with what is open, the innermost first. -/
inductive Reader where
  /-- An operand comes. -/
  | wanting (stack : List Frame)
  /-- The first argument of a call comes, or its end. -/
  | calling (head : Head) (stack : List Frame)
  /-- An operand has come; it may be the word of a call. -/
  | holding (operand : Expr) (head : Option Head) (stack : List Frame)
  /-- The word of a selection comes. -/
  | selecting (base : Expr) (stack : List Frame)

namespace Reader

/-- An operand takes in what is open and binds at least as strong as `strength`. -/
def settle (strength : Nat) : Expr → List Frame → Expr × List Frame
  | e, .minus :: stack =>
    if strength ≤ Precedence.unary then settle strength (.negate e) stack else (e, .minus :: stack)
  | e, .binary op l :: stack =>
    if strength ≤ op.precedence then settle strength (.binary op l e) stack
    else (e, .binary op l :: stack)
  | e, stack => (e, stack)

def begin (stack : List Frame) : Token → Option Reader
  | .word name => some (holding (.var name none) (Head.named? name) stack)
  | .boolean value => some (holding (.literal (.bool value)) none stack)
  | .int value => some (holding (.literal (.int value)) none stack)
  | .float value => some (holding (.literal (.float value)) none stack)
  | .operator .sub => some (wanting (.minus :: stack))
  | .leftParen => some (wanting (.paren :: stack))
  | _ => none

def closeParen : Expr × List Frame → Option Reader
  | (e, .paren :: stack) => some (holding e none stack)
  | (e, .call head arguments :: stack) => some (holding (head.apply (arguments ++ [e])) none stack)
  | _ => none

def closeBracket : Expr × List Frame → Option Reader
  | (e, .index base :: stack) => some (holding (.index base e none) none stack)
  | _ => none

def nextArgument : Expr × List Frame → Option Reader
  | (e, .call head arguments :: stack) => some (wanting (.call head (arguments ++ [e]) :: stack))
  | _ => none

def step : Reader → Token → Option Reader
  | wanting stack, token => begin stack token
  | calling head stack, .rightParen => some (holding (head.apply []) none stack)
  | calling head stack, token => begin (.call head [] :: stack) token
  | selecting base stack, .word name => some (holding (.swizzle base name) none stack)
  | selecting _ _, _ => none
  | holding e _ stack, .operator op =>
    let (lhs, rest) := settle op.precedence e stack
    some (wanting (.binary op lhs :: rest))
  | holding e _ stack, .dot => some (selecting e stack)
  | holding e _ stack, .leftBracket => some (wanting (.index e :: stack))
  | holding _ head stack, .leftParen => head.map (calling · stack)
  | holding e _ stack, .rightParen => closeParen (settle 1 e stack)
  | holding e _ stack, .rightBracket => closeBracket (settle 1 e stack)
  | holding e _ stack, .comma => nextArgument (settle 1 e stack)
  | holding _ _ _, _ => none

def run (r : Reader) (ts : List Token) : Option Reader := ts.foldlM step r

theorem run_append (r : Reader) (ts us : List Token) :
    r.run (ts ++ us) = (r.run ts).bind fun s => s.run us :=
  List.foldlM_append

theorem run_snoc (r : Reader) (ts : List Token) (t : Token) :
    r.run (ts ++ [t]) = (r.run ts).bind fun s => s.step t := by
  rw [run_append]
  exact congrArg _ (funext fun s => bind_pure (s.step t))

theorem run_cons (r : Reader) (t : Token) (us : List Token) :
    r.run (t :: us) = (r.step t).bind fun s => s.run us :=
  List.foldlM_cons

/-- The innermost open form binds weaker than `strength`. -/
def Settled (strength : Nat) : List Frame → Prop
  | .minus :: _ => False
  | .binary op _ :: _ => op.precedence < strength
  | _ => True

theorem settle_of_settled {strength : Nat} {stack : List Frame} (settled : Settled strength stack)
    (e : Expr) : settle strength e stack = (e, stack) := by
  unfold settle
  split
  · cases settled
  · next op l rest => exact if_neg (Nat.not_le_of_lt settled)
  · rfl

theorem Settled.mono {s t : Nat} {stack : List Frame} (settled : Settled s stack) (le : s ≤ t) :
    Settled t stack := by
  unfold Settled at settled ⊢
  split
  · exact settled
  · exact Nat.lt_of_lt_of_le settled le
  · trivial

/-- Nothing open takes in an operand before its selections, indexings and calls. -/
theorem settle_atom (e : Expr) (stack : List Frame) :
    settle Precedence.atom e stack = (e, stack) := by
  unfold settle
  split
  · rfl
  · next op l rest => exact if_neg (Nat.not_le_of_lt (Nat.lt_succ_of_lt op.precedence_lt_unary))
  · rfl

/-- An argument that can be read is not the end of the call. -/
theorem run_calling {head : Head} {stack : List Frame} {ts : List Token} {r : Reader}
    (read : (wanting (.call head [] :: stack)).run ts = some r) (some : ts ≠ []) :
    (calling head stack).run ts = .some r := by
  cases ts with
  | nil => cases some rfl
  | cons t rest =>
    cases t with
    | rightParen => cases read
    | _ => exact read

end Reader

/-- How strong the operators of a phrase bind at least. -/
def Phrase.strength : Phrase → Nat
  | sum => 1
  | product => 2
  | signed => Precedence.unary
  | operand => Precedence.atom

/-- What may be open where a phrase begins: nothing that would take in its first operand. -/
def Phrase.Fits : Phrase → List Frame → Prop
  | sum, stack => Reader.Settled 1 stack
  | product, stack => Reader.Settled 2 stack
  | _, _ => True

/-- Reading the tokens leaves the reader where it would be with the tree as its operand, once
everything as strong as the phrase is settled. -/
def Reads (phrase : Phrase) (ts : List Token) (e : Expr) : Prop :=
  ∀ stack, phrase.Fits stack → ∃ held head rest,
    (Reader.wanting stack).run ts = some (.holding held head rest) ∧
      ∀ s ≤ phrase.strength, Reader.settle s held rest = Reader.settle s e stack

namespace Reads

open Reader

theorem settled {ts : List Token} {e : Expr} (reads : Reads .sum ts e) (stack : List Frame)
    (fits : Settled 1 stack) : ∃ held head rest,
      (wanting stack).run ts = some (holding held head rest) ∧ settle 1 held rest = (e, stack) := by
  obtain ⟨held, head, rest, run, settles⟩ := reads stack fits
  exact ⟨held, head, rest, run, (settles 1 (Nat.le_refl 1)).trans (settle_of_settled fits e)⟩

theorem exact {ts : List Token} {e : Expr} (reads : Reads .operand ts e) (stack : List Frame) :
    ∃ head, (wanting stack).run ts = some (holding e head stack) := by
  obtain ⟨held, head, rest, run, settles⟩ := reads stack trivial
  have same := settles Precedence.atom (Nat.le_refl 4)
  rw [settle_atom, settle_atom] at same
  cases same
  exact ⟨head, run⟩

theorem of_exact {ts : List Token} {e : Expr} (head : Option Head)
    (run : ∀ stack, (wanting stack).run ts = some (holding e head stack)) :
    Reads .operand ts e :=
  fun stack _ => ⟨e, head, stack, run stack, fun _ _ => rfl⟩

theorem weaken {ts : List Token} {e : Expr} {p q : Phrase} (reads : Reads p ts e)
    (fits : ∀ stack, q.Fits stack → p.Fits stack) (le : q.strength ≤ p.strength) :
    Reads q ts e := by
  intro stack fit
  obtain ⟨held, head, rest, run, settles⟩ := reads stack (fits stack fit)
  exact ⟨held, head, rest, run, fun s bound => settles s (Nat.le_trans bound le)⟩

theorem parentheses {ts : List Token} {e : Expr} (reads : Reads .sum ts e) :
    Reads .operand (.leftParen :: (ts ++ [.rightParen])) e := by
  refine of_exact none fun stack => ?_
  obtain ⟨held, head, rest, run, settles⟩ := reads.settled (.paren :: stack) trivial
  show (wanting (.paren :: stack)).run (ts ++ [.rightParen]) = _
  rw [run_snoc, run]
  show closeParen (settle 1 held rest) = _
  rw [settles, closeParen]

theorem field {ts : List Token} {e : Expr} (reads : Reads .operand ts e) (name : String) :
    Reads .operand (ts ++ [.dot, .word name]) (.swizzle e name) := by
  refine of_exact none fun stack => ?_
  obtain ⟨head, run⟩ := reads.exact stack
  rw [run_append, run]
  rfl

theorem element {ts us : List Token} {e i : Expr} (base : Reads .operand ts e)
    (index : Reads .sum us i) :
    Reads .operand (ts ++ .leftBracket :: (us ++ [.rightBracket])) (.index e i none) := by
  refine of_exact none fun stack => ?_
  obtain ⟨head, run⟩ := base.exact stack
  obtain ⟨held, _, rest, within, settles⟩ := index.settled (.index e :: stack) trivial
  rw [run_append, run]
  show (wanting (.index e :: stack)).run (us ++ [.rightBracket]) = _
  rw [run_snoc, within]
  show closeBracket (settle 1 held rest) = _
  rw [settles, closeBracket]

/-- Arguments are read one by one up to the parenthesis that closes the call. -/
theorem arguments {head : Head} (before : List Expr) {stack : List Frame}
    {first : List Token × Expr} {more : List (List Token × Expr)}
    (reads : ∀ a ∈ first :: more, Reads .sum a.1 a.2) :
    (wanting (.call head before :: stack)).run
        ([Token.comma].intercalate ((first :: more).map (·.1)) ++ [.rightParen]) =
      some (holding (head.apply (before ++ (first :: more).map (·.2))) none stack) := by
  induction more generalizing before first with
  | nil =>
    obtain ⟨held, _, rest, run, settles⟩ :=
      (reads first List.mem_cons_self).settled (.call head before :: stack) trivial
    have single : [Token.comma].intercalate [first.1] = first.1 := by simp [List.intercalate]
    rw [List.map_singleton, single, run_snoc, run]
    show closeParen (settle 1 held rest) = _
    rw [settles, closeParen]
    rfl
  | cons second more ih =>
    obtain ⟨held, _, rest, run, settles⟩ :=
      (reads first List.mem_cons_self).settled (.call head before :: stack) trivial
    have later := ih (before ++ [first.2]) fun a mem => reads a (List.mem_cons_of_mem _ mem)
    have split : [Token.comma].intercalate ((first :: second :: more).map (·.1)) =
        first.1 ++ .comma :: [Token.comma].intercalate ((second :: more).map (·.1)) := rfl
    rw [split, List.append_assoc, run_append, run, Option.bind_some, List.cons_append, run_cons]
    show (nextArgument (settle 1 held rest)).bind _ = _
    rw [settles, nextArgument, Option.bind_some, later, List.append_assoc]
    rfl

theorem minus {ts : List Token} {e : Expr} (reads : Reads .signed ts e) :
    Reads .signed (.operator .sub :: ts) (.negate e) := by
  intro stack _
  obtain ⟨held, head, rest, run, settles⟩ := reads (.minus :: stack) trivial
  refine ⟨held, head, rest, run, fun s bound => ?_⟩
  rw [settles s bound, settle]
  exact if_pos bound

/-- An operator takes what is settled on its left and waits for what is stronger on its right. -/
theorem binary {p q : Phrase} {ts us : List Token} {l r : Expr} {op : BinaryOp}
    (left : Reads p ts l) (right : Reads q us r) (same : op.precedence = p.strength)
    (fits : ∀ stack, p.Fits stack → Settled p.strength stack)
    (wants : ∀ stack, p.Fits stack → q.Fits (.binary op l :: stack))
    (le : p.strength ≤ q.strength) :
    Reads p (ts ++ .operator op :: us) (.binary op l r) := by
  intro stack fit
  obtain ⟨held, head, rest, run, settles⟩ := left stack fit
  have lhs : settle op.precedence held rest = (l, stack) := by
    rw [same, settles _ (Nat.le_refl _), settle_of_settled (fits stack fit)]
  obtain ⟨held', head', rest', run', settles'⟩ := right (.binary op l :: stack) (wants stack fit)
  refine ⟨held', head', rest', ?_, fun s bound => ?_⟩
  · rw [run_append, run, Option.bind_some, run_cons]
    show (some (wanting (.binary op (settle op.precedence held rest).1 ::
      (settle op.precedence held rest).2))).bind _ = _
    rw [lhs]
    exact run'
  · rw [settles' s (Nat.le_trans bound le), settle]
    exact if_pos (same ▸ bound)

theorem call (head : Head) {arguments : List (List Token × Expr)}
    (reads : ∀ a ∈ arguments, Reads .sum a.1 a.2) :
    Reads .operand
      (.word head.name :: .leftParen ::
        ([Token.comma].intercalate (arguments.map (·.1)) ++ [.rightParen]))
      (head.apply (arguments.map (·.2))) := by
  refine of_exact none fun stack => ?_
  have named : (wanting stack).step (.word head.name) =
      some (holding (.var head.name none) (some head) stack) := by
    rw [← head.named?_name]
    rfl
  rw [run_cons, named, Option.bind_some, run_cons]
  show (calling head stack).run _ = _
  cases arguments with
  | nil => rfl
  | cons first more =>
    exact run_calling (arguments [] reads)
      (List.append_ne_nil_of_right_ne_nil _ (List.cons_ne_nil _ _))

end Reads

/-- The reader arrives at the tree of every derivation. -/
theorem Derives.reads {p : Phrase} {ts : List Token} {e : Expr} (derives : Derives p ts e) :
    Reads p ts e := by
  induction derives with
  | identifier name => exact .of_exact _ fun _ => rfl
  | boolean value => exact .of_exact _ fun _ => rfl
  | int value => exact .of_exact _ fun _ => rfl
  | float value => exact .of_exact _ fun _ => rfl
  | parentheses _ ih => exact ih.parentheses
  | field name _ ih => exact ih.field name
  | element _ _ base index => exact base.element index
  | call head arguments _ ih => exact .call head ih
  | bare _ ih => exact ih.weaken (fun _ _ => trivial) (by decide)
  | minus _ ih => exact ih.minus
  | factor _ ih => exact ih.weaken (fun _ _ => trivial) (by decide)
  | @product _ _ l _ op mem _ _ left right =>
    have strength : op.precedence = 2 := by
      revert mem
      cases op <;> decide
    exact left.binary right strength (fun _ fit => fit) (fun _ _ => trivial) (by decide)
  | term _ ih => exact ih.weaken (fun _ fit => fit.mono (by decide)) (by decide)
  | @sum _ _ l _ op mem _ _ left right =>
    have strength : op.precedence = 1 := by
      revert mem
      cases op <;> decide
    refine left.binary right strength (fun _ fit => fit) (fun stack _ => ?_) (by decide)
    show op.precedence < 2
    omega

/-- No tokens have two trees. -/
theorem Derives.unique {ts : List Token} {d e : Expr} (first : Derives .sum ts d)
    (second : Derives .sum ts e) : d = e := by
  obtain ⟨_, _, _, run, settles⟩ := first.reads.settled [] trivial
  obtain ⟨_, _, _, run', settles'⟩ := second.reads.settled [] trivial
  cases run.symm.trans run'
  exact congrArg Prod.fst (settles.symm.trans settles')

end ShaderComposer
