import ShaderComposer.Proofs.Glsl.Sameness
import ShaderComposer.Proofs.Script.Alike
import ShaderComposer.Proofs.Source.DeclarationLines
import ShaderComposer.Proofs.Source.FirstClaims

/-!
# Redeclarations

A declaration line can be read apart: it tells the keywords, the type and the array length of the
variable and the text of its initial value (`Variable.declaration_eq_iff`). With this, what a
registry lets a second owner declare under a registered name is told by lines
(`Registry.redeclared_run`): a constant has to repeat the registered line up to its value, and the
value as a number; of every other variable neither the precision nor the initial value is looked at.
-/

namespace ShaderComposer

open SourceScan (Text)

/-! ### Reading words apart -/

theorem first_apart {c : Char} {a b s t : Text} (clear : c ∉ a) (clear' : c ∉ b)
    (same : a ++ c :: s = b ++ c :: t) : a = b ∧ s = t := by
  induction a generalizing b with
  | nil =>
    cases b with
    | nil => exact ⟨rfl, (List.cons.inj same).2⟩
    | cons d b => exact absurd ((List.cons.inj same).1 ▸ List.mem_cons_self) clear'
  | cons d a ih =>
    cases b with
    | nil => exact absurd ((List.cons.inj same).1 ▸ List.mem_cons_self) clear
    | cons e b =>
      obtain ⟨rfl, rest⟩ := List.cons.inj same
      obtain ⟨rfl, left⟩ := ih (List.not_mem_of_not_mem_cons clear)
        (List.not_mem_of_not_mem_cons clear') rest
      exact ⟨rfl, left⟩

def spaced (words : List Text) : Text := words.flatMap (· ++ [' '])

theorem spaced_cons (word : Text) (words : List Text) (rest : Text) :
    spaced (word :: words) ++ rest = word ++ ' ' :: (spaced words ++ rest) := by
  simp [spaced]

/-- Words without a space are read apart up to the first that is in a list of last words. -/
theorem spaced_apart (lasts : List Text) {words words' : List Text} {last last' s t : Text}
    (plain : ∀ w ∈ words, ' ' ∉ w ∧ w ∉ lasts) (plain' : ∀ w ∈ words', ' ' ∉ w ∧ w ∉ lasts)
    (ends : ' ' ∉ last ∧ last ∈ lasts) (ends' : ' ' ∉ last' ∧ last' ∈ lasts)
    (same : spaced words ++ (last ++ ' ' :: s) = spaced words' ++ (last' ++ ' ' :: t)) :
    words = words' ∧ last = last' ∧ s = t := by
  induction words generalizing words' with
  | nil =>
    cases words' with
    | nil => exact ⟨rfl, first_apart ends.1 ends'.1 same⟩
    | cons w words' =>
      rw [spaced_cons] at same
      have here := plain' w List.mem_cons_self
      obtain ⟨rfl, _⟩ := first_apart ends.1 here.1 same
      exact absurd ends.2 here.2
  | cons w words ih =>
    have here := plain w List.mem_cons_self
    rw [spaced_cons] at same
    cases words' with
    | nil =>
      obtain ⟨rfl, _⟩ := first_apart here.1 ends'.1 same
      exact absurd ends'.2 here.2
    | cons w' words' =>
      rw [spaced_cons] at same
      obtain ⟨rfl, rest⟩ := first_apart here.1 (plain' w' List.mem_cons_self).1 same
      obtain ⟨rfl, left⟩ := ih (fun v mem => plain v (List.mem_cons_of_mem _ mem))
        (fun v mem => plain' v (List.mem_cons_of_mem _ mem)) rest
      exact ⟨rfl, left⟩

/-! ### Declaration lines -/

def DataType.words : List Text := all.map fun ty => ty.name.toList

theorem DataType.name_mem_words (ty : DataType) :
    ' ' ∉ ty.name.toList ∧ ty.name.toList ∈ words := by
  cases ty <;> decide

theorem DataType.eq_of_name {ty ty' : DataType} (same : ty.name = ty'.name) : ty = ty' := by
  have read (t : DataType) : all.find? (fun u => u.name == t.name) = some t := by cases t <;> decide
  have found := read ty
  rw [same, read ty'] at found
  exact (Option.some.inj found).symm

theorem Qualifier.keyword_apart (q : Qualifier) :
    ∀ w ∈ q.keyword.toList.map String.toList, ' ' ∉ w ∧ w ∉ DataType.words := by
  cases q <;> decide

theorem Precision.keyword_apart (p : Precision) :
    ' ' ∉ p.keyword.toList ∧ p.keyword.toList ∉ DataType.words := by
  cases p <;> decide

theorem Precision.keyword_not_mem (p : Precision) (q : Qualifier) : p.keyword ∉ q.keyword := by
  cases p <;> cases q <;> decide

theorem Precision.eq_of_keyword {p p' : Precision} (same : p.keyword = p'.keyword) : p = p' := by
  cases p <;> cases p' <;> first | rfl | exact absurd same (by decide)

theorem Qualifier.eq_of_keyword {q q' : Qualifier} (same : q.keyword = q'.keyword)
    (kept : q ≠ .functionLocal) (kept' : q' ≠ .functionLocal) : q = q' := by
  cases q <;> cases q' <;> first | rfl | contradiction

namespace Variable

def keywords (q : Qualifier) (p : Option Precision) : List String :=
  q.keyword.toList ++ (p.map Precision.keyword).toList

theorem keywords_apart (q : Qualifier) (p : Option Precision) :
    ∀ w ∈ (keywords q p).map String.toList, ' ' ∉ w ∧ w ∉ DataType.words := by
  intro w mem
  rw [keywords, List.map_append] at mem
  rcases List.mem_append.mp mem with mem | mem
  · exact q.keyword_apart w mem
  · cases p with
    | none => cases mem
    | some p =>
      obtain rfl : w = p.keyword.toList := List.mem_singleton.mp mem
      exact p.keyword_apart

/-- No word is the keyword of a qualifier and of a precision. -/
theorem keywords_eq {q q' : Qualifier} {p p' : Option Precision}
    (same : keywords q p = keywords q' p') : q.keyword = q'.keyword ∧ p = p' := by
  have first (q : Qualifier) (p : Precision) : ¬ q.keyword = some p.keyword := p.keyword_not_mem q
  unfold keywords at same
  cases word : q.keyword <;> cases word' : q'.keyword <;> cases p <;> cases p' <;>
    simp only [word, word', Option.map, Option.toList, List.nil_append, List.append_nil,
      List.cons_append, List.cons.injEq, and_true, reduceCtorEq, List.nil_eq, List.ne_cons_self,
      and_false] at same
  case none.none.none.none => exact ⟨rfl, rfl⟩
  case none.none.some.some => exact ⟨rfl, congrArg some (Precision.eq_of_keyword same)⟩
  case none.some.some.none w p => exact absurd (same ▸ word') (first q' p)
  case some.none.none.some w p => exact absurd (same ▸ word) (first q p)
  case some.some.none.none => exact ⟨congrArg some same, rfl⟩
  case some.some.some.some =>
    exact ⟨congrArg some same.1, congrArg some (Precision.eq_of_keyword same.2)⟩

theorem toList_leading_eq (keyword : Option String) :
    (leading keyword).toList = spaced (keyword.toList.map String.toList) := by
  cases keyword with
  | none => rfl
  | some k => simp [toList_leading, spaced]

theorem chars_eq_spaced (v : Variable) :
    v.chars = spaced ((keywords v.qualifier v.precision).map String.toList) ++
      (v.type.name.toList ++ ' ' :: (v.name.toList ++ v.ending)) := by
  rw [chars_eq, typedName, toList_leading_eq, toList_leading_eq]
  simp [keywords, spaced]

/-- An array length ends before what an initial value or the end of the line begins with. -/
theorem lengthSuffix_apart {m n : Option Nat} {s t : Text} {c d : Char} (other : c ≠ '[')
    (other' : d ≠ '[')
    (same : (lengthSuffix m).toList ++ c :: s = (lengthSuffix n).toList ++ d :: t) :
    m = n ∧ c :: s = d :: t := by
  have digits (k : Nat) :
      (lengthSuffix (some k)).toList = '[' :: ((toString k).toList ++ [']']) := by
    simp [lengthSuffix]
  have clear (k : Nat) : ']' ∉ (toString k).toList := fun mem => by
    cases isIdentifier_of_mem_toString _ mem
  cases m with
  | none =>
    cases n with
    | none => exact ⟨rfl, same⟩
    | some n =>
      rw [digits] at same
      exact absurd (List.cons.inj same).1 other
  | some m =>
    cases n with
    | none =>
      rw [digits] at same
      exact absurd (List.cons.inj same).1.symm other'
    | some n =>
      rw [digits, digits] at same
      rw [List.cons_append, List.cons_append, List.append_assoc, List.append_assoc] at same
      obtain ⟨written, rest⟩ := first_apart (clear m) (clear n) (List.cons.inj same).2
      have numerals : Nat.toDigits 10 m = Nat.toDigits 10 n := by
        rw [← Nat.toList_repr, ← Nat.toList_repr]
        exact written
      refine ⟨congrArg some ?_, rest⟩
      rw [← Numeral.value_toDigits m, numerals, Numeral.value_toDigits]

theorem initialChars_eq_or (value : Option Expr) :
    ∃ c s, c ≠ '[' ∧ Stmt.initialChars value ++ [';'] = c :: s := by
  cases value with
  | none => exact ⟨';', [], by decide, rfl⟩
  | some e => exact ⟨' ', _, by decide, rfl⟩

theorem ending_apart {v w : Variable} (same : v.ending = w.ending) :
    v.arrayLength = w.arrayLength ∧ initialText v.initial = initialText w.initial := by
  unfold ending at same
  obtain ⟨c, s, other, begun⟩ := initialChars_eq_or v.initial
  obtain ⟨d, t, other', begun'⟩ := initialChars_eq_or w.initial
  rw [begun, begun'] at same
  obtain ⟨lengths, rest⟩ := lengthSuffix_apart other other' same
  rw [← begun, ← begun'] at rest
  refine ⟨lengths, String.toList_inj.mp ?_⟩
  calc (initialText v.initial).toList = Stmt.initialChars v.initial :=
        Stmt.toList_renderInitial v.initial
    _ = Stmt.initialChars w.initial := List.append_cancel_right rest
    _ = (initialText w.initial).toList := (Stmt.toList_renderInitial w.initial).symm

/-- Two variables of one name are declared by one line just when the keywords, the types, the
array lengths and the texts of the initial values agree. -/
theorem declaration_eq_iff {v w : Variable} (named : v.name = w.name) :
    v.declaration = w.declaration ↔
      (v.qualifier.keyword = w.qualifier.keyword ∧ v.type = w.type ∧
        v.arrayLength = w.arrayLength) ∧
      v.precision = w.precision ∧ initialText v.initial = initialText w.initial := by
  constructor
  · intro same
    have chars : v.chars = w.chars := by
      rw [← v.toList_declaration, ← w.toList_declaration, same]
    rw [chars_eq_spaced, chars_eq_spaced] at chars
    obtain ⟨words, types, rest⟩ := spaced_apart DataType.words (keywords_apart _ _)
      (keywords_apart _ _) v.type.name_mem_words w.type.name_mem_words chars
    obtain ⟨qualifiers, precisions⟩ :=
      keywords_eq ((List.map_injective_iff.mpr fun _ _ => String.toList_inj.mp) words)
    rw [named] at rest
    obtain ⟨lengths, values⟩ := ending_apart (List.append_cancel_left rest)
    exact ⟨⟨qualifiers, DataType.eq_of_name (String.toList_inj.mp types), lengths⟩, precisions,
      values⟩
  · rintro ⟨⟨qualifiers, types, lengths⟩, precisions, values⟩
    unfold declaration
    rw [qualifiers, types, lengths, precisions, values, named]

/-- What a second owner has to repeat to the letter: of a constant all but its value, of every other
variable all but the precision and the initial value. -/
def compared (v : Variable) : Variable :=
  if v.qualifier = .const then { v with initial := none }
  else { v with precision := none, initial := none }

section Compared

variable (v : Variable)

@[simp] theorem name_compared : v.compared.name = v.name := by unfold compared; split <;> rfl
@[simp] theorem type_compared : v.compared.type = v.type := by unfold compared; split <;> rfl
@[simp] theorem qualifier_compared : v.compared.qualifier = v.qualifier := by
  unfold compared; split <;> rfl
@[simp] theorem arrayLength_compared : v.compared.arrayLength = v.arrayLength := by
  unfold compared; split <;> rfl
@[simp] theorem initial_compared : v.compared.initial = none := by unfold compared; split <;> rfl
theorem precision_compared :
    v.compared.precision = if v.qualifier = .const then v.precision else none := by
  unfold compared; split <;> rfl

end Compared

/-- Outside `main()` the keyword tells the qualifier. -/
theorem declaration_compared_iff {v w : Variable} (named : v.name = w.name)
    (kept : v.qualifier ≠ .functionLocal) (kept' : w.qualifier ≠ .functionLocal) :
    v.compared.declaration = w.compared.declaration ↔
      v.sameShape w = true ∧ (v.qualifier = .const → v.precision = w.precision) := by
  have names : v.compared.name = w.compared.name := by rw [v.name_compared, w.name_compared, named]
  rw [declaration_eq_iff names, sameShape_iff]
  simp only [qualifier_compared, type_compared, arrayLength_compared, precision_compared,
    initial_compared, and_true]
  constructor
  · rintro ⟨⟨keywords, types, lengths⟩, precisions⟩
    have qualifiers := Qualifier.eq_of_keyword keywords kept kept'
    refine ⟨⟨named, types, qualifiers, lengths⟩, fun constant => ?_⟩
    rwa [← qualifiers, if_pos constant, if_pos constant] at precisions
  · rintro ⟨⟨_, types, qualifiers, lengths⟩, precisions⟩
    refine ⟨⟨congrArg _ qualifiers, types, lengths⟩, ?_⟩
    rw [← qualifiers]
    by_cases constant : v.qualifier = .const
    · rw [if_pos constant, if_pos constant, precisions constant]
    · rw [if_neg constant, if_neg constant]

end Variable

/-! ### A second declaration -/

namespace Registry

/-- The declaration is accepted, whichever variable is given back. -/
def Accepts (r : Registry) (owner : String) (v : Variable) : Prop :=
  ∃ given, (r.handle (.declare owner v)).1 = .ok (.variable given)

theorem ne_functionLocal_of_admits {stage : Stage} {q : Qualifier}
    (admitted : stage.admits q = true) : q ≠ .functionLocal := by
  rintro rfl
  cases stage <;> cases admitted

section Second

variable {r : Registry} {owner : String} {v : Variable} {e : Entry}

theorem repeats_iff (named : v.name = e.var.name) (kept : v.qualifier ≠ .functionLocal)
    (kept' : e.var.qualifier ≠ .functionLocal) :
    repeats v e.var = true ↔
      v.compared.declaration = e.var.compared.declaration ∧
        (v.qualifier = .const → Variable.sameInitial e.var.initial v.initial = true) := by
  have turned : e.var.sameShape v = true ↔ v.sameShape e.var = true :=
    ⟨Variable.sameShape_symm, Variable.sameShape_symm⟩
  rw [Variable.declaration_compared_iff named kept kept', ← turned]
  unfold repeats Variable.same
  by_cases constant : v.qualifier = .const
  · simp only [constant, beq_self_eq_true, if_true, Bool.and_eq_true, beq_iff_eq, forall_const]
    exact and_congr_left' (and_congr_right' eq_comm)
  · simp [constant]

variable (known : r.entry? v.name = some e) (other : e.owner ≠ owner)

include known in
theorem name_of_known : v.name = e.var.name := by
  have found : e.var.name = v.name := by simpa using List.find?_some known
  exact found.symm

include known other in
theorem handle_declare_known :
    r.handle (.declare owner v) = (.ok (.variable e.var), r) ∧
        r.stage.admits v.qualifier = true ∧ repeats v e.var = true ∨
      (∃ cause, r.handle (.declare owner v) =
        (.error (.declarationConflict r.stage v.name cause), r)) ∧
        ¬ (r.stage.admits v.qualifier = true ∧ repeats v e.var = true) := by
  unfold handle declare
  dsimp only
  cases place : r.misplaced? owner v with
  | some cause =>
    refine Or.inr ⟨⟨cause, rfl⟩, fun both => ?_⟩
    rw [misplaced?_eq_none_iff.mpr both.1] at place
    cases place
  | none =>
    simp only [known, beq_eq_false_iff_ne.mpr other, Bool.false_eq_true, if_false]
    by_cases again : repeats v e.var = true
    · rw [if_pos again]
      exact Or.inl ⟨rfl, misplaced?_eq_none_iff.mp place, again⟩
    · rw [if_neg again]
      exact Or.inr ⟨⟨_, rfl⟩, fun both => again both.2⟩

include known other in
theorem accepts_iff_repeats :
    r.Accepts owner v ↔ r.stage.admits v.qualifier = true ∧ repeats v e.var = true := by
  unfold Accepts
  rcases handle_declare_known known other with ⟨accepted, both⟩ | ⟨⟨cause, refused⟩, neither⟩
  · rw [accepted]
    exact iff_of_true ⟨_, rfl⟩ both
  · rw [refused]
    exact iff_of_false (fun ⟨_, given⟩ => by cases given) neither

variable (kept' : e.var.qualifier ≠ .functionLocal)

include known other kept'

theorem accepts_iff_compared :
    r.Accepts owner v ↔ r.stage.admits v.qualifier = true ∧
      v.compared.declaration = e.var.compared.declaration ∧
        (v.qualifier = .const → Variable.sameInitial e.var.initial v.initial = true) := by
  rw [accepts_iff_repeats known other]
  exact and_congr_right fun places =>
    repeats_iff (name_of_known known) (ne_functionLocal_of_admits places) kept'

theorem agrees_of_accepts (accepted : r.Accepts owner v) :
    v.type = e.var.type ∧ v.qualifier = e.var.qualifier ∧ v.arrayLength = e.var.arrayLength ∧
      (v.qualifier = .const → v.precision = e.var.precision) := by
  obtain ⟨places, lines, _⟩ := (accepts_iff_compared known other kept').mp accepted
  have named := name_of_known known
  obtain ⟨shape, precisions⟩ := (Variable.declaration_compared_iff named
    (ne_functionLocal_of_admits places) kept').mp lines
  obtain ⟨_, types, qualifiers, lengths⟩ := Variable.sameShape_iff.mp shape
  exact ⟨types, qualifiers, lengths, precisions⟩

end Second

/-- What becomes of a declaration under a name that another owner has registered. -/
structure Redeclared (r : Registry) (owner : String) (v : Variable) (e : Entry) : Prop where
  /-- The answer is the registered variable or a conflict, and the registry stays as it is. -/
  answered :
    r.handle (.declare owner v) = (.ok (.variable e.var), r) ∨
      ∃ cause, r.handle (.declare owner v) =
        (.error (.declarationConflict r.stage v.name cause), r)
  /-- Lines are compared up to a constant's value, which is compared as a number: a NaN is not the
  same as itself. Of other variables neither precision nor initial value is compared. -/
  accepts_iff :
    r.Accepts owner v ↔ r.stage.admits v.qualifier = true ∧
      v.compared.declaration = e.var.compared.declaration ∧
        (v.qualifier = .const → (∀ value ∈ e.var.initial, value.hasNaN = false) ∧
          e.var.initial.map Expr.level = v.initial.map Expr.level)
  /-- So no other type, qualifier or array length is ever accepted. -/
  shape_of_accepts :
    r.Accepts owner v →
      v.type = e.var.type ∧ v.qualifier = e.var.qualifier ∧ v.arrayLength = e.var.arrayLength
  /-- An accepted line that differs was dropped for its precision or its initial value: for a
  constant only for the sign of a zero in it. -/
  dropped_iff :
    r.Accepts owner v → (v.declaration ≠ e.var.declaration ↔
      v.qualifier ≠ .const ∧ v.precision ≠ e.var.precision ∨
        Variable.initialText v.initial ≠ Variable.initialText e.var.initial)
  /-- A repeated line is refused just when it is a local variable's or that of a constant whose
  value is not the same tree. -/
  repeated_iff :
    v.declaration = e.var.declaration → (r.Accepts owner v ↔ v.qualifier ≠ .functionLocal ∧
      (v.qualifier = .const → Variable.sameInitial e.var.initial v.initial = true))

theorem qualifier_of_known {stage : Stage} {requests : List Request} {name : String} {e : Entry}
    (known : Registry.entry? ((empty stage).run requests) name = some e) :
    stage.admits e.var.qualifier = true := by
  rw [run_empty] at known
  exact mem_vars_recorded (List.mem_map_of_mem (List.mem_of_find?_eq_some known))

theorem stage_run (stage : Stage) (requests : List Request) :
    ((empty stage).run requests).stage = stage := by
  rw [run_empty]
  rfl

/-- Whatever was asked of a registry before, a second owner's declaration of a registered name is
judged so. -/
theorem redeclared_run (stage : Stage) (requests : List Request) (owner : String) (v : Variable)
    (e : Entry) (known : Registry.entry? ((empty stage).run requests) v.name = some e)
    (other : e.owner ≠ owner) : Redeclared ((empty stage).run requests) owner v e := by
  have admitted := qualifier_of_known known
  have named := name_of_known known
  have staged := stage_run stage requests
  -- from here on only the entry that is known counts, not what was asked before
  generalize (empty stage).run requests = r at known staged ⊢
  subst staged
  have kept' := ne_functionLocal_of_admits admitted
  have judged := accepts_iff_compared known other kept'
  constructor
  case answered =>
    rcases handle_declare_known known other with ⟨accepted, _⟩ | ⟨refused, _⟩
    · exact Or.inl accepted
    · exact Or.inr refused
  case accepts_iff =>
    rw [judged]
    simp only [Variable.sameInitial_iff]
  case shape_of_accepts =>
    intro accepted
    obtain ⟨types, qualifiers, lengths, _⟩ := agrees_of_accepts known other kept' accepted
    exact ⟨types, qualifiers, lengths⟩
  case dropped_iff =>
    intro accepted
    obtain ⟨types, qualifiers, lengths, precisions⟩ :=
      agrees_of_accepts known other kept' accepted
    rw [Ne, Variable.declaration_eq_iff named]
    have alike : v.qualifier.keyword = e.var.qualifier.keyword ∧ v.type = e.var.type ∧
        v.arrayLength = e.var.arrayLength := ⟨congrArg _ qualifiers, types, lengths⟩
    rw [and_iff_right alike]
    by_cases constant : v.qualifier = .const
    · simp [constant, precisions constant]
    · simp only [constant, ne_eq, not_false_eq_true, true_and]
      exact not_and_or
  case repeated_iff =>
    intro line
    obtain ⟨⟨keywords, types, lengths⟩, precisions, _⟩ :=
      (Variable.declaration_eq_iff named).mp line
    rw [judged]
    constructor
    · rintro ⟨places, _, values⟩
      exact ⟨ne_functionLocal_of_admits places, values⟩
    · rintro ⟨kept, values⟩
      have qualifiers := Qualifier.eq_of_keyword keywords kept kept'
      refine ⟨qualifiers ▸ admitted, ?_, values⟩
      rw [Variable.declaration_compared_iff named kept kept']
      exact ⟨Variable.sameShape_iff.mpr ⟨named, types, qualifiers, lengths⟩, fun _ => precisions⟩

theorem redeclared_run_light :
    let light (p : Precision) : Variable :=
      { name := "uLight", type := .vec3, qualifier := .uniform, arrayLength := some 4,
        precision := some p }
    let r := (empty .vertex).run [.begin "sun", .declare "sun" (light .high), .begin "moon"]
    r.entry? "uLight" = some ⟨light .high, "sun"⟩ ∧ "sun" ≠ "moon" ∧
      Redeclared r "moon" (light .low) ⟨light .high, "sun"⟩ := by
  intro light r
  have known : r.entry? "uLight" = some ⟨light .high, "sun"⟩ := rfl
  exact ⟨known, by decide, redeclared_run .vertex _ "moon" (light .low) _ known (by decide)⟩

/-- A constant that is repeated word for word is refused if its value is a NaN, and a varying of
another precision is accepted as the registered one. -/
theorem refuses_repeated_nan :
    let scale : Variable :=
      { name := "cScale", type := .float, qualifier := .const, initial := some (.float .nan) }
    let shade (p : Precision) : Variable :=
      { name := "vShade", type := .vec3, qualifier := .varying, precision := some p }
    let r := (empty .fragment).run
      [.begin "first", .declare "first" scale, .declare "first" (shade .high), .begin "second"]
    r.entry? "cScale" = some ⟨scale, "first"⟩ ∧ ¬ r.Accepts "second" scale ∧
      r.entry? "vShade" = some ⟨shade .high, "first"⟩ ∧
        (shade .low).declaration ≠ (shade .high).declaration ∧ r.Accepts "second" (shade .low) := by
  intro scale shade r
  refine ⟨rfl, ?_, rfl, by decide, ⟨shade .high, rfl⟩⟩
  rintro ⟨given, accepted⟩
  cases accepted

end Registry

end ShaderComposer
