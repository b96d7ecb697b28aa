import ShaderComposer.Proofs.Script.Strictness

/-!
# What a strict body looks at

A strict body checks both sides of an assignment. Of a local it compares the type alone, and at
conditions it does not look: expressions that fail the check stand in what it accepts
(`Body.accepts_unchecked`). So the statements that it accepts pass as a whole if and only if the
initial values and the conditions among the calls do (`Body.passes_iff_of_segment`).

What a tree has at any depth is gathered from its simple statements and its conditions. A body that
is not at fault holds what its calls had and nothing else (`Body.perm_gather_perform`).
-/

namespace ShaderComposer

def Comparison.operands (c : Comparison Expr) : List Expr := [c.lhs, c.rhs]

def Condition.operands (c : Condition Expr) : List Expr := c.comparisons.flatMap Comparison.operands

/-! ### Gathering -/

section Gathering

variable {α : Type} (simple : Stmt → List α) (guard : Condition Expr → List α)

namespace Stmt

mutual
/-- What simple statements and conditions have, at any depth. -/
def gather : Stmt → List α
  | declare ty name value => simple (declare ty name value)
  | assign target op value => simple (assign target op value)
  | branch branches none => gatherBranches branches
  | branch branches (some block) => gatherBranches branches ++ gatherAll block
  | discard => simple discard
def gatherBranches : List (Condition Expr × List Stmt) → List α
  | [] => []
  | (condition, block) :: rest => guard condition ++ (gatherAll block ++ gatherBranches rest)
def gatherAll : List Stmt → List α
  | [] => []
  | s :: rest => s.gather ++ gatherAll rest
end

theorem gatherAll_append (first second : List Stmt) :
    gatherAll simple guard (first ++ second) =
      gatherAll simple guard first ++ gatherAll simple guard second := by
  induction first with
  | nil => rfl
  | cons s first ih => rw [List.cons_append, gatherAll, gatherAll, ih, List.append_assoc]

theorem gatherBranches_append (first second : List (Condition Expr × List Stmt)) :
    gatherBranches simple guard (first ++ second) =
      gatherBranches simple guard first ++ gatherBranches simple guard second := by
  induction first with
  | nil => rfl
  | cons b first ih =>
    rw [List.cons_append, gatherBranches, gatherBranches, ih, List.append_assoc, List.append_assoc]

end Stmt

def OpenIf.gather (f : OpenIf) : List α :=
  Stmt.gatherBranches simple guard f.earlier ++
    (f.guard.toList.flatMap guard ++ Stmt.gatherAll simple guard f.block)

theorem OpenIf.gather_close (f : OpenIf) :
    f.close.gather simple guard = f.gather simple guard := by
  obtain ⟨earlier, current, block⟩ := f
  cases current with
  | none => rfl
  | some condition =>
    simp [close, branches, Stmt.gather, OpenIf.gather, Stmt.gatherBranches_append,
      Stmt.gatherBranches]

theorem OpenIf.gather_push (f : OpenIf) (s : Stmt) :
    (f.push s).gather simple guard = f.gather simple guard ++ s.gather simple guard := by
  simp [push, OpenIf.gather, Stmt.gatherAll_append, Stmt.gatherAll]

theorem OpenIf.gather_next (f : OpenIf) {current : Condition Expr} (branch : f.guard = some current)
    (next : Option (Condition Expr)) :
    (⟨f.branches current, next, []⟩ : OpenIf).gather simple guard =
      f.gather simple guard ++ next.toList.flatMap guard := by
  simp [OpenIf.gather, branches, branch, Stmt.gatherBranches_append, Stmt.gatherBranches,
    Stmt.gatherAll]

/-- What a call records, if the next automatic local has the number `n`. -/
def Call.gather (n : Nat) : Call Expr → List α
  | assign op target value => simple (.assign target op value)
  | declare ty name value => simple (.declare ty name (some value))
  | temp ty value => simple (.declare ty (automaticName ty n) (some value))
  | startIf condition | elseIf condition => guard condition
  | discard => simple .discard
  | elseBranch | endIf | setOwner _ => []

namespace Body

def gather (b : Body) : List α :=
  Stmt.gatherAll simple guard b.statements ++ b.openIfs.flatMap (OpenIf.gather simple guard)

theorem gather_checked (b : Body) (mismatch : Option Mismatch) :
    (b.checked mismatch).gather simple guard = b.gather simple guard := by
  unfold checked
  split
  · split <;> rfl
  · rfl

variable (b : Body)

/-- What stands in the midst may as well come last. -/
theorem perm_last (before here new after : List α) :
    (before ++ (here ++ new ++ after)).Perm (before ++ (here ++ after) ++ new) := by
  have swapped : (new ++ after).Perm (after ++ new) := List.perm_append_comm
  simpa only [List.append_assoc] using (swapped.append_left here).append_left before

theorem perm_gather_push (s : Stmt) :
    ((b.push s).gather simple guard).Perm (b.gather simple guard ++ s.gather simple guard) := by
  unfold push gather
  cases b.openIfs with
  | nil => simp [Stmt.gatherAll_append, Stmt.gatherAll]
  | cons f rest =>
    simp only [List.flatMap_cons, OpenIf.gather_push]
    exact perm_last _ _ _ _

theorem perm_gather_nextBlock {b : Body} {next : Option (Condition Expr)}
    {afterElse outside : Imbalance} (calm : (b.nextBlock next afterElse outside).fault = none) :
    ((b.nextBlock next afterElse outside).gather simple guard).Perm
      (b.gather simple guard ++ next.toList.flatMap guard) := by
  unfold nextBlock at calm ⊢
  cases opened : b.openIfs with
  | nil => simp [opened, unbalanced, fault_withFault] at calm
  | cons f rest =>
    cases current : f.guard with
    | none => simp [opened, current, unbalanced, fault_withFault] at calm
    | some condition =>
      simp only [gather, opened, current, List.flatMap_cons,
        OpenIf.gather_next simple guard f current]
      exact perm_last _ _ _ _

theorem perm_gather_endIf {b : Body} (calm : b.endIf.fault = none) :
    (b.endIf.gather simple guard).Perm (b.gather simple guard) := by
  unfold endIf at calm ⊢
  cases opened : b.openIfs with
  | nil => simp [opened, unbalanced, fault_withFault] at calm
  | cons f rest =>
    refine (perm_gather_push simple guard { b with openIfs := rest } f.close).trans ?_
    rw [OpenIf.gather_close]
    simp only [gather, opened, List.flatMap_cons]
    exact (perm_last _ [] (f.gather simple guard) _).symm

/-- A call that leaves the body without a fault is recorded. -/
theorem perm_gather_perform {b : Body} {c : Call Expr} (calm : (b.perform c).fault = none) :
    ((b.perform c).gather simple guard).Perm
      (b.gather simple guard ++ c.gather simple guard b.temps) := by
  cases c with
  | assign op target value =>
    rw [perform, assign, ← gather_checked simple guard b (assignMismatch op target value)]
    exact perm_gather_push simple guard _ _
  | declare ty name value =>
    rw [perform, declare, ← gather_checked simple guard b (initialMismatch ty name value)]
    exact perm_gather_push simple guard _ _
  | temp ty value =>
    have counted := gather_checked simple guard { b with temps := b.temps + 1 }
      (initialMismatch ty (b.tempName ty) value)
    have added := perm_gather_push simple guard (checked { b with temps := b.temps + 1 }
      (initialMismatch ty (b.tempName ty) value)) (.declare ty (b.tempName ty) (some value))
    rw [counted] at added
    exact added
  | startIf condition =>
    have opened := perm_last (Stmt.gatherAll simple guard b.statements) [] (guard condition)
      (b.openIfs.flatMap (OpenIf.gather simple guard))
    simpa [perform, startIf, gather, OpenIf.gather, OpenIf.start, Stmt.gatherBranches,
      Stmt.gatherAll, Call.gather] using opened
  | elseIf condition =>
    refine (perm_gather_nextBlock simple guard calm).trans ?_
    simp [Call.gather]
  | elseBranch => exact perm_gather_nextBlock simple guard calm
  | endIf =>
    refine (perm_gather_endIf simple guard calm).trans ?_
    simp [Call.gather]
  | discard =>
    cases stage : b.stage with
    | vertex => simp [perform, discard, stage, fault_withFault] at calm
    | fragment =>
      rw [perform, discard, stage]
      exact perm_gather_push simple guard b .discard
  | setOwner name => simp [perform, gather, Call.gather]

theorem gather_of_new {b : Body} (new : b.nextSegment = b) : b.gather simple guard = [] := by
  rw [← new]
  rfl

theorem gather_of_segment {b : Body} {block : List Stmt} (ok : b.segment = .ok block) :
    b.gather simple guard = Stmt.gatherAll simple guard block := by
  obtain ⟨_, closed, rfl⟩ := (segment_eq_ok_iff b block).mp ok
  rw [gather, closed]
  exact List.append_nil _

theorem mem_gather_perform {b : Body} {c : Call Expr} (a : α)
    (calm : (b.perform c).fault = none) : a ∈ (b.perform c).gather simple guard ↔
      a ∈ b.gather simple guard ∨ a ∈ c.gather simple guard b.temps := by
  rw [(perm_gather_perform simple guard calm).mem_iff, List.mem_append]

end Body

end Gathering

/-! ### Expressions and simple statements -/

namespace Stmt

def operands : Stmt → List Expr
  | declare _ _ value => value.toList
  | assign target _ value => [target, value]
  | branch _ _ | discard => []

/-- The expressions of a block at any depth: those of its simple statements and both sides of the
comparisons of its conditions. -/
def expressions (block : List Stmt) : List Expr := gatherAll operands Condition.operands block

def leaves (block : List Stmt) : List Stmt := gatherAll (fun s => [s]) (fun _ => []) block

def guards (block : List Stmt) : List (Condition Expr) :=
  gatherAll (fun _ => []) (fun c => [c]) block

def localNames : Stmt → List String
  | declare _ name _ => [name]
  | assign _ _ _ | branch _ _ | discard => []

/-- The names of the locals of a block at any depth. -/
def locals (block : List Stmt) : List String := gatherAll localNames (fun _ => []) block

def mismatch? : Stmt → Option Mismatch
  | declare ty name (some value) => Body.initialMismatch ty name value
  | assign target op value => Body.assignMismatch op target value
  | declare _ _ none | branch _ _ | discard => none

section Members

variable {α : Type} {simple : Stmt → List α} {guard : Condition Expr → List α} {a : α}

mutual
theorem mem_gather : (s : Stmt) → (a ∈ s.gather simple guard ↔
    (∃ t ∈ s.gather (fun s => [s]) (fun _ => []), a ∈ simple t) ∨
      ∃ c ∈ s.gather (fun _ => []) (fun c => [c]), a ∈ guard c)
  | declare _ _ _ => by simp [gather]
  | assign _ _ _ => by simp [gather]
  | branch branches none => mem_gatherBranches branches
  | branch branches (some block) => by
    simp only [gather, List.mem_append, mem_gatherBranches branches, mem_gatherAll block, leaves,
      guards, or_and_right, exists_or]
    exact or_or_or_comm
  | discard => by simp [gather]
theorem mem_gatherBranches : (branches : List (Condition Expr × List Stmt)) →
    (a ∈ gatherBranches simple guard branches ↔
      (∃ t ∈ gatherBranches (fun s => [s]) (fun _ => []) branches, a ∈ simple t) ∨
        ∃ c ∈ gatherBranches (fun _ => []) (fun c => [c]) branches, a ∈ guard c)
  | [] => by simp [gatherBranches]
  | (condition, block) :: rest => by
    simp only [gatherBranches, List.mem_append, mem_gatherAll block, mem_gatherBranches rest,
      leaves, guards, List.nil_append, List.mem_singleton, or_and_right, exists_or, exists_eq_left]
    grind
/-- What a block has, its simple statements or its conditions have. -/
theorem mem_gatherAll : (block : List Stmt) → (a ∈ gatherAll simple guard block ↔
    (∃ s ∈ leaves block, a ∈ simple s) ∨ ∃ c ∈ guards block, a ∈ guard c)
  | [] => by simp [gatherAll, leaves, guards]
  | s :: rest => by
    have first := mem_gather s
    have others := mem_gatherAll rest
    unfold leaves guards at others ⊢
    simp only [gatherAll, List.mem_append, first, others, or_and_right, exists_or]
    exact or_or_or_comm
end

end Members

end Stmt

namespace Call

def expressions (c : Call Expr) : List Expr := c.gather Stmt.operands Condition.operands 0

/-- The expressions of a call that no body looks into: initial values and conditions. -/
def unchecked : Call Expr → List Expr
  | declare _ _ value | temp _ value => [value]
  | startIf condition | elseIf condition => condition.operands
  | assign _ _ _ | elseBranch | endIf | discard | setOwner _ => []

theorem gather_operands (c : Call Expr) (n : Nat) :
    c.gather Stmt.operands Condition.operands n = c.expressions := by
  cases c <;> rfl

theorem mem_of_unchecked {c : Call Expr} {e : Expr} (mem : e ∈ c.unchecked) :
    e ∈ c.expressions := by
  cases c with
  | declare | temp | startIf | elseIf => exact mem
  | _ => cases mem

theorem mem_expressions {c : Call Expr} {e : Expr} (mem : e ∈ c.expressions) :
    e ∈ c.unchecked ∨
      ∃ target op value, c = assign op target value ∧ (e = target ∨ e = value) := by
  cases c with
  | assign op target value =>
    refine Or.inr ⟨target, op, value, rfl, ?_⟩
    simpa [expressions, gather, Stmt.operands] using mem
  | declare | temp | startIf | elseIf => exact Or.inl mem
  | _ => cases mem

theorem mismatch?_of_leaf {c : Call Expr} {n : Nat} {s : Stmt}
    (leaf : s ∈ c.gather (fun s => [s]) (fun _ => []) n) : s.mismatch? = c.mismatch? n := by
  cases c with
  | assign | declare | temp | discard =>
    obtain rfl := List.mem_singleton.mp leaf
    rfl
  | _ => cases leaf

end Call

namespace Body

theorem check_of_assignMismatch {op : AssignOp} {target value : Expr}
    (fine : assignMismatch op target value = none) : target.check = none ∧ value.check = none := by
  unfold assignMismatch at fine
  split at fine
  · cases fine
  · next checks => exact Option.or_eq_none_iff.mp checks

theorem fits_of_assignMismatch {op : AssignOp} {target value : Expr} {t v : DataType}
    (fine : assignMismatch op target value = none) (left : target.type = some t)
    (right : value.type = some v) : fits op t v = true := by
  unfold assignMismatch at fine
  split at fine
  · cases fine
  · rw [left, right] at fine
    simpa using fine

theorem type_of_initialMismatch {ty v : DataType} {name : String} {value : Expr}
    (fine : initialMismatch ty name value = none) (known : value.type = some v) : v = ty := by
  unfold initialMismatch at fine
  rw [known] at fine
  simpa using fine

/-- What there is to say of a strict body that ends without a fault after these calls. -/
structure Records (b : Body) (calls : List (Call Expr)) : Prop where
  start : b.fault = none
  fits : ∀ c ∈ calls, ∃ n, c.mismatch? n = none
  expressions : ∀ e, e ∈ (b.performAll calls).gather Stmt.operands Condition.operands ↔
    e ∈ b.gather Stmt.operands Condition.operands ∨ ∃ c ∈ calls, e ∈ c.expressions
  leaves : ∀ s ∈ (b.performAll calls).gather (fun s => [s]) (fun _ => []),
    s ∈ b.gather (fun s => [s]) (fun _ => []) ∨ s.mismatch? = none

theorem records_of_calm {calls : List (Call Expr)} {b : Body} (strict : b.strict = true)
    (calm : (b.performAll calls).fault = none) : b.Records calls := by
  induction calls generalizing b with
  | nil => exact ⟨calm, by simp, fun e => by simp [performAll], fun s mem => Or.inl mem⟩
  | cons c calls ih =>
    have kind := (b.mirrors_relaxed strict).perform c
    have stillStrict : (b.perform c).strict = true := by
      rw [kind.same]
      rfl
    have later := ih stillStrict calm
    have now := fault_perform_strict strict c
    rw [later.start] at now
    obtain ⟨before, _⟩ := Option.or_eq_none_iff.mp now.symm
    obtain ⟨start, fine⟩ := Option.or_eq_none_iff.mp before
    have fits : c.mismatch? b.temps = none := Option.map_eq_none_iff.mp fine
    refine ⟨start, ?_, ?_, ?_⟩
    · intro other mem
      rcases List.mem_cons.mp mem with rfl | mem
      · exact ⟨_, fits⟩
      · exact later.fits other mem
    · intro e
      rw [performAll_cons, later.expressions, mem_gather_perform _ _ _ later.start,
        c.gather_operands]
      simp [or_assoc]
    · intro s mem
      rcases later.leaves s mem with known | sound
      · rcases (mem_gather_perform _ _ _ later.start).mp known with known | new
        · exact Or.inl known
        · exact Or.inr ((Call.mismatch?_of_leaf new).trans fits)
      · exact Or.inr sound

/-- What a strict body accepts: every assignment at any depth has two sides that pass the check and
whose types fit, every local has a value of its type, as far as types are known. All expressions
pass the check if and only if those do that are never looked into. -/
theorem passes_iff_of_segment (b : Body) (strict : b.strict = true) (new : b.nextSegment = b)
    (calls : List (Call Expr)) (block : List Stmt)
    (ok : (b.performAll calls).segment = .ok block) :
    (∀ target op value, .assign target op value ∈ Stmt.leaves block →
      target.check = none ∧ value.check = none ∧
        ∀ t v, target.type = some t → value.type = some v → fits op t v = true) ∧
    (∀ ty name value, .declare ty name (some value) ∈ Stmt.leaves block →
      ∀ v, value.type = some v → v = ty) ∧
    ((∀ e ∈ Stmt.expressions block, e.check = none) ↔
      ∀ c ∈ calls, ∀ e ∈ c.unchecked, e.check = none) := by
  obtain ⟨calm, closed, rfl⟩ := (segment_eq_ok_iff _ block).mp ok
  have records := records_of_calm strict calm
  -- before the calls nothing is recorded, and after them nothing is left open, so what is gathered
  -- is gathered from the statements of the calls
  have nothing {α : Type} (simple : Stmt → List α) (guard : Condition Expr → List α) :
      b.gather simple guard = [] := by
    rw [← new]
    rfl
  have whole {α : Type} (simple : Stmt → List α) (guard : Condition Expr → List α) :
      (b.performAll calls).gather simple guard =
        Stmt.gatherAll simple guard (b.performAll calls).statements := by
    rw [gather, closed]
    exact List.append_nil _
  have sound : ∀ s ∈ Stmt.leaves (b.performAll calls).statements, s.mismatch? = none := by
    intro s mem
    rw [Stmt.leaves, ← whole] at mem
    have either := records.leaves s mem
    rw [nothing] at either
    simpa using either
  have from_calls (e : Expr) : e ∈ Stmt.expressions (b.performAll calls).statements ↔
      ∃ c ∈ calls, e ∈ c.expressions := by
    rw [Stmt.expressions, ← whole, records.expressions, nothing]
    simp
  refine ⟨fun target op value mem => ?_, fun ty name value mem v known => ?_, ?_, ?_⟩
  · have fine := sound _ mem
    obtain ⟨left, right⟩ := check_of_assignMismatch fine
    exact ⟨left, right, fun t v => fits_of_assignMismatch fine⟩
  · exact type_of_initialMismatch (sound _ mem) known
  · intro pass c mem e inside
    exact pass e ((from_calls e).mpr ⟨c, mem, Call.mem_of_unchecked inside⟩)
  · intro pass e mem
    obtain ⟨c, known, inside⟩ := (from_calls e).mp mem
    obtain ⟨n, fits⟩ := records.fits c known
    rcases Call.mem_expressions inside with unchecked | ⟨target, op, value, rfl, either⟩
    · exact pass c known e unchecked
    · obtain ⟨left, right⟩ := check_of_assignMismatch fits
      rcases either with rfl | rfl
      · exact left
      · exact right

def light : Expr := .var "light" (some .vec4)

def scale : Expr := .var "scale" (some .float)

/-- An assignment after a local, inside a conditional whose condition passes. -/
def litCalls : List (Call Expr) :=
  [.setOwner "FIRST", .temp .vec3 (.swizzle light "rgb"),
    .startIf (.compare scale .lt (.literal (.int 1))), .assign .mul light scale,
    .elseBranch, .assign .set light light, .endIf]

theorem passes_iff_of_segment_lit :
    ∃ block, ((Body.empty .fragment true).performAll litCalls).segment = .ok block ∧
      .assign light .mul scale ∈ Stmt.leaves block ∧ light.check = none ∧
      (∀ c ∈ litCalls, ∀ e ∈ c.unchecked, e.check = none) ∧
      ∀ e ∈ Stmt.expressions block, e.check = none := by
  obtain ⟨assignments, _, all⟩ :=
    passes_iff_of_segment (.empty .fragment true) rfl rfl litCalls _ rfl
  have leaf : .assign light .mul scale ∈ Stmt.leaves
      ((Body.empty .fragment true).performAll litCalls).statements :=
    List.mem_cons_of_mem _ List.mem_cons_self
  have unchecked : (litCalls.flatMap Call.unchecked).all (fun e => e.check.isNone) = true := rfl
  have pass : ∀ c ∈ litCalls, ∀ e ∈ c.unchecked, e.check = none := by
    intro c mem e inside
    have mem := List.mem_flatMap.mpr ⟨c, mem, inside⟩
    exact Option.isNone_iff_eq_none.mp (List.all_eq_true.mp unchecked e mem)
  exact ⟨_, rfl, leaf, (assignments _ _ _ leaf).1, pass, all.mpr pass⟩

/-- A float that is read as a vector. -/
def falseVector : Expr := .swizzle (.var "s" (some .float)) "xy"

/-- It is accepted as the value of a local and on both sides of a comparison, and does not pass. -/
theorem accepts_unchecked :
    ((Body.empty .vertex true).performAll [.declare .vec2 "a" falseVector,
        .startIf (.compare falseVector .eq falseVector), .endIf]).segment =
      .ok [.declare .vec2 "a" (some falseVector),
        .branch [(.compare falseVector .eq falseVector, [])] none] ∧
    Stmt.expressions [.declare .vec2 "a" (some falseVector),
      .branch [(.compare falseVector .eq falseVector, [])] none] =
        [falseVector, falseVector, falseVector] ∧
    falseVector.check ≠ none :=
  ⟨rfl, rfl, nofun⟩

end Body

end ShaderComposer
