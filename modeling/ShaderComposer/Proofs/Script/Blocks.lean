import ShaderComposer.Body

/-!
# Blocks of calls

Which calls make up a segment. The calls of a segment have to be a block: simple calls and
conditionals in any order and depth, where a conditional has its branches, then its `else` if it
has one, and is closed. A body accepts the calls of a segment if and only if they are a block, and
gives the tree of the block. Other calls are refused for the first one that is misused, or for the
conditionals that are left open (`Body.segment_performAll`).

The recorder never looks ahead: what it holds after some calls is a list of complete statements and
a stack of conditionals, each with complete branches and the block that is being recorded. `Unfinished`
says of which calls that is the reading, and every call that is not misused keeps it.
-/

namespace ShaderComposer

/-! ### Grammar -/

/-- The name of the `n`-th automatic local. -/
def automaticName (ty : DataType) (n : Nat) : String :=
  "v_" ++ ty.tempPrefix ++ "_" ++ toString n

/-- A call that makes a statement by itself: the statement, and the number of the next automatic
local before and after. -/
inductive Simple (stage : Stage) : Nat → Call Expr → Stmt → Nat → Prop
  | assign (n : Nat) (op : AssignOp) (target value : Expr) :
    Simple stage n (.assign op target value) (.assign target op value) n
  | declare (n : Nat) (ty : DataType) (name : String) (value : Expr) :
    Simple stage n (.declare ty name value) (.declare ty name (some value)) n
  | temp (n : Nat) (ty : DataType) (value : Expr) :
    Simple stage n (.temp ty value) (.declare ty (automaticName ty n) (some value)) (n + 1)
  | discard (n : Nat) (pixels : stage = .fragment) : Simple stage n .discard .discard n

mutual
/-- The calls are a block with these statements. -/
inductive Block (stage : Stage) : Nat → List (Call Expr) → List Stmt → Nat → Prop
  | nil (n : Nat) : Block stage n [] [] n
  | simple {n k m : Nat} {c : Call Expr} {s : Stmt} {calls : List (Call Expr)} {block : List Stmt}
    (first : Simple stage n c s k) (rest : Block stage k calls block m) :
    Block stage n (c :: calls) (s :: block) m
  | conditional {n k l m : Nat} {calls elseCalls later : List (Call Expr)}
    {branches : List (Condition Expr × List Stmt)} {otherwise : Option (List Stmt)}
    {block : List Stmt} (first : Branches stage n calls branches k)
    (last : Otherwise stage k elseCalls otherwise l) (rest : Block stage l later block m) :
    Block stage n (calls ++ (elseCalls ++ .endIf :: later)) (.branch branches otherwise :: block) m
/-- The calls open a conditional and record these branches. -/
inductive Branches (stage : Stage) :
    Nat → List (Call Expr) → List (Condition Expr × List Stmt) → Nat → Prop
  | start {n m : Nat} {calls : List (Call Expr)} {block : List Stmt} (condition : Condition Expr)
    (body : Block stage n calls block m) :
    Branches stage n (.startIf condition :: calls) [(condition, block)] m
  | elseIf {n k m : Nat} {calls more : List (Call Expr)}
    {branches : List (Condition Expr × List Stmt)} {block : List Stmt} (condition : Condition Expr)
    (earlier : Branches stage n calls branches k) (body : Block stage k more block m) :
    Branches stage n (calls ++ .elseIf condition :: more) (branches ++ [(condition, block)]) m
/-- The calls are an `else` with its block, or there is none. -/
inductive Otherwise (stage : Stage) :
    Nat → List (Call Expr) → Option (List Stmt) → Nat → Prop
  | none (n : Nat) : Otherwise stage n [] none n
  | some {n m : Nat} {calls : List (Call Expr)} {block : List Stmt}
    (body : Block stage n calls block m) :
    Otherwise stage n (.elseBranch :: calls) (some block) m
end

theorem Simple.block {stage : Stage} {n m : Nat} {c : Call Expr} {s : Stmt}
    (simple : Simple stage n c s m) : Block stage n [c] [s] m := .simple simple (.nil m)

theorem Block.append {stage : Stage} {second : List (Call Expr)} {more : List Stmt} {k m : Nat}
    (later : Block stage k second more m) : ∀ {n : Nat} {first : List (Call Expr)}
      {block : List Stmt}, Block stage n first block k →
        Block stage n (first ++ second) (block ++ more) m
  | _, _, _, .nil _ => later
  | _, _, _, .simple first rest => .simple first (later.append rest)
  | _, _, _, .conditional first last rest => by
    have whole := Block.conditional first last (later.append rest)
    simpa only [List.append_assoc, List.cons_append] using whole

/-! ### Misuse -/

namespace Call

def isSimple : Call Expr → Bool
  | assign _ _ _ | declare _ _ _ | temp _ _ | discard => true
  | _ => false

def isStartIf : Call Expr → Bool
  | startIf _ => true
  | _ => false

def isTemp : Call Expr → Bool
  | temp _ _ => true
  | _ => false

/-- What a call does to the open conditionals, innermost first, each known by whether its `else`
has begun. -/
def nest : Call Expr → List Bool → List Bool
  | startIf _, outer => false :: outer
  | elseBranch, false :: outer => true :: outer
  | endIf, _ :: outer => outer
  | _, opened => opened

/-- The error of a call that is misused where these conditionals are open. -/
def misuse? (stage : Stage) (owner : String) : Call Expr → List Bool → Option ShaderError
  | elseIf _, [] => some (.unbalancedConditional stage owner .elseIfOutside)
  | elseIf _, true :: _ => some (.unbalancedConditional stage owner .elseIfAfterElse)
  | elseBranch, [] => some (.unbalancedConditional stage owner .elseOutside)
  | elseBranch, true :: _ => some (.unbalancedConditional stage owner .secondElse)
  | endIf, [] => some (.unbalancedConditional stage owner .endOutside)
  | discard, _ =>
    match stage with
    | .vertex => some (.invalidStatement .vertex owner .discardInVertex)
    | .fragment => none
  | _, _ => none

end Call

/-- The conditionals that calls leave open, innermost first. -/
def nesting (calls : List (Call Expr)) : List Bool := calls.foldl (fun opened c => c.nest opened) []

/-- The error of the first call that is misused, from these open conditionals on. -/
def firstMisuse? (stage : Stage) (owner : String) : List Bool → List (Call Expr) →
    Option ShaderError
  | _, [] => none
  | opened, c :: rest =>
    (c.misuse? stage owner opened).or (firstMisuse? stage owner (c.nest opened) rest)

namespace Body

def performAll (b : Body) (calls : List (Call Expr)) : Body := calls.foldl perform b

/-- The open conditionals of a body, each known by whether its `else` has begun. -/
def opened (b : Body) : List Bool := b.openIfs.map fun f => f.guard.isNone

/-- The body with statements added to the innermost block, and the number of the next automatic
local. -/
def recorded (b : Body) (block : List Stmt) (n : Nat) : Body :=
  match b.openIfs with
  | [] => { b with statements := b.statements ++ block, temps := n }
  | f :: rest =>
    { b with openIfs := { f with block := f.block ++ block } :: rest, temps := n }

/-- The body inside one more conditional. -/
def inside (b : Body) (f : OpenIf) (n : Nat) : Body :=
  { b with openIfs := f :: b.openIfs, temps := n }

theorem recorded_nil (b : Body) : b.recorded [] b.temps = b := by
  obtain ⟨_, _, _, _, openIfs, _, _⟩ := b
  cases openIfs <;> simp [recorded]

theorem recorded_recorded (b : Body) (block more : List Stmt) (n m : Nat) :
    (b.recorded block n).recorded more m = b.recorded (block ++ more) m := by
  cases h : b.openIfs <;> simp [recorded, h]

theorem stage_recorded (b : Body) (block : List Stmt) (n : Nat) :
    (b.recorded block n).stage = b.stage := by
  cases h : b.openIfs <;> simp [recorded, h]

theorem strict_recorded (b : Body) (block : List Stmt) (n : Nat) :
    (b.recorded block n).strict = b.strict := by
  cases h : b.openIfs <;> simp [recorded, h]

theorem temps_recorded (b : Body) (block : List Stmt) (n : Nat) :
    (b.recorded block n).temps = n := by
  cases h : b.openIfs <;> simp [recorded, h]

theorem push_eq (b : Body) (s : Stmt) : b.push s = b.recorded [s] b.temps := by
  cases h : b.openIfs <;> simp [push, recorded, h, OpenIf.push]

theorem recorded_inside (b : Body) (f : OpenIf) (block : List Stmt) (n m : Nat) :
    (b.inside f n).recorded block m = b.inside { f with block := f.block ++ block } m := rfl

/-- Closing a conditional puts it where the body was before it was opened. -/
theorem endIf_inside (b : Body) (f : OpenIf) (n : Nat) :
    (b.inside f n).endIf = b.recorded [f.close] n := by
  cases h : b.openIfs <;> simp [inside, endIf, push, recorded, OpenIf.push, h]

theorem elseIf_inside (b : Body) (earlier : List (Condition Expr × List Stmt))
    (current condition : Condition Expr) (block : List Stmt) (n : Nat) :
    (b.inside ⟨earlier, some current, block⟩ n).perform (.elseIf condition) =
      b.inside ⟨earlier ++ [(current, block)], some condition, []⟩ n := rfl

theorem elseBranch_inside (b : Body) (earlier : List (Condition Expr × List Stmt))
    (current : Condition Expr) (block : List Stmt) (n : Nat) :
    (b.inside ⟨earlier, some current, block⟩ n).perform .elseBranch =
      b.inside ⟨earlier ++ [(current, block)], none, []⟩ n := rfl

theorem checked_lax {b : Body} (lax : b.strict = false) (mismatch : Option Mismatch) :
    b.checked mismatch = b := by
  cases mismatch <;> simp [checked, lax]

theorem performAll_append (b : Body) (first second : List (Call Expr)) :
    b.performAll (first ++ second) = (b.performAll first).performAll second :=
  List.foldl_append

theorem performAll_cons (b : Body) (c : Call Expr) (calls : List (Call Expr)) :
    b.performAll (c :: calls) = (b.perform c).performAll calls := rfl

end Body

/-! ### Blocks are recorded -/

section Recording

variable {t : Stage}

theorem Simple.perform {n m : Nat} {c : Call Expr} {s : Stmt} {b : Body}
    (simple : Simple t n c s m) (stage : b.stage = t) (lax : b.strict = false)
    (temps : b.temps = n) : b.perform c = b.recorded [s] m := by
  cases simple with
  | assign op target value =>
    rw [Body.perform, Body.assign, Body.checked_lax lax, Body.push_eq, temps]
  | declare ty name value =>
    rw [Body.perform, Body.declare, Body.checked_lax lax, Body.push_eq, temps]
  | temp ty value =>
    have counted : ({ b with temps := b.temps + 1 } : Body).strict = false := lax
    rw [Body.perform, Body.temp, Body.declare, Body.checked_lax counted, Body.push_eq]
    cases h : b.openIfs <;> simp [Body.recorded, h, Body.tempName, automaticName, temps]
  | discard pixels =>
    rw [Body.perform, Body.discard, stage, pixels]
    dsimp only
    rw [Body.push_eq, temps]

mutual
theorem Block.performAll : ∀ {n m : Nat} {calls : List (Call Expr)} {block : List Stmt}
    (_ : Block t n calls block m) {b : Body} (_ : b.stage = t) (_ : b.strict = false)
    (_ : b.temps = n), b.performAll calls = b.recorded block m
  | _, _, _, _, .nil _, b, _, _, temps => by
    rw [← temps, b.recorded_nil]
    rfl
  | _, _, _, _, .simple first rest, b, stage, lax, temps => by
    rw [Body.performAll_cons, first.perform stage lax temps,
      rest.performAll ((b.stage_recorded _ _).trans stage) ((b.strict_recorded _ _).trans lax)
        (b.temps_recorded _ _), Body.recorded_recorded]
    rfl
  | _, _, _, _, .conditional first last rest, b, stage, lax, temps => by
    obtain ⟨earlier, condition, block, rfl, opened⟩ := first.performAll stage lax temps
    rw [Body.performAll_append, opened, List.append_cons, Body.performAll_append, last.performAll stage lax,
      rest.performAll ((b.stage_recorded _ _).trans stage) ((b.strict_recorded _ _).trans lax)
        (b.temps_recorded _ _), Body.recorded_recorded]
    rfl
theorem Branches.performAll : ∀ {n m : Nat} {calls : List (Call Expr)}
    {branches : List (Condition Expr × List Stmt)} (_ : Branches t n calls branches m) {b : Body}
    (_ : b.stage = t) (_ : b.strict = false) (_ : b.temps = n),
    ∃ earlier condition block, branches = earlier ++ [(condition, block)] ∧
      b.performAll calls = b.inside ⟨earlier, some condition, block⟩ m
  | n, _, _, _, .start condition body, b, stage, lax, temps => by
    have opened : b.perform (.startIf condition) = b.inside (.start condition) n := by
      rw [← temps]
      rfl
    refine ⟨[], condition, _, rfl, ?_⟩
    rw [Body.performAll_cons, opened, body.performAll (by exact stage) (by exact lax) rfl,
      Body.recorded_inside]
    rfl
  | _, _, _, _, .elseIf condition earlier body, b, stage, lax, temps => by
    obtain ⟨before, current, block, rfl, opened⟩ := earlier.performAll stage lax temps
    refine ⟨_, condition, _, rfl, ?_⟩
    rw [Body.performAll_append, opened, Body.performAll_cons, Body.elseIf_inside,
      body.performAll (by exact stage) (by exact lax) rfl, Body.recorded_inside]
    rfl
theorem Otherwise.performAll : ∀ {n m : Nat} {calls : List (Call Expr)}
    {otherwise : Option (List Stmt)} (_ : Otherwise t n calls otherwise m) {b : Body}
    (_ : b.stage = t) (_ : b.strict = false) {condition : Condition Expr}
    {earlier : List (Condition Expr × List Stmt)} {block : List Stmt},
    (b.inside ⟨earlier, some condition, block⟩ n).performAll (calls ++ [Call.endIf]) =
      b.recorded [.branch (earlier ++ [(condition, block)]) otherwise] m
  | _, _, _, _, .none _, b, stage, lax, condition, earlier, block =>
    b.endIf_inside ⟨earlier, some condition, block⟩ _
  | _, _, _, _, .some body, b, stage, lax, condition, earlier, block => by
    rw [List.cons_append, Body.performAll_cons, Body.elseBranch_inside, Body.performAll_append,
      body.performAll (by exact stage) (by exact lax) rfl, Body.recorded_inside]
    exact b.endIf_inside _ _
end

/-! ### How many statements there are -/

theorem Simple.count {n m : Nat} {c : Call Expr} {s : Stmt} (simple : Simple t n c s m) :
    s.count = 1 ∧ c.isSimple = true ∧ c.isStartIf = false := by
  cases simple <;> exact ⟨by simp [Stmt.count], rfl, rfl⟩

/-- How many calls make a statement: the simple ones, and those that open a conditional. -/
def statementCalls (calls : List (Call Expr)) : Nat :=
  calls.countP Call.isSimple + calls.countP Call.isStartIf

theorem statementCalls_append (first second : List (Call Expr)) :
    statementCalls (first ++ second) = statementCalls first + statementCalls second := by
  simp only [statementCalls, List.countP_append]
  omega

theorem statementCalls_cons (c : Call Expr) (calls : List (Call Expr)) :
    statementCalls (c :: calls) =
      c.isSimple.toNat + c.isStartIf.toNat + statementCalls calls := by
  simp only [statementCalls, List.countP_cons]
  cases c.isSimple <;> cases c.isStartIf <;> simp <;> omega

theorem countBranches_append (first second : List (Condition Expr × List Stmt)) :
    Stmt.countBranches (first ++ second) =
      Stmt.countBranches first + Stmt.countBranches second := by
  induction first with
  | nil => simp [Stmt.countBranches]
  | cons b first ih =>
    simp only [List.cons_append, Stmt.countBranches, ih]
    omega

mutual
theorem Block.count : ∀ {n m : Nat} {calls : List (Call Expr)} {block : List Stmt}
    (_ : Block t n calls block m), Stmt.countAll block = statementCalls calls
  | _, _, _, _, .nil _ => by simp [Stmt.countAll, statementCalls]
  | _, _, _, _, .simple first rest => by
    obtain ⟨one, simple, closed⟩ := first.count
    rw [Stmt.countAll, one, rest.count, statementCalls_cons, simple, closed]
    rfl
  | _, _, _, _, .conditional first (.none _) rest => by
    rw [Stmt.countAll, Stmt.count, first.count, rest.count, List.nil_append, statementCalls_append,
      statementCalls_cons]
    simp [Call.isSimple, Call.isStartIf]
  | _, _, _, _, .conditional first (.some body) rest => by
    rw [Stmt.countAll, Stmt.count, first.count, body.count, rest.count, List.cons_append,
      statementCalls_append, statementCalls_cons, statementCalls_append, statementCalls_cons]
    simp [Call.isSimple, Call.isStartIf]
    omega
/-- The call that opens a conditional is counted for the conditional itself. -/
theorem Branches.count : ∀ {n m : Nat} {calls : List (Call Expr)}
    {branches : List (Condition Expr × List Stmt)} (_ : Branches t n calls branches m),
    1 + Stmt.countBranches branches = statementCalls calls
  | _, _, _, _, .start condition body => by
    simp only [Stmt.countBranches, body.count, statementCalls_cons]
    simp [Call.isSimple, Call.isStartIf]
  | _, _, _, _, .elseIf condition earlier body => by
    simp only [countBranches_append, Stmt.countBranches, body.count, statementCalls_append,
      statementCalls_cons, ← earlier.count]
    simp [Call.isSimple, Call.isStartIf]
    omega
end

/-! ### What a body holds is what the calls were -/

/-- The calls open a conditional and record what it holds. -/
def OpenIf.Reads (t : Stage) (n : Nat) (calls : List (Call Expr)) (f : OpenIf) (m : Nat) : Prop :=
  match f.guard with
  | some condition => Branches t n calls (f.branches condition) m
  | none => ∃ before inner k, calls = before ++ .elseBranch :: inner ∧
    Branches t n before f.earlier k ∧ Block t k inner f.block m

/-- The calls record statements and leave conditionals open, the innermost first. -/
inductive Unfinished (t : Stage) (n : Nat) :
    List (Call Expr) → List Stmt → List OpenIf → Nat → Prop
  | block {calls : List (Call Expr)} {block : List Stmt} {m : Nat}
    (all : Block t n calls block m) : Unfinished t n calls block [] m
  | inside {calls more : List (Call Expr)} {block : List Stmt} {rest : List OpenIf} {f : OpenIf}
    {k m : Nat} (outer : Unfinished t n calls block rest k) (inner : f.Reads t k more m) :
    Unfinished t n (calls ++ more) block (f :: rest) m

theorem Branches.extend {n k m : Nat} {calls more : List (Call Expr)}
    {earlier : List (Condition Expr × List Stmt)} {condition : Condition Expr}
    {block rest : List Stmt} (branches : Branches t n calls (earlier ++ [(condition, block)]) k)
    (later : Block t k more rest m) :
    Branches t n (calls ++ more) (earlier ++ [(condition, block ++ rest)]) m := by
  generalize all : earlier ++ [(condition, block)] = bs at branches
  cases branches with
  | start current body =>
    have only : earlier ++ [(condition, block)] = [] ++ [(current, _)] := all
    obtain ⟨rfl, last⟩ := List.append_inj' only rfl
    obtain ⟨rfl, rfl⟩ := Prod.mk.inj (List.cons.inj last).1
    exact .start condition (later.append body)
  | elseIf current before body =>
    obtain ⟨rfl, last⟩ := List.append_inj' all rfl
    obtain ⟨rfl, rfl⟩ := Prod.mk.inj (List.cons.inj last).1
    rw [List.append_assoc, List.cons_append]
    exact .elseIf condition before (later.append body)

theorem OpenIf.Reads.extend {n k m : Nat} {calls more : List (Call Expr)} {f : OpenIf}
    {rest : List Stmt} (reads : f.Reads t n calls k) (later : Block t k more rest m) :
    OpenIf.Reads t n (calls ++ more) { f with block := f.block ++ rest } m := by
  obtain ⟨earlier, guard, block⟩ := f
  cases guard with
  | some condition => exact Branches.extend reads later
  | none =>
    obtain ⟨before, inner, l, rfl, branches, body⟩ := reads
    refine ⟨before, inner ++ more, l, ?_, branches, later.append body⟩
    rw [List.append_assoc, List.cons_append]

theorem OpenIf.Reads.close {n m : Nat} {calls : List (Call Expr)} {f : OpenIf}
    (reads : f.Reads t n calls m) : Block t n (calls ++ [.endIf]) [f.close] m := by
  obtain ⟨earlier, guard, block⟩ := f
  cases guard with
  | some condition => exact .conditional reads (.none m) (.nil m)
  | none =>
    obtain ⟨before, inner, k, rfl, branches, body⟩ := reads
    rw [List.append_assoc, List.cons_append]
    exact .conditional branches (.some body) (.nil m)

end Recording

namespace Body

variable {b : Body} {n m : Nat} {calls more : List (Call Expr)} {c : Call Expr}

/-- What the body holds is what the calls were. -/
def Holds (b : Body) (n : Nat) (calls : List (Call Expr)) : Prop :=
  Unfinished b.stage n calls b.statements b.openIfs b.temps

theorem Holds.extend {block : List Stmt} (holds : b.Holds n calls)
    (later : Block b.stage b.temps more block m) :
    (b.recorded block m).Holds n (calls ++ more) := by
  unfold Holds at holds
  unfold Holds recorded
  generalize b.openIfs = openIfs at holds ⊢
  cases holds with
  | block all => exact .block (later.append all)
  | inside outer inner =>
    rw [List.append_assoc]
    exact .inside outer (inner.extend later)

theorem Holds.simple {s : Stmt} (holds : b.Holds n calls) (lax : b.strict = false)
    (simple : Simple b.stage b.temps c s m) : (b.perform c).Holds n (calls ++ [c]) := by
  rw [simple.perform rfl lax rfl]
  exact holds.extend simple.block

/-- A call that is not misused is read. -/
theorem Holds.perform (holds : b.Holds n calls) (lax : b.strict = false)
    (fine : c.misuse? b.stage b.owner b.opened = none) (plain : ∀ name, c ≠ .setOwner name) :
    (b.perform c).Holds n (calls ++ [c]) := by
  cases c with
  | assign op target value => exact holds.simple lax (.assign _ op target value)
  | declare ty name value => exact holds.simple lax (.declare _ ty name value)
  | temp ty value => exact holds.simple lax (.temp _ ty value)
  | discard =>
    cases stage : b.stage with
    | vertex => simp [Call.misuse?, stage] at fine
    | fragment => exact holds.simple lax (.discard _ stage)
  | setOwner name => exact absurd rfl (plain name)
  | startIf condition => exact .inside holds (.start condition (.nil _))
  | elseIf condition =>
    obtain ⟨stage, strict, owner, statements, openIfs, temps, fault⟩ := b
    rcases openIfs with _ | ⟨⟨earlier, _ | current, block⟩, rest⟩
    · simp [opened, Call.misuse?] at fine
    · simp [opened, Call.misuse?] at fine
    · cases holds with
      | inside outer inner =>
        rw [List.append_assoc]
        exact .inside outer (.elseIf condition inner (.nil _))
  | elseBranch =>
    obtain ⟨stage, strict, owner, statements, openIfs, temps, fault⟩ := b
    rcases openIfs with _ | ⟨⟨earlier, _ | current, block⟩, rest⟩
    · simp [opened, Call.misuse?] at fine
    · simp [opened, Call.misuse?] at fine
    · cases holds with
      | inside outer inner =>
        rw [List.append_assoc]
        exact .inside outer ⟨_, [], _, rfl, inner, .nil _⟩
  | endIf =>
    obtain ⟨stage, strict, owner, statements, openIfs, temps, fault⟩ := b
    rcases openIfs with _ | ⟨f, rest⟩
    · simp [opened, Call.misuse?] at fine
    · cases holds with
      | @inside calls more _ _ _ k _ outer inner =>
        have outside : Holds ⟨stage, strict, owner, statements, rest, k, fault⟩ n calls := outer
        -- the conditional that closes is one statement of the block around it
        have closed := endIf_inside ⟨stage, strict, owner, statements, rest, k, fault⟩ f temps
        have whole := outside.extend inner.close
        rw [← closed, ← List.append_assoc] at whole
        exact whole

/-! ### Calls one by one -/

/-- What a call does to all but the statements of a body that checks no types. -/
structure Follows (b : Body) (c : Call Expr) (next : Body) : Prop where
  stage : next.stage = b.stage
  strict : next.strict = b.strict
  owner : next.owner = b.owner
  temps : next.temps = b.temps + c.isTemp.toNat
  opened : next.opened = c.nest b.opened
  fault : next.fault = b.fault.or (c.misuse? b.stage b.owner b.opened)

theorem opened_recorded (b : Body) (block : List Stmt) (n : Nat) :
    (b.recorded block n).opened = b.opened := by
  cases h : b.openIfs <;> simp [recorded, opened, h]

theorem follows_recorded (b : Body) (block : List Stmt) (simple : c.isSimple = true)
    (fine : c.misuse? b.stage b.owner b.opened = none) :
    b.Follows c (b.recorded block (b.temps + c.isTemp.toNat)) := by
  have owner : (b.recorded block (b.temps + c.isTemp.toNat)).owner = b.owner := by
    cases h : b.openIfs <;> simp [recorded, h]
  have fault : (b.recorded block (b.temps + c.isTemp.toNat)).fault = b.fault := by
    cases h : b.openIfs <;> simp [recorded, h]
  have nest : c.nest b.opened = b.opened := by cases c <;> first | rfl | cases simple
  exact ⟨b.stage_recorded _ _, b.strict_recorded _ _, owner, b.temps_recorded _ _,
    (b.opened_recorded _ _).trans nest.symm, by rw [fault, fine, Option.or_none]⟩

theorem follows_perform (b : Body) (c : Call Expr) (lax : b.strict = false)
    (plain : ∀ name, c ≠ .setOwner name) : b.Follows c (b.perform c) := by
  cases c with
  | assign op target value =>
    rw [(Simple.assign b.temps op target value).perform rfl lax rfl]
    exact b.follows_recorded _ rfl rfl
  | declare ty name value =>
    rw [(Simple.declare b.temps ty name value).perform rfl lax rfl]
    exact b.follows_recorded _ rfl rfl
  | temp ty value =>
    rw [(Simple.temp b.temps ty value).perform rfl lax rfl]
    exact b.follows_recorded _ rfl rfl
  | discard =>
    cases stage : b.stage with
    | fragment =>
      rw [(Simple.discard b.temps stage).perform rfl lax rfl]
      refine b.follows_recorded _ rfl ?_
      simp [Call.misuse?, stage]
    | vertex =>
      have misuse : Call.discard.misuse? b.stage b.owner b.opened =
          some (.invalidStatement .vertex b.owner .discardInVertex) := by rw [stage]; rfl
      rw [perform, discard, stage]
      exact ⟨rfl, rfl, rfl, rfl, rfl, by rw [misuse]; rfl⟩
  | setOwner name => exact absurd rfl (plain name)
  | startIf condition => exact ⟨rfl, rfl, rfl, rfl, rfl, (Option.or_none).symm⟩
  | elseIf condition =>
    obtain ⟨stage, strict, owner, statements, openIfs, temps, fault⟩ := b
    rcases openIfs with _ | ⟨⟨earlier, _ | current, block⟩, rest⟩
    · exact ⟨rfl, rfl, rfl, rfl, rfl, rfl⟩
    · exact ⟨rfl, rfl, rfl, rfl, rfl, rfl⟩
    · exact ⟨rfl, rfl, rfl, rfl, rfl, (Option.or_none).symm⟩
  | elseBranch =>
    obtain ⟨stage, strict, owner, statements, openIfs, temps, fault⟩ := b
    rcases openIfs with _ | ⟨⟨earlier, _ | current, block⟩, rest⟩
    · exact ⟨rfl, rfl, rfl, rfl, rfl, rfl⟩
    · exact ⟨rfl, rfl, rfl, rfl, rfl, rfl⟩
    · exact ⟨rfl, rfl, rfl, rfl, rfl, (Option.or_none).symm⟩
  | endIf =>
    obtain ⟨stage, strict, owner, statements, openIfs, temps, fault⟩ := b
    rcases openIfs with _ | ⟨f, rest⟩
    · exact ⟨rfl, rfl, rfl, rfl, rfl, rfl⟩
    · have closed := endIf_inside ⟨stage, strict, owner, statements, rest, temps, fault⟩ f temps
      have moved : (⟨stage, strict, owner, statements, f :: rest, temps, fault⟩ : Body).perform
          .endIf = recorded ⟨stage, strict, owner, statements, rest, temps, fault⟩ [f.close] temps :=
        closed
      rw [moved]
      cases rest <;> exact ⟨rfl, rfl, rfl, rfl, rfl, (Option.or_none).symm⟩

/-- What a run of calls does to all but the statements. -/
structure FollowsAll (b : Body) (calls : List (Call Expr)) (last : Body) : Prop where
  stage : last.stage = b.stage
  strict : last.strict = b.strict
  owner : last.owner = b.owner
  temps : last.temps = b.temps + calls.countP Call.isTemp
  opened : last.opened = calls.foldl (fun opened c => c.nest opened) b.opened
  fault : last.fault = b.fault.or (firstMisuse? b.stage b.owner b.opened calls)

theorem followsAll_performAll (b : Body) (calls : List (Call Expr)) (lax : b.strict = false)
    (plain : ∀ name, .setOwner name ∉ calls) : b.FollowsAll calls (b.performAll calls) := by
  induction calls generalizing b with
  | nil => exact ⟨rfl, rfl, rfl, rfl, rfl, (Option.or_none).symm⟩
  | cons c calls ih =>
    have first := b.follows_perform c lax fun name same => plain name (same ▸ List.mem_cons_self)
    have rest := ih (b.perform c) (first.strict.trans lax)
      fun name mem => plain name (List.mem_cons_of_mem _ mem)
    refine ⟨rest.stage.trans first.stage, rest.strict.trans first.strict,
      rest.owner.trans first.owner, ?_, ?_, ?_⟩
    · rw [performAll_cons, rest.temps, first.temps, List.countP_cons]
      cases c.isTemp with
      | true =>
        simp
        omega
      | false => simp
    · rw [performAll_cons, rest.opened, first.opened, List.foldl_cons]
    · rw [performAll_cons, rest.fault, first.fault, first.stage, first.owner, first.opened,
        Option.or_assoc]
      rfl

/-- Calls of which none is misused are read. -/
theorem Holds.performAll {b : Body} {before calls : List (Call Expr)} (holds : b.Holds n before)
    (lax : b.strict = false) (fine : firstMisuse? b.stage b.owner b.opened calls = none)
    (plain : ∀ name, .setOwner name ∉ calls) :
    (b.performAll calls).Holds n (before ++ calls) := by
  induction calls generalizing b before with
  | nil =>
    rw [List.append_nil]
    exact holds
  | cons c calls ih =>
    have only : ∀ name, c ≠ .setOwner name := fun name same => plain name (same ▸ List.mem_cons_self)
    obtain ⟨now, later⟩ := Option.or_eq_none_iff.mp fine
    have first := b.follows_perform c lax only
    rw [performAll_cons, List.append_cons]
    refine ih (holds.perform lax now only) (first.strict.trans lax) ?_
      fun name mem => plain name (List.mem_cons_of_mem _ mem)
    rw [first.stage, first.owner, first.opened]
    exact later

/-! ### Segments -/

theorem segment_eq_ok_iff (b : Body) (block : List Stmt) :
    b.segment = .ok block ↔ b.fault = none ∧ b.openIfs = [] ∧ b.statements = block := by
  unfold segment
  cases b.fault with
  | some e => simp
  | none => cases b.openIfs <;> simp

theorem segment_eq_error_iff (b : Body) (e : ShaderError) :
    b.segment = .error e ↔ b.fault = some e ∨ (b.fault = none ∧ b.openIfs ≠ [] ∧
      e = .unbalancedConditional b.stage b.owner (.leftOpen b.openIfs.length)) := by
  unfold segment
  cases b.fault with
  | some e => simp
  | none => cases b.openIfs <;> simp [eq_comm]

/-- The calls of a segment are accepted if and only if they are a block. Otherwise the first call
that is misused is the error or, if there is none, how many conditionals are left open. The next
segment starts afresh, except for the numbers of automatic locals. -/
theorem segment_performAll (b : Body) (lax : b.strict = false) (new : b.nextSegment = b)
    (calls : List (Call Expr)) (plain : ∀ name, .setOwner name ∉ calls) :
    (∀ block, (b.performAll calls).segment = .ok block ↔
        ∃ m, Block b.stage b.temps calls block m) ∧
      (∀ block, (b.performAll calls).segment = .ok block →
        Stmt.countAll block = calls.countP Call.isSimple + calls.countP Call.isStartIf) ∧
      (∀ e, (b.performAll calls).segment = .error e ↔
        firstMisuse? b.stage b.owner [] calls = some e ∨
          (firstMisuse? b.stage b.owner [] calls = none ∧ nesting calls ≠ [] ∧
            e = .unbalancedConditional b.stage b.owner (.leftOpen (nesting calls).length))) ∧
      (b.performAll calls).nextSegment =
        { Body.empty b.stage false with
          owner := b.owner
          temps := b.temps + calls.countP Call.isTemp } := by
  have follows := b.followsAll_performAll calls lax plain
  have closed : b.openIfs = [] := congrArg openIfs new.symm
  have calm : b.fault = none := congrArg fault new.symm
  have nothing : b.statements = [] := congrArg statements new.symm
  have outside : b.opened = [] := by rw [opened, closed]; rfl
  have fault : (b.performAll calls).fault = firstMisuse? b.stage b.owner [] calls := by
    rw [follows.fault, calm, outside, Option.none_or]
  have opened : (b.performAll calls).openIfs.map (fun f => f.guard.isNone) = nesting calls := by
    have all := follows.opened
    rw [outside] at all
    exact all
  -- a segment that is accepted has a derivation, and a derivation tells what is recorded
  have parse (block : List Stmt) : (b.performAll calls).segment = .ok block ↔
      ∃ m, Block b.stage b.temps calls block m := by
    constructor
    · intro ok
      obtain ⟨fine, balanced, rfl⟩ := (segment_eq_ok_iff _ block).mp ok
      have start : b.Holds b.temps [] := by
        unfold Holds
        rw [closed, nothing]
        exact .block (.nil _)
      rw [fault, ← outside] at fine
      have all := start.performAll lax fine plain
      unfold Holds at all
      rw [balanced, follows.stage] at all
      cases all with
      | block all => exact ⟨_, all⟩
    · rintro ⟨m, all⟩
      rw [all.performAll rfl lax rfl, segment_eq_ok_iff]
      simp [recorded, closed, calm, nothing]
  refine ⟨parse, fun block ok => ?_, fun e => ?_, ?_⟩
  · obtain ⟨m, all⟩ := (parse block).mp ok
    exact all.count
  · have depth : (b.performAll calls).openIfs.length = (nesting calls).length := by
      rw [← opened, List.length_map]
    have none : (b.performAll calls).openIfs = [] ↔ nesting calls = [] := by
      rw [← opened, List.map_eq_nil_iff]
    rw [segment_eq_error_iff, fault, ne_eq, none, follows.stage, follows.owner, depth]
  · rw [nextSegment, Body.mk.injEq]
    exact ⟨follows.stage, follows.strict.trans lax, follows.owner, rfl, rfl, follows.temps, rfl⟩

/-- A conditional inside a branch, and an `else` after an `else if`. -/
theorem segment_performAll_nested :
    (Body.empty .fragment false).nextSegment = Body.empty .fragment false ∧
      ∃ (c : Condition Expr) (x : Expr) (calls : List (Call Expr)),
        calls = [.startIf c, .temp .float x, .startIf c, .discard, .endIf, .elseIf c, .elseBranch,
          .assign .set x x, .endIf] ∧
        (∀ name, .setOwner name ∉ calls) ∧
        ((Body.empty .fragment false).performAll calls).segment =
          .ok [.branch [(c, [.declare .float (automaticName .float 0) (some x),
            .branch [(c, [.discard])] none]), (c, [])] (some [.assign x .set x])] ∧
        (∃ block m, Block .fragment 0 calls block m ∧ Stmt.countAll block = 5) := by
  refine ⟨rfl, default, default, _, rfl, by simp, rfl, ?_⟩
  obtain ⟨parse, count, _⟩ :=
    segment_performAll (Body.empty .fragment false) rfl rfl
      [.startIf default, .temp .float default, .startIf default, .discard, .endIf,
        .elseIf default, .elseBranch, .assign .set default default, .endIf] (by simp)
  obtain ⟨m, block⟩ := (parse _).mp rfl
  exact ⟨_, m, block, count _ rfl⟩

end Body

end ShaderComposer
