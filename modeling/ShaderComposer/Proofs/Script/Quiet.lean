import ShaderComposer.Proofs.Glsl.Lines
import ShaderComposer.Proofs.Script.Runs

/-!
# Scripts with quiet names

A script whose templates have quiet names records statements with quiet names and gives back such
expressions (`Instruction.Run.IsQuiet.runAll`), if the variables that it can see have quiet names
too. What the names of templates are is seen in the script itself; the automatic names of locals are
quiet whatever their type and number.
-/

namespace ShaderComposer

/-! ### Templates -/

namespace Variable

/-- The name is quiet, and so is the initial value if there is one. -/
def isQuiet (v : Variable) : Bool := isQuietName v.name.toList && v.initial.all Expr.isQuiet

theorem isQuiet_iff {v : Variable} :
    v.isQuiet = true ↔ isQuietName v.name.toList = true ∧ v.initial.all Expr.isQuiet = true :=
  Bool.and_eq_true_iff

theorem isQuiet_reference {v : Variable} (quiet : v.isQuiet = true) :
    v.reference.isQuiet = true :=
  (isQuiet_iff.mp quiet).1

end Variable

def VariableRef.isQuiet : VariableRef → Bool
  | given v => v.isQuiet
  | declared _ => true

namespace Term

mutual
/-- Names and components are made of identifiers, and no name is a word of a declaration. -/
def isQuiet : Term → Bool
  | var name _ => isQuietName name.toList
  | literal _ | result _ => true
  | variableRef v => v.isQuiet
  | binary _ l r => l.isQuiet && r.isQuiet
  | negate e => e.isQuiet
  | swizzle b c => b.isQuiet && c.toList.all SourceScan.isIdentifier
  | elementOf b i => b.isQuiet && i.isQuiet
  | elementAt v i => v.isQuiet && i.isQuiet
  | index b i _ => b.isQuiet && i.isQuiet
  | call _ as => areQuiet as
  | construct _ as => areQuiet as
  | group e => e.isQuiet
def areQuiet : List Term → Bool
  | [] => true
  | t :: ts => t.isQuiet && areQuiet ts
end

end Term

/-- Everything that references stand for has quiet names. -/
structure Bindings.IsQuiet (env : Bindings) : Prop where
  declared : ∀ v ∈ env.declared, v.isQuiet = true
  results : ∀ e ∈ env.results, e.isQuiet = true

theorem Variable.isQuiet_elementAt {v : Variable} {i : Expr} (quiet : v.isQuiet = true)
    (place : i.isQuiet = true) : (v.elementAt i).isQuiet = true := by
  have base := isQuiet_reference quiet
  unfold elementAt
  split <;> exact Bool.and_eq_true_iff.mpr ⟨base, place⟩

theorem getD_of_forall {α : Type} {p : α → Prop} {all : List α} {a : α} (n : Nat)
    (each : ∀ x ∈ all, p x) (otherwise : p a) : p (all.getD n a) := by
  rw [List.getD_eq_getElem?_getD]
  cases found : all[n]? with
  | none => exact otherwise
  | some x => exact each x (List.mem_of_getElem? found)

theorem VariableRef.isQuiet_build {env : Bindings} (bound : env.IsQuiet) {v : VariableRef}
    (quiet : v.isQuiet = true) : (v.build env).isQuiet = true := by
  cases v with
  | given v => exact quiet
  | declared n => exact getD_of_forall n bound.declared (by decide)

namespace Term

variable {env : Bindings}

mutual
theorem isQuiet_build (bound : env.IsQuiet) : (t : Term) → t.isQuiet = true →
    (t.build env).isQuiet = true
  | var _ _, quiet => quiet
  | literal _, _ => rfl
  | result n, _ => getD_of_forall n bound.results (by decide)
  | variableRef v, quiet => Variable.isQuiet_reference (VariableRef.isQuiet_build bound quiet)
  | binary op l r, quiet => by
    obtain ⟨left, right⟩ := Bool.and_eq_true_iff.mp quiet
    exact Bool.and_eq_true_iff.mpr ⟨isQuiet_build bound l left, isQuiet_build bound r right⟩
  | negate e, quiet => isQuiet_build bound e quiet
  | swizzle b c, quiet => by
    obtain ⟨base, components⟩ := Bool.and_eq_true_iff.mp quiet
    exact Bool.and_eq_true_iff.mpr ⟨isQuiet_build bound b base, components⟩
  | elementOf b i, quiet => by
    obtain ⟨base, place⟩ := Bool.and_eq_true_iff.mp quiet
    exact Bool.and_eq_true_iff.mpr ⟨isQuiet_build bound b base, isQuiet_build bound i place⟩
  | elementAt v i, quiet => by
    obtain ⟨base, place⟩ := Bool.and_eq_true_iff.mp quiet
    exact Variable.isQuiet_elementAt (VariableRef.isQuiet_build bound base)
      (isQuiet_build bound i place)
  | index b i _, quiet => by
    obtain ⟨base, place⟩ := Bool.and_eq_true_iff.mp quiet
    exact Bool.and_eq_true_iff.mpr ⟨isQuiet_build bound b base, isQuiet_build bound i place⟩
  | call _ as, quiet => areQuiet_buildAll bound as quiet
  | construct _ as, quiet => areQuiet_buildAll bound as quiet
  | group e, quiet => isQuiet_build bound e quiet
theorem areQuiet_buildAll (bound : env.IsQuiet) : (ts : List Term) → areQuiet ts = true →
    Expr.areQuiet (buildAll env ts) = true
  | [], _ => rfl
  | t :: ts, quiet => by
    obtain ⟨first, others⟩ := Bool.and_eq_true_iff.mp quiet
    exact Bool.and_eq_true_iff.mpr ⟨isQuiet_build bound t first, areQuiet_buildAll bound ts others⟩
end

end Term

/-! ### Calls -/

theorem Comparison.all_map {ε δ : Type} {p : ε → Bool} {q : δ → Bool} {f : ε → δ}
    (keeps : ∀ x, p x = true → q (f x) = true) {c : Comparison ε} (holds : c.all p = true) :
    (c.map f).all q = true := by
  obtain ⟨left, right⟩ := Bool.and_eq_true_iff.mp holds
  exact Bool.and_eq_true_iff.mpr ⟨keeps _ left, keeps _ right⟩

theorem Condition.all_map {ε δ : Type} {p : ε → Bool} {q : δ → Bool} {f : ε → δ}
    (keeps : ∀ x, p x = true → q (f x) = true) {c : Condition ε} (holds : c.all p = true) :
    (c.map f).all q = true := by
  obtain ⟨first, others⟩ := Bool.and_eq_true_iff.mp holds
  refine Bool.and_eq_true_iff.mpr ⟨Comparison.all_map keeps first, ?_⟩
  rw [map, List.all_map]
  exact List.all_eq_true.mpr fun joined mem =>
    Comparison.all_map keeps (List.all_eq_true.mp others joined mem)

namespace Call

/-- The name of a local is quiet, and the operands have a property. -/
def all {ε : Type} (p : ε → Bool) : Call ε → Bool
  | assign _ target value => p target && p value
  | declare _ name value => isQuietName name.toList && p value
  | temp _ value => p value
  | startIf c | elseIf c => c.all p
  | elseBranch | endIf | discard | setOwner _ => true

def isQuiet (c : Call Term) : Bool := c.all Term.isQuiet

theorem all_map {ε δ : Type} {p : ε → Bool} {q : δ → Bool} {f : ε → δ}
    (keeps : ∀ x, p x = true → q (f x) = true) {c : Call ε} (holds : c.all p = true) :
    (c.map f).all q = true := by
  cases c with
  | assign op target value =>
    obtain ⟨left, right⟩ := Bool.and_eq_true_iff.mp holds
    exact Bool.and_eq_true_iff.mpr ⟨keeps _ left, keeps _ right⟩
  | declare ty name value =>
    obtain ⟨plain, initial⟩ := Bool.and_eq_true_iff.mp holds
    exact Bool.and_eq_true_iff.mpr ⟨plain, keeps _ initial⟩
  | temp ty value => exact keeps _ holds
  | startIf c | elseIf c => exact Condition.all_map keeps holds
  | elseBranch | endIf | discard | setOwner name => rfl

end Call

/-! ### Bodies -/

namespace Stmt

theorem areQuiet_append {a b : List Stmt} :
    areQuiet (a ++ b) = true ↔ areQuiet a = true ∧ areQuiet b = true := by
  induction a with
  | nil => simp [areQuiet]
  | cons s a ih => rw [List.cons_append, areQuiet, areQuiet, Bool.and_eq_true, Bool.and_eq_true, ih,
      and_assoc]

theorem areQuietBranches_append {a b : List (Condition Expr × List Stmt)} :
    areQuietBranches (a ++ b) = true ↔
      areQuietBranches a = true ∧ areQuietBranches b = true := by
  induction a with
  | nil => simp [areQuietBranches]
  | cons branch a ih => rw [List.cons_append, areQuietBranches_cons, areQuietBranches_cons, ih,
      and_assoc, and_assoc]

end Stmt

/-- What has been recorded of the conditional has quiet names. An `else` follows a branch. -/
structure OpenIf.IsQuiet (f : OpenIf) : Prop where
  earlier : Stmt.areQuietBranches f.earlier = true
  guard : ∀ c, f.guard = some c → c.isQuiet = true
  block : Stmt.areQuiet f.block = true
  branched : f.guard = none → f.earlier ≠ []

namespace OpenIf

variable {f : OpenIf}

theorem IsQuiet.push (quiet : f.IsQuiet) {s : Stmt} (statement : s.isQuiet = true) :
    (f.push s).IsQuiet :=
  { quiet with
    block := Stmt.areQuiet_append.mpr
      ⟨quiet.block, Bool.and_eq_true_iff.mpr ⟨statement, rfl⟩⟩ }

theorem IsQuiet.branches (quiet : f.IsQuiet) {guard : Condition Expr}
    (current : f.guard = some guard) : Stmt.areQuietBranches (f.branches guard) = true :=
  Stmt.areQuietBranches_append.mpr ⟨quiet.earlier,
    Stmt.areQuietBranches_cons.mpr ⟨quiet.guard guard current, quiet.block, rfl⟩⟩

theorem branches_ne_nil (f : OpenIf) (guard : Condition Expr) : f.branches guard ≠ [] :=
  List.append_ne_nil_of_right_ne_nil _ (List.cons_ne_nil _ _)

theorem IsQuiet.close (quiet : f.IsQuiet) : f.close.isQuiet = true := by
  unfold OpenIf.close
  split
  · next guard current =>
    refine Bool.and_eq_true_iff.mpr ⟨?_, quiet.branches current⟩
    simpa using f.branches_ne_nil guard
  · next current =>
    refine Bool.and_eq_true_iff.mpr ⟨Bool.and_eq_true_iff.mpr ⟨?_, quiet.earlier⟩, quiet.block⟩
    simpa using quiet.branched current

end OpenIf

namespace Body

/-- Everything that has been recorded has quiet names. -/
structure IsQuiet (b : Body) : Prop where
  statements : Stmt.areQuiet b.statements = true
  openIfs : ∀ f ∈ b.openIfs, f.IsQuiet

variable {b : Body}

theorem IsQuiet.withFault (quiet : b.IsQuiet) (e : ShaderError) : (b.withFault e).IsQuiet :=
  ⟨quiet.statements, quiet.openIfs⟩

theorem IsQuiet.checked (quiet : b.IsQuiet) (mismatch : Option Mismatch) :
    (b.checked mismatch).IsQuiet := by
  unfold Body.checked
  split
  · split
    · exact quiet.withFault _
    · exact quiet
  · exact quiet

theorem IsQuiet.push (quiet : b.IsQuiet) {s : Stmt} (statement : s.isQuiet = true) :
    (b.push s).IsQuiet := by
  unfold Body.push
  split
  · exact ⟨Stmt.areQuiet_append.mpr ⟨quiet.statements,
      Bool.and_eq_true_iff.mpr ⟨statement, rfl⟩⟩, quiet.openIfs⟩
  · next f rest opened =>
    refine ⟨quiet.statements, fun g mem => ?_⟩
    rcases List.mem_cons.mp mem with rfl | mem
    · exact (quiet.openIfs f (opened ▸ List.mem_cons_self)).push statement
    · exact quiet.openIfs g (opened ▸ List.mem_cons_of_mem _ mem)

theorem IsQuiet.nextBlock (quiet : b.IsQuiet) {guard : Option (Condition Expr)}
    (given : ∀ c, guard = some c → c.isQuiet = true) (afterElse outside : Imbalance) :
    (b.nextBlock guard afterElse outside).IsQuiet := by
  unfold Body.nextBlock
  split
  · exact quiet.withFault _
  · next f rest opened =>
    have inner := quiet.openIfs f (opened ▸ List.mem_cons_self)
    split
    · exact quiet.withFault _
    · next current before =>
      refine ⟨quiet.statements, fun g mem => ?_⟩
      rcases List.mem_cons.mp mem with rfl | mem
      · exact ⟨inner.branches before, given, rfl, fun _ => f.branches_ne_nil current⟩
      · exact quiet.openIfs g (opened ▸ List.mem_cons_of_mem _ mem)

theorem IsQuiet.endIf (quiet : b.IsQuiet) : b.endIf.IsQuiet := by
  unfold Body.endIf
  split
  · exact quiet.withFault _
  · next f rest opened =>
    have outer : { b with openIfs := rest }.IsQuiet :=
      ⟨quiet.statements, fun g mem => quiet.openIfs g (opened ▸ List.mem_cons_of_mem _ mem)⟩
    exact outer.push (quiet.openIfs f (opened ▸ List.mem_cons_self)).close

theorem isQuietName_tempName (b : Body) (ty : DataType) :
    isQuietName (b.tempName ty).toList = true := by
  have text : (b.tempName ty).toList =
      "v_".toList ++ (ty.tempPrefix.toList ++ ("_".toList ++ (toString b.temps).toList)) := by
    simp only [tempName, String.toList_append, List.append_assoc]
  have tempPrefix : ty.tempPrefix.toList.all SourceScan.isIdentifier = true := by
    cases ty <;> decide +kernel
  rw [text]
  refine isQuietName_append (by decide) fun c mem => ?_
  rcases List.mem_append.mp mem with mem | mem
  · exact List.all_eq_true.mp tempPrefix c mem
  · rcases List.mem_cons.mp mem with rfl | mem
    · decide
    · exact isIdentifier_of_mem_toString c mem

theorem IsQuiet.perform (quiet : b.IsQuiet) {c : Call Expr} (call : c.all Expr.isQuiet = true) :
    (b.perform c).IsQuiet := by
  cases c with
  | assign op target value => exact (quiet.checked _).push call
  | declare ty name value => exact (quiet.checked _).push call
  | temp ty value =>
    have counted : { b with temps := b.temps + 1 }.IsQuiet := ⟨quiet.statements, quiet.openIfs⟩
    exact (counted.checked _).push
      (Bool.and_eq_true_iff.mpr ⟨b.isQuietName_tempName ty, call⟩)
  | startIf condition =>
    refine ⟨quiet.statements, fun f mem => ?_⟩
    rcases List.mem_cons.mp mem with rfl | mem
    · refine ⟨rfl, fun c same => ?_, rfl, fun none => by cases none⟩
      cases same
      exact call
    · exact quiet.openIfs f mem
  | elseIf condition =>
    refine quiet.nextBlock (fun c same => ?_) _ _
    cases same
    exact call
  | elseBranch => exact quiet.nextBlock (fun c same => by cases same) _ _
  | endIf => exact quiet.endIf
  | discard =>
    show b.discard.IsQuiet
    unfold Body.discard
    split
    · exact quiet.push rfl
    · exact quiet.withFault _
  | setOwner name => exact ⟨quiet.statements, quiet.openIfs⟩

theorem isQuiet_result {c : Call Expr} (call : c.all Expr.isQuiet = true) {e : Expr}
    (given : b.result c = some e) : e.isQuiet = true := by
  cases c with
  | declare ty name value =>
    cases given
    exact (Bool.and_eq_true_iff.mp call).1
  | temp ty value =>
    cases given
    exact b.isQuietName_tempName ty
  | _ => cases given

end Body

/-! ### Runs -/

namespace Instruction

/-- What has been recorded and what has been given back has quiet names. -/
structure Run.IsQuiet (r : Run) : Prop where
  body : r.body.IsQuiet
  results : ∀ e ∈ r.results, e.isQuiet = true

/-- What a script can see has quiet names. -/
structure Scene.IsQuiet (scene : Scene) : Prop where
  declared : ∀ v ∈ scene.declared.getD [], v.isQuiet = true
  shared : ∀ role v, scene.symbols.require role = .ok v → v.isQuiet = true

theorem Run.IsQuiet.runAll {scene : Scene} (sees : scene.IsQuiet) {script : List Instruction}
    (quiet : ∀ c ∈ callsAll script, c.isQuiet = true) {r last : Run} (start : r.IsQuiet)
    (ran : Instruction.runAll scene script r = .ok last) : last.IsQuiet := by
  refine runAll_keeps ⟨fun c mem r now => ?_, fun role v given r now => ?_⟩ ran start
  · have bound : (bindings scene r).IsQuiet := ⟨sees.declared, now.results⟩
    have call := Call.all_map (fun t => t.isQuiet_build bound) (quiet c mem)
    refine ⟨now.body.perform call, fun e mem => ?_⟩
    rcases List.mem_append.mp mem with mem | mem
    · exact now.results e mem
    · exact Body.isQuiet_result call (Option.mem_toList.mp mem)
  · refine ⟨now.body, fun e mem => ?_⟩
    rcases List.mem_append.mp mem with mem | mem
    · exact now.results e mem
    · obtain rfl := List.mem_singleton.mp mem
      exact Variable.isQuiet_reference (sees.shared role v given)

end Instruction

end ShaderComposer
