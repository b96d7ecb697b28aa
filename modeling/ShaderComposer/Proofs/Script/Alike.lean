import Mathlib.Data.List.Forall2
import ShaderComposer.Script.Instruction

/-!
# Scenes that look alike to a script

A script sees the variables of its scene by name, type and whether they are arrays, and the symbols
only where it asks. Two scenes that agree on this much give the same run
(`Instruction.runAll_alike`): initial values, precisions and what nobody asks for have no part in it.
-/

namespace ShaderComposer

namespace Variable

theorem sameShape_iff {v w : Variable} : v.sameShape w = true ↔
    v.name = w.name ∧ v.type = w.type ∧ v.qualifier = w.qualifier ∧
      v.arrayLength = w.arrayLength := by
  simp only [sameShape, Bool.and_eq_true, beq_iff_eq, and_assoc]

theorem sameShape_symm {v w : Variable} (same : v.sameShape w = true) : w.sameShape v = true := by
  obtain ⟨name, type, qualifier, length⟩ := sameShape_iff.mp same
  exact sameShape_iff.mpr ⟨name.symm, type.symm, qualifier.symm, length.symm⟩

theorem sameShape_trans {v w x : Variable} (first : v.sameShape w = true)
    (second : w.sameShape x = true) : v.sameShape x = true := by
  obtain ⟨name, type, qualifier, length⟩ := sameShape_iff.mp first
  obtain ⟨name', type', qualifier', length'⟩ := sameShape_iff.mp second
  exact sameShape_iff.mpr ⟨name.trans name', type.trans type', qualifier.trans qualifier',
    length.trans length'⟩

/-- What a script sees of a variable: its name, its type and whether it is an array. -/
def LooksLike (v w : Variable) : Prop :=
  v.name = w.name ∧ v.type = w.type ∧ v.arrayLength.isSome = w.arrayLength.isSome

theorem looksLike_refl (v : Variable) : v.LooksLike v := ⟨rfl, rfl, rfl⟩

theorem LooksLike.symm {v w : Variable} (looks : v.LooksLike w) : w.LooksLike v :=
  ⟨looks.1.symm, looks.2.1.symm, looks.2.2.symm⟩

theorem LooksLike.trans {v w x : Variable} (first : v.LooksLike w) (second : w.LooksLike x) :
    v.LooksLike x :=
  ⟨first.1.trans second.1, first.2.1.trans second.2.1, first.2.2.trans second.2.2⟩

theorem looksLike_of_sameShape {v w : Variable} (same : v.sameShape w = true) : v.LooksLike w := by
  obtain ⟨name, type, _, length⟩ := sameShape_iff.mp same
  exact ⟨name, type, congrArg Option.isSome length⟩

theorem LooksLike.reference_eq {v w : Variable} (looks : v.LooksLike w) :
    v.reference = w.reference := by
  rw [reference, reference, looks.1, looks.2.1]

theorem LooksLike.elementAt_eq {v w : Variable} (looks : v.LooksLike w) (i : Expr) :
    v.elementAt i = w.elementAt i := by
  rw [elementAt, elementAt, looks.reference_eq, looks.2.1, looks.2.2]

end Variable

abbrev LookAlike (vs ws : List Variable) : Prop := List.Forall₂ Variable.LooksLike vs ws

theorem LookAlike.refl (vs : List Variable) : LookAlike vs vs :=
  List.forall₂_same.mpr fun v _ => v.looksLike_refl

theorem LookAlike.symm {vs ws : List Variable} (looks : LookAlike vs ws) : LookAlike ws vs :=
  List.Forall₂.flip (looks.imp fun _ _ => Variable.LooksLike.symm)

theorem LookAlike.trans {vs ws xs : List Variable} (first : LookAlike vs ws)
    (second : LookAlike ws xs) : LookAlike vs xs := by
  induction first generalizing xs with
  | nil =>
    cases second
    exact .nil
  | cons looks _ ih =>
    cases second with
    | cons again others => exact .cons (looks.trans again) (ih others)

/-- What is bound to the references of a template. -/
structure Bindings.Alike (env env' : Bindings) : Prop where
  declared : LookAlike env.declared env'.declared
  results : env.results = env'.results

theorem VariableRef.looksLike_build {env env' : Bindings} (alike : env.Alike env') (v : VariableRef) :
    (v.build env).LooksLike (v.build env') := by
  cases v with
  | given v => exact v.looksLike_refl
  | declared n =>
    have place {vs ws : List Variable} (looks : LookAlike vs ws) :
        (vs.getD n default).LooksLike (ws.getD n default) := by
      induction looks generalizing n with
      | nil => exact Variable.looksLike_refl _
      | cons first _ ih =>
        cases n with
        | zero => exact first
        | succ n => exact ih n
    exact place alike.declared

namespace Term

variable {env env' : Bindings}

mutual
theorem build_alike (alike : env.Alike env') : (t : Term) → t.build env = t.build env'
  | var .. | literal _ => by simp only [build]
  | variableRef v => by
    simp only [build, (VariableRef.looksLike_build alike v).reference_eq]
  | result n => by simp only [build, alike.results]
  | binary op l r => by simp only [build, build_alike alike l, build_alike alike r]
  | negate e => by simp only [build, build_alike alike e]
  | swizzle b c => by simp only [build, build_alike alike b]
  | elementOf b i => by simp only [build, build_alike alike b, build_alike alike i]
  | elementAt v i => by
    simp only [build, build_alike alike i, (VariableRef.looksLike_build alike v).elementAt_eq]
  | index b i ty => by simp only [build, build_alike alike b, build_alike alike i]
  | call f as => by simp only [build, buildAll_alike alike as]
  | construct ty as => by simp only [build, buildAll_alike alike as]
  | group e => by simp only [build, build_alike alike e]
theorem buildAll_alike (alike : env.Alike env') : (ts : List Term) →
    buildAll env ts = buildAll env' ts
  | [] => by simp only [buildAll]
  | t :: ts => by simp only [buildAll, build_alike alike t, buildAll_alike alike ts]
end

end Term

namespace Instruction

/-! ### What a script asks for -/

mutual
/-- The roles that an instruction asks for, in whichever block. -/
def roles : Instruction → List Role
  | require role => [role]
  | ifRole role block => role :: rolesAll block
  | ifFragment _ block otherwise => rolesAll block ++ rolesAll otherwise
  | call _ | expectDeclared => []
def rolesAll : List Instruction → List Role
  | [] => []
  | i :: rest => i.roles ++ rolesAll rest
end

mutual
/-- The fragments that an instruction asks after, in whichever block. -/
def ids : Instruction → List String
  | ifRole _ block => idsAll block
  | ifFragment id block otherwise => id :: (idsAll block ++ idsAll otherwise)
  | require _ | call _ | expectDeclared => []
def idsAll : List Instruction → List String
  | [] => []
  | i :: rest => i.ids ++ idsAll rest
end

/-- The scenes agree on these roles and fragments and on the looks of declared variables. -/
structure Scene.Alike (roles : List Role) (ids : List String) (s t : Scene) : Prop where
  stage : s.symbols.stage = t.symbols.stage
  given : ∀ role ∈ roles, (s.symbols.get? role).map Variable.reference =
    (t.symbols.get? role).map Variable.reference
  attached : ∀ id ∈ ids, s.symbols.hasFragment id = t.symbols.hasFragment id
  declared : Option.Rel LookAlike s.declared t.declared

namespace Scene.Alike

variable {roles : List Role} {ids : List String} {s t : Scene}

theorem subset {roles' : List Role} {ids' : List String} (alike : s.Alike roles ids t)
    (fewer : roles' ⊆ roles) (less : ids' ⊆ ids) : s.Alike roles' ids' t :=
  ⟨alike.stage, fun role mem => alike.given role (fewer mem),
    fun id mem => alike.attached id (less mem), alike.declared⟩

theorem bindings (alike : s.Alike roles ids t) (r : Run) :
    (Instruction.bindings s r).Alike (Instruction.bindings t r) := by
  refine ⟨?_, rfl⟩
  show LookAlike (s.declared.getD []) (t.declared.getD [])
  have same := alike.declared
  generalize s.declared = vs at same ⊢
  generalize t.declared = ws at same ⊢
  cases same with
  | some same => exact same
  | none => exact .nil

theorem isSome_declared (alike : s.Alike roles ids t) : s.declared.isSome = t.declared.isSome := by
  have same := alike.declared
  generalize s.declared = vs at same ⊢
  generalize t.declared = ws at same ⊢
  cases same <;> rfl

theorem isSome_get? (alike : s.Alike roles ids t) {role : Role} (mem : role ∈ roles) :
    (s.symbols.get? role).isSome = (t.symbols.get? role).isSome := by
  have same := congrArg Option.isSome (alike.given role mem)
  rwa [Option.isSome_map, Option.isSome_map] at same

theorem require (alike : s.Alike roles ids t) {role : Role} (mem : role ∈ roles) :
    (s.symbols.require role).map Variable.reference =
      (t.symbols.require role).map Variable.reference := by
  have same := alike.given role mem
  unfold Symbols.require
  cases here : s.symbols.get? role with
  | none =>
    cases there : t.symbols.get? role with
    | none => simp only [alike.stage]
    | some w =>
      rw [here, there] at same
      cases same
  | some v =>
    cases there : t.symbols.get? role with
    | none =>
      rw [here, there] at same
      cases same
    | some w =>
      rw [here, there] at same
      exact congrArg Except.ok (Option.some.inj same)

end Scene.Alike

/-! ### Runs -/

theorem run_require (scene : Scene) (role : Role) (r : Run) :
    (Instruction.require role).run scene r =
      ((scene.symbols.require role).map Variable.reference).map fun e =>
        { r with results := r.results ++ [e] } := by
  rw [run]
  cases scene.symbols.require role <;> rfl

variable {s t : Scene}

mutual
theorem run_alike : (i : Instruction) → s.Alike i.roles i.ids t → ∀ r, i.run s r = i.run t r
  | call c, alike, r => by
    have build : Term.build (bindings s r) = Term.build (bindings t r) :=
      funext (Term.build_alike (alike.bindings r))
    rw [run, run, build]
  | .require role, alike, r => by
    rw [run_require, run_require, alike.require (by simp [roles])]
  | ifRole role block, alike, r => by
    have inside : s.Alike (rolesAll block) (idsAll block) t :=
      alike.subset (by simp [roles]) (by simp [ids])
    rw [run, run, alike.isSome_get? (by simp [roles]), runAll_alike block inside]
  | ifFragment id block otherwise, alike, r => by
    have first : s.Alike (rolesAll block) (idsAll block) t :=
      alike.subset (by simp [roles]) (by simp [ids])
    have second : s.Alike (rolesAll otherwise) (idsAll otherwise) t :=
      alike.subset (by simp [roles]) (by simp [ids])
    rw [run, run, alike.attached id (by simp [ids]), runAll_alike block first,
      runAll_alike otherwise second]
  | expectDeclared, alike, r => by
    rw [run, run, alike.isSome_declared]
/-- Scenes that look alike to a script give the same run. -/
theorem runAll_alike : (script : List Instruction) → s.Alike (rolesAll script) (idsAll script) t →
    ∀ r, runAll s script r = runAll t script r
  | [], _, r => by rw [runAll, runAll]
  | i :: rest, alike, r => by
    have first : s.Alike i.roles i.ids t :=
      alike.subset (by simp [rolesAll]) (by simp [idsAll])
    have others : s.Alike (rolesAll rest) (idsAll rest) t :=
      alike.subset (by simp [rolesAll]) (by simp [idsAll])
    rw [runAll, runAll, run_alike i first r]
    cases i.run t r with
    | error e => rfl
    | ok next => exact runAll_alike rest others next
end

end Instruction

end ShaderComposer
