import ShaderComposer.Script.Instruction

/-!
# Runs of scripts

A script performs calls and asks for shared variables; blocks run or do not. What every call of a
script keeps, and every variable it is given, the script keeps (`Instruction.runAll_keeps`).
-/

namespace ShaderComposer

namespace Instruction

mutual
def calls : Instruction → List (Call Term)
  | call c => [c]
  | ifRole _ block => callsAll block
  | ifFragment _ block otherwise => callsAll block ++ callsAll otherwise
  | require _ | expectDeclared => []
def callsAll : List Instruction → List (Call Term)
  | [] => []
  | i :: rest => i.calls ++ callsAll rest
end

theorem mem_callsAll {c : Call Term} {script : List Instruction} :
    c ∈ callsAll script ↔ ∃ i ∈ script, c ∈ i.calls := by
  induction script with
  | nil => simp [callsAll]
  | cons i rest ih => simp [callsAll, ih]

/-- Each call of these keeps the property, and so does each variable that the symbols give. -/
structure Keeps (scene : Scene) (all : List (Call Term)) (holds : Run → Prop) : Prop where
  call : ∀ c ∈ all, ∀ r, holds r → holds (perform (c.map (Term.build (bindings scene r))) r)
  given : ∀ role v, scene.symbols.require role = .ok v →
    ∀ r, holds r → holds { r with results := r.results ++ [v.reference] }

section Keeping

variable {scene : Scene} {holds : Run → Prop} {r last : Run}

theorem Keeps.subset {all some : List (Call Term)} (keeps : Keeps scene all holds)
    (subset : some ⊆ all) : Keeps scene some holds :=
  ⟨fun c mem => keeps.call c (subset mem), keeps.given⟩

mutual
theorem run_keeps : ∀ {i : Instruction} {r last : Run}, Keeps scene i.calls holds →
    i.run scene r = .ok last → holds r → holds last
  | call c, r, last, keeps, ran, start => by
    rw [run] at ran
    cases ran
    exact keeps.call c (by simp [calls]) r start
  | require role, r, last, keeps, ran, start => by
    rw [run] at ran
    cases found : scene.symbols.require role with
    | error e =>
      rw [found] at ran
      cases ran
    | ok v =>
      rw [found] at ran
      cases ran
      exact keeps.given role v found r start
  | ifRole role block, r, last, keeps, ran, start => by
    rw [run] at ran
    split at ran
    · exact runAll_keeps keeps ran start
    · cases ran
      exact start
  | ifFragment id block otherwise, r, last, keeps, ran, start => by
    rw [run] at ran
    rw [calls] at keeps
    split at ran
    · exact runAll_keeps (keeps.subset (List.subset_append_left _ _)) ran start
    · exact runAll_keeps (keeps.subset (List.subset_append_right _ _)) ran start
  | expectDeclared, r, last, keeps, ran, start => by
    rw [run] at ran
    split at ran
    · cases ran
      exact start
    · cases ran
/-- What the calls of a script keep, and the variables it is given, the script keeps. -/
theorem runAll_keeps : ∀ {script : List Instruction} {r last : Run},
    Keeps scene (callsAll script) holds → runAll scene script r = .ok last → holds r → holds last
  | [], r, last, keeps, ran, start => by
    rw [runAll] at ran
    cases ran
    exact start
  | i :: rest, r, last, keeps, ran, start => by
    rw [runAll] at ran
    rw [callsAll] at keeps
    cases first : i.run scene r with
    | error e =>
      rw [first] at ran
      cases ran
    | ok next =>
      rw [first] at ran
      have kept := run_keeps (keeps.subset (List.subset_append_left _ _)) first start
      exact runAll_keeps (keeps.subset (List.subset_append_right _ _)) ran kept
end

end Keeping

end Instruction

/-! ### Stage and strictness -/

namespace Body

/-- Two bodies record for the same stage and are equally strict. -/
def SameKind (b d : Body) : Prop := d.stage = b.stage ∧ d.strict = b.strict

theorem sameKind_push (b : Body) (s : Stmt) : b.SameKind (b.push s) := by
  unfold push
  split <;> exact ⟨rfl, rfl⟩

theorem sameKind_checked (b : Body) (mismatch : Option Mismatch) :
    b.SameKind (b.checked mismatch) := by
  unfold checked
  split
  · split <;> exact ⟨rfl, rfl⟩
  · exact ⟨rfl, rfl⟩

theorem SameKind.trans {b d e : Body} (first : b.SameKind d) (second : d.SameKind e) :
    b.SameKind e :=
  ⟨second.1.trans first.1, second.2.trans first.2⟩

theorem sameKind_nextBlock (b : Body) (guard : Option (Condition Expr))
    (afterElse outside : Imbalance) : b.SameKind (b.nextBlock guard afterElse outside) := by
  unfold nextBlock
  split
  · exact ⟨rfl, rfl⟩
  · split <;> exact ⟨rfl, rfl⟩

theorem sameKind_perform (b : Body) (c : Call Expr) : b.SameKind (b.perform c) := by
  cases c with
  | assign op target value => exact (b.sameKind_checked _).trans (sameKind_push _ _)
  | declare ty name value => exact (b.sameKind_checked _).trans (sameKind_push _ _)
  | temp ty value =>
    have counted : b.SameKind { b with temps := b.temps + 1 } := ⟨rfl, rfl⟩
    exact counted.trans ((sameKind_checked _ _).trans (sameKind_push _ _))
  | startIf condition => exact ⟨rfl, rfl⟩
  | elseIf condition => exact b.sameKind_nextBlock _ _ _
  | elseBranch => exact b.sameKind_nextBlock _ _ _
  | endIf =>
    show b.SameKind b.endIf
    unfold endIf
    split
    · exact ⟨rfl, rfl⟩
    · next f rest opened =>
      have closed : b.SameKind { b with openIfs := rest } := ⟨rfl, rfl⟩
      exact closed.trans (sameKind_push _ _)
  | discard =>
    show b.SameKind b.discard
    unfold discard
    split
    · exact b.sameKind_push _
    · exact ⟨rfl, rfl⟩
  | setOwner name => exact ⟨rfl, rfl⟩

end Body

theorem Instruction.sameKind_runAll {scene : Scene} {script : List Instruction} {r last : Run}
    (ran : runAll scene script r = .ok last) : r.body.SameKind last.body := by
  have keeps : Keeps scene (callsAll script) fun q => r.body.SameKind q.body :=
    ⟨fun c _ q same => same.trans (q.body.sameKind_perform _), fun role v _ q same => same⟩
  exact runAll_keeps keeps ran ⟨rfl, rfl⟩

end ShaderComposer
