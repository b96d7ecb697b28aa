import ShaderComposer.Proofs.Script.Alike

/-!
# The questions of a run

A script learns of the shaders around it by asking: for the variable of a role, and whether a
fragment is attached. What it asks depends on the answers, since a block that is not entered asks
nothing and a request that fails ends the run. Two scenes that answer the questions of one run alike
give the same run (`Instruction.runAll_of_asked`), whatever they would answer to others.
-/

namespace ShaderComposer

inductive Question where
  | role (role : Role)
  | fragment (id : String)
deriving DecidableEq

/-- The answers are the same: for a role, a reference of the same name and type or none. -/
def Question.SameAnswer (s t : Symbols) : Question → Prop
  | role r => (s.get? r).map Variable.reference = (t.get? r).map Variable.reference
  | fragment id => s.hasFragment id = t.hasFragment id

namespace Instruction

/-! ### Asking -/

mutual
/-- The questions that an instruction asks in a run. -/
def asked (scene : Scene) : Instruction → Run → List Question
  | call _, _ | expectDeclared, _ => []
  | require role, _ => [.role role]
  | ifRole role block, r =>
    .role role :: if (scene.symbols.get? role).isSome then askedAll scene block r else []
  | ifFragment id block otherwise, r =>
    .fragment id ::
      if scene.symbols.hasFragment id then askedAll scene block r
      else askedAll scene otherwise r
def askedAll (scene : Scene) : List Instruction → Run → List Question
  | [], _ => []
  | i :: rest, r =>
    i.asked scene r ++
      match i.run scene r with
      | .ok next => askedAll scene rest next
      | .error _ => []
end

/-- The scenes give the same answers to these questions, and declared variables look the same. -/
structure Scene.Agrees (questions : List Question) (s t : Scene) : Prop where
  stage : s.symbols.stage = t.symbols.stage
  answers : ∀ q ∈ questions, q.SameAnswer s.symbols t.symbols
  declared : Option.Rel LookAlike s.declared t.declared

namespace Scene.Agrees

variable {questions : List Question} {s t : Scene}

theorem subset {fewer : List Question} (agrees : s.Agrees questions t) (sub : fewer ⊆ questions) :
    s.Agrees fewer t :=
  ⟨agrees.stage, fun q mem => agrees.answers q (sub mem), agrees.declared⟩

theorem alike (agrees : s.Agrees questions t) : s.Alike [] [] t :=
  ⟨agrees.stage, nofun, nofun, agrees.declared⟩

theorem alike_role (agrees : s.Agrees questions t) {role : Role} (mem : .role role ∈ questions) :
    s.Alike [role] [] t := by
  refine ⟨agrees.stage, ?_, nofun, agrees.declared⟩
  intro other inside
  obtain rfl := List.mem_singleton.mp inside
  exact agrees.answers _ mem

theorem hasFragment (agrees : s.Agrees questions t) {id : String} (mem : .fragment id ∈ questions) :
    s.symbols.hasFragment id = t.symbols.hasFragment id :=
  agrees.answers _ mem

end Scene.Agrees

/-! ### Answering -/

variable {s t : Scene}

mutual
theorem run_of_asked : (i : Instruction) → (r : Run) → s.Agrees (i.asked s r) t →
    i.run s r = i.run t r
  | call c, r, agrees => by
    have build : Term.build (bindings s r) = Term.build (bindings t r) :=
      funext (Term.build_alike (agrees.alike.bindings r))
    rw [run, run, build]
  | .require role, r, agrees => by
    have answered : s.Alike [role] [] t := agrees.alike_role (by simp [asked])
    rw [run_require, run_require, answered.require List.mem_cons_self]
  | ifRole role block, r, agrees => by
    have answered : s.Alike [role] [] t := agrees.alike_role (by simp [asked])
    rw [run, run, ← answered.isSome_get? List.mem_cons_self]
    split
    · next given =>
      have inside : s.Agrees (askedAll s block r) t :=
        agrees.subset (by rw [asked, if_pos given]; exact List.subset_cons_self _ _)
      exact runAll_of_asked block r inside
    · rfl
  | ifFragment id block otherwise, r, agrees => by
    have asking : .fragment id ∈ (ifFragment id block otherwise).asked s r := by simp [asked]
    rw [run, run, ← agrees.hasFragment asking]
    split
    · next attached =>
      have inside : s.Agrees (askedAll s block r) t :=
        agrees.subset (by rw [asked, if_pos attached]; exact List.subset_cons_self _ _)
      exact runAll_of_asked block r inside
    · next absent =>
      have inside : s.Agrees (askedAll s otherwise r) t :=
        agrees.subset (by rw [asked, if_neg absent]; exact List.subset_cons_self _ _)
      exact runAll_of_asked otherwise r inside
  | expectDeclared, r, agrees => by
    rw [run, run, agrees.alike.isSome_declared]
/-- Scenes that answer the questions of a run alike give the same run. -/
theorem runAll_of_asked : (script : List Instruction) → (r : Run) →
    s.Agrees (askedAll s script r) t → runAll s script r = runAll t script r
  | [], r, _ => by rw [runAll, runAll]
  | i :: rest, r, agrees => by
    have first : s.Agrees (i.asked s r) t :=
      agrees.subset (by rw [askedAll]; exact List.subset_append_left _ _)
    rw [runAll, runAll, ← run_of_asked i r first]
    cases ran : i.run s r with
    | error e => rfl
    | ok next =>
      have others : s.Agrees (askedAll s rest next) t :=
        agrees.subset (by rw [askedAll, ran]; exact List.subset_append_right _ _)
      exact runAll_of_asked rest next others
end

end Instruction

end ShaderComposer
