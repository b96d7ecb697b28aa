import ShaderComposer.Proofs.Script.Blocks
import ShaderComposer.Script.Instruction

/-!
# Strict bodies

A strict body records what a lax one records and is at fault more often: besides the calls that are
misused, the assignments and locals whose types do not fit. So what a strict body accepts a lax one
accepts with the same statements (`Body.Mirrors.segment`), and if only the strict one refuses, it
does so for the first call whose types do not fit (`Body.Mirrors.fault_performAll`).

The two bodies go in step: `Mirrors` relates them after any calls, whoever owns these, and scripts
keep it (`Instruction.runAll_mirrors`), since a script never looks at the body.
-/

namespace ShaderComposer

/-! ### Mismatches of calls -/

namespace Call

/-- Where the types of a call do not fit, if the next automatic local has the number `n`. -/
def mismatch? (n : Nat) : Call Expr → Option Mismatch
  | assign op target value => Body.assignMismatch op target value
  | declare ty name value => Body.initialMismatch ty name value
  | temp ty value => Body.initialMismatch ty (automaticName ty n) value
  | startIf _ | elseIf _ | elseBranch | endIf | discard | setOwner _ => none

def ownerAfter (owner : String) : Call Expr → String
  | setOwner name => name
  | _ => owner

theorem ownerAfter_of_plain {c : Call Expr} (plain : ∀ name, c ≠ setOwner name) (owner : String) :
    c.ownerAfter owner = owner := by
  cases c with
  | setOwner name => exact absurd rfl (plain name)
  | _ => rfl

end Call

/-- The first mismatch among calls, with the owner that it is reported for. -/
def firstMismatch? : String → Nat → List (Call Expr) → Option (String × Mismatch)
  | _, _, [] => none
  | owner, n, c :: rest =>
    ((c.mismatch? n).map fun cause => (owner, cause)).or
      (firstMismatch? (c.ownerAfter owner) (n + c.isTemp.toNat) rest)

namespace Body

/-- What a call does to a body that checks no types, all but the statements. -/
structure Goes (d : Body) (c : Call Expr) (next : Body) : Prop where
  stage : next.stage = d.stage
  strict : next.strict = false
  owner : next.owner = c.ownerAfter d.owner
  temps : next.temps = d.temps + c.isTemp.toNat
  fault : next.fault = d.fault.or (c.misuse? d.stage d.owner d.opened)

theorem goes_perform {d : Body} (lax : d.strict = false) (c : Call Expr) :
    d.Goes c (d.perform c) := by
  by_cases plain : ∀ name, c ≠ .setOwner name
  · have follows := d.follows_perform c lax plain
    have owner := follows.owner.trans (Call.ownerAfter_of_plain plain d.owner).symm
    exact ⟨follows.stage, follows.strict.trans lax, owner, follows.temps, follows.fault⟩
  · obtain ⟨name, same⟩ := Classical.not_forall.mp plain
    obtain rfl := Classical.not_not.mp same
    exact ⟨rfl, lax, rfl, rfl, (Option.or_none).symm⟩

/-! ### The strict body of a recording -/

/-- The strict body that holds what a body holds, with a fault of its own. -/
def strictly (d : Body) (fault : Option ShaderError) : Body :=
  { d with strict := true, fault := fault }

section Strictly

variable (d : Body) (f : Option ShaderError)

theorem strictly_push (s : Stmt) : (d.strictly f).push s = (d.push s).strictly f := by
  obtain ⟨stage, strict, owner, statements, openIfs, temps, fault⟩ := d
  cases openIfs <;> rfl

theorem strictly_checked (mismatch : Option Mismatch) :
    (d.strictly f).checked mismatch =
      d.strictly (f.or (mismatch.map (ShaderError.typeMismatch d.stage d.owner))) := by
  cases mismatch with
  | none => exact congrArg d.strictly (Option.or_none).symm
  | some cause => rfl

theorem strictly_declare (lax : d.strict = false) (ty : DataType) (name : String) (value : Expr) :
    (d.strictly f).declare ty name value = (d.declare ty name value).strictly
      (f.or ((initialMismatch ty name value).map (ShaderError.typeMismatch d.stage d.owner))) := by
  rw [declare, strictly_checked, strictly_push, declare, checked_lax lax]

/-- A strict body records a call as a lax one does. Its fault is its own, else the call's mismatch,
else the call's misuse. -/
theorem strictly_perform (lax : d.strict = false) (c : Call Expr) :
    (d.strictly f).perform c = (d.perform c).strictly
      ((f.or ((c.mismatch? d.temps).map (ShaderError.typeMismatch d.stage d.owner))).or
        (c.misuse? d.stage d.owner d.opened)) := by
  cases c with
  | assign op target value =>
    have checked : d.assign op target value = d.push (.assign target op value) := by
      rw [assign, checked_lax lax]
    rw [perform, perform, checked, assign, strictly_checked, strictly_push]
    exact congrArg (strictly _) (Option.or_none).symm
  | declare ty name value =>
    rw [perform, perform, strictly_declare d f lax]
    exact congrArg (strictly _) (Option.or_none).symm
  | temp ty value =>
    have counted : ({ d with temps := d.temps + 1 } : Body).strict = false := lax
    have declared := strictly_declare { d with temps := d.temps + 1 } f counted ty (d.tempName ty) value
    refine declared.trans ?_
    exact congrArg (strictly _) (Option.or_none).symm
  | startIf condition => simp [Call.mismatch?, Call.misuse?, perform, startIf, strictly]
  | elseIf condition =>
    obtain ⟨stage, strict, owner, statements, openIfs, temps, fault⟩ := d
    rcases openIfs with _ | ⟨⟨earlier, _ | current, block⟩, rest⟩ <;>
      simp [Call.mismatch?, Call.misuse?, perform, elseIf, nextBlock, strictly, opened, unbalanced,
        withFault]
  | elseBranch =>
    obtain ⟨stage, strict, owner, statements, openIfs, temps, fault⟩ := d
    rcases openIfs with _ | ⟨⟨earlier, _ | current, block⟩, rest⟩ <;>
      simp [Call.mismatch?, Call.misuse?, perform, elseBranch, nextBlock, strictly, opened, unbalanced,
        withFault]
  | endIf =>
    obtain ⟨stage, strict, owner, statements, openIfs, temps, fault⟩ := d
    rcases openIfs with _ | ⟨current, _ | ⟨outer, rest⟩⟩ <;>
      simp [Call.mismatch?, Call.misuse?, perform, endIf, push, strictly, opened, unbalanced, withFault]
  | discard =>
    obtain ⟨stage, strict, owner, statements, openIfs, temps, fault⟩ := d
    cases stage <;> cases openIfs <;>
      simp [Call.mismatch?, Call.misuse?, perform, discard, push, strictly, withFault]
  | setOwner name => simp [Call.mismatch?, Call.misuse?, perform, strictly]

end Strictly

/-! ### Calls on any body -/

def relaxed (b : Body) : Body := { b with strict := false }

section Calls

variable {b : Body}

theorem strictly_relaxed (strict : b.strict = true) : b.relaxed.strictly b.fault = b := by
  obtain ⟨stage, _, owner, statements, openIfs, temps, fault⟩ := b
  cases strict
  rfl

theorem perform_strict (strict : b.strict = true) (c : Call Expr) :
    b.perform c = (b.relaxed.perform c).strictly
      ((b.fault.or ((c.mismatch? b.temps).map (ShaderError.typeMismatch b.stage b.owner))).or
        (c.misuse? b.stage b.owner b.opened)) := by
  have stepped := strictly_perform b.relaxed b.fault rfl c
  rwa [strictly_relaxed strict] at stepped

theorem fault_perform_strict (strict : b.strict = true) (c : Call Expr) :
    (b.perform c).fault =
      (b.fault.or ((c.mismatch? b.temps).map (ShaderError.typeMismatch b.stage b.owner))).or
        (c.misuse? b.stage b.owner b.opened) := by
  rw [perform_strict strict]
  rfl

/-- A call moves the numbers by one if it leaves a name to the body, and by none otherwise. -/
theorem temps_perform (b : Body) (c : Call Expr) :
    (b.perform c).temps = b.temps + c.isTemp.toNat := by
  cases strict : b.strict with
  | false => exact (goes_perform strict c).temps
  | true =>
    have relaxed := goes_perform (d := b.relaxed) rfl c
    rw [perform_strict strict]
    exact relaxed.temps

theorem calm_of_perform {c : Call Expr} (calm : (b.perform c).fault = none) : b.fault = none := by
  cases strict : b.strict with
  | false =>
    rw [(goes_perform strict c).fault] at calm
    exact (Option.or_eq_none_iff.mp calm).1
  | true =>
    rw [fault_perform_strict strict] at calm
    exact (Option.or_eq_none_iff.mp (Option.or_eq_none_iff.mp calm).1).1

theorem calm_of_performAll {calls : List (Call Expr)} (calm : (b.performAll calls).fault = none) :
    b.fault = none := by
  induction calls generalizing b with
  | nil => exact calm
  | cons c calls ih => exact calm_of_perform (ih calm)

end Calls

/-! ### Bodies in step -/

/-- The first body is the strict one of what the second holds, and at fault if the second is. -/
structure Mirrors (b d : Body) : Prop where
  lax : d.strict = false
  same : b = d.strictly b.fault
  calm : b.fault = none → d.fault = none

variable {b d : Body}

theorem Mirrors.perform (mirrors : b.Mirrors d) (c : Call Expr) :
    (b.perform c).Mirrors (d.perform c) := by
  have goes := goes_perform mirrors.lax c
  have stepped := strictly_perform d b.fault mirrors.lax c
  rw [← mirrors.same] at stepped
  refine ⟨goes.strict, ?_, ?_⟩
  · rw [stepped]
    rfl
  · intro calm
    rw [stepped] at calm
    obtain ⟨before, fine⟩ := Option.or_eq_none_iff.mp calm
    have start := mirrors.calm (Option.or_eq_none_iff.mp before).1
    rw [goes.fault, start, fine]
    rfl

theorem Mirrors.performAll (mirrors : b.Mirrors d) (calls : List (Call Expr)) :
    (b.performAll calls).Mirrors (d.performAll calls) := by
  induction calls generalizing b d with
  | nil => exact mirrors
  | cons c calls ih => exact ih (mirrors.perform c)

/-- If no call is misused, the strict body's fault is the first mismatch. -/
theorem Mirrors.fault_performAll (mirrors : b.Mirrors d) {calls : List (Call Expr)}
    (calm : (d.performAll calls).fault = none) :
    (b.performAll calls).fault = b.fault.or ((firstMismatch? d.owner d.temps calls).map
      fun m => ShaderError.typeMismatch d.stage m.1 m.2) := by
  induction calls generalizing b d with
  | nil => exact (Option.or_none).symm
  | cons c calls ih =>
    have goes := goes_perform mirrors.lax c
    -- the lax body ends without a fault, so this call is not misused either
    have now : (d.perform c).fault = none := calm_of_performAll calm
    rw [goes.fault] at now
    have fine := (Option.or_eq_none_iff.mp now).2
    have fault : (b.perform c).fault =
        b.fault.or ((c.mismatch? d.temps).map (ShaderError.typeMismatch d.stage d.owner)) := by
      rw [mirrors.same, strictly_perform d b.fault mirrors.lax c, fine, Option.or_none]
      rfl
    rw [performAll_cons, ih (mirrors.perform c) calm, fault, goes.stage, goes.owner, goes.temps,
      Option.or_assoc, firstMismatch?, Option.map_or, Option.map_map]
    rfl

theorem Mirrors.segment (mirrors : b.Mirrors d) {block : List Stmt}
    (ok : b.segment = .ok block) : d.segment = .ok block := by
  obtain ⟨calm, closed, statements⟩ := (segment_eq_ok_iff b block).mp ok
  rw [mirrors.same] at closed statements
  exact (segment_eq_ok_iff d block).mpr ⟨mirrors.calm calm, closed, statements⟩

theorem Mirrors.nextSegment (mirrors : b.Mirrors d) : b.nextSegment.Mirrors d.nextSegment := by
  refine ⟨mirrors.lax, ?_, fun _ => rfl⟩
  rw [mirrors.same]
  rfl

theorem Mirrors.withOwner (mirrors : b.Mirrors d) (owner : String) :
    { b with owner := owner }.Mirrors { d with owner := owner } := by
  refine ⟨mirrors.lax, ?_, mirrors.calm⟩
  rw [mirrors.same]
  rfl

theorem mirrors_relaxed (strict : b.strict = true) : b.Mirrors b.relaxed :=
  ⟨rfl, (strictly_relaxed strict).symm, fun calm => calm⟩

theorem Mirrors.result (mirrors : b.Mirrors d) (c : Call Expr) : b.result c = d.result c := by
  rw [mirrors.same]
  cases c <;> rfl

end Body

/-! ### Scripts -/

namespace Instruction

/-- The runs have given back the same, on bodies in step. -/
structure Run.Mirrors (r q : Run) : Prop where
  body : r.body.Mirrors q.body
  results : r.results = q.results

variable {scene : Scene} {r q last : Run}

theorem Run.Mirrors.perform (mirrors : r.Mirrors q) (c : Call Term) :
    (Instruction.perform (c.map (Term.build (bindings scene r))) r).Mirrors
      (Instruction.perform (c.map (Term.build (bindings scene q))) q) := by
  have bound : bindings scene r = bindings scene q := by rw [bindings, bindings, mirrors.results]
  rw [bound]
  refine ⟨mirrors.body.perform _, ?_⟩
  rw [Instruction.perform, Instruction.perform, mirrors.results, mirrors.body.result]

mutual
theorem run_mirrors : ∀ {i : Instruction} {r q last : Run}, r.Mirrors q →
    i.run scene r = .ok last → ∃ last', i.run scene q = .ok last' ∧ last.Mirrors last'
  | call c, r, q, last, mirrors, ran => by
    rw [run] at ran
    cases ran
    exact ⟨_, by rw [run], mirrors.perform c⟩
  | .require role, r, q, last, mirrors, ran => by
    rw [run] at ran ⊢
    cases found : scene.symbols.require role with
    | error e =>
      rw [found] at ran
      cases ran
    | ok v =>
      rw [found] at ran
      cases ran
      exact ⟨_, rfl, mirrors.body, by rw [mirrors.results]⟩
  | ifRole role block, r, q, last, mirrors, ran => by
    rw [run] at ran ⊢
    split at ran
    · next given =>
      rw [if_pos given]
      exact runAll_mirrors mirrors ran
    · next absent =>
      rw [if_neg absent]
      cases ran
      exact ⟨q, rfl, mirrors⟩
  | ifFragment id block otherwise, r, q, last, mirrors, ran => by
    rw [run] at ran ⊢
    split at ran
    · next attached =>
      rw [if_pos attached]
      exact runAll_mirrors mirrors ran
    · next absent =>
      rw [if_neg absent]
      exact runAll_mirrors mirrors ran
  | expectDeclared, r, q, last, mirrors, ran => by
    rw [run] at ran ⊢
    split at ran
    · next declared =>
      rw [if_pos declared]
      cases ran
      exact ⟨q, rfl, mirrors⟩
    · cases ran
theorem runAll_mirrors : ∀ {script : List Instruction} {r q last : Run}, r.Mirrors q →
    runAll scene script r = .ok last →
      ∃ last', runAll scene script q = .ok last' ∧ last.Mirrors last'
  | [], r, q, last, mirrors, ran => by
    rw [runAll] at ran ⊢
    cases ran
    exact ⟨q, rfl, mirrors⟩
  | i :: rest, r, q, last, mirrors, ran => by
    rw [runAll] at ran ⊢
    cases first : i.run scene r with
    | error e =>
      rw [first] at ran
      cases ran
    | ok next =>
      rw [first] at ran
      obtain ⟨next', ran', keeps⟩ := run_mirrors mirrors first
      rw [ran']
      exact runAll_mirrors keeps ran
end

end Instruction

end ShaderComposer
