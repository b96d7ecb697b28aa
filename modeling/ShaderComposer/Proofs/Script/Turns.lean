import Mathlib.Data.List.Nodup
import ShaderComposer.Proofs.Glsl.Numerals
import ShaderComposer.Proofs.Script.Checking

/-!
# Names that a body gives

A body numbers the locals that it names itself. Neither another owner nor the taking of a segment
begins the numbers again, whether the segment is given or discarded for an error, so the names are
those of the types with the numbers in order (`Body.tempNames_eq`). A name tells both the type and
the number (`automaticName_inj`), although types have digits in their names: no name is given twice.

In the segments that are given, the locals at any depth are those that the body named and those
that came with names (`Body.perm_locals_of_segment`). To a body a script is the calls that it makes
(`Instruction.body_of_runAll`).
-/

namespace ShaderComposer

/-! ### What a name tells -/

theorem DataType.tempPrefix_inj {t u : DataType} (same : t.tempPrefix = u.tempPrefix) : t = u := by
  revert same
  cases t <;> cases u <;> decide

theorem underscore_notMem_toDigits (n : Nat) : '_' ∉ Nat.toDigits 10 n := by
  intro mem
  cases Numeral.isDigit_of_mem_toDigits _ mem

theorem DataType.underscore_notMem_tempPrefix (ty : DataType) : '_' ∉ ty.tempPrefix.toList := by
  cases ty <;> decide

theorem toList_automaticName (ty : DataType) (n : Nat) :
    (automaticName ty n).toList =
      "v_".toList ++ (ty.tempPrefix.toList ++ '_' :: Nat.toDigits 10 n) := by
  have digits : (toString n).toList = Nat.toDigits 10 n := Nat.toList_repr
  simp only [automaticName, String.toList_append, List.append_assoc, digits]
  rfl

/-- The type stands before the last underscore of a name and the number after it. -/
theorem automaticName_inj {t u : DataType} {n m : Nat} :
    automaticName t n = automaticName u m ↔ t = u ∧ n = m := by
  constructor
  · intro same
    have texts := congrArg String.toList same
    -- types and numbers are written without underscores, so the texts are cut at the same place
    rw [toList_automaticName, toList_automaticName, List.append_right_inj,
      List.append_cons_inj_of_notMem t.underscore_notMem_tempPrefix (underscore_notMem_toDigits n)]
      at texts
    have number := congrArg Numeral.value texts.2.2
    rw [Numeral.value_toDigits, Numeral.value_toDigits] at number
    exact ⟨DataType.tempPrefix_inj (String.toList_inj.mp texts.1), number⟩
  · rintro ⟨rfl, rfl⟩
    rfl

example : automaticName .vec3 10 = "v_vec3_10" ∧ automaticName .vec3 10 ≠ automaticName .vec3 1 := by
  decide

/-- Consecutive numbers keep names apart, whatever the types. -/
theorem nodup_automaticNames (types : List DataType) (n : Nat) :
    ((types.zipIdx n).map fun l => automaticName l.1 l.2).Nodup := by
  have numbers : ((types.zipIdx n).map Prod.snd).Nodup := by
    rw [List.zipIdx_map_snd]
    exact List.nodup_range'
  refine numbers.of_map.map ?_
  intro l k same
  exact Prod.ext_iff.mpr (automaticName_inj.mp same)

/-! ### Turns -/

namespace Body

/-- What is done with a body: a call, or the taking of its segment. -/
inductive Turn where
  | call (c : Call Expr)
  | take

namespace Turn

/-- The type of a local that the body is to name. -/
def tempType? : Turn → Option DataType
  | call (.temp ty _) => some ty
  | call _ | take => none

/-- The name of a local that comes with one. -/
def ownName? : Turn → Option String
  | call (.declare _ name _) => some name
  | call _ | take => none

end Turn

def turn (b : Body) : Turn → Body
  | .call c => b.perform c
  | .take => b.nextSegment

def turnAll (b : Body) (ts : List Turn) : Body := ts.foldl turn b

/-- The name in the reference that a turn gives back, if the body chose it. -/
def tempName? (b : Body) : Turn → Option String
  | .call (.temp ty value) => (b.result (.temp ty value)).bind Expr.variableName
  | .call _ | .take => none

/-- The names that the body gives in turns, in order. -/
def tempNames (b : Body) : List Turn → List String
  | [] => []
  | t :: ts => (b.tempName? t).toList ++ (b.turn t).tempNames ts

/-- The segments that are taken: statements, or the error for which these are discarded. -/
def segments (b : Body) : List Turn → List (Except ShaderError (List Stmt))
  | [] => []
  | .call c :: ts => (b.perform c).segments ts
  | .take :: ts => b.segment :: b.nextSegment.segments ts

theorem turnAll_cons (b : Body) (t : Turn) (ts : List Turn) :
    b.turnAll (t :: ts) = (b.turn t).turnAll ts := rfl

theorem turnAll_append (b : Body) (ts us : List Turn) :
    b.turnAll (ts ++ us) = (b.turnAll ts).turnAll us :=
  List.foldl_append

theorem turnAll_calls (b : Body) (calls : List (Call Expr)) :
    b.turnAll (calls.map .call) = b.performAll calls :=
  List.foldl_map

theorem tempNames_append (b : Body) (ts us : List Turn) :
    b.tempNames (ts ++ us) = b.tempNames ts ++ (b.turnAll ts).tempNames us := by
  induction ts generalizing b with
  | nil => rfl
  | cons t ts ih => rw [List.cons_append, tempNames, tempNames, ih, List.append_assoc, turnAll_cons]

theorem segments_append (b : Body) (ts us : List Turn) :
    b.segments (ts ++ us) = b.segments ts ++ (b.turnAll ts).segments us := by
  induction ts generalizing b with
  | nil => rfl
  | cons t ts ih =>
    cases t with
    | call c => exact ih (b.perform c)
    | take => exact congrArg (b.segment :: ·) (ih b.nextSegment)

theorem segments_calls (b : Body) (calls : List (Call Expr)) :
    b.segments (calls.map .call) = [] := by
  induction calls generalizing b with
  | nil => rfl
  | cons c calls ih => exact ih (b.perform c)

/-! ### Numbers -/

theorem temps_turn (b : Body) (t : Turn) :
    (b.turn t).temps = b.temps + t.tempType?.toList.length := by
  cases t with
  | take => rfl
  | call c =>
    rw [turn, temps_perform]
    cases c <;> rfl

/-- The body numbers its names one after another, through all segments and errors. -/
theorem tempNames_eq (b : Body) (ts : List Turn) :
    b.tempNames ts =
      ((ts.filterMap Turn.tempType?).zipIdx b.temps).map fun l => automaticName l.1 l.2 := by
  induction ts generalizing b with
  | nil => rfl
  | cons t ts ih =>
    have name : b.tempName? t = t.tempType?.map fun ty => automaticName ty b.temps := by
      cases t with
      | take => rfl
      | call c => cases c <;> rfl
    rw [tempNames, name, ih, temps_turn, List.filterMap_cons]
    cases t.tempType? with
    | none => rfl
    | some ty => rfl

theorem nodup_tempNames (b : Body) (ts : List Turn) : (b.tempNames ts).Nodup := by
  rw [tempNames_eq]
  exact nodup_automaticNames _ _

end Body

/-! ### Locals -/

namespace Body

variable {b : Body}

theorem gather_localNames (c : Call Expr) :
    c.gather Stmt.localNames (fun _ => []) b.temps =
      (b.tempName? (.call c)).toList ++ (Turn.ownName? (.call c)).toList := by
  cases c <;> rfl

/-- The locals of calls that end without a fault are those that the body named and those that came
with names. -/
theorem perm_locals_performAll {calls : List (Call Expr)}
    (calm : (b.performAll calls).fault = none) :
    ((b.performAll calls).gather Stmt.localNames fun _ => []).Perm
      (b.gather Stmt.localNames (fun _ => []) ++
        (b.tempNames (calls.map .call) ++ (calls.map .call).filterMap Turn.ownName?)) := by
  induction calls generalizing b with
  | nil => simp [tempNames, performAll]
  | cons c calls ih =>
    have first := perm_gather_perform Stmt.localNames (fun _ => []) (calm_of_performAll calm)
    rw [gather_localNames] at first
    have own : ((c :: calls).map Turn.call).filterMap Turn.ownName? =
        (Turn.ownName? (.call c)).toList ++ (calls.map Turn.call).filterMap Turn.ownName? := by
      rw [List.map_cons, List.filterMap_cons]
      cases Turn.ownName? (.call c) <;> rfl
    rw [own, List.map_cons, tempNames]
    refine ((ih calm).trans (first.append_right _)).trans (List.perm_iff_count.mpr fun name => ?_)
    simp only [turn, List.count_append]
    omega

/-- The turns of a segment: its calls, and then it is taken. -/
def segmentTurns (calls : List (Call Expr)) : List Turn := calls.map .call ++ [.take]

theorem turnAll_segmentTurns (b : Body) (calls : List (Call Expr)) :
    b.turnAll (segmentTurns calls) = (b.performAll calls).nextSegment := by
  rw [segmentTurns, turnAll_append, turnAll_calls]
  rfl

theorem segments_segmentTurns (b : Body) (calls : List (Call Expr)) :
    b.segments (segmentTurns calls) = [(b.performAll calls).segment] := by
  rw [segmentTurns, segments_append, segments_calls, turnAll_calls]
  rfl

/-- The locals of a segment that is given, at any depth and counted as often as they stand there. -/
theorem perm_locals_of_segment (new : b.nextSegment = b) {calls : List (Call Expr)}
    {block : List Stmt} (ok : (b.performAll calls).segment = .ok block) :
    (Stmt.locals block).Perm (b.tempNames (segmentTurns calls) ++
      (segmentTurns calls).filterMap Turn.ownName?) := by
  have whole := perm_locals_performAll ((segment_eq_ok_iff _ block).mp ok).1
  rw [gather_of_segment _ _ ok, gather_of_new _ _ new] at whole
  have given : b.tempNames (segmentTurns calls) = b.tempNames (calls.map .call) := by
    rw [segmentTurns, tempNames_append]
    exact List.append_nil _
  have own : (segmentTurns calls).filterMap Turn.ownName? =
      (calls.map Turn.call).filterMap Turn.ownName? := by
    rw [segmentTurns, List.filterMap_append]
    exact List.append_nil _
  rw [given, own]
  exact whole

end Body

/-! ### Calls of a script -/

namespace Instruction

mutual
def made (scene : Scene) : Instruction → Run → List (Call Expr)
  | call c, r => [c.map (Term.build (bindings scene r))]
  | require _, _ | expectDeclared, _ => []
  | ifRole role block, r =>
    if (scene.symbols.get? role).isSome then madeAll scene block r else []
  | ifFragment id block otherwise, r =>
    if scene.symbols.hasFragment id then madeAll scene block r else madeAll scene otherwise r
def madeAll (scene : Scene) : List Instruction → Run → List (Call Expr)
  | [], _ => []
  | i :: rest, r =>
    i.made scene r ++
      match i.run scene r with
      | .ok next => madeAll scene rest next
      | .error _ => []
end

mutual
theorem body_of_run {scene : Scene} : ∀ {i : Instruction} {r last : Run},
    i.run scene r = .ok last → last.body = r.body.performAll (i.made scene r)
  | call c, r, last, ran => by
    rw [run] at ran
    cases ran
    rw [made]
    rfl
  | .require role, r, last, ran => by
    rw [run] at ran
    split at ran
    · cases ran
      rw [made]
      rfl
    · cases ran
  | ifRole role block, r, last, ran => by
    rw [run] at ran
    rw [made]
    split at ran
    · next given =>
      rw [if_pos given]
      exact body_of_runAll ran
    · next absent =>
      cases ran
      rw [if_neg absent]
      rfl
  | ifFragment id block otherwise, r, last, ran => by
    rw [run] at ran
    rw [made]
    split at ran
    · next attached =>
      rw [if_pos attached]
      exact body_of_runAll ran
    · next absent =>
      rw [if_neg absent]
      exact body_of_runAll ran
  | expectDeclared, r, last, ran => by
    rw [run] at ran
    rw [made]
    split at ran
    · cases ran
      rfl
    · cases ran
/-- The body at the end of a run has recorded the calls of the script. -/
theorem body_of_runAll {scene : Scene} : ∀ {script : List Instruction} {r last : Run},
    runAll scene script r = .ok last → last.body = r.body.performAll (madeAll scene script r)
  | [], r, last, ran => by
    rw [runAll] at ran
    cases ran
    rw [madeAll]
    rfl
  | i :: rest, r, last, ran => by
    rw [runAll] at ran
    cases first : i.run scene r with
    | error e =>
      rw [first] at ran
      cases ran
    | ok next =>
      rw [first] at ran
      rw [madeAll, first, Body.performAll_append, ← body_of_run first]
      exact body_of_runAll ran
end

end Instruction

end ShaderComposer
