import Mathlib.Data.List.Induction
import ShaderComposer.Proofs.Material.Deeds

/-!
# Sessions

A material on any backend, turn by turn. What happens to the backend between two operations of the
material is part of a turn: others may draw with it, lose its context or fail its next compilation.
Properties of a run speak of its turns: `Session.Throughout` of all of them, `Session.Since` of one
that has not been undone since.
-/

namespace ShaderComposer

/-! ### Runs -/

/-- A material and the backend it works on. -/
structure Session (β : Type) where
  material : Material
  backend : β

/-- An operation of the material, and what happened to the backend before it. -/
structure Turn (β : Type) where
  meanwhile : β → β := id
  op : Operation

namespace Session

variable {β : Type} [GraphicsBackend β]

def start (name : String) (settings : Settings) (b : β) : Session β := ⟨.create name settings, b⟩

def answer (s : Session β) (t : Turn β) : OutcomeOn β Reply :=
  t.op.performOn s.material (t.meanwhile s.backend)

def step (s : Session β) (t : Turn β) : Session β := ⟨(s.answer t).material, (s.answer t).backend⟩

def run (s : Session β) (turns : List (Turn β)) : Session β := turns.foldl step s

def log : Session β → List (Turn β) → List LogRecord
  | _, [] => []
  | s, t :: rest => (s.answer t).log ++ log (s.step t) rest

theorem run_append (s : Session β) (before after : List (Turn β)) :
    s.run (before ++ after) = (s.run before).run after :=
  List.foldl_append

/-! ### Properties of turns -/

def Links (s : Session β) (t : Turn β) : Prop := t.op.LinksOn s.material (t.meanwhile s.backend)

def Rejects (s : Session β) (t : Turn β) : Prop := t.op.RejectsOn s.material (t.meanwhile s.backend)

def Locates (s : Session β) (t : Turn β) : Prop := t.op.LocatesOn s.material (t.meanwhile s.backend)

def Refuses (s : Session β) (t : Turn β) : Prop := t.op.RefusesOn s.material (t.meanwhile s.backend)

/-- The turn does this to the build, and it shows. -/
def Does (s : Session β) (t : Turn β) (d : Deed) : Prop :=
  t.op.Does s.material (t.meanwhile s.backend) d

theorem exists_deed (s : Session β) (t : Turn β) : ∃ d, s.Does t d :=
  Operation.exists_deed s.material (t.meanwhile s.backend) t.op

/-! ### Properties of runs -/

/-- Every turn of a run has the property, in the session that it is taken in. -/
def Throughout (P : Session β → Turn β → Prop) : Session β → List (Turn β) → Prop
  | _, [] => True
  | s, t :: rest => P s t ∧ Throughout P (s.step t) rest

/-- Some turn of a run has the first property, and no later one the second. -/
def Since (P Q : Session β → Turn β → Prop) : Session β → List (Turn β) → Prop
  | _, [] => False
  | s, t :: rest =>
    (P s t ∧ Throughout (fun s t => ¬ Q s t) (s.step t) rest) ∨ Since P Q (s.step t) rest

variable {P Q : Session β → Turn β → Prop} {s : Session β}

theorem throughout_append {before after : List (Turn β)} :
    Throughout P s (before ++ after) ↔ Throughout P s before ∧ Throughout P (s.run before) after := by
  induction before generalizing s with
  | nil => simp [Throughout, run]
  | cons t rest ih => simp only [List.cons_append, Throughout, ih, run, List.foldl_cons, and_assoc]

theorem throughout_snoc {turns : List (Turn β)} {t : Turn β} :
    Throughout P s (turns ++ [t]) ↔ Throughout P s turns ∧ P (s.run turns) t := by
  simp only [throughout_append, Throughout, and_true]

theorem since_append {before after : List (Turn β)} :
    Since P Q s (before ++ after) ↔
      (Since P Q s before ∧ Throughout (fun s t => ¬ Q s t) (s.run before) after) ∨
        Since P Q (s.run before) after := by
  induction before generalizing s with
  | nil => simp [Since, run]
  | cons t rest ih =>
    have later : s.run (t :: rest) = (s.step t).run rest := rfl
    simp only [List.cons_append, Since, ih, throughout_append, later]
    tauto

/-- A turn either brings the first property, or leaves it if it does not bring the second. -/
theorem since_snoc {turns : List (Turn β)} {t : Turn β} :
    Since P Q s (turns ++ [t]) ↔ P (s.run turns) t ∨ (Since P Q s turns ∧ ¬ Q (s.run turns) t) := by
  simp only [since_append, Since, Throughout, and_true, or_false]
  exact or_comm

/-- The standing of a material changes by one deed in each turn. -/
theorem Does.step_standing {t : Turn β} {d : Deed} (does : s.Does t d) :
    (s.step t).material.standing = d.effect s.material.standing :=
  does.standing

end Session

end ShaderComposer
