import ShaderComposer.Proofs.Graphics.CommandRuns

/-!
# Last writes

A write goes to a location of the program in use, and the locations of all programs start from zero. A
ledger keeps the program in use beside every write. The value that is told for a uniform is that of
the last write to its location, whichever program was in use (`Backend.lastUniform_run`). So it is the
program's own if the last write was, and another program's otherwise
(`Backend.lastUniform_of_other_program`).
-/

namespace ShaderComposer

/-! ### Searches -/

theorem findSome?_filterMap {α β γ : Type} {f : α → Option β} {g : β → Option γ}
    {h : α → Option γ} (told : ∀ a, h a = (f a).bind g) (l : List α) :
    l.findSome? h = (l.filterMap f).findSome? g := by
  induction l with
  | nil => rfl
  | cons a rest ih =>
    rw [List.findSome?_cons, told a]
    cases taken : f a with
    | none =>
      rw [List.filterMap_cons_none taken]
      exact ih
    | some b =>
      rw [List.filterMap_cons_some taken, List.findSome?_cons, ← ih]
      rfl

theorem map_find? {α β : Type} (p : α → Bool) (f : α → β) (l : List α) :
    (l.find? p).map f = l.findSome? fun a => if p a then some (f a) else none := by
  induction l with
  | nil => rfl
  | cons a rest ih =>
    rw [List.find?_cons, List.findSome?_cons]
    cases p a with
    | true => rfl
    | false => exact ih

/-! ### Writes -/

def GraphicsCall.written? : GraphicsCall → Option (Location × UniformValue)
  | setUniform l value => some (l, value)
  | _ => none

namespace Backend

/-! ### Ledgers -/

/-- A write of a uniform, and the program that was in use. -/
structure Write where
  user : Option Nat
  location : Location
  value : UniformValue
deriving DecidableEq

/-- The program in use, and the writes since the calls were cleared. -/
structure Ledger where
  inUse : Option Nat
  writes : List Write
deriving DecidableEq

namespace Ledger

def empty : Ledger := ⟨none, []⟩

def enter (ledger : Ledger) : Command → Ledger
  | .call (.useProgram program) => { ledger with inUse := some program }
  | .call (.setUniform l value) =>
    { ledger with writes := ledger.writes ++ [⟨ledger.inUse, l, value⟩] }
  | .clearCalls => { ledger with writes := [] }
  | _ => ledger

def of (commands : List Command) : Ledger := commands.foldl enter empty

theorem of_concat (commands : List Command) (c : Command) :
    of (commands ++ [c]) = (of commands).enter c := by
  simp only [of, List.foldl_append, List.foldl_cons, List.foldl_nil]

def last (ledger : Ledger) (l : Location) : Option Write :=
  ledger.writes.reverse.find? fun w => w.location = l

/-- The last write to a location that was made with the program in use. -/
def lastOf (ledger : Ledger) (program : Nat) (l : Location) : Option Write :=
  ledger.writes.reverse.find? fun w => w.location = l ∧ w.user = some program

theorem of_last {ledger : Ledger} {l : Location} {w : Write} (found : ledger.last l = some w) :
    w ∈ ledger.writes ∧ w.location = l :=
  ⟨List.mem_reverse.mp (List.mem_of_find?_eq_some found), of_decide_eq_true (List.find?_some found :)⟩

theorem last_eq_lastOf_iff (ledger : Ledger) (program : Nat) (l : Location) :
    ledger.last l = ledger.lastOf program l ↔
      ∀ w, ledger.last l = some w → w.user = some program := by
  constructor
  · intro same w found
    have own := List.find?_some (same.symm.trans found)
    exact (of_decide_eq_true own).2
  · intro own
    cases found : ledger.last l with
    | none =>
      refine (List.find?_eq_none.mpr fun w mem both => ?_).symm
      exact List.find?_eq_none.mp found w mem (decide_eq_true (of_decide_eq_true both).1)
    | some w =>
      obtain ⟨there, before, after, split, others⟩ := List.find?_eq_some_iff_append.mp found
      refine (List.find?_eq_some_iff_append.mpr ⟨?_, before, after, split, fun v mem => ?_⟩).symm
      · exact decide_eq_true ⟨of_decide_eq_true there, own w found⟩
      · have elsewhere := others v mem
        simp only [Bool.not_eq_true', decide_eq_false_iff_not] at elsewhere ⊢
        exact fun both => elsewhere both.1

theorem used_of (commands : List Command) :
    (∀ q, (of commands).inUse = some q → .call (.useProgram q) ∈ commands) ∧
      ∀ w ∈ (of commands).writes, ∀ q, w.user = some q → .call (.useProgram q) ∈ commands := by
  induction commands using List.reverseRecOn with
  | nil => exact ⟨fun q inUse => (by cases inUse), fun w mem => absurd mem List.not_mem_nil⟩
  | append_singleton commands c ih =>
    obtain ⟨inUse, writes⟩ := ih
    have earlier {q : Nat} (mem : .call (.useProgram q) ∈ commands) :
        .call (.useProgram q) ∈ commands ++ [c] := List.mem_append_left [c] mem
    rw [of_concat]
    cases c with
    | call c =>
      cases c with
      | useProgram program =>
        refine ⟨fun q now => ?_, fun w mem q user => earlier (writes w mem q user)⟩
        cases now
        exact List.mem_append_right _ (List.mem_singleton_self _)
      | setUniform l value =>
        refine ⟨fun q now => earlier (inUse q now), fun w mem q user => ?_⟩
        rcases List.mem_append.mp mem with mem | mem
        · exact earlier (writes w mem q user)
        · cases List.mem_singleton.mp mem
          exact earlier (inUse q user)
      | _ => exact ⟨fun q now => earlier (inUse q now), fun w mem q user =>
          earlier (writes w mem q user)⟩
    | clearCalls =>
      exact ⟨fun q now => earlier (inUse q now), fun w mem => absurd mem List.not_mem_nil⟩
    | _ => exact ⟨fun q now => earlier (inUse q now), fun w mem q user =>
        earlier (writes w mem q user)⟩

end Ledger

/-! ### Calls and ledgers -/

/-- The ledger has the writes that the backend recorded. -/
def Records (b : Backend) (ledger : Ledger) : Prop :=
  b.calls.filterMap GraphicsCall.written? = ledger.writes.map fun w => (w.location, w.value)

variable {b : Backend} {ledger : Ledger}

theorem calls_compileAndLink (b : Backend) (vertex fragment : String) :
    (b.compileAndLink vertex fragment).2.calls = b.calls := by
  unfold compileAndLink
  dsimp only
  split <;> rfl

theorem Records.perform (records : b.Records ledger) (c : Command) :
    (b.perform c).Records (ledger.enter c) := by
  have recorded (call : GraphicsCall) : (b.calls ++ [call]).filterMap GraphicsCall.written? =
      (ledger.writes.map fun w => (w.location, w.value)) ++ call.written?.toList := by
    rw [List.filterMap_append, records]
    cases call <;> rfl
  cases c with
  | compileAndLink vertex fragment =>
    show (b.compileAndLink vertex fragment).2.calls.filterMap _ = _
    rw [calls_compileAndLink]
    exact records
  | call call =>
    cases call with
    | setUniform l value =>
      refine (recorded (.setUniform l value)).trans ?_
      simp only [Ledger.enter, List.map_append, List.map_singleton]
      rfl
    | _ => exact (recorded _).trans (List.append_nil _)
  | failNextCompile _ _ | loseContext => exact records
  | clearCalls => rfl

theorem records_run (limit : Nat) (plain : Bool) (commands : List Command) :
    ((create limit plain).run commands).Records (.of commands) := by
  induction commands using List.reverseRecOn with
  | nil => rfl
  | append_singleton commands c ih =>
    rw [run_concat, Ledger.of_concat]
    exact ih.perform c

theorem Records.lastUniform (records : b.Records ledger) {program : Nat} {name : String}
    (valid : (b.uniformLocation program name).isValid = true) :
    b.lastUniform program name =
      (ledger.last (b.uniformLocation program name)).map (·.value) := by
  unfold Backend.lastUniform
  dsimp only
  rw [if_pos valid]
  generalize b.uniformLocation program name = l
  -- a call tells of the location by its write alone
  refine (findSome?_filterMap (f := GraphicsCall.written?)
    (g := fun w => if w.1 = l then some w.2 else none) (fun call => ?_) _).trans ?_
  · cases call <;> rfl
  · rw [List.filterMap_reverse, records, ← List.map_reverse, List.findSome?_map, Ledger.last,
      map_find?]
    simp only [decide_eq_true_eq]
    rfl

theorem lastUniform_of_not_valid {program : Nat} {name : String}
    (missing : (b.uniformLocation program name).isValid = false) :
    b.lastUniform program name = none := by
  unfold Backend.lastUniform
  dsimp only
  rw [if_neg (by rw [missing]; exact Bool.false_ne_true)]

/-- What is told for a uniform is the value of the last write to its location. It is the last one that
was made with the program in use if and only if no other program was in use for it, so in particular
if no other program is ever used. -/
theorem lastUniform_run (limit : Nat) (plain : Bool) (commands : List Command) (program : Nat)
    (name : String) :
    let b := (create limit plain).run commands
    let l := b.uniformLocation program name
    (l.isValid = false → b.lastUniform program name = none) ∧
    (l.isValid = true →
      b.lastUniform program name = ((Ledger.of commands).last l).map (·.value) ∧
      ((Ledger.of commands).last l = (Ledger.of commands).lastOf program l ↔
        ∀ w, (Ledger.of commands).last l = some w → w.user = some program)) ∧
    ((∀ q, .call (.useProgram q) ∈ commands → q = program) →
      ∀ value, b.lastUniform program name = some value →
        ∃ w ∈ (Ledger.of commands).writes, w.location = l ∧ w.value = value ∧
          ∀ q, w.user = some q → q = program) := by
  intro b l
  have records := records_run limit plain commands
  refine ⟨lastUniform_of_not_valid, fun valid => ?_, fun only value told => ?_⟩
  · exact ⟨records.lastUniform valid, Ledger.last_eq_lastOf_iff _ program l⟩
  · cases valid : l.isValid with
    | false => cases (lastUniform_of_not_valid valid).symm.trans told
    | true =>
      obtain ⟨w, found, same⟩ :=
        Option.map_eq_some_iff.mp ((records.lastUniform valid).symm.trans told)
      obtain ⟨mem, location⟩ := Ledger.of_last found
      refine ⟨w, mem, location, same, fun q user => ?_⟩
      exact only q ((Ledger.used_of commands).2 w mem q user)

/-- Two programs from the same sources, each used for a write to its only uniform. -/
def twoPrograms : List Command :=
  [.compileAndLink smallVertex smallFragment, .compileAndLink smallVertex smallFragment,
    .call (.useProgram 1), .call (.setUniform 0 (.float 1.0)),
    .call (.useProgram 2), .call (.setUniform 0 (.float 2.0))]

/-- For the uniform of the first program the value of the second one's is told. -/
theorem lastUniform_of_other_program : ¬ ∀ (limit : Nat) (plain : Bool) (commands : List Command)
    (program : Nat) (name : String) (value : UniformValue),
    ((create limit plain).run commands).lastUniform program name = some value →
      ((Ledger.of commands).lastOf program (((create limit plain).run commands).uniformLocation
        program name)).map (·.value) = some value := by
  intro own
  have told : ((create 8 false).run twoPrograms).lastUniform 1 "uA" = some (.float 2.0) := by
    decide +kernel
  have written : ((Ledger.of twoPrograms).lastOf 1
      (((create 8 false).run twoPrograms).uniformLocation 1 "uA")).map (·.value) =
        some (.float 1.0) := by
    decide +kernel
  have same := written.symm.trans (own 8 false twoPrograms 1 "uA" (.float 2.0) told)
  exact absurd same (by decide)

end Backend

end ShaderComposer
