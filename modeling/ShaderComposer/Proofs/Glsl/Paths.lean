import Mathlib.Data.List.Forall2
import ShaderComposer.Glsl.Stmt

/-!
# Paths through a block

Along each path through a block it is known which variables are in scope and which of them have been
assigned. `Stmt.paths` goes through all paths and stops one where a variable is used that is not in
scope, or read before it was assigned. `Stmt.assigns` looks at each statement once; what it lets
through, no path stops in (`Stmt.leadsTo_of_blockAssigns`).
-/

namespace ShaderComposer

/-! ### The variables of expressions -/

namespace Expr

mutual
def names : Expr → List String
  | var name _ => [name]
  | literal _ => []
  | binary _ l r => l.names ++ r.names
  | negate e => e.names
  | swizzle b _ => b.names
  | index b i _ => b.names ++ i.names
  | call _ as => namesAll as
  | construct _ as => namesAll as
  | group e => e.names
def namesAll : List Expr → List String
  | [] => []
  | a :: as => a.names ++ namesAll as
end

end Expr

def Comparison.names (c : Comparison Expr) : List String := c.lhs.names ++ c.rhs.names

def Condition.names (c : Condition Expr) : List String := c.comparisons.flatMap Comparison.names

/-! ### What is known at a point -/

/-- The variables in scope, the innermost first, each with whether it has been assigned. -/
abbrev Known := List (String × Bool)

namespace Known

/-- The first of the names that cannot be read here: it is not in scope or has not been assigned. -/
def unreadable? (k : Known) (names : List String) : Option String :=
  names.find? fun name => k.lookup name != some true

/-- What is known once the variable is assigned, if it is in scope. -/
def assign (name : String) : Known → Option Known
  | [] => none
  | (other, assigned) :: outer =>
    if name = other then some ((other, true) :: outer)
    else (assign name outer).map ((other, assigned) :: ·)

/-- What is known after a block that began at a point: its own variables go out of scope. -/
def leave (start last : Known) : Known := last.drop (last.length - start.length)

def read (k : Known) (names : List String) : Except String Known :=
  match k.unreadable? names with
  | some early => .error early
  | none => .ok k

/-- What is known after an assignment. A swizzle or an element of a variable is assigned only if all
of the variable has been, and so is what an operator such as `+=` goes on from. -/
def write (k : Known) (target : Expr) (op : AssignOp) (value : Expr) : Except String Known :=
  match target, op with
  | .var name _, .set => (k.read value.names).bind fun k => (k.assign name).elim (.error name) .ok
  | _, _ => k.read (target.names ++ value.names)

end Known

/-! ### Paths -/

namespace Stmt

mutual
/-- What is known at the end of each path through a statement, or the variable that the path stops
at. A path goes on behind a `discard`, so that it sees what stands there. -/
def paths : Stmt → Known → List (Except String Known)
  | declare _ name value, k =>
    [(k.read ((value.map Expr.names).getD [])).map fun k => (name, value.isSome) :: k]
  | assign target op value, k => [k.write target op value]
  | branch branches none, k => branchPaths branches k [.ok k]
  | branch branches (some block), k =>
    branchPaths branches k ((blockPaths block k).map (Except.map k.leave))
  | discard, k => [.ok k]
/-- Each branch that can be taken, or none of them and the last paths. -/
def branchPaths : List (Condition Expr × List Stmt) → Known → List (Except String Known) →
    List (Except String Known)
  | [], _, last => last
  | (condition, block) :: rest, k, last =>
    match k.read condition.names with
    | .error early => [.error early]
    | .ok k => (blockPaths block k).map (Except.map k.leave) ++ branchPaths rest k last
def blockPaths : List Stmt → Known → List (Except String Known)
  | [], k => [.ok k]
  | s :: rest, k => (s.paths k).flatMap fun
    | .ok next => blockPaths rest next
    | .error early => [.error early]
end

/-- No path through the block stops. -/
def PathsRun (block : List Stmt) (k : Known) : Prop :=
  ∀ name, Except.error name ∉ blockPaths block k

-- assigned in a branch only, so the path that does not take the branch stops
example :
    let shade : Expr := .var "gShade" (some .float)
    let light : Expr := .var "uLight" (some .float)
    let given : Known := [("gShade", false), ("uLight", true)]
    blockPaths [branch [(.compare light .gt light, [assign shade .set light])] none,
        assign light .mul shade] given =
      [.ok [("gShade", true), ("uLight", true)], .error "gShade"] := rfl

end Stmt

/-! ### What paths keep -/

namespace Known

/-- The same variables, those assigned before still assigned. -/
def Same (k later : Known) : Prop :=
  List.Forall₂ (fun p q : String × Bool => p.1 = q.1 ∧ (p.2 = true → q.2 = true)) k later

/-- Variables have come into scope, and none has gone. -/
def Grows (k later : Known) : Prop := ∃ new outer, later = new ++ outer ∧ k.Same outer

theorem Same.refl (k : Known) : k.Same k := List.forall₂_same.mpr fun _ _ => ⟨rfl, id⟩

theorem Same.trans {k l m : Known} (first : k.Same l) (second : l.Same m) : k.Same m := by
  induction first generalizing m with
  | nil =>
    cases second
    exact .nil
  | cons here _ ih =>
    cases second with
    | cons there others => exact .cons ⟨here.1.trans there.1, there.2 ∘ here.2⟩ (ih others)

theorem Same.grows {k later : Known} (same : k.Same later) : k.Grows later := ⟨[], later, rfl, same⟩

theorem Same.split {k : Known} {first second : Known} (same : Same (first ++ second) k) :
    ∃ first' second', k = first' ++ second' ∧ first.Same first' ∧ second.Same second' := by
  induction first generalizing k with
  | nil => exact ⟨[], k, rfl, .nil, same⟩
  | cons p first ih =>
    cases same with
    | cons here others =>
      obtain ⟨first', second', rfl, one, two⟩ := ih others
      exact ⟨_ :: first', second', rfl, .cons here one, two⟩

theorem Grows.trans {k l m : Known} (first : k.Grows l) (second : l.Grows m) : k.Grows m := by
  obtain ⟨new, outer, rfl, same⟩ := first
  obtain ⟨newer, whole, rfl, again⟩ := second
  obtain ⟨new', outer', rfl, _, outerSame⟩ := again.split
  exact ⟨newer ++ new', outer', (List.append_assoc _ _ _).symm, same.trans outerSame⟩

theorem same_leave {k last : Known} (grows : k.Grows last) : k.Same (k.leave last) := by
  obtain ⟨new, outer, rfl, same⟩ := grows
  have length : (new ++ outer).length - k.length = new.length := by
    rw [List.length_append, same.length_eq, Nat.add_sub_cancel]
  rw [leave, length, List.drop_left]
  exact same

theorem same_assign {name : String} {k later : Known} (found : k.assign name = some later) :
    k.Same later := by
  induction k generalizing later with
  | nil => cases found
  | cons p k ih =>
    obtain ⟨other, assigned⟩ := p
    rw [assign] at found
    split at found
    · cases found
      exact .cons ⟨rfl, fun _ => rfl⟩ (Same.refl k)
    · obtain ⟨outer, inner, rfl⟩ := Option.map_eq_some_iff.mp found
      exact .cons ⟨rfl, id⟩ (ih inner)

theorem eq_of_read {k later : Known} {names : List String} (ok : k.read names = .ok later) :
    later = k := by
  unfold read at ok
  split at ok
  · cases ok
  · cases ok
    rfl

theorem same_write {k later : Known} {target value : Expr} {op : AssignOp}
    (ok : k.write target op value = .ok later) : k.Same later := by
  unfold write at ok
  split at ok
  · next name ty =>
    cases first : k.read value.names with
    | error early =>
      rw [first] at ok
      cases ok
    | ok same =>
      rw [first, eq_of_read first] at ok
      cases found : k.assign name with
      | none =>
        simp only [Except.bind, found] at ok
        cases ok
      | some next =>
        simp only [Except.bind, found] at ok
        cases ok
        exact same_assign found
  · rw [eq_of_read ok]
    exact Same.refl k

end Known

namespace Stmt

theorem mem_blockPaths_cons {s : Stmt} {rest : List Stmt} {k : Known} {o : Except String Known} :
    o ∈ blockPaths (s :: rest) k ↔
      (∃ next, .ok next ∈ s.paths k ∧ o ∈ blockPaths rest next) ∨
        ∃ early, .error early ∈ s.paths k ∧ o = .error early := by
  rw [blockPaths, List.mem_flatMap]
  constructor
  · rintro ⟨first, mem, inside⟩
    cases first with
    | ok next => exact Or.inl ⟨next, mem, inside⟩
    | error early => exact Or.inr ⟨early, mem, List.mem_singleton.mp inside⟩
  · rintro (⟨next, mem, inside⟩ | ⟨early, mem, rfl⟩)
    · exact ⟨.ok next, mem, inside⟩
    · exact ⟨.error early, mem, List.mem_singleton_self _⟩

theorem mem_map_leave {k later : Known} {outcomes : List (Except String Known)}
    (mem : .ok later ∈ outcomes.map (Except.map k.leave)) :
    ∃ last, .ok last ∈ outcomes ∧ later = k.leave last := by
  obtain ⟨o, inside, same⟩ := List.mem_map.mp mem
  cases o with
  | error early => cases same
  | ok last =>
    cases same
    exact ⟨last, inside, rfl⟩

mutual
theorem grows_paths : (s : Stmt) → {k later : Known} → .ok later ∈ s.paths k → k.Grows later
  | declare ty name value, k, later, mem => by
    rw [paths, List.mem_singleton] at mem
    cases first : k.read ((value.map Expr.names).getD []) with
    | error early =>
      rw [first] at mem
      cases mem
    | ok same =>
      rw [first, Known.eq_of_read first] at mem
      cases mem
      exact ⟨[_], k, rfl, .refl k⟩
  | assign target op value, k, later, mem => by
    rw [paths, List.mem_singleton] at mem
    exact (Known.same_write mem.symm).grows
  | branch branches none, k, later, mem => by
    rw [paths] at mem
    refine (same_branchPaths branches (fun last inside => ?_) mem).grows
    cases List.mem_singleton.mp inside
    exact .refl k
  | branch branches (some block), k, later, mem => by
    rw [paths] at mem
    refine (same_branchPaths branches (fun last inside => ?_) mem).grows
    -- what the block declared is gone, so the variables are those of the start again
    obtain ⟨end', known, rfl⟩ := mem_map_leave inside
    exact Known.same_leave (grows_blockPaths block known)
  | discard, k, later, mem => by
    rw [paths, List.mem_singleton] at mem
    cases mem
    exact (Known.Same.refl k).grows
theorem same_branchPaths : (branches : List (Condition Expr × List Stmt)) → {k later : Known} →
    {last : List (Except String Known)} → (∀ l, .ok l ∈ last → k.Same l) →
    .ok later ∈ branchPaths branches k last → k.Same later
  | [], k, later, last, each, mem => by
    rw [branchPaths] at mem
    exact each later mem
  | (condition, block) :: rest, k, later, last, each, mem => by
    rw [branchPaths] at mem
    cases first : k.read condition.names with
    | error early =>
      rw [first] at mem
      cases List.mem_singleton.mp mem
    | ok same =>
      rw [first, Known.eq_of_read first] at mem
      rcases List.mem_append.mp mem with mem | mem
      · obtain ⟨end', known, rfl⟩ := mem_map_leave mem
        exact Known.same_leave (grows_blockPaths block known)
      · exact same_branchPaths rest each mem
theorem grows_blockPaths : (block : List Stmt) → {k later : Known} →
    .ok later ∈ blockPaths block k → k.Grows later
  | [], k, later, mem => by
    rw [blockPaths, List.mem_singleton] at mem
    cases mem
    exact (Known.Same.refl k).grows
  | s :: rest, k, later, mem => by
    rcases mem_blockPaths_cons.mp mem with ⟨next, first, others⟩ | ⟨early, _, wrong⟩
    · exact (grows_paths s first).trans (grows_blockPaths rest others)
    · cases wrong
end

end Stmt

/-! ### What holds on all paths -/

namespace Known

/-- What is in scope stays in scope, and what has been assigned stays assigned. -/
def Keeps (k later : Known) : Prop :=
  ∀ name assigned, k.lookup name = some assigned →
    ∃ still, later.lookup name = some still ∧ (assigned = true → still = true)

/-- The names of the first list are in scope, and those of the second have been assigned. -/
structure Holds (k : Known) (scope assigned : List String) : Prop where
  scope : ∀ name ∈ scope, (k.lookup name).isSome = true
  assigned : ∀ name ∈ assigned, k.lookup name = some true

/-- The path does not stop, and at its end these names have been assigned. -/
def LeadsTo (k : Known) (assigned : List String) (o : Except String Known) : Prop :=
  ∃ later, o = .ok later ∧ k.Keeps later ∧ ∀ name ∈ assigned, later.lookup name = some true

variable {k later : Known} {scope assigned after : List String}

theorem Keeps.refl (k : Known) : k.Keeps k := fun _ assigned known => ⟨assigned, known, id⟩

theorem Keeps.trans {l : Known} (first : k.Keeps l) (second : l.Keeps later) : k.Keeps later := by
  intro name assigned known
  obtain ⟨still, inside, kept⟩ := first name assigned known
  obtain ⟨end', after, keptOn⟩ := second name still inside
  exact ⟨end', after, keptOn ∘ kept⟩

theorem Keeps.lookup (keeps : k.Keeps later) {name : String} (known : k.lookup name = some true) :
    later.lookup name = some true := by
  obtain ⟨still, after, kept⟩ := keeps name true known
  rwa [kept rfl] at after

theorem Same.keeps (same : k.Same later) : k.Keeps later := by
  induction same with
  | nil => exact .refl []
  | @cons p q k later here _ ih =>
    obtain ⟨name, flag⟩ := p
    obtain ⟨_, flag'⟩ := q
    obtain ⟨rfl, kept⟩ := here
    intro other assigned known
    rw [List.lookup_cons] at known ⊢
    split at known
    · next first =>
      rw [first]
      exact ⟨flag', rfl, Option.some.inj known ▸ kept⟩
    · next first =>
      rw [first]
      exact ih other assigned known

theorem Holds.keeps (holds : k.Holds scope assigned) (keeps : k.Keeps later) :
    later.Holds scope assigned := by
  refine ⟨fun name mem => ?_, fun name mem => keeps.lookup (holds.assigned name mem)⟩
  obtain ⟨flag, known⟩ := Option.isSome_iff_exists.mp (holds.scope name mem)
  obtain ⟨still, after, _⟩ := keeps name flag known
  rw [after]
  rfl

theorem Holds.subset {fewer less : List String} (holds : k.Holds scope assigned)
    (scopes : fewer ⊆ scope) (names : less ⊆ assigned) : k.Holds fewer less :=
  ⟨fun name mem => holds.scope name (scopes mem), fun name mem => holds.assigned name (names mem)⟩

theorem Holds.leadsTo (holds : k.Holds scope assigned) (keeps : k.Keeps later) :
    k.LeadsTo assigned (.ok later) :=
  ⟨later, rfl, keeps, (holds.keeps keeps).assigned⟩

theorem not_leadsTo_error {name : String} : ¬ k.LeadsTo assigned (.error name) := by
  rintro ⟨_, wrong, _⟩
  cases wrong

theorem LeadsTo.andThen {next : Known} {between : List String} {o : Except String Known}
    (first : k.LeadsTo between (.ok next)) (holds : k.Holds scope assigned)
    (second : next.Holds scope between → next.LeadsTo after o) : k.LeadsTo after o := by
  obtain ⟨_, same, keeps, known⟩ := first
  cases same
  obtain ⟨last, rfl, keepsOn, atEnd⟩ := second ⟨(holds.keeps keeps).scope, known⟩
  exact ⟨last, rfl, keeps.trans keepsOn, atEnd⟩

theorem Holds.read (holds : k.Holds scope assigned) {names : List String}
    (covered : names.all assigned.contains = true) : k.read names = .ok k := by
  have none : k.unreadable? names = none := by
    refine List.find?_eq_none.mpr fun name mem => ?_
    have inside := List.contains_iff_mem.mp (List.all_eq_true.mp covered name mem)
    have known := holds.assigned name inside
    simp [known]
  rw [Known.read, none]

theorem assign_of_lookup {name : String} (known : (k.lookup name).isSome = true) :
    ∃ later, k.assign name = some later ∧ later.lookup name = some true := by
  induction k with
  | nil => cases known
  | cons p k ih =>
    obtain ⟨other, flag⟩ := p
    rw [assign]
    by_cases here : name = other
    · subst here
      rw [if_pos rfl]
      exact ⟨_, rfl, List.lookup_cons_self⟩
    · have apart : (name == other) = false := beq_eq_false_iff_ne.mpr here
      rw [List.lookup_cons, apart] at known
      obtain ⟨outer, inner, after⟩ := ih known
      rw [if_neg here, inner]
      refine ⟨_, rfl, ?_⟩
      rw [List.lookup_cons, apart]
      exact after

theorem keeps_cons (k : Known) (name : String) : k.Keeps ((name, true) :: k) := by
  intro other assigned known
  rw [List.lookup_cons]
  split
  · exact ⟨true, rfl, fun _ => rfl⟩
  · exact ⟨assigned, known, id⟩

end Known

namespace Stmt

/-! ### Looking at each statement once -/

mutual
/-- The names that have been assigned after a statement, if it reads only names that have been before
and assigns only names in scope. What branches assign does not count after them. -/
def assigns (scope : List String) : Stmt → List String → Option (List String)
  | declare _ name (some value), known =>
    if value.names.all known.contains then some (name :: known) else none
  | declare _ _ none, _ => none
  | assign target op value, known =>
    match target, op with
    | .var name _, .set =>
      if value.names.all known.contains && scope.contains name then some (name :: known) else none
    | _, _ => if (target.names ++ value.names).all known.contains then some known else none
  | branch branches none, known => if branchesAssign scope branches known then some known else none
  | branch branches (some block), known =>
    if branchesAssign scope branches known && (blockAssigns scope block known).isSome then some known
    else none
  | discard, known => some known
def branchesAssign (scope : List String) : List (Condition Expr × List Stmt) → List String → Bool
  | [], _ => true
  | (condition, block) :: rest, known =>
    condition.names.all known.contains && (blockAssigns scope block known).isSome &&
      branchesAssign scope rest known
def blockAssigns (scope : List String) : List Stmt → List String → Option (List String)
  | [], known => some known
  | s :: rest, known => (s.assigns scope known).bind (blockAssigns scope rest)
end

variable {scope known after : List String} {k : Known}

theorem leadsTo_of_leave (holds : k.Holds scope known) {block : List Stmt}
    (runs : ∀ o ∈ blockPaths block k, ∃ later, o = .ok later) :
    ∀ o ∈ (blockPaths block k).map (Except.map k.leave), k.LeadsTo known o := by
  intro o mem
  obtain ⟨first, inside, rfl⟩ := List.mem_map.mp mem
  obtain ⟨last, rfl⟩ := runs first inside
  exact holds.leadsTo (Known.same_leave (grows_blockPaths block inside)).keeps

theorem leadsTo_write {target value : Expr} {op : AssignOp}
    (assigned : (assign target op value).assigns scope known = some after)
    (holds : k.Holds scope known) : k.LeadsTo after (k.write target op value) := by
  unfold assigns at assigned
  unfold Known.write
  split at assigned
  · next name ty =>
    split at assigned
    · next fine =>
      cases assigned
      obtain ⟨covered, inScope⟩ := Bool.and_eq_true_iff.mp fine
      obtain ⟨later, found, first⟩ :=
        Known.assign_of_lookup (holds.scope name (List.contains_iff_mem.mp inScope))
      have keeps := (Known.same_assign found).keeps
      refine ⟨later, ?_, keeps, ?_⟩
      · rw [holds.read covered]
        simp only [Except.bind, found, Option.elim]
      · intro other mem
        rcases List.mem_cons.mp mem with rfl | mem
        · exact first
        · exact keeps.lookup (holds.assigned other mem)
    · cases assigned
  · split at assigned
    · next covered =>
      cases assigned
      rw [holds.read covered]
      exact holds.leadsTo (.refl k)
    · cases assigned

mutual
theorem leadsTo_of_assigns : (s : Stmt) → {known after : List String} → {k : Known} →
    s.assigns scope known = some after → k.Holds scope known → ∀ o ∈ s.paths k, k.LeadsTo after o
  | declare ty name (some value), known, after, k, assigned, holds, o, mem => by
    rw [paths, List.mem_singleton] at mem
    subst mem
    rw [assigns] at assigned
    split at assigned
    · next covered =>
      cases assigned
      show k.LeadsTo _ ((k.read value.names).map _)
      rw [holds.read covered]
      refine ⟨_, rfl, k.keeps_cons name, fun other mem => ?_⟩
      rcases List.mem_cons.mp mem with rfl | mem
      · exact List.lookup_cons_self
      · exact (k.keeps_cons name).lookup (holds.assigned other mem)
    · cases assigned
  | declare _ _ none, known, after, k, assigned, holds, o, mem => by
    rw [assigns] at assigned
    cases assigned
  | assign target op value, known, after, k, assigned, holds, o, mem => by
    rw [paths, List.mem_singleton] at mem
    subst mem
    exact leadsTo_write assigned holds
  | branch branches none, known, after, k, assigned, holds, o, mem => by
    rw [assigns] at assigned
    rw [paths] at mem
    split at assigned
    · next fine =>
      cases assigned
      refine leadsTo_of_branchesAssign branches fine holds (fun o mem => ?_) o mem
      obtain rfl := List.mem_singleton.mp mem
      exact holds.leadsTo (.refl k)
    · cases assigned
  | branch branches (some block), known, after, k, assigned, holds, o, mem => by
    rw [assigns] at assigned
    rw [paths] at mem
    split at assigned
    · next fine =>
      cases assigned
      obtain ⟨fine, otherwise⟩ := Bool.and_eq_true_iff.mp fine
      obtain ⟨last, block'⟩ := Option.isSome_iff_exists.mp otherwise
      -- no branch need assign anything: what was known before is all that is known after
      refine leadsTo_of_branchesAssign branches fine holds ?_ o mem
      refine leadsTo_of_leave holds fun o mem => ?_
      obtain ⟨later, same, _⟩ := leadsTo_of_blockAssigns block block' holds o mem
      exact ⟨later, same⟩
    · cases assigned
  | discard, known, after, k, assigned, holds, o, mem => by
    rw [paths, List.mem_singleton] at mem
    subst mem
    rw [assigns] at assigned
    cases assigned
    exact holds.leadsTo (.refl k)
theorem leadsTo_of_branchesAssign : (branches : List (Condition Expr × List Stmt)) →
    {known : List String} → {k : Known} → {last : List (Except String Known)} →
    branchesAssign scope branches known = true → k.Holds scope known →
    (∀ o ∈ last, k.LeadsTo known o) →
    ∀ o ∈ branchPaths branches k last, k.LeadsTo known o
  | [], known, k, last, _, _, each, o, mem => by
    rw [branchPaths] at mem
    exact each o mem
  | (condition, block) :: rest, known, k, last, fine, holds, each, o, mem => by
    rw [branchesAssign] at fine
    obtain ⟨first, others⟩ := Bool.and_eq_true_iff.mp fine
    obtain ⟨covered, inside⟩ := Bool.and_eq_true_iff.mp first
    obtain ⟨after, assigned⟩ := Option.isSome_iff_exists.mp inside
    rw [branchPaths, holds.read covered] at mem
    rcases List.mem_append.mp mem with mem | mem
    · refine leadsTo_of_leave holds (fun o mem => ?_) o mem
      obtain ⟨later, same, _⟩ := leadsTo_of_blockAssigns block assigned holds o mem
      exact ⟨later, same⟩
    · exact leadsTo_of_branchesAssign rest others holds each o mem
theorem leadsTo_of_blockAssigns : (block : List Stmt) → {known after : List String} → {k : Known} →
    blockAssigns scope block known = some after → k.Holds scope known →
    ∀ o ∈ blockPaths block k, k.LeadsTo after o
  | [], known, after, k, assigned, holds, o, mem => by
    rw [blockPaths, List.mem_singleton] at mem
    subst mem
    rw [blockAssigns] at assigned
    cases assigned
    exact holds.leadsTo (.refl k)
  | s :: rest, known, after, k, assigned, holds, o, mem => by
    rw [blockAssigns] at assigned
    obtain ⟨between, first, others⟩ := Option.bind_eq_some_iff.mp assigned
    have start := leadsTo_of_assigns s first holds
    rcases mem_blockPaths_cons.mp mem with ⟨next, here, later⟩ | ⟨early, stopped, _⟩
    · exact (start _ here).andThen holds fun known =>
        leadsTo_of_blockAssigns rest others known o later
    · exact absurd (start _ stopped) Known.not_leadsTo_error
end

/-! ### Blocks in sequence -/

/-- Wherever these names are in scope and those before have been assigned, no path through the block
stops, and at the end of each path those after have been assigned. -/
def Leads (scope before : List String) (block : List Stmt) (after : List String) : Prop :=
  ∀ k : Known, k.Holds scope before → ∀ o ∈ blockPaths block k, k.LeadsTo after o

theorem leads_of_blockAssigns {block : List Stmt}
    (assigned : blockAssigns scope block known = some after) : Leads scope known block after :=
  fun _ holds => leadsTo_of_blockAssigns block assigned holds

theorem leads_scale {target value : Expr} {before : List String}
    (covered : target.names ++ value.names ⊆ before) :
    Leads scope before [assign target .mul value] [] := by
  have assigned : blockAssigns scope [assign target .mul value] before = some before := by
    have all : (target.names ++ value.names).all before.contains = true :=
      List.all_eq_true.mpr fun name mem => List.contains_iff_mem.mpr (covered mem)
    simp only [blockAssigns, assigns, all, if_true, Option.bind_some]
  intro k holds o mem
  obtain ⟨later, same, keeps, _⟩ := leads_of_blockAssigns assigned k holds o mem
  exact ⟨later, same, keeps, fun _ known => absurd known List.not_mem_nil⟩

theorem leads_nil (scope before : List String) : Leads scope before [] before := by
  intro k holds o mem
  obtain rfl := List.mem_singleton.mp mem
  exact holds.leadsTo (.refl k)

theorem mem_blockPaths_append {first second : List Stmt} {k : Known} {o : Except String Known} :
    o ∈ blockPaths (first ++ second) k ↔
      (∃ next, .ok next ∈ blockPaths first k ∧ o ∈ blockPaths second next) ∨
        ∃ early, .error early ∈ blockPaths first k ∧ o = .error early := by
  induction first generalizing k with
  | nil => simp [blockPaths]
  | cons s first ih =>
    simp only [List.cons_append, mem_blockPaths_cons, ih]
    grind

theorem Leads.append {before between : List String} {first second : List Stmt}
    (one : Leads scope before first between) (two : Leads scope between second after) :
    Leads scope before (first ++ second) after := by
  intro k holds o mem
  rcases mem_blockPaths_append.mp mem with ⟨next, here, later⟩ | ⟨early, stopped, _⟩
  · exact (one k holds _ here).andThen holds fun known => two next known o later
  · exact absurd (one k holds _ stopped) Known.not_leadsTo_error

/-- Whatever else is in scope or has been assigned stays so. -/
theorem Leads.frame {scope' before before' : List String} {block : List Stmt}
    (leads : Leads scope before block after) (scopes : scope ⊆ scope') (names : before ⊆ before') :
    Leads scope' before' block (before' ++ after) := by
  intro k holds o mem
  obtain ⟨later, same, keeps, known⟩ := leads k (holds.subset scopes names) o mem
  refine ⟨later, same, keeps, fun name inside => ?_⟩
  rcases List.mem_append.mp inside with inside | inside
  · exact keeps.lookup (holds.assigned name inside)
  · exact known name inside

theorem Leads.subset {block : List Stmt} {before less : List String}
    (leads : Leads scope before block after) (fewer : less ⊆ after) :
    Leads scope before block less := by
  intro k holds o mem
  obtain ⟨later, same, keeps, known⟩ := leads k holds o mem
  exact ⟨later, same, keeps, fun name inside => known name (fewer inside)⟩

/-- Blocks in sequence that each need no more than was there before the first. -/
theorem leads_flatMap {α : Type} {before : List String} {block : α → List Stmt} :
    ∀ {members : List α}, (∀ a ∈ members, Leads scope before (block a) []) →
      Leads scope before (members.flatMap block) before
  | [], _ => leads_nil scope before
  | a :: rest, each => by
    have first := (each a List.mem_cons_self).frame (List.Subset.refl scope) (List.Subset.refl before)
    rw [List.append_nil] at first
    exact first.append (leads_flatMap fun b mem => each b (List.mem_cons_of_mem _ mem))

theorem Leads.pathsRun {block : List Stmt} {before : List String}
    (leads : Leads scope before block after) {k : Known} (holds : k.Holds scope before) :
    PathsRun block k :=
  fun _ stopped => Known.not_leadsTo_error (leads k holds _ stopped)

end Stmt

end ShaderComposer
