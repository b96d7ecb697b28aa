import ShaderComposer.Proofs.Composition.Acceptance
import ShaderComposer.Proofs.Glsl.Paths
import ShaderComposer.Proofs.Script.Blocks

/-!
# What main() finds

When `main()` begins, the variables of the registry and the outputs of the stage are in scope, and
those that the outside gives have values (`Registry.known`). From there the pieces of `main()` follow
each other: each is looked at by itself, with the names that it needs and those that it assigns
(`Piece.Leads`), and so the whole is (`CoreShader.exists_leading`). A script asks for roles and looks
at the variables that its owner declared, no more; so a closed scene shows what it emits in every
stage that declares these (`Piece.leads_of_trial`).
-/

namespace ShaderComposer

/-! ### When main() begins -/

/-- The variables that `main()` of a stage is to assign for the outside. -/
def Stage.outputs : Stage → List String
  | .vertex => ["gl_Position"]
  | .fragment => ["gl_FragColor"]

/-- Variables of the qualifier have their values before `main()` begins. -/
def Qualifier.isGiven (stage : Stage) : Qualifier → Bool
  | .uniform | .vertexInput | .const => true
  | .varying => stage == .fragment
  | .global | .functionLocal => false

def Variable.isGiven (stage : Stage) (v : Variable) : Bool := v.qualifier.isGiven stage

/-- What is known when `main()` begins. -/
def Registry.known (r : Registry) : Known :=
  (r.vars.map fun v => (v.name, v.isGiven r.stage || v.initial.isSome)) ++
    r.stage.outputs.map fun name => (name, false)

theorem Registry.lookup_known {r : Registry} (distinct : (r.vars.map (·.name)).Nodup) {v : Variable}
    (mem : v ∈ r.vars) :
    r.known.lookup v.name = some (v.isGiven r.stage || v.initial.isSome) := by
  unfold known
  rw [List.lookup_append]
  generalize r.vars = vars at distinct mem
  induction vars with
  | nil => cases mem
  | cons w vars ih =>
    obtain ⟨new, distinct⟩ := List.nodup_cons.mp distinct
    rw [List.map_cons, List.lookup_cons]
    rcases List.mem_cons.mp mem with rfl | mem
    · rw [beq_self_eq_true]
      rfl
    · have apart : (v.name == w.name) = false :=
        beq_eq_false_iff_ne.mpr fun same => new (List.mem_map.mpr ⟨v, mem, same⟩)
      rw [apart]
      exact ih distinct mem

namespace CoreShader

def scope (core : CoreShader) (fragments : List Fragment) : List String :=
  draftNames (core.steps fragments) ++ core.stage.outputs

def given (core : CoreShader) (fragments : List Fragment) : List String :=
  ((drafts (core.steps fragments)).filter (·.isGiven core.stage)).map (·.name)

variable {core : CoreShader} {fragments : List Fragment} {own : Declaring}
  {kept : List AttachedFragment} {registry : Registry}

theorem declarations_subset {f : Fragment} (mem : f ∈ fragments) :
    f.declarations ⊆ core.steps fragments := fun _ inside =>
  List.mem_append_right _ (List.mem_flatMap.mpr ⟨f, mem, inside⟩)

theorem roles_subset_scope (roles : List Role)
    (declared : ∀ role ∈ roles, .role role ∈ core.declarations) :
    roles.map Role.name ⊆ core.scope fragments := by
  intro name mem
  obtain ⟨role, known, rfl⟩ := List.mem_map.mp mem
  exact List.mem_append_left _
    (mem_draftNames_of_role (List.mem_append_left _ (declared role known)))

/-- Uniforms, attributes and, in the fragment stage, varyings of the core have values. -/
theorem roles_subset_given (roles : List Role)
    (declared : ∀ role ∈ roles, .role role ∈ core.declarations)
    (given : roles.all (·.var.isGiven core.stage) = true) :
    roles.map Role.name ⊆ core.given fragments := by
  intro name mem
  obtain ⟨role, known, rfl⟩ := List.mem_map.mp mem
  have drafted : role.var ∈ drafts (core.steps fragments) :=
    List.mem_filterMap.mpr ⟨_, List.mem_append_left _ (declared role known), rfl⟩
  exact List.mem_map.mpr
    ⟨role.var, List.mem_filter.mpr ⟨drafted, List.all_eq_true.mp given role known⟩, rfl⟩

theorem Declares.nodup_names (declares : core.Declares fragments own kept registry) :
    (registry.vars.map (·.name)).Nodup := by
  have builds : Builds (fun _ => True) (core.steps fragments) := fun _ _ _ _ => trivial
  exact (declares.madeOf builds).1.distinct

theorem Declares.exists_var (declares : core.Declares fragments own kept registry) {v : Variable}
    (mem : v ∈ drafts (core.steps fragments)) : ∃ w ∈ registry.vars, w.sameShape v = true := by
  obtain ⟨step, known, drafted⟩ := List.mem_filterMap.mp mem
  cases step with
  | declare draft =>
    cases drafted
    obtain ⟨w, inside, shape, _⟩ := declares.has known
    exact ⟨w, inside, shape⟩
  | directive | precision | helper => cases drafted

theorem Declares.get?_symbols (declares : core.Declares fragments own kept registry) {role : Role}
    (mem : .role role ∈ core.steps fragments) (attached : List String) :
    ∃ v, (registry.symbols attached).get? role = some v ∧ v.LooksLike role.var := by
  obtain ⟨v, inside, shape, _⟩ := declares.has mem
  obtain ⟨name, type, qualifier, _⟩ := Variable.sameShape_iff.mp shape
  have found := Registry.get?_of_mem declares.nodup_names inside
  refine ⟨v, ?_, Variable.looksLike_of_sameShape shape⟩
  rw [Registry.get?_symbols, Registry.roleVariable?, Role.name, ← name, found, Option.filter_some,
    type, qualifier]
  simp

theorem Declares.holds (declares : core.Declares fragments own kept registry) :
    registry.known.Holds (core.scope fragments) (core.given fragments) := by
  constructor
  · intro name mem
    rcases List.mem_append.mp mem with mem | mem
    · obtain ⟨v, known, rfl⟩ := List.mem_map.mp mem
      obtain ⟨w, inside, shape⟩ := declares.exists_var known
      rw [← (Variable.sameShape_iff.mp shape).1, Registry.lookup_known declares.nodup_names inside]
      rfl
    · rw [← declares.stage_eq] at mem
      have output : ((registry.stage.outputs.map fun name => (name, false)).lookup name).isSome := by
        generalize registry.stage.outputs = outputs at mem
        induction outputs with
        | nil => cases mem
        | cons first outputs ih =>
          rw [List.map_cons, List.lookup_cons]
          split
          · rfl
          · next apart => exact ih ((List.mem_cons.mp mem).resolve_left (ne_of_beq_false apart))
      rw [Registry.known, List.lookup_append, Option.isSome_or, output, Bool.or_true]
  · intro name mem
    obtain ⟨v, known, rfl⟩ := List.mem_map.mp mem
    obtain ⟨known, isGiven⟩ := List.mem_filter.mp known
    obtain ⟨w, inside, shape⟩ := declares.exists_var known
    obtain ⟨same, _, qualifier, _⟩ := Variable.sameShape_iff.mp shape
    rw [← same, Registry.lookup_known declares.nodup_names inside, declares.stage_eq,
      Variable.isGiven, qualifier]
    exact congrArg (some <| · || _) isGiven

end CoreShader

/-! ### Pieces in turn -/

section Leading

variable {stage : Stage} {strict : Bool} {symbols : Symbols} {scope before after : List String}

/-- The piece emits a block without automatic names, and the block leads from the names before to
the names after. -/
def Piece.Leads (stage : Stage) (strict : Bool) (symbols : Symbols) (scope before : List String)
    (p : Piece) (after : List String) : Prop :=
  ∃ statements, p.Emits stage strict symbols 0 statements 0 ∧
    Stmt.Leads scope before statements after

theorem Piece.Leads.mono {p : Piece} {scope' before' : List String}
    (leads : p.Leads stage strict symbols scope before after) (scopes : scope ⊆ scope')
    (names : before ⊆ before') : p.Leads stage strict symbols scope' before' after := by
  obtain ⟨statements, emits, block⟩ := leads
  exact ⟨statements, emits,
    (block.frame scopes names).subset (List.subset_append_right before' after)⟩

theorem Piece.Leads.frame {p : Piece} {scope' before' : List String}
    (leads : p.Leads stage strict symbols scope before after) (scopes : scope ⊆ scope')
    (names : before ⊆ before') : p.Leads stage strict symbols scope' before' (before' ++ after) := by
  obtain ⟨statements, emits, block⟩ := leads
  exact ⟨statements, emits, block.frame scopes names⟩

/-- Each piece goes on from the names that the one before leads to. -/
inductive Piece.LeadInTurn (stage : Stage) (strict : Bool) (symbols : Symbols)
    (scope : List String) : List String → List Piece → List String → Prop
  | nil (before : List String) : LeadInTurn stage strict symbols scope before [] before
  | cons {before between after : List String} {p : Piece} {rest : List Piece}
    (first : p.Leads stage strict symbols scope before between)
    (others : LeadInTurn stage strict symbols scope between rest after) :
    LeadInTurn stage strict symbols scope before (p :: rest) after

namespace Piece.LeadInTurn

theorem append {between : List String} {first second : List Piece}
    (one : LeadInTurn stage strict symbols scope before first between)
    (two : LeadInTurn stage strict symbols scope between second after) :
    LeadInTurn stage strict symbols scope before (first ++ second) after := by
  induction one with
  | nil before => exact two
  | cons here _ ih => exact .cons here (ih two)

/-- Pieces that need nothing of each other, in whichever order. -/
theorem of_each {gain : Piece → List String} : ∀ {pieces : List Piece} {before' : List String},
    (∀ p ∈ pieces, p.Leads stage strict symbols scope before (gain p)) → before ⊆ before' →
      LeadInTurn stage strict symbols scope before' pieces (before' ++ pieces.flatMap gain)
  | [], before', _, _ => by
    rw [List.flatMap_nil, List.append_nil]
    exact .nil before'
  | p :: rest, before', each, names => by
    have first := (each p List.mem_cons_self).frame (List.Subset.refl scope) names
    have others : LeadInTurn stage strict symbols scope (before' ++ gain p) rest _ :=
      of_each (fun q mem => each q (List.mem_cons_of_mem _ mem))
        (List.subset_append_of_subset_left _ names)
    rw [List.append_assoc] at others
    exact .cons first others

theorem exists_recorded {pieces : List Piece}
    (lead : LeadInTurn stage strict symbols scope before pieces after) :
    ∃ recorded : List (Piece × List Stmt), recorded.map Prod.fst = pieces ∧
      EmitInTurn stage strict symbols 0 recorded ∧
      Stmt.Leads scope before (recorded.flatMap Prod.snd) after := by
  induction lead with
  | nil before => exact ⟨[], rfl, .nil 0, Stmt.leads_nil scope before⟩
  | @cons before between after p rest first _ ih =>
    obtain ⟨statements, emits, block⟩ := first
    obtain ⟨recorded, rfl, emitted, blocks⟩ := ih
    exact ⟨(p, statements) :: recorded, rfl, .cons emits emitted, block.append blocks⟩

end Piece.LeadInTurn

end Leading

/-! ### The whole of main() -/

namespace CoreShader

variable {core : CoreShader} {fragments : List Fragment} {attached : List String} {strict : Bool}

/-- A stage without refused declarations, whose pieces lead from each to the next, composes, and no
path through its `main()` stops. -/
theorem exists_leading (fresh : core.IsFresh fragments)
    (lead : ∀ own kept registry, core.Declares fragments own kept registry →
      ∃ after, Piece.LeadInTurn core.stage strict (registry.symbols attached) (core.scope fragments)
        (core.given fragments) (Slot.order.flatMap (Slot.pieces core own.declared kept)) after) :
    ∃ c, (core.compose (fragments.map Fragment.attach) attached strict).1 = .ok c ∧
      ∃ l : Layout, l.Describes core fragments attached strict c ∧
        Stmt.PathsRun (l.pieces.flatMap Prod.snd) l.registry.known := by
  have composes : ∃ c, (core.compose (fragments.map Fragment.attach) attached strict).1 = .ok c := by
    refine exists_compose fresh fun own kept registry declares => ?_
    obtain ⟨_, pieces⟩ := lead own kept registry declares
    obtain ⟨recorded, order, emitted, _⟩ := pieces.exists_recorded
    exact ⟨recorded, order, emitted⟩
  obtain ⟨c, ok⟩ := composes
  obtain ⟨l, describes⟩ := describes_of_compose ok
  rw [List.map_map] at describes
  have describes : l.Describes core fragments attached strict c := (List.map_id fragments) ▸ describes
  have declares := describes.declares
  obtain ⟨_, pieces⟩ := lead _ _ _ declares
  obtain ⟨recorded, order, emitted, block⟩ := pieces.exists_recorded
  -- the pieces emit the same blocks wherever they are recorded
  have pieces : List.Forall₂ Piece.Alike (l.pieces.map Prod.fst) (recorded.map Prod.fst) := by
    rw [describes.order, order]
    exact List.forall₂_same.mpr fun p _ => Piece.Alike.refl p
  have same := statements_alike
    (describes.emitted.unique (.refl l.registry) rfl emitted pieces)
  refine ⟨c, ok, l, describes, ?_⟩
  rw [same]
  exact block.pathsRun declares.holds

end CoreShader

/-! ### Trials -/

/-- The block records no mistakes and leads from the names before to the names after. -/
def Stmt.blockLeads (scope before : List String) (block : List Stmt) (after : List String) : Bool :=
  match blockAssigns scope block before with
  | none => false
  | some known => after.all known.contains

theorem Stmt.leads_of_blockLeads {scope before after : List String} {block : List Stmt}
    (leads : blockLeads scope before block after = true) : Leads scope before block after := by
  unfold blockLeads at leads
  split at leads
  · cases leads
  · next known assigned =>
    exact (leads_of_blockAssigns assigned).subset fun name mem =>
      List.contains_iff_mem.mp (List.all_eq_true.mp leads name mem)

namespace Instruction

/-- A scene with the variables that a script asks for, and no fragments. -/
def sceneOf (stage : Stage) (script : List Instruction) (declared : List Variable) : Scene :=
  ⟨⟨stage, (rolesAll script).map fun role => (role, role.var), []⟩, some declared⟩

/-- The script runs through by itself, makes no automatic names, and leads from the names before to
the names after. -/
def trial (stage : Stage) (owner : String) (script : List Instruction) (declared : List Variable)
    (scope before after : List String) : Bool :=
  match runAll (sceneOf stage script declared) script
      ⟨{ Body.empty stage true with owner := owner }, []⟩ with
  | .error _ => false
  | .ok r =>
    match r.body.segment with
    | .error _ => false
    | .ok statements => r.body.temps == 0 && Stmt.blockLeads scope before statements after

theorem get?_sceneOf {stage : Stage} {script : List Instruction} {declared : List Variable}
    {role : Role} (mem : role ∈ rolesAll script) :
    (sceneOf stage script declared).symbols.get? role = some role.var := by
  have table := lookup_filterMap (fun role : Role => some role.var) (rolesAll script) role
  rw [if_pos mem] at table
  simpa [Symbols.get?, sceneOf, List.filterMap_eq_map] using table

theorem alike_sceneOf {core : CoreShader} {fragments : List Fragment} {own : Declaring}
    {kept : List AttachedFragment} {registry : Registry}
    (declares : core.Declares fragments own kept registry) {script : List Instruction}
    (roles : ∀ role ∈ rolesAll script, .role role ∈ core.steps fragments)
    (ids : idsAll script = []) (attached : List String) {vars vars' : List Variable}
    (looks : LookAlike vars vars') :
    Scene.Alike (rolesAll script) (idsAll script) ⟨registry.symbols attached, some vars⟩
      (sceneOf core.stage script vars') := by
  refine ⟨declares.stage_eq, fun role mem => ?_, fun id mem => ?_, .some looks⟩
  · obtain ⟨w, found, looks⟩ := declares.get?_symbols (roles role mem) attached
    rw [found, get?_sceneOf mem]
    exact congrArg some looks.reference_eq
  · rw [ids] at mem
    cases mem

end Instruction

/-- What a script emits in a trial, a piece emits in a stage that declares what the script asks
for. -/
theorem Piece.leads_of_trial {core : CoreShader} {fragments : List Fragment} {own : Declaring}
    {kept : List AttachedFragment} {registry : Registry}
    (declares : core.Declares fragments own kept registry) {p : Piece} {vars vars' : List Variable}
    {scope before after : List String}
    (trial : Instruction.trial core.stage p.owner p.script vars' scope before after = true)
    (roles : ∀ role ∈ Instruction.rolesAll p.script, .role role ∈ core.steps fragments)
    (ids : Instruction.idsAll p.script = []) (attached : List String)
    (declared : p.declared = some vars) (looks : LookAlike vars vars') :
    p.Leads core.stage true (registry.symbols attached) scope before after := by
  have alike := Instruction.alike_sceneOf declares roles ids attached looks
  unfold Instruction.trial at trial
  split at trial
  · cases trial
  · next r ran =>
    split at trial
    · cases trial
    · next statements segment =>
      obtain ⟨temps, leads⟩ := Bool.and_eq_true_iff.mp trial
      refine ⟨statements, ⟨r, ?_, segment, eq_of_beq temps⟩, Stmt.leads_of_blockLeads leads⟩
      rw [declared, Instruction.runAll_alike p.script alike]
      exact ran

/-! ### Assignments -/

abbrev Assignment := AssignOp × Term × Term

namespace Assignment

def instruction (a : Assignment) : Instruction := .call (.assign a.1 a.2.1 a.2.2)

def build (env : Bindings) (a : Assignment) : Stmt :=
  .assign (a.2.1.build env) a.1 (a.2.2.build env)

end Assignment

def Stmt.fits : Stmt → Bool
  | assign target op value => (Body.assignMismatch op target value).isNone
  | declare .. | branch .. | discard => true

namespace Instruction

def assignments (script : List Instruction) : List Assignment :=
  script.filterMap fun
    | call (.assign op target value) => some (op, target, value)
    | _ => none

def block (script : List Instruction) : List Stmt := (assignments script).map (·.build ⟨[], []⟩)

/-- The script consists of assignments without provable mistakes that look at nothing that was
declared or given back. -/
structure Assigns (script : List Instruction) : Prop where
  plain : (assignments script).map Assignment.instruction = script
  built : ∀ declared, (assignments script).map (·.build ⟨declared, []⟩) = block script
  fit : (block script).all Stmt.fits = true

theorem block_append (first second : List Instruction) :
    block (first ++ second) = block first ++ block second := by
  rw [block, assignments, List.filterMap_append, List.map_append]
  rfl

theorem block_flatMap {α : Type} (script : α → List Instruction) (members : List α) :
    block (members.flatMap script) = members.flatMap fun a => block (script a) := by
  induction members with
  | nil => rfl
  | cons a rest ih => rw [List.flatMap_cons, block_append, ih, List.flatMap_cons]

theorem Assigns.append {first second : List Instruction} (one : Assigns first)
    (two : Assigns second) : Assigns (first ++ second) := by
  have split : assignments (first ++ second) = assignments first ++ assignments second :=
    List.filterMap_append
  constructor
  · rw [split, List.map_append, one.plain, two.plain]
  · intro declared
    rw [split, List.map_append, one.built, two.built, block_append]
  · rw [block_append, List.all_append, one.fit, two.fit]
    rfl

theorem assigns_flatMap {α : Type} {script : α → List Instruction} :
    ∀ {members : List α}, (∀ a ∈ members, Assigns (script a)) → Assigns (members.flatMap script)
  | [], _ => ⟨rfl, fun _ => rfl, rfl⟩
  | _ :: _, each => (each _ List.mem_cons_self).append
    (assigns_flatMap fun b mem => each b (List.mem_cons_of_mem _ mem))

end Instruction

theorem Body.assign_of_fits (b : Body) {op : AssignOp} {target value : Expr}
    (fine : assignMismatch op target value = none) :
    b.assign op target value = b.recorded [.assign target op value] b.temps := by
  rw [assign, fine, push_eq]
  rfl

theorem Instruction.runAll_assignments (scene : Scene) : ∀ (list : List Assignment) {r : Run},
    (∀ a ∈ list, (a.build (bindings scene r)).fits = true) →
      runAll scene (list.map Assignment.instruction) r =
        .ok ⟨r.body.recorded (list.map (·.build (bindings scene r))) r.body.temps, r.results⟩
  | [], r, _ => by
    rw [List.map_nil, List.map_nil, Body.recorded_nil, runAll]
  | a :: rest, r, fit => by
    have fine := Option.isNone_iff_eq_none.mp (fit a List.mem_cons_self)
    have first : a.instruction.run scene r =
        .ok ⟨r.body.recorded [a.build (bindings scene r)] r.body.temps, r.results⟩ := by
      show Except.ok (Run.mk (r.body.assign _ _ _) (r.results ++ [])) = _
      rw [Body.assign_of_fits _ fine, List.append_nil]
      rfl
    have others := runAll_assignments scene rest
      (r := ⟨r.body.recorded [a.build (bindings scene r)] r.body.temps, r.results⟩)
      fun b mem => fit b (List.mem_cons_of_mem _ mem)
    rw [Body.recorded_recorded, Body.temps_recorded] at others
    rw [List.map_cons, runAll, first]
    exact others

namespace Piece

section Emitting

variable {stage : Stage} {strict : Bool} {symbols : Symbols} {p : Piece} {n : Nat}
  {list : List Assignment}

theorem emits_assignments (script : p.script = list.map Assignment.instruction)
    (fit : ∀ a ∈ list, (a.build ⟨p.declared.getD [], []⟩).fits = true) :
    p.Emits stage strict symbols n (list.map (·.build ⟨p.declared.getD [], []⟩)) n := by
  have ran := Instruction.runAll_assignments ⟨symbols, p.declared⟩ list
    (r := ⟨{ Body.empty stage strict with owner := p.owner, temps := n }, []⟩) fit
  rw [← script] at ran
  exact ⟨_, ran, rfl, rfl⟩

theorem emits_required {role : Role} {v : Variable}
    (script : p.script = .require role :: list.map Assignment.instruction)
    (found : symbols.get? role = some v)
    (fit : ∀ a ∈ list, (a.build ⟨p.declared.getD [], [v.reference]⟩).fits = true) :
    p.Emits stage strict symbols n (list.map (·.build ⟨p.declared.getD [], [v.reference]⟩)) n := by
  have ran := Instruction.runAll_assignments ⟨symbols, p.declared⟩ list
    (r := ⟨{ Body.empty stage strict with owner := p.owner, temps := n }, [v.reference]⟩) fit
  have first : Instruction.runAll ⟨symbols, p.declared⟩ p.script
      ⟨{ Body.empty stage strict with owner := p.owner, temps := n }, []⟩ =
        Instruction.runAll ⟨symbols, p.declared⟩ (list.map Assignment.instruction)
          ⟨{ Body.empty stage strict with owner := p.owner, temps := n }, [v.reference]⟩ := by
    rw [script, Instruction.runAll, Instruction.run, Symbols.require, found]
    rfl
  exact ⟨_, first.trans ran, rfl, rfl⟩

theorem leads_of_assigns {scope before after : List String} {script : List Instruction}
    {owner : String} {slot : Slot} {declared : Option (List Variable)}
    (assigns : Instruction.Assigns script)
    (leads : Stmt.Leads scope before (Instruction.block script) after) :
    Leads stage strict symbols scope before ⟨owner, slot, script, declared⟩ after := by
  have same := assigns.built (declared.getD [])
  have fit : ∀ a ∈ Instruction.assignments script,
      (a.build ⟨declared.getD [], []⟩).fits = true := fun a mem =>
    List.all_eq_true.mp assigns.fit _ (same ▸ List.mem_map_of_mem mem)
  have emits : Emits stage strict symbols ⟨owner, slot, script, declared⟩ 0 _ 0 :=
    emits_assignments assigns.plain.symm fit
  exact ⟨_, same ▸ emits, leads⟩

theorem Leads.ifFragment {scope before after : List String} {id owner : String}
    {block otherwise : List Instruction} {slot : Slot} {declared : Option (List Variable)}
    (leads : Leads stage strict symbols scope before
      ⟨owner, slot, if symbols.hasFragment id then block else otherwise, declared⟩ after) :
    Leads stage strict symbols scope before
      ⟨owner, slot, [.ifFragment id block otherwise], declared⟩ after := by
  obtain ⟨statements, ⟨r, ran, segment, temps⟩, block⟩ := leads
  refine ⟨statements, ⟨r, ?_, segment, temps⟩, block⟩
  dsimp only at ran ⊢
  rw [Instruction.runAll, Instruction.run]
  split at ran <;> simp_all [Instruction.runAll]

end Emitting

end Piece

end ShaderComposer
