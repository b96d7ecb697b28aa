import Mathlib.Data.List.Induction
import Mathlib.Data.List.Nodup
import ShaderComposer.Source.Registry

/-!
# First claims

A registry is told by what was asked of it: of all requests in order, accepted or not, it holds the
first of each variable name, directive line, type with a precision, helper name and owner
(`Registry.run_empty`). So names are distinct, nothing that was registered changes any more, and a
refused request leaves no trace (`Registry.holdsFirst_run`).

An index from names to places can stand for the search through the entries: it is right after all
requests, and the answers are the same (`Registry.Indexed.run_empty_eq`).
-/

namespace ShaderComposer

/-! ### The first of each key -/

section Firsts

variable {α κ : Type} [DecidableEq κ] (key : α → κ)

/-- The member is kept unless one with its key is kept already. -/
def keepFirst (kept : List α) (a : α) : List α :=
  if kept.any fun b => key b == key a then kept else kept ++ [a]

/-- Of each key the first member, in order. -/
def firsts (members : List α) : List α := members.foldl (keepFirst key) []

variable {key}

theorem firsts_snoc (members : List α) (a : α) :
    firsts key (members ++ [a]) = keepFirst key (firsts key members) a := by
  rw [firsts, List.foldl_append]
  rfl

theorem firsts_filterMap_snoc {β : Type} (f : β → Option α) (members : List β) (b : β) :
    firsts key ((members ++ [b]).filterMap f) =
      (f b).elim (firsts key (members.filterMap f))
        (keepFirst key (firsts key (members.filterMap f))) := by
  rw [List.filterMap_append]
  cases made : f b with
  | none => simp [made]
  | some a => simp [made, firsts_snoc]

theorem keepFirst_of_known {kept : List α} {a b : α} (mem : b ∈ kept) (same : key b = key a) :
    keepFirst key kept a = kept := by
  unfold keepFirst
  exact if_pos (List.any_eq_true.mpr ⟨b, mem, by simpa using same⟩)

theorem keepFirst_of_new {kept : List α} {a : α} (new : ∀ b ∈ kept, key b ≠ key a) :
    keepFirst key kept a = kept ++ [a] := by
  refine if_neg fun known => ?_
  obtain ⟨b, mem, same⟩ := List.any_eq_true.mp known
  exact new b mem (by simpa using same)

theorem keepFirst_cases (key : α → κ) (kept : List α) (a : α) :
    (∃ b ∈ kept, key b = key a ∧ keepFirst key kept a = kept) ∨
      (∀ b ∈ kept, key b ≠ key a) ∧ keepFirst key kept a = kept ++ [a] := by
  by_cases known : ∃ b ∈ kept, key b = key a
  · obtain ⟨b, mem, same⟩ := known
    exact Or.inl ⟨b, mem, same, keepFirst_of_known mem same⟩
  · have new : ∀ b ∈ kept, key b ≠ key a := fun b mem same => known ⟨b, mem, same⟩
    exact Or.inr ⟨new, keepFirst_of_new new⟩

theorem nodup_firsts (members : List α) : ((firsts key members).map key).Nodup := by
  -- the fold meets the last member last, so this and what follows go by the end of the list
  induction members using List.reverseRecOn with
  | nil => exact List.nodup_nil
  | append_singleton members a ih =>
    rw [firsts_snoc]
    obtain ⟨_, _, _, kept⟩ | ⟨new, kept⟩ := keepFirst_cases key (firsts key members) a
    · rwa [kept]
    · rw [kept, List.map_append, List.map_singleton]
      refine List.nodup_append.mpr ⟨ih, List.nodup_singleton _, fun k known l last => ?_⟩
      obtain ⟨b, mem, rfl⟩ := List.mem_map.mp known
      rw [List.mem_singleton.mp last]
      exact new b mem

theorem mem_of_mem_firsts {members : List α} {a : α} (mem : a ∈ firsts key members) :
    a ∈ members := by
  induction members using List.reverseRecOn with
  | nil => cases mem
  | append_singleton members b ih =>
    rw [firsts_snoc] at mem
    obtain ⟨_, _, _, kept⟩ | ⟨_, kept⟩ := keepFirst_cases key (firsts key members) b
    · rw [kept] at mem
      exact List.mem_append_left _ (ih mem)
    · rw [kept] at mem
      exact (List.mem_append.mp mem).elim (fun here => List.mem_append_left _ (ih here))
        (List.mem_append_right _)

theorem find?_firsts (members : List α) (k : κ) :
    (firsts key members).find? (fun a => key a == k) = members.find? fun a => key a == k := by
  induction members using List.reverseRecOn with
  | nil => rfl
  | append_singleton members a ih =>
    rw [firsts_snoc, List.find?_append, ← ih]
    obtain ⟨b, mem, same, kept⟩ | ⟨_, kept⟩ := keepFirst_cases key (firsts key members) a
    · rw [kept]
      by_cases here : key a = k
      · have found : ((firsts key members).find? fun a => key a == k).isSome = true :=
          List.find?_isSome.mpr ⟨b, mem, beq_iff_eq.mpr (same.trans here)⟩
        exact (Option.or_of_isSome found).symm
      · rw [List.find?_singleton, if_neg (by simpa using here), Option.or_none]
    · rw [kept, List.find?_append]

theorem firsts_prefix (members later : List α) :
    firsts key members <+: firsts key (members ++ later) := by
  induction later using List.reverseRecOn with
  | nil => simp
  | append_singleton later a ih =>
    rw [← List.append_assoc, firsts_snoc]
    obtain ⟨_, _, _, kept⟩ | ⟨_, kept⟩ := keepFirst_cases key (firsts key (members ++ later)) a
    · rwa [kept]
    · rw [kept]
      exact ih.trans (List.prefix_append _ _)

theorem keepFirst_id [DecidableEq α] (kept : List α) (a : α) :
    keepFirst id kept a = if a ∈ kept then kept else kept ++ [a] := by
  unfold keepFirst
  simp

theorem firsts_id [DecidableEq α] (members : List α) : firsts id members = members.eraseDups := by
  induction members using List.reverseRecOn with
  | nil => rfl
  | append_singleton members a ih =>
    rw [firsts_snoc, ih, List.eraseDups_append, keepFirst_id]
    by_cases known : a ∈ members <;> simp [List.removeAll, known, List.eraseDups_cons]

end Firsts

/-! ### Requests -/

/-- The stage can have variables of the qualifier outside `main()`. -/
def Stage.admits : Stage → Qualifier → Bool
  | _, .functionLocal => false
  | .fragment, .vertexInput => false
  | _, _ => true

namespace Registry

theorem misplaced?_eq_none_iff {r : Registry} {owner : String} {v : Variable} :
    r.misplaced? owner v = none ↔ r.stage.admits v.qualifier = true := by
  unfold misplaced?
  cases v.qualifier <;> cases r.stage <;> simp [Stage.admits]

/-- A call on a registry. -/
inductive Request where
  /-- Asks for the view in which the owner declares. -/
  | begin (owner : String)
  | declare (owner : String) (v : Variable)
  | directive (line : String)
  | precision (type : DataType) (precision : Precision)
  | helper (owner : String) (function : HelperFunction)

inductive Answer where
  | view (granted : Bool)
  | variable (v : Variable)
  | done

/-- The answer to a request, and the registry after it. -/
def handle (r : Registry) : Request → Except ShaderError Answer × Registry
  | .begin owner =>
    match r.begin? owner with
    | some next => (.ok (.view true), next)
    | none => (.ok (.view false), r)
  | .declare owner v =>
    match r.declare owner v with
    | .ok (given, next) => (.ok (.variable given), next)
    | .error e => (.error e, r)
  | .directive line => (.ok .done, r.addDirective line)
  | .precision ty p => (.ok .done, r.setPrecision ty p)
  | .helper owner f =>
    match r.addHelper owner f with
    | .ok next => (.ok .done, next)
    | .error e => (.error e, r)

def run (r : Registry) (requests : List Request) : Registry :=
  requests.foldl (fun r request => (r.handle request).2) r

def answers (r : Registry) : List Request → List (Except ShaderError Answer)
  | [] => []
  | request :: rest => (r.handle request).1 :: (r.handle request).2.answers rest

theorem run_append (r : Registry) (first second : List Request) :
    r.run (first ++ second) = (r.run first).run second :=
  List.foldl_append

theorem run_snoc (r : Registry) (requests : List Request) (request : Request) :
    r.run (requests ++ [request]) = ((r.run requests).handle request).2 :=
  r.run_append requests [request]

namespace Request

def owner? : Request → Option String
  | .begin owner => some owner
  | _ => none

/-- The entry that is asked for, if the stage can have such a variable. -/
def entry? (stage : Stage) : Request → Option Entry
  | .declare owner v => if stage.admits v.qualifier then some ⟨v, owner⟩ else none
  | _ => none

def line? : Request → Option String
  | .directive line => some line
  | _ => none

def precision? : Request → Option (DataType × Precision)
  | .precision ty p => some (ty, p)
  | _ => none

def helper? : Request → Option HelperFunction
  | .helper _ f => some f
  | _ => none

theorem mem_filterMap_owner? {requests : List Request} {owner : String} :
    owner ∈ requests.filterMap owner? ↔ .begin owner ∈ requests := by
  rw [List.mem_filterMap]
  constructor
  · rintro ⟨request, mem, same⟩
    cases request <;> cases same
    exact mem
  · exact fun mem => ⟨_, mem, rfl⟩

end Request

/-! ### What requests leave behind -/

/-- The first of each kind of thing that was asked for. -/
def recorded (stage : Stage) (requests : List Request) : Registry where
  stage := stage
  entries := firsts (fun e => e.var.name) (requests.filterMap (Request.entry? stage))
  directives := firsts id (requests.filterMap Request.line?)
  precisions := firsts Prod.fst (requests.filterMap Request.precision?)
  helpers := firsts HelperFunction.name (requests.filterMap Request.helper?)
  owners := firsts id (requests.filterMap Request.owner?)

/-- What is kept of a request when the first of each kind of thing is. -/
def keep (r : Registry) (request : Request) : Registry :=
  { r with
    entries := (request.entry? r.stage).elim r.entries (keepFirst (fun e => e.var.name) r.entries)
    directives := request.line?.elim r.directives (keepFirst id r.directives)
    precisions := request.precision?.elim r.precisions (keepFirst Prod.fst r.precisions)
    helpers := request.helper?.elim r.helpers (keepFirst HelperFunction.name r.helpers)
    owners := request.owner?.elim r.owners (keepFirst id r.owners) }

theorem recorded_snoc (stage : Stage) (requests : List Request) (request : Request) :
    recorded stage (requests ++ [request]) = (recorded stage requests).keep request := by
  simp only [recorded, keep, firsts_filterMap_snoc]

section Handling

variable (r : Registry) (owner : String)

theorem handle_begin : (r.handle (.begin owner)).2 = r.keep (.begin owner) := by
  simp only [keep, Request.owner?, Option.elim, keepFirst_id]
  unfold handle begin? hasBegun
  by_cases known : owner ∈ r.owners <;> simp [known, Request.entry?, Request.line?,
    Request.precision?, Request.helper?]

theorem handle_directive (line : String) :
    (r.handle (.directive line)).2 = r.keep (.directive line) := by
  simp only [keep, Request.line?, Option.elim, keepFirst_id]
  unfold handle addDirective
  by_cases known : line ∈ r.directives <;> simp [known, Request.entry?, Request.owner?,
    Request.precision?, Request.helper?]

theorem handle_precision (ty : DataType) (p : Precision) :
    (r.handle (.precision ty p)).2 = r.keep (.precision ty p) := by
  simp only [keep, Request.precision?, Option.elim]
  unfold handle setPrecision keepFirst
  dsimp only
  split <;> rfl

theorem handle_helper (f : HelperFunction) :
    (r.handle (.helper owner f)).2 = r.keep (.helper owner f) := by
  simp only [keep, Request.helper?, Option.elim]
  unfold handle addHelper
  dsimp only
  cases found : r.helpers.find? (·.name == f.name) with
  | none =>
    rw [keepFirst_of_new fun b mem same => List.find?_eq_none.mp found b mem (beq_iff_eq.mpr same)]
    rfl
  | some earlier =>
    have same : earlier.name = f.name := by simpa using List.find?_some found
    rw [keepFirst_of_known (List.mem_of_find?_eq_some found) same]
    by_cases same : earlier = f
    · simp only [if_pos same]
      rfl
    · simp only [if_neg same]
      rfl

theorem handle_declare (v : Variable) :
    (r.handle (.declare owner v)).2 = r.keep (.declare owner v) := by
  unfold handle declare
  dsimp only
  cases place : r.misplaced? owner v with
  | some cause =>
    have excluded : ¬ r.stage.admits v.qualifier = true := fun admitted => by
      rw [misplaced?_eq_none_iff.mpr admitted] at place
      cases place
    simp only [keep, Request.entry?, if_neg excluded]
    rfl
  | none =>
    simp only [keep, Request.entry?, if_pos (misplaced?_eq_none_iff.mp place), Option.elim]
    cases found : r.entry? v.name with
    | none =>
      rw [keepFirst_of_new fun b mem same => List.find?_eq_none.mp found b mem (beq_iff_eq.mpr same)]
      rfl
    | some e =>
      -- the name is taken: declared twice, shared or refused, no entry is added
      have same : e.var.name = v.name := by simpa using List.find?_some found
      rw [keepFirst_of_known (List.mem_of_find?_eq_some found) same]
      by_cases own : e.owner = owner
      · simp only [own, beq_self_eq_true, if_true]
        rfl
      · by_cases again : repeats v e.var = true
        · simp only [beq_eq_false_iff_ne.mpr own, again, if_true, Bool.false_eq_true, if_false]
          rfl
        · simp only [beq_eq_false_iff_ne.mpr own, again, Bool.false_eq_true, if_false]
          rfl

theorem handle_keeps (request : Request) : (r.handle request).2 = r.keep request := by
  cases request with
  | begin owner => exact r.handle_begin owner
  | declare owner v => exact r.handle_declare owner v
  | directive line => exact r.handle_directive line
  | precision ty p => exact r.handle_precision ty p
  | helper owner f => exact r.handle_helper owner f

end Handling

/-- A registry holds the first of everything that was asked for. -/
theorem run_empty (stage : Stage) (requests : List Request) :
    (empty stage).run requests = recorded stage requests := by
  induction requests using List.reverseRecOn with
  | nil => rfl
  | append_singleton requests request ih => rw [run_snoc, ih, recorded_snoc, handle_keeps]

/-! ### The rules of a registry -/

theorem names_nodup_run (stage : Stage) (requests : List Request) :
    (((empty stage).run requests).vars.map (·.name)).Nodup := by
  rw [run_empty, vars, List.map_map]
  exact nodup_firsts _

theorem handle_of_error {r : Registry} {request : Request} {e : ShaderError}
    (refused : (r.handle request).1 = .error e) : (r.handle request).2 = r := by
  cases request with
  | begin owner =>
    unfold handle at refused ⊢
    dsimp only at refused ⊢
    cases given : r.begin? owner with
    | none => rfl
    | some next =>
      rw [given] at refused
      cases refused
  | declare owner v =>
    unfold handle at refused ⊢
    dsimp only at refused ⊢
    cases declared : r.declare owner v with
    | error cause => rfl
    | ok p =>
      rw [declared] at refused
      cases refused
  | directive line => cases refused
  | precision ty p => cases refused
  | helper owner f =>
    unfold handle at refused ⊢
    dsimp only at refused ⊢
    cases added : r.addHelper owner f with
    | error cause => rfl
    | ok next =>
      rw [added] at refused
      cases refused

theorem entries_prefix_run (stage : Stage) (requests later : List Request) :
    ((empty stage).run requests).entries <+: ((empty stage).run (requests ++ later)).entries := by
  rw [run_empty, run_empty]
  unfold recorded
  dsimp only
  rw [List.filterMap_append]
  exact firsts_prefix _ _

theorem entry?_of_prefix {r s : Registry} (longer : r.entries <+: s.entries) {name : String}
    {e : Entry} (found : r.entry? name = some e) : s.entry? name = some e := by
  obtain ⟨more, whole⟩ := longer
  unfold entry? at found ⊢
  rw [← whole, List.find?_append, found, Option.some_or]

/-- The rules of a registry of the stage after requests, whether or not they were accepted. -/
structure HoldsFirst (stage : Stage) (requests : List Request) (r : Registry) : Prop where
  /-- Names are distinct, and under each is the first that was asked for, with its owner. -/
  names_nodup : (r.vars.map (·.name)).Nodup
  entry?_eq (name : String) :
    r.entry? name = (requests.filterMap (Request.entry? stage)).find? (·.var.name == name)
  /-- No local variable is registered, nor an attribute in a fragment shader. -/
  placed (v : Variable) : v ∈ r.vars →
    v.qualifier ≠ .functionLocal ∧ (stage = .fragment → v.qualifier ≠ .vertexInput)
  /-- What is registered under a name stays, with its owner, and variables come at the end. -/
  get?_later (later : List Request) (name : String) (v : Variable) :
    r.get? name = some v → (r.run later).get? name = some v
  ownerOf?_later (later : List Request) (name owner : String) :
    r.ownerOf? name = some owner → (r.run later).ownerOf? name = some owner
  vars_later (later : List Request) : r.vars <+: (r.run later).vars
  /-- Directives are without repetition, in the order in which they came first. -/
  directives_nodup : r.directives.Nodup
  directives_eq : r.directives = (requests.filterMap Request.line?).eraseDups
  /-- A type has one precision at most, the first that was asked for. -/
  precisions_nodup : (r.precisions.map Prod.fst).Nodup
  precision_eq (ty : DataType) :
    r.precisions.find? (·.1 == ty) = (requests.filterMap Request.precision?).find? (·.1 == ty)
  /-- A helper function has the first text that came under its name. -/
  helpers_nodup : (r.helpers.map (·.name)).Nodup
  helper_eq (name : String) :
    r.helpers.find? (·.name == name) =
      (requests.filterMap Request.helper?).find? (·.name == name)
  /-- Only an owner that has not asked before is given a view. -/
  granted_iff (owner : String) :
    (r.handle (.begin owner)).1 = .ok (.view true) ↔ .begin owner ∉ requests
  /-- A refused request changes nothing. -/
  refused (request : Request) (e : ShaderError) :
    (r.handle request).1 = .error e → (r.handle request).2 = r

theorem mem_vars_recorded {stage : Stage} {requests : List Request} {v : Variable}
    (mem : v ∈ (recorded stage requests).vars) : stage.admits v.qualifier = true := by
  obtain ⟨e, kept, rfl⟩ := List.mem_map.mp mem
  obtain ⟨request, _, asked⟩ := List.mem_filterMap.mp (mem_of_mem_firsts kept)
  cases request <;> simp only [Request.entry?] at asked <;> try cases asked
  split at asked
  · next admitted => cases asked; exact admitted
  · cases asked

theorem granted_iff_not_mem {stage : Stage} {requests : List Request} {owner : String} :
    ((recorded stage requests).handle (.begin owner)).1 = .ok (.view true) ↔
      .begin owner ∉ requests := by
  have known : owner ∈ (recorded stage requests).owners ↔ .begin owner ∈ requests := by
    rw [← Request.mem_filterMap_owner?]
    change owner ∈ firsts id _ ↔ _
    rw [firsts_id, List.mem_eraseDups]
  rw [← known]
  unfold handle begin? hasBegun
  by_cases mem : owner ∈ (recorded stage requests).owners <;> simp [mem]

/-- After all requests, by whomever and in whatever order, a registry keeps its rules. -/
theorem holdsFirst_run (stage : Stage) (requests : List Request) :
    HoldsFirst stage requests ((empty stage).run requests) := by
  -- what holds of one name for good comes from the entries being a prefix of all later ones
  have longer := fun later => entries_prefix_run stage requests later
  simp only [run_append] at longer
  have entry?_later : ∀ later name e, Registry.entry? ((empty stage).run requests) name = some e →
      Registry.entry? (((empty stage).run requests).run later) name = some e :=
    fun later _ _ => entry?_of_prefix (longer later)
  constructor
  case names_nodup => exact names_nodup_run stage requests
  case entry?_eq =>
    rw [run_empty]
    exact fun name => find?_firsts _ name
  case placed =>
    intro v mem
    rw [run_empty] at mem
    have admitted := mem_vars_recorded mem
    constructor
    · intro same
      simp [same, Stage.admits] at admitted
    · rintro rfl same
      simp [same, Stage.admits] at admitted
  case get?_later =>
    intro later name v found
    obtain ⟨e, here, rfl⟩ := Option.map_eq_some_iff.mp found
    exact Option.map_eq_some_iff.mpr ⟨e, entry?_later later name e here, rfl⟩
  case ownerOf?_later =>
    intro later name owner found
    obtain ⟨e, here, rfl⟩ := Option.map_eq_some_iff.mp found
    exact Option.map_eq_some_iff.mpr ⟨e, entry?_later later name e here, rfl⟩
  case vars_later => exact fun later => (longer later).map _
  case directives_nodup =>
    rw [run_empty, ← List.map_id (recorded stage requests).directives]
    exact nodup_firsts _
  case directives_eq =>
    rw [run_empty]
    exact firsts_id _
  case precisions_nodup =>
    rw [run_empty]
    exact nodup_firsts _
  case precision_eq =>
    rw [run_empty]
    exact fun ty => find?_firsts _ ty
  case helpers_nodup =>
    rw [run_empty]
    exact nodup_firsts _
  case helper_eq =>
    rw [run_empty]
    exact fun name => find?_firsts _ name
  case granted_iff =>
    rw [run_empty]
    exact fun owner => granted_iff_not_mem
  case refused => exact fun _ _ => handle_of_error

example :
    let shade : Variable := { name := "vShade", type := .vec3, qualifier := .varying }
    let r := (empty .fragment).run
      [.declare "first" shade, .declare "second" { shade with type := .vec4 },
        .declare "first" { shade with name := "aShade", qualifier := .vertexInput }]
    r.vars.map (·.name) = ["vShade"] ∧ (r.get? "vShade").map (·.type) = some .vec3 := by
  decide

/-! ### Names by place -/

/-- A registry with the place of each registered name. -/
structure Indexed where
  registry : Registry
  places : List (String × Nat)

namespace Indexed

def empty (stage : Stage) : Indexed := ⟨Registry.empty stage, []⟩

def entry? (x : Indexed) (name : String) : Option Entry :=
  (x.places.lookup name).bind fun place => x.registry.entries[place]?

def declare (x : Indexed) (owner : String) (v : Variable) :
    Except ShaderError (Variable × Indexed) :=
  match x.registry.misplaced? owner v with
  | some cause => .error (x.registry.conflict v.name cause)
  | none =>
    match x.entry? v.name with
    | none =>
      .ok (v, ⟨{ x.registry with entries := x.registry.entries ++ [⟨v, owner⟩] },
        (v.name, x.registry.entries.length) :: x.places⟩)
    | some e =>
      if e.owner == owner then .error (x.registry.conflict v.name (.declaredTwice owner))
      else if repeats v e.var then .ok (e.var, x)
      else .error (x.registry.conflict v.name (.differs owner v e.owner e.var))

/-- Only declarations go by names. -/
def handle (x : Indexed) : Request → Except ShaderError Answer × Indexed
  | .declare owner v =>
    match x.declare owner v with
    | .ok (given, next) => (.ok (.variable given), next)
    | .error e => (.error e, x)
  | request => ((x.registry.handle request).1, ⟨(x.registry.handle request).2, x.places⟩)

def run (x : Indexed) : List Request → List (Except ShaderError Answer) × Indexed
  | [] => ([], x)
  | request :: rest =>
    let (answers, last) := (x.handle request).2.run rest
    ((x.handle request).1 :: answers, last)

/-- Each name has the place of its entry. -/
def Coherent (x : Indexed) : Prop :=
  ∀ name, x.places.lookup name = x.registry.entries.findIdx? (·.var.name == name)

theorem coherent_empty (stage : Stage) : (empty stage).Coherent := fun _ => rfl

variable {x : Indexed}

theorem Coherent.entry?_eq (coherent : x.Coherent) (name : String) :
    x.entry? name = x.registry.entry? name := by
  unfold entry? Registry.entry?
  rw [coherent name, List.find?_eq_bind_findIdx?_getElem?]

theorem Coherent.insert (coherent : x.Coherent) {v : Variable} (owner : String)
    (new : x.registry.entry? v.name = none) :
    Coherent ⟨{ x.registry with entries := x.registry.entries ++ [⟨v, owner⟩] },
      (v.name, x.registry.entries.length) :: x.places⟩ := by
  intro name
  have none_here : x.registry.entries.findIdx? (·.var.name == v.name) = none :=
    List.findIdx?_eq_none_iff.mpr fun e mem => by
      simpa using List.find?_eq_none.mp new e mem
  dsimp only
  rw [List.lookup_cons, List.findIdx?_append, coherent name]
  by_cases here : name = v.name
  · subst here
    simp [none_here, List.findIdx?_singleton]
  · have apart : v.name ≠ name := fun same => here same.symm
    rw [beq_eq_false_iff_ne.mpr here]
    simp [apart, List.findIdx?_singleton]

theorem Coherent.of_entries (coherent : x.Coherent) {r : Registry}
    (same : r.entries = x.registry.entries) : Coherent ⟨r, x.places⟩ := by
  intro name
  dsimp only
  rw [same]
  exact coherent name

theorem Coherent.declare_eq (coherent : x.Coherent) (owner : String) (v : Variable) :
    (x.declare owner v).map (fun p => (p.1, p.2.registry)) = x.registry.declare owner v := by
  unfold declare Registry.declare
  rw [coherent.entry?_eq]
  cases x.registry.misplaced? owner v with
  | some cause => rfl
  | none =>
    cases x.registry.entry? v.name with
    | none => rfl
    | some e =>
      by_cases own : e.owner = owner
      · simp [own, Except.map]
      · by_cases again : repeats v e.var = true <;> simp [own, again, Except.map]

theorem Coherent.of_declare (coherent : x.Coherent) {owner : String} {v given : Variable}
    {next : Indexed} (declared : x.declare owner v = .ok (given, next)) : next.Coherent := by
  unfold declare at declared
  rw [coherent.entry?_eq] at declared
  cases place : x.registry.misplaced? owner v with
  | some cause =>
    rw [place] at declared
    cases declared
  | none =>
    rw [place] at declared
    cases found : x.registry.entry? v.name with
    | none =>
      rw [found] at declared
      cases declared
      exact coherent.insert owner found
    | some e =>
      rw [found] at declared
      dsimp only at declared
      split at declared
      · cases declared
      · split at declared
        · cases declared
          exact coherent
        · cases declared

theorem Coherent.handle (coherent : x.Coherent) (request : Request) :
    (x.handle request).1 = (x.registry.handle request).1 ∧
      (x.handle request).2.registry = (x.registry.handle request).2 ∧
        (x.handle request).2.Coherent := by
  cases request with
  | declare owner v =>
    unfold Indexed.handle Registry.handle
    dsimp only
    rw [← coherent.declare_eq owner v]
    cases declared : x.declare owner v with
    | error e => exact ⟨rfl, rfl, coherent⟩
    | ok p => exact ⟨rfl, rfl, coherent.of_declare declared⟩
  | begin owner => exact ⟨rfl, rfl, coherent.of_entries (by rw [handle_keeps]; rfl)⟩
  | directive line => exact ⟨rfl, rfl, coherent.of_entries (by rw [handle_keeps]; rfl)⟩
  | precision ty p => exact ⟨rfl, rfl, coherent.of_entries (by rw [handle_keeps]; rfl)⟩
  | helper owner f => exact ⟨rfl, rfl, coherent.of_entries (by rw [handle_keeps]; rfl)⟩

/-- Going by places, all requests are answered alike and leave the same registry. -/
theorem Coherent.run (requests : List Request) (coherent : x.Coherent) :
    (x.run requests).1 = x.registry.answers requests ∧
      (x.run requests).2.registry = x.registry.run requests ∧
        (x.run requests).2.Coherent := by
  induction requests generalizing x with
  | nil => exact ⟨rfl, rfl, coherent⟩
  | cons request rest ih =>
    obtain ⟨answer, left, next⟩ := coherent.handle request
    obtain ⟨answers, last, coherent⟩ := ih next
    rw [left] at answers last
    exact ⟨congrArg₂ List.cons answer answers, last, coherent⟩

theorem run_empty_eq (stage : Stage) (requests : List Request) :
    ((empty stage).run requests).1 = (Registry.empty stage).answers requests ∧
      ((empty stage).run requests).2.registry = (Registry.empty stage).run requests := by
  obtain ⟨answers, last, _⟩ := (coherent_empty stage).run requests
  exact ⟨answers, last⟩

end Indexed

end Registry

end ShaderComposer
