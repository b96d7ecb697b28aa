import ShaderComposer.Proofs.Composition.Order
import ShaderComposer.Proofs.Source.FirstClaims

/-!
# Shared variables

A role has one canonical variable, and a shader asks for it by the role. It is answered with what is
registered under the name of the role, if type and qualifier are those of the role. Whether that is
an array is not looked at, although declarations tell arrays from other variables: the answer has
the shape of the canonical variable if and only if it is no array, and the canonical variable is
found where it is registered (`Registry.resolves_run`).
-/

namespace ShaderComposer

theorem Role.arrayLength_var (role : Role) : role.var.arrayLength = none := by
  cases role <;> rfl

namespace Registry

/-- What shaders are told of a role when these variables are registered. -/
structure Resolves (r : Registry) (role : Role) : Prop where
  get?_iff (attached : List String) (v : Variable) : (r.symbols attached).get? role = some v ↔
    v ∈ r.vars ∧ v.name = role.name ∧ v.type = role.var.type ∧ v.qualifier = role.var.qualifier
  require_iff (attached : List String) (v : Variable) :
    (r.symbols attached).require role = .ok v ↔ (r.symbols attached).get? role = some v
  missing_iff (attached : List String) (e : ShaderError) :
    (r.symbols attached).require role = .error e ↔
      (r.symbols attached).get? role = none ∧ e = .missingGlobal r.stage role.name
  /-- The answer is canonical unless it is an array. -/
  canonical_iff (attached : List String) (v : Variable) :
    (r.symbols attached).get? role = some v →
      (v.sameShape role.var = true ↔ v.arrayLength = none)
  /-- The canonical variable is found where it is registered. -/
  found (attached : List String) (v : Variable) : v ∈ r.vars → v.sameShape role.var = true →
    (r.symbols attached).get? role = some v
  /-- Later requests do not change the answer. -/
  stays (attached : List String) (later : List Request) (v : Variable) :
    (r.symbols attached).get? role = some v →
      ((r.run later).symbols attached).get? role = some v
  /-- Where the canonical declaration is accepted, the answer is what it gave back. -/
  declared (attached : List String) (owner : String) (v : Variable) :
    (r.handle (.declare owner role.var)).1 = .ok (.variable v) → v.sameShape role.var = true ∧
      ((r.handle (.declare owner role.var)).2.symbols attached).get? role = some v

/-! ### Looking a role up -/

variable {r : Registry} {role : Role} {v : Variable}

theorem roleVariable?_eq_some_iff : r.roleVariable? role = some v ↔
    r.get? role.name = some v ∧ v.type = role.var.type ∧ v.qualifier = role.var.qualifier := by
  unfold roleVariable?
  rw [Option.filter_eq_some_iff]
  simp

theorem get?_eq_some_iff (distinct : (r.vars.map (·.name)).Nodup) {name : String} :
    r.get? name = some v ↔ v ∈ r.vars ∧ v.name = name := by
  constructor
  · exact mem_of_get?
  · rintro ⟨mem, rfl⟩
    exact get?_of_mem distinct mem

theorem get?_symbols_iff (distinct : (r.vars.map (·.name)).Nodup) {attached : List String} :
    (r.symbols attached).get? role = some v ↔
      v ∈ r.vars ∧ v.name = role.name ∧ v.type = role.var.type ∧
        v.qualifier = role.var.qualifier := by
  rw [get?_symbols, roleVariable?_eq_some_iff, get?_eq_some_iff distinct, and_assoc]

theorem get?_symbols_of_sameShape (distinct : (r.vars.map (·.name)).Nodup) (mem : v ∈ r.vars)
    (same : v.sameShape role.var = true) (attached : List String) :
    (r.symbols attached).get? role = some v := by
  obtain ⟨name, type, qualifier, _⟩ := Variable.sameShape_iff.mp same
  exact (get?_symbols_iff distinct).mpr ⟨mem, name, type, qualifier⟩

theorem sameShape_role_iff (name : v.name = role.name) (type : v.type = role.var.type)
    (qualifier : v.qualifier = role.var.qualifier) :
    v.sameShape role.var = true ↔ v.arrayLength = none := by
  rw [Variable.sameShape_iff, role.arrayLength_var]
  constructor
  · exact fun same => same.2.2.2
  · exact fun plain => ⟨name, type, qualifier, plain⟩

theorem mem_vars_of_answer {owner : String} {w : Variable}
    (ok : (r.handle (.declare owner w)).1 = .ok (.variable v)) :
    v ∈ (r.handle (.declare owner w)).2.vars ∧ v.sameShape w = true := by
  unfold handle at ok ⊢
  dsimp only at ok ⊢
  cases declared : r.declare owner w with
  | error e =>
    rw [declared] at ok
    cases ok
  | ok p =>
    rw [declared] at ok
    obtain ⟨given, next⟩ := p
    cases ok
    obtain ⟨_, mem, same, _⟩ := grows_declare declared
    exact ⟨mem, same⟩

/-- Whatever was declared, by whomever and in whatever order, a role is answered with the variable
registered under its name with its type and qualifier, which is canonical unless it is an array. -/
theorem resolves_run (stage : Stage) (requests : List Request) (role : Role) :
    ((empty stage).run requests).Resolves role := by
  have distinct := names_nodup_run stage requests
  constructor
  case get?_iff => exact fun attached v => get?_symbols_iff distinct
  case require_iff =>
    intro attached v
    unfold Symbols.require
    cases (((empty stage).run requests).symbols attached).get? role <;> simp
  case missing_iff =>
    intro attached e
    unfold Symbols.require
    cases (((empty stage).run requests).symbols attached).get? role with
    | some v => simp
    | none =>
      simp only [Except.error.injEq, true_and]
      exact eq_comm
  case canonical_iff =>
    intro attached v given
    obtain ⟨_, name, type, qualifier⟩ := (get?_symbols_iff distinct).mp given
    exact sameShape_role_iff name type qualifier
  case found =>
    exact fun attached v mem same => get?_symbols_of_sameShape distinct mem same attached
  case stays =>
    intro attached later v given
    obtain ⟨mem, shape⟩ := (get?_symbols_iff distinct).mp given
    have longer := entries_prefix_run stage requests later
    have still := names_nodup_run stage (requests ++ later)
    rw [run_append] at longer still
    exact (get?_symbols_iff still).mpr ⟨(longer.map _).subset mem, shape⟩
  case declared =>
    intro attached owner v ok
    obtain ⟨mem, same⟩ := mem_vars_of_answer ok
    have after := names_nodup_run stage (requests ++ [.declare owner role.var])
    rw [run_snoc] at after
    exact ⟨same, get?_symbols_of_sameShape after mem same attached⟩

/-- An array of bone matrices under the name of the role of one. -/
def boneArray : Variable := { Role.gBoneTransfMatrix.var with arrayLength := some 4 }

/-- The array is the answer for the role, while the same registry holds that the canonical variable
is another one. -/
theorem finds_array_of_role :
    ∃ r, r = (empty .vertex).run [.declare "skin" boneArray] ∧
      (r.symbols []).get? .gBoneTransfMatrix = some boneArray ∧
      (r.symbols []).require .gBoneTransfMatrix = .ok boneArray ∧
      boneArray.sameShape Role.gBoneTransfMatrix.var = false ∧
      (r.handle (.declare "core" Role.gBoneTransfMatrix.var)).1 =
        .error (.declarationConflict .vertex "gBoneTransfMatrix"
          (.differs "core" Role.gBoneTransfMatrix.var "skin" boneArray)) :=
  ⟨_, rfl, rfl, rfl, rfl, rfl⟩

end Registry

end ShaderComposer
