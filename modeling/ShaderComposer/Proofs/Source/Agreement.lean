import Mathlib.Data.List.Induction
import Mathlib.Data.List.Pairwise
import ShaderComposer.Proofs.Source.Redeclaration

/-!
# Requests that agree

A registry compares a declaration with the first under its name only. Since repetition is symmetric
and transitive, that comes to the same as comparing all declarations of a name with each other, as
long as no owner asks for a name twice: a registry then grants all of some requests in one order if
and only if it grants them in any other (`Registry.grantsAll_perm`).

An owner that does ask twice is refused only if the name was registered for it
(`Registry.askedAgain_run`).
-/

namespace ShaderComposer

/-! ### Repetition -/

namespace Expr

mutual
theorem hasNaN_level : (e : Expr) → e.level.hasNaN = e.hasNaN
  | var _ _ => rfl
  | literal (.float v) => v.isNaN_level
  | literal (.int _) => rfl
  | literal (.bool _) => rfl
  | binary _ l r => by simp only [level, hasNaN, hasNaN_level l, hasNaN_level r]
  | negate e => hasNaN_level e
  | swizzle b _ => hasNaN_level b
  | index b i _ => by simp only [level, hasNaN, hasNaN_level b, hasNaN_level i]
  | call _ as => anyNaN_levelAll as
  | construct _ as => anyNaN_levelAll as
  | group e => hasNaN_level e
theorem anyNaN_levelAll : (as : List Expr) → anyNaN (levelAll as) = anyNaN as
  | [] => rfl
  | a :: as => by simp only [levelAll, anyNaN, hasNaN_level a, anyNaN_levelAll as]
end

end Expr

namespace Variable

theorem sameInitial_symm {a b : Option Expr} (same : sameInitial a b = true) :
    sameInitial b a = true := by
  cases a with
  | none =>
    cases b with
    | none => rfl
    | some e => cases same
  | some d =>
    cases b with
    | none => cases same
    | some e =>
      obtain ⟨number, levels⟩ := (d.same_iff e).mp same
      refine (e.same_iff d).mpr ⟨?_, levels.symm⟩
      rw [← e.hasNaN_level, ← levels, d.hasNaN_level, number]

theorem sameInitial_trans {a b c : Option Expr} (first : sameInitial a b = true)
    (second : sameInitial b c = true) : sameInitial a c = true := by
  rw [sameInitial_iff] at first second ⊢
  exact ⟨first.1, first.2.trans second.2⟩

theorem same_symm {v w : Variable} (same : v.same w = true) : w.same v = true := by
  simp only [Variable.same, Bool.and_eq_true, beq_iff_eq] at same ⊢
  obtain ⟨⟨shape, precision⟩, initial⟩ := same
  exact ⟨⟨sameShape_symm shape, precision.symm⟩, sameInitial_symm initial⟩

theorem same_trans {v w x : Variable} (first : v.same w = true) (second : w.same x = true) :
    v.same x = true := by
  simp only [Variable.same, Bool.and_eq_true, beq_iff_eq] at first second ⊢
  obtain ⟨⟨shape, precision⟩, initial⟩ := first
  obtain ⟨⟨shape', precision'⟩, initial'⟩ := second
  exact ⟨⟨sameShape_trans shape shape', precision.trans precision'⟩,
    sameInitial_trans initial initial'⟩

end Variable

namespace Registry

section Repeats

variable {v w x : Variable}

theorem qualifier_of_repeats (again : repeats v w = true) : w.qualifier = v.qualifier :=
  (Variable.sameShape_iff.mp (sameShape_of_repeats again)).2.2.1

theorem repeats_symm (again : repeats v w = true) : repeats w v = true := by
  have qualifier := qualifier_of_repeats again
  unfold repeats at again ⊢
  rw [qualifier]
  by_cases constant : (v.qualifier == .const) = true
  · rw [if_pos constant] at again ⊢
    exact Variable.same_symm again
  · rw [if_neg constant] at again ⊢
    exact Variable.sameShape_symm again

theorem repeats_trans (first : repeats v w = true) (second : repeats w x = true) :
    repeats v x = true := by
  have qualifier := qualifier_of_repeats first
  unfold repeats at first second ⊢
  rw [qualifier] at second
  by_cases constant : (v.qualifier == .const) = true
  · rw [if_pos constant] at first second ⊢
    exact Variable.same_trans second first
  · rw [if_neg constant] at first second ⊢
    exact Variable.sameShape_trans second first

end Repeats

/-! ### Requests that are granted -/

def granted : Except ShaderError Answer → Bool
  | .ok (.view given) => given
  | .ok (.variable _) => true
  | .ok .done => true
  | .error _ => false

/-- No request is refused, and every owner is given its view. -/
def GrantsAll (r : Registry) (requests : List Request) : Prop :=
  ∀ answer ∈ r.answers requests, granted answer = true

theorem grantsAll_cons {r : Registry} {request : Request} {rest : List Request} :
    r.GrantsAll (request :: rest) ↔
      granted (r.handle request).1 = true ∧ (r.handle request).2.GrantsAll rest := by
  simp [GrantsAll, answers]

theorem grantsAll_append {r : Registry} {first second : List Request} :
    r.GrantsAll (first ++ second) ↔ r.GrantsAll first ∧ (r.run first).GrantsAll second := by
  induction first generalizing r with
  | nil => simp [GrantsAll, answers, run]
  | cons request first ih =>
    rw [List.cons_append, grantsAll_cons, ih, grantsAll_cons, and_assoc]
    rfl

theorem granted_declare {r : Registry} {owner : String} {v : Variable} :
    granted (r.handle (.declare owner v)).1 = true ↔ r.Accepts owner v := by
  unfold Accepts handle
  dsimp only
  cases r.declare owner v with
  | error e => simp [granted]
  | ok given => simp [granted]

namespace Request

/-- What a request has to be to be granted after others. -/
def Fits (stage : Stage) (before : List Request) : Request → Prop
  | .begin owner => .begin owner ∉ before
  | .declare owner v => stage.admits v.qualifier = true ∧
    ∀ e, (before.filterMap (Request.entry? stage)).find? (·.var.name == v.name) = some e →
      e.owner ≠ owner ∧ repeats v e.var = true
  | .helper _ f => ∀ g, (before.filterMap helper?).find? (·.name == f.name) = some g → g = f
  | .directive _ | .precision .. => True

end Request

theorem accepts_iff_fits {stage : Stage} {before : List Request} {owner : String} {v : Variable} :
    (recorded stage before).Accepts owner v ↔ (Request.declare owner v).Fits stage before := by
  have entry : Registry.entry? (recorded stage before) v.name =
      (before.filterMap (Request.entry? stage)).find? (·.var.name == v.name) := find?_firsts _ v.name
  have places : (recorded stage before).misplaced? owner v = none ↔
      stage.admits v.qualifier = true := misplaced?_eq_none_iff
  show _ ↔ stage.admits v.qualifier = true ∧ ∀ e : Entry, _ = some e → e.owner ≠ owner ∧ _
  rw [← entry, ← granted_declare]
  unfold handle declare
  dsimp only
  cases place : (recorded stage before).misplaced? owner v with
  | some cause =>
    rw [place] at places
    have excluded : ¬ stage.admits v.qualifier = true := fun admitted => by
      cases places.mpr admitted
    simp [granted, excluded]
  | none =>
    rw [and_iff_right (places.mp place)]
    cases known : Registry.entry? (recorded stage before) v.name with
    | none => simp [granted]
    | some e =>
      by_cases own : e.owner = owner
      · simp [granted, own]
      · by_cases again : repeats v e.var = true
        · simp [granted, own, again]
        · simp [granted, own, again]

theorem granted_iff_fits {stage : Stage} {before : List Request} (request : Request) :
    granted ((recorded stage before).handle request).1 = true ↔ request.Fits stage before := by
  cases request with
  | begin owner =>
    rw [Request.Fits, ← granted_iff_not_mem]
    unfold handle
    dsimp only
    cases (recorded stage before).begin? owner <;> simp [granted]
  | declare owner v => rw [granted_declare, accepts_iff_fits]
  | directive line => simp [handle, granted, Request.Fits]
  | precision ty p => simp [handle, granted, Request.Fits]
  | helper owner f =>
    have found : (recorded stage before).helpers.find? (·.name == f.name) =
        (before.filterMap Request.helper?).find? (·.name == f.name) := find?_firsts _ f.name
    rw [Request.Fits, ← found]
    unfold handle addHelper
    dsimp only
    cases known : (recorded stage before).helpers.find? (·.name == f.name) with
    | none => simp [granted]
    | some g => by_cases same : g = f <;> simp [granted, same]

/-- Requests are granted if each fits those before it. -/
theorem grantsAll_iff {stage : Stage} {requests : List Request} :
    (empty stage).GrantsAll requests ↔
      ∀ before request after, requests = before ++ request :: after →
        request.Fits stage before := by
  induction requests using List.reverseRecOn with
  | nil => simp [GrantsAll, answers]
  | append_singleton requests last ih =>
    have one (r : Registry) : r.GrantsAll [last] ↔ granted (r.handle last).1 = true := by
      simp [GrantsAll, answers]
    rw [grantsAll_append, ih, one, run_empty, granted_iff_fits]
    constructor
    · rintro ⟨earlier, fits⟩ before request after whole
      rcases after.eq_nil_or_concat with rfl | ⟨after, l, rfl⟩
      · obtain ⟨rfl, same⟩ := List.append_inj' whole rfl
        obtain rfl := (List.cons.inj same).1
        exact fits
      · apply earlier before request after
        have shape : before ++ request :: after.concat l = (before ++ request :: after) ++ [l] := by
          simp
        rw [shape] at whole
        exact List.append_inj_left' whole rfl
    · intro all
      refine ⟨?_, all requests last [] rfl⟩
      rintro before request after rfl
      exact all before request (after ++ [last]) (by simp)

/-! ### Requests that agree -/

namespace Request

/-- The requests do not exclude each other. -/
def Agrees : Request → Request → Prop
  | .begin owner, .begin other => owner ≠ other
  | .declare owner v, .declare other w => v.name = w.name → owner ≠ other ∧ repeats w v = true
  | .helper _ f, .helper _ g => f.name = g.name → f = g
  | _, _ => True

/-- The stage can have what is asked for. -/
def IsPlaced (stage : Stage) : Request → Prop
  | .declare _ v => stage.admits v.qualifier = true
  | _ => True

def claim? : Request → Option (String × String)
  | .declare owner v => some (owner, v.name)
  | _ => none

theorem Agrees.symm {a b : Request} (agrees : a.Agrees b) : b.Agrees a := by
  cases a with
  | begin owner =>
    cases b with
    | begin other => exact Ne.symm agrees
    | _ => trivial
  | declare owner v =>
    cases b with
    | declare other w =>
      intro named
      obtain ⟨apart, again⟩ := agrees named.symm
      exact ⟨apart.symm, repeats_symm again⟩
    | _ => trivial
  | helper owner f =>
    cases b with
    | helper other g => exact fun named => (agrees named.symm).symm
    | _ => trivial
  | directive line => cases b <;> trivial
  | precision ty p => cases b <;> trivial

instance : Std.Symm Agrees := ⟨fun _ _ => Agrees.symm⟩

theorem mem_of_entry {stage : Stage} {requests : List Request} {e : Entry}
    (mem : e ∈ requests.filterMap (Request.entry? stage)) : .declare e.owner e.var ∈ requests := by
  obtain ⟨request, known, asked⟩ := List.mem_filterMap.mp mem
  cases request with
  | declare owner v =>
    simp only [Request.entry?] at asked
    split at asked
    · cases asked
      exact known
    · cases asked
  | _ => cases asked

theorem eq_declare_of_claim {request : Request} {claim : String × String}
    (asks : request.claim? = some claim) :
    ∃ v, request = .declare claim.1 v ∧ v.name = claim.2 := by
  cases request with
  | declare owner v =>
    cases asks
    exact ⟨v, rfl, rfl⟩
  | _ => cases asks

theorem mem_of_helper {requests : List Request} {f : HelperFunction}
    (mem : f ∈ requests.filterMap helper?) : ∃ owner, .helper owner f ∈ requests := by
  obtain ⟨request, known, asked⟩ := List.mem_filterMap.mp mem
  cases request with
  | helper owner g =>
    cases asked
    exact ⟨owner, known⟩
  | _ => cases asked

end Request

theorem fits_of_agrees {stage : Stage} {before : List Request} {request : Request}
    (agrees : ∀ a ∈ before, a.Agrees request) (placed : request.IsPlaced stage) :
    request.Fits stage before := by
  cases request with
  | begin owner =>
    intro mem
    exact agrees _ mem rfl
  | declare owner v =>
    refine ⟨placed, ?_⟩
    intro e found
    have named : e.var.name = v.name := by simpa using List.find?_some found
    exact agrees _ (Request.mem_of_entry (List.mem_of_find?_eq_some found)) named
  | helper owner f =>
    intro g found
    have named : g.name = f.name := by simpa using List.find?_some found
    obtain ⟨other, mem⟩ := Request.mem_of_helper (List.mem_of_find?_eq_some found)
    exact agrees _ mem named
  | directive line => trivial
  | precision ty p => trivial

theorem isPlaced_of_fits {stage : Stage} {before : List Request} {request : Request}
    (fits : request.Fits stage before) : request.IsPlaced stage := by
  cases request with
  | declare owner v => exact fits.1
  | _ => trivial

theorem isPlaced_of_grantsAll {stage : Stage} {requests : List Request}
    (grants : (empty stage).GrantsAll requests) : ∀ request ∈ requests, request.IsPlaced stage := by
  intro request mem
  obtain ⟨before, after, whole⟩ := List.append_of_mem mem
  exact isPlaced_of_fits (grantsAll_iff.mp grants before request after whole)

/-- A declaration of a known name repeats the first of that name, which is of another owner. -/
theorem exists_declare_of_fits {stage : Stage} {before : List Request} {owner other : String}
    {v w : Variable} (mem : .declare other w ∈ before)
    (placed : (Request.declare other w).IsPlaced stage) (named : w.name = v.name)
    (fits : (Request.declare owner v).Fits stage before) :
    ∃ first x, .declare first x ∈ before ∧ x.name = v.name ∧ first ≠ owner ∧ repeats v x = true := by
  have asked : (⟨w, other⟩ : Entry) ∈ before.filterMap (Request.entry? stage) :=
    List.mem_filterMap.mpr ⟨_, mem, if_pos placed⟩
  obtain ⟨e, found⟩ : ∃ e, (before.filterMap (Request.entry? stage)).find?
      (·.var.name == v.name) = some e := by
    apply Option.isSome_iff_exists.mp
    exact List.find?_isSome.mpr ⟨_, asked, beq_iff_eq.mpr named⟩
  obtain ⟨apart, again⟩ := fits.2 e found
  have same : e.var.name = v.name := by simpa using List.find?_some found
  have known := Request.mem_of_entry (List.mem_of_find?_eq_some found)
  exact ⟨e.owner, e.var, known, same, apart, again⟩

/-- A helper of a known name is the first of that name. -/
theorem exists_helper_of_fits {stage : Stage} {before : List Request} {owner other : String}
    {f g : HelperFunction} (mem : .helper other g ∈ before) (named : g.name = f.name)
    (fits : (Request.helper owner f).Fits stage before) : ∃ first, .helper first f ∈ before := by
  have asked : g ∈ before.filterMap Request.helper? := List.mem_filterMap.mpr ⟨_, mem, rfl⟩
  obtain ⟨h, found⟩ : ∃ h, (before.filterMap Request.helper?).find? (·.name == f.name) =
      some h := by
    apply Option.isSome_iff_exists.mp
    exact List.find?_isSome.mpr ⟨_, asked, beq_iff_eq.mpr named⟩
  obtain rfl := fits h found
  exact Request.mem_of_helper (List.mem_of_find?_eq_some found)

/-- What fits after requests that agree agrees with all of them, and not only with the first of its
name. An owner that has not asked for the name is another. -/
theorem agrees_of_fits {stage : Stage} {before : List Request} {request : Request}
    (agree : before.Pairwise Request.Agrees) (placed : ∀ a ∈ before, a.IsPlaced stage)
    (once : ∀ claim ∈ request.claim?, claim ∉ before.filterMap Request.claim?)
    (fits : request.Fits stage before) : ∀ a ∈ before, a.Agrees request := by
  have both : ∀ a ∈ before, ∀ b ∈ before, a ≠ b → a.Agrees b :=
    fun a mem b mem' differ => agree.forall mem mem' differ
  intro a mem
  cases request with
  | begin owner =>
    cases a with
    | begin other =>
      rintro rfl
      exact fits mem
    | _ => trivial
  | declare owner v =>
    cases a with
    | declare other w =>
      intro named
      have apart : other ≠ owner := by
        rintro rfl
        refine once (other, v.name) rfl (List.mem_filterMap.mpr ⟨_, mem, ?_⟩)
        rw [← named]
        rfl
      obtain ⟨first, x, known, same, _, again⟩ :=
        exists_declare_of_fits mem (placed _ mem) named fits
      refine ⟨apart, ?_⟩
      -- it is the first of its name, or it agrees with the first
      by_cases here : Request.declare first x = .declare other w
      · cases here
        exact again
      · exact repeats_trans again (both _ mem _ known (Ne.symm here) (named.trans same.symm)).2
    | _ => trivial
  | helper owner f =>
    cases a with
    | helper other g =>
      intro named
      obtain ⟨first, known⟩ := exists_helper_of_fits mem named fits
      by_cases here : Request.helper other g = .helper first f
      · cases here
        rfl
      · exact both _ mem _ known here named
    | _ => trivial
  | directive line => cases a <;> trivial
  | precision ty p => cases a <;> trivial

/-- If no owner asks for a name twice, requests are granted just when all of them agree. -/
theorem grantsAll_iff_agree {stage : Stage} {requests : List Request}
    (once : (requests.filterMap Request.claim?).Nodup) :
    (empty stage).GrantsAll requests ↔
      requests.Pairwise Request.Agrees ∧ ∀ request ∈ requests, request.IsPlaced stage := by
  constructor
  · intro grants
    refine ⟨?_, isPlaced_of_grantsAll grants⟩
    induction requests using List.reverseRecOn with
    | nil => exact .nil
    | append_singleton requests last ih =>
      rw [List.filterMap_append, List.nodup_append] at once
      obtain ⟨earlier, _, apart⟩ := once
      have first := (grantsAll_append.mp grants).1
      have fits := grantsAll_iff.mp grants requests last [] rfl
      have new : ∀ claim ∈ last.claim?, claim ∉ requests.filterMap Request.claim? := by
        intro claim here known
        exact apart claim known claim (List.mem_filterMap.mpr ⟨last, by simp, here⟩) rfl
      refine List.pairwise_append.mpr ⟨ih earlier first, List.pairwise_singleton _ _, ?_⟩
      intro a mem b mem'
      obtain rfl := List.mem_singleton.mp mem'
      exact agrees_of_fits (ih earlier first) (isPlaced_of_grantsAll first) new fits a mem
  · rintro ⟨agree, placed⟩
    apply grantsAll_iff.mpr
    rintro before request after rfl
    obtain ⟨_, _, across⟩ := List.pairwise_append.mp agree
    refine fits_of_agrees ?_ (placed request (by simp))
    intro a mem
    exact across a mem request List.mem_cons_self

theorem grantsAll_perm {stage : Stage} {requests others : List Request}
    (perm : requests.Perm others) (once : (requests.filterMap Request.claim?).Nodup) :
    (empty stage).GrantsAll requests ↔ (empty stage).GrantsAll others := by
  have once' : (others.filterMap Request.claim?).Nodup := (perm.filterMap _).nodup_iff.mp once
  rw [grantsAll_iff_agree once, grantsAll_iff_agree once',
    perm.pairwise_iff fun agrees => Request.Agrees.symm agrees]
  refine and_congr_right fun _ => forall_congr' fun request => ?_
  rw [perm.mem_iff]

theorem nodup_filterMap_of_split {α κ : Type} {key? : α → Option κ} {members : List α}
    (new : ∀ before a after, members = before ++ a :: after →
      ∀ k ∈ key? a, k ∉ before.filterMap key?) : (members.filterMap key?).Nodup := by
  induction members using List.reverseRecOn with
  | nil => exact List.nodup_nil
  | append_singleton members last ih =>
    have earlier : (members.filterMap key?).Nodup := by
      apply ih
      rintro before a after rfl
      exact new before a (after ++ [last]) (by simp)
    rw [List.filterMap_append]
    cases made : key? last with
    | none => simpa [made] using earlier
    | some k => simpa [made] using earlier.concat (new members last [] rfl k made)

theorem nodup_owners_of_grantsAll {stage : Stage} {requests : List Request}
    (grants : (empty stage).GrantsAll requests) : (requests.filterMap Request.owner?).Nodup := by
  apply nodup_filterMap_of_split
  intro before request after whole owner asks known
  have fits := grantsAll_iff.mp grants before request after whole
  cases request with
  | begin other =>
    cases asks
    exact fits (Request.mem_filterMap_owner?.mp known)
  | _ => cases asks

/-- An owner whose requests are all granted asks for no name twice, if no other declares. -/
theorem nodup_claims_of_grantsAll {stage : Stage} {requests : List Request} {owner : String}
    (alone : ∀ claim ∈ requests.filterMap Request.claim?, claim.1 = owner)
    (grants : (empty stage).GrantsAll requests) : (requests.filterMap Request.claim?).Nodup := by
  apply nodup_filterMap_of_split
  rintro before request after rfl claim asks known
  have fits := grantsAll_iff.mp grants before request after rfl
  have placed := isPlaced_of_grantsAll (grantsAll_append.mp grants).1
  rw [List.filterMap_append] at alone
  obtain ⟨earlier, mem, claims⟩ := List.mem_filterMap.mp known
  obtain ⟨w, rfl, named⟩ := Request.eq_declare_of_claim claims
  obtain ⟨v, rfl, named'⟩ := Request.eq_declare_of_claim asks
  obtain ⟨first, x, asked, _, apart, _⟩ :=
    exists_declare_of_fits mem (placed _ mem) (named.trans named'.symm) fits
  have registered : first = owner := alone (first, x.name)
    (List.mem_append_left _ (List.mem_filterMap.mpr ⟨_, asked, rfl⟩))
  have asking : claim.1 = owner := alone claim (List.mem_append_left _ known)
  exact apart (registered.trans asking.symm)

/-! ### A name that an owner asks for again -/

/-- What becomes of a declaration by an owner that has declared the name before, `e` being what is
registered under it. -/
structure AskedAgain (stage : Stage) (r : Registry) (owner : String) (v w : Variable) (e : Entry) :
    Prop where
  known : r.entry? v.name = some e
  /-- Only the owner that the name is registered for is refused for asking again. -/
  accepts_iff :
    r.Accepts owner w ↔
      e.owner ≠ owner ∧ stage.admits w.qualifier = true ∧ repeats w e.var = true
  /-- The same declaration is accepted again from any other owner. -/
  accepts_same_iff : r.Accepts owner v ↔ e.owner ≠ owner
  /-- A refusal is a conflict, and the registry never changes. -/
  answered :
    r.handle (.declare owner w) = (.ok (.variable e.var), r) ∨
      ∃ cause, r.handle (.declare owner w) = (.error (.declarationConflict stage w.name cause), r)

theorem handle_declare_own {r : Registry} {owner : String} {w : Variable} {e : Entry}
    (known : r.entry? w.name = some e) (own : e.owner = owner) :
    ∃ cause, r.handle (.declare owner w) =
      (.error (.declarationConflict r.stage w.name cause), r) := by
  cases place : r.misplaced? owner w with
  | some cause =>
    refine ⟨cause, ?_⟩
    simp only [handle, declare, place, conflict]
  | none =>
    refine ⟨.declaredTwice owner, ?_⟩
    simp only [handle, declare_twice place known own, conflict]

/-- An accepted declaration leaves the name registered: for its owner, or as what it repeats. -/
theorem exists_entry_of_accepts {stage : Stage} {requests : List Request} {owner : String}
    {v : Variable} (accepted : (recorded stage requests).Accepts owner v) :
    ∃ e, Registry.entry? (recorded stage (requests ++ [.declare owner v])) v.name = some e ∧
      (e.owner ≠ owner → repeats v e.var = true) := by
  obtain ⟨admitted, fits⟩ := accepts_iff_fits.mp accepted
  have entries : (requests ++ [Request.declare owner v]).filterMap (Request.entry? stage) =
      requests.filterMap (Request.entry? stage) ++ [⟨v, owner⟩] := by
    simp [List.filterMap_append, Request.entry?, admitted]
  have entry : Registry.entry? (recorded stage (requests ++ [.declare owner v])) v.name =
      ((requests.filterMap (Request.entry? stage)).find? (·.var.name == v.name)).or
        (some ⟨v, owner⟩) := by
    have found : (firsts (fun e : Entry => e.var.name)
        ((requests ++ [Request.declare owner v]).filterMap (Request.entry? stage))).find?
          (fun e => e.var.name == v.name) = _ := find?_firsts _ v.name
    rw [entries, List.find?_append, List.find?_singleton, if_pos (beq_self_eq_true _)] at found
    rw [Registry.entry?, recorded, entries]
    exact found
  rw [entry]
  cases known : (requests.filterMap (Request.entry? stage)).find? (·.var.name == v.name) with
  | none => exact ⟨_, rfl, fun other => absurd rfl other⟩
  | some e => exact ⟨e, rfl, fun _ => (fits e known).2⟩

/-- Whatever was asked before, between and by whomever, an owner whose declaration was accepted is
refused the name again only if it is registered for that owner. -/
theorem askedAgain_run {stage : Stage} {requests later : List Request} {owner : String}
    {v w : Variable} (accepted : ((empty stage).run requests).Accepts owner v)
    (named : w.name = v.name) :
    ∃ e, AskedAgain stage ((empty stage).run (requests ++ .declare owner v :: later)) owner v w e := by
  rw [run_empty] at accepted
  obtain ⟨e, entry, repeated⟩ := exists_entry_of_accepts accepted
  have admitted : stage.admits v.qualifier = true := (accepts_iff_fits.mp accepted).1
  have known : Registry.entry? ((empty stage).run (requests ++ .declare owner v :: later)) v.name =
      some e := by
    have longer := entries_prefix_run stage (requests ++ [.declare owner v]) later
    rw [List.append_assoc, run_empty] at longer
    exact entry?_of_prefix longer entry
  have staged := stage_run stage (requests ++ .declare owner v :: later)
  generalize (empty stage).run (requests ++ .declare owner v :: later) = r at known staged ⊢
  subst staged
  have known' : r.entry? w.name = some e := by rw [named, known]
  refine ⟨e, ?_⟩
  by_cases own : e.owner = owner
  · have refused {x : Variable} (here : r.entry? x.name = some e) : ¬ r.Accepts owner x := by
      rintro ⟨given, accepts⟩
      obtain ⟨cause, conflict⟩ := handle_declare_own here own
      rw [conflict] at accepts
      cases accepts
    exact {
      known := known
      accepts_iff := iff_of_false (refused known') fun both => both.1 own
      accepts_same_iff := iff_of_false (refused known) fun other => other own
      answered := Or.inr (handle_declare_own known' own) }
  · refine ⟨known, ?_, ?_, ?_⟩
    · rw [accepts_iff_repeats known' own, and_iff_right own]
    · rw [accepts_iff_repeats known own]
      exact iff_of_true ⟨admitted, repeated own⟩ own
    · rcases handle_declare_known known' own with ⟨given, _⟩ | ⟨refused, _⟩
      · exact Or.inl given
      · exact Or.inr refused

end Registry

end ShaderComposer
