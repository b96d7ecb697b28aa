import Mathlib.Data.Finset.Card
import ShaderComposer.Proofs.Graphics.Programs

/-!
# Numbering of locations

The locations of a program are told by what its sources declare and mention. Each name gets the number
of different names before its first declaration (`Numbers.first`), so the locations of a program are
consecutive from zero on and no two names share one.
-/

namespace ShaderComposer

/-! ### Lists without repetitions -/

section

variable {α β : Type} [BEq α] [LawfulBEq α] [BEq β] [LawfulBEq β]

theorem eraseDups_concat (l : List α) (a : α) :
    (l ++ [a]).eraseDups = if a ∈ l then l.eraseDups else l.eraseDups ++ [a] := by
  rw [List.eraseDups_append]
  by_cases known : a ∈ l <;> simp [List.removeAll, known, List.eraseDups_cons]

theorem nodup_eraseDups (l : List α) : l.eraseDups.Nodup := by
  induction l using List.reverseRecOn with
  | nil => exact List.nodup_nil
  | append_singleton l a ih =>
    rw [eraseDups_concat]
    split
    · exact ih
    · next new =>
      have apart : ∀ x ∈ l.eraseDups, x ≠ a := by
        rintro x mem rfl
        exact new (List.mem_eraseDups.mp mem)
      exact List.nodup_append.mpr ⟨ih, List.nodup_singleton a, fun x mem y single =>
        List.mem_singleton.mp single ▸ apart x mem⟩

theorem eraseDups_map {f : α → β} (injective : Function.Injective f) (l : List α) :
    (l.map f).eraseDups = l.eraseDups.map f := by
  induction l using List.reverseRecOn with
  | nil => rfl
  | append_singleton l a ih =>
    rw [List.map_append, List.map_singleton, eraseDups_concat, eraseDups_concat, ih]
    by_cases known : a ∈ l
    · rw [if_pos known, if_pos (List.mem_map_of_mem known)]
    · have new : f a ∉ l.map f := fun mem => known ((List.mem_map_of_injective injective).mp mem)
      rw [if_neg known, if_neg new, List.map_append, List.map_singleton]

end

section

variable {α : Type} [DecidableEq α]

theorem length_eraseDups (l : List α) : l.eraseDups.length = l.toFinset.card := by
  have same : l.eraseDups.toFinset = l.toFinset := by
    ext a
    simp only [List.mem_toFinset, List.mem_eraseDups]
  rw [← same, List.toFinset_card_of_nodup (nodup_eraseDups l)]

/-- An element stands after the different elements that come before it. -/
theorem idxOf_eraseDups {before after : List α} {a : α} (first : a ∉ before) :
    (before ++ a :: after).eraseDups.idxOf a = before.toFinset.card := by
  have new : a ∉ before.eraseDups := fun mem => first (List.mem_eraseDups.mp mem)
  have rest : (a :: after).removeAll before = a :: after.removeAll before := by
    simp [List.removeAll, first]
  rw [List.eraseDups_append, rest, List.eraseDups_cons, List.idxOf_append, if_neg new,
    List.idxOf_cons_self, Nat.zero_add, length_eraseDups]

end

/-! ### Numbers of names -/

/-- The locations number the names of a list from zero on, in the order in which they first occur. -/
structure Numbers (names : List String) (location : String → Location) : Prop where
  first (before after : List String) (name : String) : names = before ++ name :: after →
    name ∉ before → location name = before.toFinset.card
  missing (name : String) : name ∉ names → location name = .notFound
  range (l : Location) : l.isValid = true →
    ((∃ name, location name = l) ↔ l < names.toFinset.card)
  apart (name other : String) : name ∈ names → location other = location name → other = name

namespace ProgramInterface

theorem locate_injective {names : List String} {name other : String}
    (valid : (locate names name).isValid = true)
    (same : locate names other = locate names name) : other = name := by
  unfold locate at valid same
  split at valid
  · next known =>
    rw [if_pos known] at same
    split at same
    · have places : names.idxOf other = names.idxOf name := Int.ofNat.inj same
      exact (List.idxOf_inj (List.contains_iff_mem.mp ‹_›)).mp places
    · simp [Location.notFound] at same
  · cases valid

theorem locate_of_mem {names : List String} {name : String} (known : name ∈ names) :
    locate names name = names.idxOf name := by
  rw [locate, if_pos (List.contains_iff_mem.mpr known)]

theorem locate_of_notMem {names : List String} {name : String} (unknown : name ∉ names) :
    locate names name = .notFound := by
  rw [locate, if_neg fun known => unknown (List.contains_iff_mem.mp known)]

theorem isValid_locate {names : List String} {name : String} :
    (locate names name).isValid = true ↔ name ∈ names := by
  by_cases known : name ∈ names
  · simp [locate_of_mem known, Location.isValid, known]
  · simp [locate_of_notMem known, Location.isValid, Location.notFound, known]

theorem isValid_uniformLocation {p : ProgramInterface} {name : String}
    (known : name ∈ p.uniforms) : (p.uniformLocation name).isValid = true :=
  isValid_locate.mpr known

theorem numbers_locate (names : List String) : Numbers names (locate names.eraseDups) := by
  constructor
  case first =>
    rintro before after name rfl first
    have known : name ∈ (before ++ name :: after).eraseDups :=
      List.mem_eraseDups.mpr (List.mem_append_right _ List.mem_cons_self)
    rw [locate_of_mem known, idxOf_eraseDups first]
  case missing =>
    intro name unknown
    exact locate_of_notMem fun mem => unknown (List.mem_eraseDups.mp mem)
  case range =>
    intro l valid
    rw [← length_eraseDups]
    constructor
    · rintro ⟨name, rfl⟩
      have known := isValid_locate.mp valid
      rw [locate_of_mem known]
      exact Int.ofNat_lt.mpr (List.idxOf_lt_length_of_mem known)
    · intro below
      obtain ⟨i, rfl⟩ := Int.eq_ofNat_of_zero_le (of_decide_eq_true valid)
      have inside : i < names.eraseDups.length := Int.ofNat_lt.mp below
      refine ⟨names.eraseDups[i], ?_⟩
      rw [locate_of_mem (List.getElem_mem inside), (nodup_eraseDups names).idxOf_getElem]
  case apart =>
    intro name other known same
    exact locate_injective (isValid_locate.mpr (List.mem_eraseDups.mpr known)) same

/-! ### Names of a program -/

def mentionedNames (mentioned : SourceScan.Text → Bool)
    (declared : List (SourceScan.Text × SourceScan.Text)) : List String :=
  ((declared.map (·.1)).filter mentioned).map String.ofList

theorem active_eq (mentioned : SourceScan.Text → Bool)
    (declared : List (SourceScan.Text × SourceScan.Text)) :
    active mentioned declared = (mentionedNames mentioned declared).eraseDups :=
  (eraseDups_map (fun _ _ => String.ofList_injective) _).symm

theorem mem_active {mentioned : SourceScan.Text → Bool}
    {declared : List (SourceScan.Text × SourceScan.Text)} {p : SourceScan.Text × SourceScan.Text}
    (mem : p ∈ declared) (used : mentioned p.1 = true) :
    String.ofList p.1 ∈ active mentioned declared :=
  List.mem_map_of_mem (List.mem_eraseDups.mpr (List.mem_filter.mpr ⟨List.mem_map_of_mem mem, used⟩))

/-- One of both sources mentions the name outside its declarations. -/
def isMentioned (vertex fragment : String) (name : SourceScan.Text) : Bool :=
  SourceScan.mentions name vertex.toList || SourceScan.mentions name fragment.toList

/-- The uniforms that a program declares and mentions, those of the vertex source first. -/
def uniformNames (vertex fragment : String) : List String :=
  mentionedNames (isMentioned vertex fragment)
    (SourceScan.declarations "uniform".toList vertex.toList ++
      SourceScan.declarations "uniform".toList fragment.toList)

/-- The attributes that the vertex source declares and one of both sources mentions. -/
def attributeNames (vertex fragment : String) : List String :=
  mentionedNames (isMentioned vertex fragment)
    (SourceScan.declarations "attribute".toList vertex.toList)

theorem numbers_uniforms (vertex fragment : String) : Numbers (uniformNames vertex fragment)
    (ofSources vertex.toList fragment.toList).uniformLocation := by
  have numbers := numbers_locate (uniformNames vertex fragment)
  rw [uniformNames, ← active_eq] at numbers
  exact numbers

theorem numbers_attributes (vertex fragment : String) : Numbers (attributeNames vertex fragment)
    (ofSources vertex.toList fragment.toList).attributeLocation := by
  have numbers := numbers_locate (attributeNames vertex fragment)
  rw [attributeNames, ← active_eq] at numbers
  exact numbers

end ProgramInterface

theorem Backend.uniformLocation_injective {b : Backend} {program : Nat} {name other : String}
    (valid : (b.uniformLocation program name).isValid = true)
    (same : b.uniformLocation program other = b.uniformLocation program name) : other = name := by
  unfold uniformLocation at valid same
  split at valid
  · next p found =>
    rw [found] at same
    exact ProgramInterface.locate_injective valid same
  · cases valid

end ShaderComposer
