import ShaderComposer.Proofs.Composition.Interface
import ShaderComposer.Proofs.Material.BuiltIn
import ShaderComposer.Proofs.Material.NewMaterial

/-!
# Varyings of both stages

The fragment stage reads directions for cube maps if the feature or a texture asks for them; the
vertex stage writes them if the feature does. So the stages of a material with built-in effects fit
together, and a backend links them, exactly if the feature is on whenever there is a cube map
(`World.links_of_compose`). Adding and removing textures sees to that; a change of settings can turn
the feature off under a cube map, and then the stages compose and do not link.
-/

namespace ShaderComposer

open SourceScan (Text declarations)

/-! ### Varyings that a stage declares -/

theorem mem_shown_varying? {steps : List DeclareStep} {p : Text × Text} :
    p ∈ (steps.filterMap DeclareStep.varying?).map Registry.shown ↔
      ∃ draft : VariableDraft, .declare draft ∈ steps ∧ draft.var.qualifier = .varying ∧
        p = (draft.var.name.toList, draft.var.type.name.toList) := by
  constructor
  · intro mem
    obtain ⟨v, inside, rfl⟩ := List.mem_map.mp mem
    obtain ⟨step, known, made⟩ := List.mem_filterMap.mp inside
    cases step with
    | declare draft =>
      rw [DeclareStep.varying?] at made
      split at made
      · next varying =>
        obtain rfl := Option.some.inj made
        exact ⟨draft, known, varying, rfl⟩
      · cases made
    | _ => cases made
  · rintro ⟨draft, known, varying, rfl⟩
    refine List.mem_map_of_mem (f := Registry.shown) (List.mem_filterMap.mpr ⟨_, known, ?_⟩)
    rw [DeclareStep.varying?, if_pos varying]

/-- Every varying of the fragment stage is a varying of the vertex stage with the same type. -/
def Composition.Connected (c : Composition) : Prop :=
  declarations "varying".toList c.fragment.source.text.toList ⊆
    declarations "varying".toList c.vertex.source.text.toList

variable {m : Material}

namespace Material

def hasCubeMap (m : Material) : Bool := m.textures.any fun t => t.kind == .cubeMap

/-- Directions for cube maps are passed on if there is a cube map. -/
def servesCubeMaps (m : Material) : Bool := !m.hasCubeMap || m.settings.features.cubeMaps

theorem IsPlain.mem_declarations_iff (plain : m.IsPlain) {stage : Stage} {c : StageComposition}
    (made : m.stageResult stage = .ok c) {p : Text × Text} :
    p ∈ declarations "varying".toList c.source.text.toList ↔
      p ∈ (m.varyings stage).map Registry.shown := by
  have quiet := plain.isQuiet stage
  rw [← fragments_attach] at quiet
  rw [CoreShader.mem_declarations_iff made quiet (q := .varying) rfl (by decide),
    ← plain.filterMap_varying?, mem_shown_varying?, fragments_attach]

/-! ### Directions for cube maps -/

def cubeDirections : Text × Text := Registry.shown Role.vCubeTextureCoord.var

end Material

theorem Registry.shown_ne_of_name {v w : Variable} (differ : v.name ≠ w.name) :
    (Registry.shown v).1 ≠ (Registry.shown w).1 :=
  fun same => differ (String.toList_injective same)

theorem Effect.name_ne_vCubeTextureCoord (e : Effect) :
    ∀ v ∈ e.varyings, v.name ≠ Role.vCubeTextureCoord.name := by
  cases e with
  | fog _ | shadowMap _ => simp [varyings, Role.name, Role.var]
  | _ =>
    intro v mem
    cases mem

namespace Material

theorem mem_varyings {p : Text × Text} {stage : Stage} {roles : List Role}
    (core : m.varyings stage = roles.map Role.var ++ m.effects.flatMap Effect.varyings) :
    p ∈ (m.varyings stage).map Registry.shown ↔
      (∃ role ∈ roles, Registry.shown role.var = p) ∨
        ∃ e ∈ m.effects, ∃ v ∈ e.varyings, Registry.shown v = p := by
  rw [core, List.map_append, List.mem_append, List.map_map, List.mem_map]
  refine or_congr Iff.rfl ?_
  constructor
  · intro mem
    obtain ⟨v, inside, same⟩ := List.mem_map.mp mem
    obtain ⟨e, known, here⟩ := List.mem_flatMap.mp inside
    exact ⟨e, known, v, here, same⟩
  · rintro ⟨e, known, v, here, rfl⟩
    exact List.mem_map_of_mem (List.mem_flatMap.mpr ⟨e, known, here⟩)

/-- What the fragment stage reads, the vertex stage writes, but for the directions that cube maps
without the feature ask for. -/
theorem mem_vertex_of_mem_fragment {p : Text × Text}
    (mem : p ∈ (m.varyings .fragment).map Registry.shown) :
    p ∈ (m.varyings .vertex).map Registry.shown ∨
      p = cubeDirections ∧ m.servesCubeMaps = false := by
  rcases (mem_varyings rfl).mp mem with ⟨role, known, rfl⟩ | effect
  · have written {role : Role} (known : role ∈ CoreVertex.varyings m.settings.features) :
        Registry.shown role.var ∈ (m.varyings .vertex).map Registry.shown :=
      (mem_varyings rfl).mpr (Or.inl ⟨role, known, rfl⟩)
    rcases List.mem_append.mp known with known | known
    · rcases List.mem_append.mp known with known | known
      · obtain rfl := List.mem_singleton.mp known
        exact Or.inl (written (by simp [CoreVertex.varyings]))
      · cases feature : m.settings.features.cubeMaps with
        | true =>
          rw [feature, Bool.true_or, if_pos rfl] at known
          obtain rfl := List.mem_singleton.mp known
          exact Or.inl (written (by simp [CoreVertex.varyings, CoreVertex.optional, feature]))
        | false =>
          rw [feature, Bool.false_or] at known
          split at known
          · next asked =>
            obtain rfl := List.mem_singleton.mp known
            exact Or.inr ⟨rfl, by rw [servesCubeMaps, hasCubeMap, asked, feature]; rfl⟩
          · cases known
    · refine Or.inl (written ?_)
      rcases List.mem_cons.mp known with rfl | known
      · simp [CoreVertex.varyings]
      · obtain rfl := List.mem_singleton.mp known
        simp [CoreVertex.varyings]
  · exact Or.inl ((mem_varyings rfl).mpr (Or.inr effect))

/-- Directions that cube maps without the feature ask for are read and never written. -/
theorem cubeDirections_of_not_serves (unserved : m.servesCubeMaps = false) :
    cubeDirections ∈ (m.varyings .fragment).map Registry.shown ∧
      ∀ p ∈ (m.varyings .vertex).map Registry.shown, p.1 ≠ cubeDirections.1 := by
  obtain ⟨cube, feature⟩ := Bool.or_eq_false_iff.mp unserved
  have asked : (m.textures.any fun t => t.kind == .cubeMap) = true := by
    simpa [hasCubeMap] using cube
  constructor
  · refine (mem_varyings rfl).mpr (Or.inl ⟨.vCubeTextureCoord, ?_, rfl⟩)
    simp [CoreFragment.varyings, asked]
  · intro p mem
    rcases (mem_varyings rfl).mp mem with ⟨role, known, rfl⟩ | ⟨e, _, v, here, rfl⟩
    · refine Registry.shown_ne_of_name fun same => ?_
      obtain rfl : role = .vCubeTextureCoord := Role.name_injective same
      rw [CoreVertex.varyings, feature] at known
      simp [CoreVertex.optional] at known
    · exact Registry.shown_ne_of_name (e.name_ne_vCubeTextureCoord v here)

/-! ### Linking -/

/-- What a backend says of a fragment stage that asks for directions in vain. -/
def cubeDirectionsLog : String := "varying `vCubeTextureCoord` is not written by the vertex stage"

theorem IsPlain.connected_iff (plain : m.IsPlain) {c : Composition} {units : UnitPlan}
    (parts : m.composeParts = .ok (c, units)) : c.Connected ↔ m.servesCubeMaps = true := by
  obtain ⟨vertex, fragment⟩ := stageResult_of_composeParts parts
  constructor
  · intro connected
    by_contra unserved
    obtain ⟨read, unwritten⟩ := cubeDirections_of_not_serves (Bool.not_eq_true _ ▸ unserved)
    have written := connected ((plain.mem_declarations_iff fragment).mpr read)
    exact unwritten _ ((plain.mem_declarations_iff vertex).mp written) rfl
  · intro served p mem
    rcases mem_vertex_of_mem_fragment ((plain.mem_declarations_iff fragment).mp mem) with
      written | ⟨_, unserved⟩
    · exact (plain.mem_declarations_iff vertex).mpr written
    · rw [served] at unserved
      cases unserved

theorem linkFault_of_composeParts (plain : m.IsPlain) {c : Composition} {units : UnitPlan}
    (parts : m.composeParts = .ok (c, units))
    (distinct : ((declarations "varying".toList c.vertex.source.text.toList).map Prod.fst).Nodup) :
    linkFault c.vertex.source.text.toList c.fragment.source.text.toList =
      if m.servesCubeMaps then none else some cubeDirectionsLog := by
  obtain ⟨vertex, fragment⟩ := stageResult_of_composeParts parts
  have link : linkFault c.vertex.source.text.toList c.fragment.source.text.toList = none ↔
      c.Connected := linkFault_eq_none_iff distinct
  split
  · next served => exact link.mpr ((plain.connected_iff parts).mpr served)
  · next unserved =>
    cases found : linkFault c.vertex.source.text.toList c.fragment.source.text.toList with
    | none => exact absurd ((plain.connected_iff parts).mp (link.mp found)) unserved
    | some log =>
      -- only the directions can be what the log is about
      obtain ⟨p, read, fault⟩ := List.exists_of_findSome?_eq_some found
      rcases mem_vertex_of_mem_fragment ((plain.mem_declarations_iff fragment).mp read) with
        written | ⟨rfl, _⟩
      · have none := (varyingFault_eq_none_iff distinct).mpr
          ((plain.mem_declarations_iff vertex).mpr written)
        rw [none] at fault
        cases fault
      · have unwritten := (cubeDirections_of_not_serves ((Bool.not_eq_true _).mp unserved)).2
        have missing : ∀ q ∈ declarations "varying".toList c.vertex.source.text.toList,
            q.1 ≠ cubeDirections.1 := fun q mem =>
          unwritten q ((plain.mem_declarations_iff vertex).mp mem)
        have name : String.ofList cubeDirections.1 = "vCubeTextureCoord" := String.ofList_toList
        rw [varyingFault_of_unwritten missing, name] at fault
        rw [← Option.some.inj fault]
        rfl

/-- A backend has nothing against the stages, or misses the directions for cube maps. -/
theorem sourceFault_of_composeParts (plain : m.IsPlain) {c : Composition} {units : UnitPlan}
    (parts : m.composeParts = .ok (c, units)) :
    sourceFault c.vertex.source.text c.fragment.source.text =
      if m.servesCubeMaps then none else some (none, cubeDirectionsLog) := by
  obtain ⟨vertex, fragment⟩ := stageResult_of_composeParts parts
  have quiet (stage : Stage) : (m.coreShader stage).IsQuiet
      (((stageFragments m.effects stage).map Fragment.attach).map (·.fragment)) :=
    (fragments_attach m.effects stage).symm ▸ plain.isQuiet stage
  have distinct := CoreShader.nodup_declarations vertex (quiet .vertex) (q := .varying) rfl
    (by decide : "varying".toList ∈ SourceScan.qualifiers)
  rw [sourceFault, CoreShader.stageFault_of_compose vertex (quiet .vertex),
    CoreShader.stageFault_of_compose fragment (quiet .fragment)]
  dsimp only
  rw [linkFault_of_composeParts plain parts distinct]
  split <;> rfl

/-- The stages of a plain material compile after composing exactly if cube maps are served. -/
theorem IsPlain.result_compile (plain : m.IsPlain) {b b' : Backend} {c : Composition}
    (ok : (m.compose b).result = .ok c) (calm : b'.pendingFailure = none)
    (enough : (m.compose b).material.units.total ≤ (m.compose b).material.unitLimit b') :
    ((m.compose b).material.compile b').result =
      if m.servesCubeMaps then .ok b'.nextProgram.toNat
      else .error (.rejected ⟨none,
        c.vertex.source.text ++ "\n" ++ c.fragment.source.text, cubeDirectionsLog⟩) := by
  obtain ⟨n, units, parts, kept⟩ := parts_of_compose ok
  rw [kept] at enough ⊢
  rw [Material.result_compile rfl (far_withComposition n c units) enough, Backend.compileAndLink,
    calm, Option.none_or, sourceFault_of_composeParts plain parts]
  cases m.servesCubeMaps <;> rfl

end Material

/-! ### Runs -/

/-- A change of settings leaves directions for cube maps on while there is a cube map. -/
def Operation.KeepsCubeMaps (m : Material) : Operation → Prop
  | setFeatures features => m.hasCubeMap = true → features.cubeMaps = true
  | updateSettings f => m.hasCubeMap = true → (f m.settings).features.cubeMaps = true
  | _ => True

namespace Material

theorem servesCubeMaps_iff : m.servesCubeMaps = true ↔
    (m.hasCubeMap = true → m.settings.features.cubeMaps = true) := by
  rw [servesCubeMaps]
  cases m.hasCubeMap <;> simp

theorem servesCubeMaps_congr {n : Material} (same : n.configuration = m.configuration) :
    n.servesCubeMaps = m.servesCubeMaps := by
  injection same with features _ _ _ textures _
  rw [servesCubeMaps, servesCubeMaps, hasCubeMap, hasCubeMap, features, textures]

theorem servesCubeMaps_addTexture (serves : m.servesCubeMaps = true) (t : MaterialTexture) :
    (m.addTexture t).2.1.servesCubeMaps = true := by
  unfold addTexture
  split
  · exact serves
  · dsimp only
    split
    · exact serves
    · refine servesCubeMaps_iff.mpr fun has => ?_
      show (if t.kind = .cubeMap then withCubeMaps m.settings true
        else m.settings).features.cubeMaps = true
      split
      · rfl
      · next other =>
        refine servesCubeMaps_iff.mp serves ?_
        have split : (m.textures ++ [t]).any (fun t => t.kind == .cubeMap) = true := has
        simpa [hasCubeMap, other] using split

theorem servesCubeMaps_removeTexture (serves : m.servesCubeMaps = true) (name : String) :
    (m.removeTexture name).2.servesCubeMaps = true := by
  unfold removeTexture
  split
  · exact serves
  · next removed found =>
    refine servesCubeMaps_iff.mpr fun has => ?_
    have left : ((m.textures.eraseP fun t => t.name == name).any fun t => t.kind == .cubeMap) =
      true := has
    have feature : m.settings.features.cubeMaps = true := by
      refine servesCubeMaps_iff.mp serves ?_
      obtain ⟨t, inside, cube⟩ := List.any_eq_true.mp left
      exact List.any_eq_true.mpr ⟨t, List.mem_of_mem_eraseP inside, cube⟩
    show (if removed.kind = .cubeMap ∧ _ then withCubeMaps m.settings false
      else m.settings).features.cubeMaps = true
    rw [if_neg fun last => by rw [left] at last; cases last.2]
    exact feature

end Material

theorem Changes.servesCubeMaps {π : Permit} {n : Material} {b c : Backend} {links : List Link}
    (changes : Changes π m b links n c) : n.servesCubeMaps = m.servesCubeMaps :=
  Material.servesCubeMaps_congr changes.configuration

/-- Adding and removing textures keeps cube maps served, and so does every operation that does not
change the settings. -/
theorem Operation.servesCubeMaps_perform {b : Backend} {op : Operation}
    (serves : m.servesCubeMaps = true) (keeps : op.KeepsCubeMaps m) :
    (op.perform m b).material.servesCubeMaps = true := by
  cases op with
  | setFeatures features => exact Material.servesCubeMaps_iff.mpr keeps
  | updateSettings f => exact Material.servesCubeMaps_iff.mpr keeps
  | addTexture t => exact Material.servesCubeMaps_addTexture serves t
  | removeTexture name => exact Material.servesCubeMaps_removeTexture serves name
  | addEffect e =>
    simp only [perform, Material.addEffect]
    split <;> exact serves
  | removeEffect id =>
    simp only [perform, Material.removeEffect]
    split <;> exact serves
  | clearEffects =>
    simp only [perform, Material.clearEffects]
    split <;> exact serves
  | compose => exact (m.compose_changes (π := .any) b).servesCubeMaps.trans serves
  | compile =>
    exact (m.compile_changes (π := .any) b fun _ => trivial).servesCubeMaps.trans serves
  | linkLocations => exact (m.linkLocations_changes (π := .any) b).servesCubeMaps.trans serves
  | build => exact (m.build_changes (π := .any) b fun _ => trivial).servesCubeMaps.trans serves
  | frame call => exact (call.perform_changes (π := .any) m b).servesCubeMaps.trans serves
  | activate => exact (m.activate_changes (π := .any) b).servesCubeMaps.trans serves
  | setEffect _ | setTime _ | setVertexParams _ | setFragmentParams _ | contextLost | release =>
    exact serves

namespace World

variable {w : World} {i : Nat}

/-- The step leaves directions for cube maps on while the material has a cube map. -/
def KeepsCubeMaps (i : Nat) (w : World) : Step → Prop
  | .material j op => j = i → ∀ m, w.materials[i]? = some m → op.KeepsCubeMaps m
  | _ => True

theorem servesCubeMaps_step {s : Step}
    (serves : ∀ m, w.materials[i]? = some m → m.servesCubeMaps = true) (keeps : w.KeepsCubeMaps i s) :
    ∀ m, (w.step s).materials[i]? = some m → m.servesCubeMaps = true := by
  cases s with
  | loseContext => exact serves
  | failNextCompile stage log => exact serves
  | material j op =>
    cases present : w.materials[j]? with
    | none => simpa only [step, present] using serves
    | some n =>
      intro m here
      rw [step_material present, getElem?_put present] at here
      by_cases same : i = j
      · subst same
        rw [if_pos rfl] at here
        obtain rfl := Option.some.inj here
        exact Operation.servesCubeMaps_perform (serves n present) (keeps rfl n present)
      · rw [if_neg same] at here
        exact serves m here

theorem servesCubeMaps_run {steps : List Step}
    (serves : ∀ m, w.materials[i]? = some m → m.servesCubeMaps = true)
    (keeps : w.Along (KeepsCubeMaps i) steps) :
    ∀ m, (w.run steps).materials[i]? = some m → m.servesCubeMaps = true := by
  induction steps generalizing w with
  | nil => exact serves
  | cons s rest ih => exact ih (servesCubeMaps_step serves keeps.1) keeps.2

theorem servesCubeMaps_fresh (materials : List (String × Settings)) (limit : Nat) :
    ∀ m, (fresh materials limit).materials[i]? = some m → m.servesCubeMaps = true := by
  intro m present
  obtain ⟨name, settings, rfl⟩ := exists_of_fresh present
  rfl

/-- The stages of a material with built-in effects fit together, and a backend links them, exactly
if cube maps are served, as they are as long as no change of settings takes the directions away. -/
theorem links_of_compose {materials : List (String × Settings)} {limit : Nat} {steps : List Step}
    {m : Material} {b : Backend} {c : Composition}
    (present : ((fresh materials limit).run steps).materials[i]? = some m) (plain : m.IsPlain)
    (ok : (m.compose b).result = .ok c) :
    ((fresh materials limit).Along (KeepsCubeMaps i) steps → m.servesCubeMaps = true) ∧
      (c.Connected ↔ m.servesCubeMaps = true) ∧
      ∀ b' : Backend, b'.pendingFailure = none →
        (m.compose b).material.units.total ≤ (m.compose b).material.unitLimit b' →
        ((m.compose b).material.compile b').result =
          if m.servesCubeMaps then .ok b'.nextProgram.toNat
          else .error (.rejected ⟨none,
            c.vertex.source.text ++ "\n" ++ c.fragment.source.text,
            Material.cubeDirectionsLog⟩) := by
  obtain ⟨_, _, parts, _⟩ := Material.parts_of_compose ok
  exact ⟨fun keeps => servesCubeMaps_run (servesCubeMaps_fresh materials limit) keeps m present,
    plain.connected_iff parts, fun b' calm enough => plain.result_compile ok calm enough⟩

/-- The material is plain and composes, with cube maps served or not, and needs few units. -/
def composesWith (served : Bool) (units : Nat) (m : Material) : Bool :=
  (m.effects.all Effect.isBuiltIn && m.textures.all MaterialTexture.isNamed) &&
    (m.servesCubeMaps == served && (m.settings.maxTextureUnits.isNone &&
      m.composeParts.toOption.any fun made => decide (made.2.total ≤ units)))

theorem compose_of_composesWith {served : Bool} {units : Nat}
    (composes : composesWith served units m = true) :
    m.IsPlain ∧ m.servesCubeMaps = served ∧ ∃ c, ∀ b : Backend, (m.compose b).result = .ok c ∧
      ∀ b' : Backend, units ≤ b'.maxTextureUnits →
        (m.compose b).material.units.total ≤ (m.compose b).material.unitLimit b' := by
  simp only [composesWith, Bool.and_eq_true, List.all_eq_true, beq_iff_eq, Option.isNone_iff_eq_none,
    Option.any_eq_true, decide_eq_true_eq] at composes
  obtain ⟨⟨builtIn, named⟩, serves, limit, ⟨c, plan⟩, made, few⟩ := composes
  have parts : m.composeParts = .ok (c, plan) := by
    cases whole : m.composeParts with
    | error e =>
      rw [whole] at made
      cases made
    | ok made' =>
      rw [whole] at made
      rw [Option.some.inj made]
  refine ⟨⟨builtIn, named⟩, serves, c, fun b => ?_⟩
  obtain ⟨n, ⟨_, rfl⟩, composing⟩ := Material.compose_of_parts parts b
  rw [composing]
  refine ⟨rfl, fun b' enough => ?_⟩
  show plan.total ≤ m.settings.maxTextureUnits.getD b'.maxTextureUnits
  rw [limit]
  exact Nat.le_trans few enough

def skyTexture : MaterialTexture := ⟨"uSky", .cubeMap, ⟨.cube, 4⟩⟩

/-- A sky with fog and an alpha mask, whose features are changed with directions left on. -/
def skyRun : List Step :=
  [.material 0 (.addTexture skyTexture), .material 0 (.addEffect (.fog {})),
    .material 0 (.addEffect (.alphaMask { mask := some ⟨.flat, 5⟩ })),
    .material 0 (.setFeatures { cubeMaps := true, skyTexture := true })]

theorem links_of_compose_sky :
    ∃ m c, ((fresh [("m", {})] 8).run skyRun).materials[0]? = some m ∧ m.IsPlain ∧
      (m.compose (.create 8 false)).result = .ok c ∧ c.Connected ∧
      ((m.compose (.create 8 false)).material.compile (.create 8 false)).result = .ok 1 := by
  have computed : (((fresh [("m", {})] 8).run skyRun).materials[0]?.map (composesWith true 2)) =
      some true := by
    decide +kernel
  obtain ⟨m, present, composes⟩ := Option.map_eq_some_iff.mp computed
  obtain ⟨plain, serves, c, composed⟩ := compose_of_composesWith composes
  obtain ⟨ok, enough⟩ := composed (.create 8 false)
  obtain ⟨_, connected, compiled⟩ := links_of_compose present plain ok
  have linked := compiled (.create 8 false) rfl (enough _ (by decide))
  rw [serves, if_pos rfl] at linked
  exact ⟨m, c, present, plain, ok, connected.mpr serves, linked⟩

/-- A sky whose directions are taken away while the texture stays composes and does not link. -/
theorem not_connected_of_cleared_directions :
    ∃ m c, ((fresh [("m", {})] 8).run
        [.material 0 (.addTexture skyTexture), .material 0 (.setFeatures {})]).materials[0]? = some m ∧
      m.IsPlain ∧ (m.compose (.create 8 false)).result = .ok c ∧ ¬ c.Connected ∧
      ((m.compose (.create 8 false)).material.compile (.create 8 false)).result =
        .error (.rejected ⟨none, c.vertex.source.text ++ "\n" ++ c.fragment.source.text,
          "varying `vCubeTextureCoord` is not written by the vertex stage"⟩) := by
  have computed : (((fresh [("m", {})] 8).run [.material 0 (.addTexture skyTexture),
      .material 0 (.setFeatures {})]).materials[0]?.map (composesWith false 1)) = some true := by
    decide +kernel
  obtain ⟨m, present, composes⟩ := Option.map_eq_some_iff.mp computed
  obtain ⟨plain, serves, c, composed⟩ := compose_of_composesWith composes
  obtain ⟨ok, enough⟩ := composed (.create 8 false)
  obtain ⟨_, _, parts, _⟩ := Material.parts_of_compose ok
  have rejected := plain.result_compile ok rfl (enough (.create 8 false) (by decide))
  rw [serves, if_neg (by decide)] at rejected
  refine ⟨m, c, present, plain, ok, fun connected => ?_, rejected⟩
  have served := (plain.connected_iff parts).mp connected
  rw [serves] at served
  cases served

end World

end ShaderComposer
