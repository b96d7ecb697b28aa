import ShaderComposer.Proofs.Material.Freshness
import ShaderComposer.Proofs.Material.NewMaterial

/-!
# One material among others

After a build everything that composing left behind is of the present version, whatever the versions
of materials went through before. From then on one material is followed among others: what its build
says stays true as long as its own version does not wrap. If there are others, the handles of programs
must not start over either, for then two materials may have the same one. The core shaders of a
material were made with the features and textures that it has (`Material.Attuned`).
-/

namespace ShaderComposer

/-! ### What the core shaders were made with -/

namespace Material

variable {m n : Material} {b c : Backend} {links more : List Link}

/-- The core shaders were made with the features and the textures of the material. -/
structure ShadersAgree (m : Material) : Prop where
  features : m.shaderFeatures = m.settings.features
  samplers : m.samplers = m.textures.map (·.name)

/-- The core shaders agree with the material if it was composed or linked at its version. -/
structure Attuned (m : Material) : Prop where
  composed : m.isCurrent = true → m.composed.isSome = true → m.ShadersAgree
  linked : ∀ p, m.program = .live p → p.version = m.version → m.ShadersAgree

theorem SameBuild.shadersAgree (same : m.SameBuild n) (agree : m.ShadersAgree) :
    n.ShadersAgree where
  features := by
    have features : n.settings.features = m.settings.features :=
      congrArg Configuration.features same.configuration
    rw [same.shaderFeatures, features, agree.features]
  samplers := by
    have textures : n.textures = m.textures := congrArg Configuration.textures same.configuration
    rw [same.samplers, textures, agree.samplers]

theorem attuned_create (name : String) (settings : Settings) : (create name settings).Attuned :=
  ⟨fun _ composed => (by cases composed), fun p live => (by cases live)⟩

theorem Built.attuned_of_mutated (built : m.Built b links) (mutated : m.Mutated n)
    (grows : m.version < n.version) : n.Attuned where
  composed current :=
    absurd (beq_iff_eq.mp current) (UInt64.ne_of_lt (built.composedVersion_lt mutated grows))
  linked _ live same := absurd same (built.version_ne mutated grows live)

theorem Attuned.changed (attuned : m.Attuned) {π : Permit} (change : Change π m b more n c) :
    n.Attuned := by
  -- a change that leaves features and textures, and the core shaders with them
  have still (agree : m.ShadersAgree → n.ShadersAgree)
      (composed : n.isCurrent = true → n.composed.isSome = true →
        m.isCurrent = true ∧ m.composed.isSome = true)
      (linked : ∀ p, n.program = .live p → p.version = n.version →
        m.ShadersAgree) : n.Attuned :=
    ⟨fun current some => agree (attuned.composed (composed current some).1 (composed current some).2),
      fun p live same => agree (linked p live same)⟩
  cases change with
  | adjusted calls same _ =>
    refine still same.shadersAgree (fun current some => ?_) fun p live version => ?_
    · rw [isCurrent, same.composedVersion, same.version] at current
      exact ⟨current, same.composed ▸ some⟩
    · exact attuned.linked p (same.program ▸ live) (version.trans same.version)
  | composed parts => exact ⟨fun _ _ => ⟨rfl, rfl⟩, fun _ _ _ => ⟨rfl, rfl⟩⟩
  | notComposed reached _ =>
    refine still (fun agree => ⟨agree.features, agree.samplers⟩) (fun _ some => by cases some) ?_
    exact attuned.linked
  | rejected failed =>
    cases live : m.program with
    | live p =>
      rw [retire, live]
      refine ⟨fun current some => ?_, fun q same => by cases same⟩
      obtain ⟨features, samplers⟩ := attuned.composed current some
      exact ⟨features, samplers⟩
    | _ =>
      rw [retire, live]
      exact attuned
  | linked _ current composed done =>
    refine still (fun agree => ⟨agree.features, agree.samplers⟩) (fun current some => ⟨current, some⟩)
      fun p live same => attuned.composed current ?_
    rw [composed]
    rfl
  | bound live _ _ =>
    exact still (fun agree => ⟨agree.features, agree.samplers⟩) (fun current some => ⟨current, some⟩)
      attuned.linked
  | lost _ | dropped _ =>
    exact still (fun agree => ⟨agree.features, agree.samplers⟩) (fun current some => ⟨current, some⟩)
      fun p live => absurd live (m.not_live_contextLost p)
  | released _ =>
    exact still (fun agree => ⟨agree.features, agree.samplers⟩) (fun _ some => by cases some)
      fun p live => by cases live

/-! ### After a build -/

variable {handle : Nat} {composition : Composition}

/-- What was built is what its state says, whatever was there before. -/
theorem BuildsBy.built (builds : m.BuildsBy b handle n composition c) (distinct : m.Distinct)
    (links : List Link) :
    (m.build b).material.Built (m.build b).backend
      (links ++ [⟨handle, composition.vertex.source.text, composition.fragment.source.text⟩]) := by
  obtain ⟨o, units, ⟨remembered, rfl⟩, parts, rfl⟩ := builds.composed
  generalize composed : { m with remembered := remembered }.withComposition composition units = n
    at builds
  have configuration : n.configuration = m.configuration := by
    rw [← composed]
    rfl
  -- the program that was there goes with the link, so nothing needs to be known of it
  have bare : { n with program := .none }.Built (n.releaseProgram c) links := by
    refine ⟨distinct_congr configuration distinct, ?_, fun p owned => (by cases owned),
      fun _ d found => ⟨units, ?_⟩, fun p live => (by cases live), fun p live => (by cases live.live)⟩
    · rw [← composed]
      exact UInt64.le_refl _
    · have same : n.composed = some composition := by
        rw [← composed]
        rfl
      obtain rfl : composition = d := Option.some.inj (same.symm.trans found)
      rw [← parts]
      exact composeParts_congr configuration
  have current : { n with program := .none }.isCurrent = true := by
    rw [← composed]
    exact isCurrent_withComposition _ composition units
  have found : { n with program := .none }.composed = some composition := by
    rw [← composed]
    rfl
  rw [builds.material, builds.backend]
  have linked : (n.withLinked handle (n.releaseProgram c).contextGeneration).Built
      (n.releaseProgram c) _ := bare.linked current found
  have lookups : (n.withLinked handle (n.releaseProgram c).contextGeneration).lookups = n.lookups :=
    rfl
  have bound := linked.bound (p := ⟨handle, (n.releaseProgram c).contextGeneration, n.version⟩) rfl
  rwa [lookups] at bound

theorem BuildsBy.attuned (builds : m.BuildsBy b handle n composition c) :
    (m.build b).material.Attuned := by
  obtain ⟨o, units, _, _, rfl⟩ := builds.composed
  rw [builds.material]
  exact ⟨fun _ _ => ⟨rfl, rfl⟩, fun _ _ _ => ⟨rfl, rfl⟩⟩

end Material

/-! ### Worlds -/

namespace World

variable {w : World} {i j : Nat} {m n : Material} {c : Backend} {links more : List Link}

theorem length_put : (w.put i n c).materials.length = w.materials.length :=
  List.length_set

theorem one_lt_length (present : w.materials[i]? = some m) (found : w.materials[j]? = some n)
    (other : i ≠ j) : 1 < w.materials.length := by
  obtain ⟨first, _⟩ := List.getElem?_eq_some_iff.mp present
  obtain ⟨second, _⟩ := List.getElem?_eq_some_iff.mp found
  omega

/-- What is known of one material, and of who has which program while handles last. -/
structure Follows (i : Nat) (w : World) (links : List Link) : Prop where
  dated : w.Dated
  custody : links.length < UInt32.size → w.Custody True links.length
  built : ∀ m, w.materials[i]? = some m → m.Built w.backend links
  attuned : ∀ m, w.materials[i]? = some m → m.Attuned

theorem Follows.mutated (follows : Follows i w links) (present : w.materials[j]? = some m)
    (mutated : m.Mutated n) (grows : j = i → m.version < n.version) :
    Follows i (w.put j n w.backend) links := by
  refine ⟨follows.dated.mutated present mutated,
    fun short => (follows.custody short).mutated present mutated, fun o found => ?_,
    fun o found => ?_⟩
  all_goals
    rw [getElem?_put present] at found
    split at found
  · next here =>
    obtain rfl := Option.some.inj found
    exact (follows.built m (here ▸ present)).mutated mutated (grows here.symm)
  · exact follows.built o found
  · next here =>
    obtain rfl := Option.some.inj found
    exact (follows.built m (here ▸ present)).attuned_of_mutated mutated (grows here.symm)
  · exact follows.attuned o found

/-- A change of another material keeps what is known of this one while handles last. -/
theorem Follows.changed (follows : Follows i w links)
    (short : 1 < w.materials.length → (links ++ more).length < UInt32.size)
    (present : w.materials[j]? = some m) {π : Permit} (change : Change π m w.backend more n c) :
    Follows i (w.put j n c) (links ++ more) := by
  refine ⟨follows.dated.changed present change, fun short => ?_, fun o found => ?_,
    fun o found => ?_⟩
  · exact (follows.custody (short_of_append short)).changed short present (fun _ => trivial) change
  all_goals
    rw [getElem?_put present] at found
    split at found
  · next here =>
    obtain rfl := Option.some.inj found
    exact (follows.built m (here ▸ present)).changed change
  · next other =>
    have short := short (one_lt_length found present other)
    have custody := follows.custody (short_of_append short)
    exact custody.built_of_other short present change other found (follows.built o found)
  · next here =>
    obtain rfl := Option.some.inj found
    exact (follows.attuned m (here ▸ present)).changed change
  · exact follows.attuned o found

/-- Everything is permitted, except that the version of the material wraps. -/
def followingPermit (i j : Nat) : Permit := ⟨True, True, True, j ≠ i⟩

theorem Follows.contextLost (follows : Follows i w links) :
    Follows i { w with backend := w.backend.loseContext } links where
  dated := follows.dated.contextLost
  custody short := (follows.custody short).contextLost follows.dated
  built o found := follows.dated.built_loseContext found (follows.built o found)
  attuned := follows.attuned

theorem Follows.failing (follows : Follows i w links) (stage : Option Stage) (log : String) :
    Follows i { w with backend := w.backend.failNextCompile stage log } links where
  dated := follows.dated.failing stage log
  custody short := (follows.custody short).failing stage log
  built o found := (follows.built o found).failing stage log
  attuned := follows.attuned

theorem Follows.preserved (i : Nat) : Preserved (followingPermit i) fun w links =>
    (1 < w.materials.length → links.length < UInt32.size) → Follows i w links where
  mutated holds present mutated grows short := by
    rw [length_put] at short
    exact (holds short).mutated present mutated fun here => grows.resolve_left fun other => other here
  changed holds present change short := by
    rw [length_put] at short
    exact (holds fun others => short_of_append (short others)).changed short present change
  contextLost holds short := (holds short).contextLost
  failing stage log holds short := (holds short).failing stage log

theorem permits_of_growsAt {s : Step} (grows : GrowsAt i w s) :
    w.Permits (followingPermit i) s := by
  cases s with
  | loseContext => trivial
  | failNextCompile stage log => trivial
  | material j op =>
    refine fun m present => ⟨⟨fun _ => trivial, fun _ => Or.inl trivial, fun _ => trivial⟩, ?_⟩
    by_cases here : j = i
    · exact Or.inr (grows here m present)
    · exact Or.inl here

/-! ### Runs -/

theorem links_append (w : World) (before after : List Step) :
    w.links (before ++ after) = w.links before ++ (w.run before).links after := by
  induction before generalizing w with
  | nil => rfl
  | cons s rest ih =>
    show (w.link? s).toList ++ (w.step s).links (rest ++ after) = _
    rw [ih, ← List.append_assoc]
    rfl

theorem length_run (w : World) (steps : List Step) :
    (w.run steps).materials.length = w.materials.length := by
  induction steps generalizing w with
  | nil => rfl
  | cons s rest ih =>
    refine (ih (w.step s)).trans ?_
    cases s with
    | loseContext => rfl
    | failNextCompile stage log => rfl
    | material i op =>
      unfold step
      dsimp only
      split
      · rfl
      · exact length_put

theorem effects_of_build {handle : Nat} (present : w.materials[i]? = some m)
    (ok : (m.build w.backend).result = .ok handle) :
    ∃ n, (w.run [.material i .build]).materials[i]? = some n ∧ n.effects = m.effects := by
  obtain ⟨o, c, d, builds⟩ := Material.exists_buildsBy ok
  obtain ⟨_, units, ⟨_, rfl⟩, _, rfl⟩ := builds.composed
  refine ⟨(m.build w.backend).material, ?_, by rw [builds.material]; rfl⟩
  show (w.step (.material i .build)).materials[i]? = _
  rw [step_material present]
  exact getElem?_put_self present

variable (materials : List (String × Settings)) (limit : Nat)

theorem custody_anyRun {steps : List Step}
    (short : ((fresh materials limit).links steps).length < UInt32.size) :
    ((fresh materials limit).run steps).Custody True ((fresh materials limit).links steps).length := by
  have kept := (Custody.preserved fun _ => id).run []
    (fun _ => ⟨dated_fresh materials limit, custody_fresh True materials limit⟩) (along_any _ steps)
  rw [List.nil_append] at kept
  exact (kept short).2

theorem distinct_run {steps : List Step}
    (present : ((fresh materials limit).run steps).materials[i]? = some m) : m.Distinct := by
  have preserved := preserved_each (π := .any) (Q := Material.Distinct)
    (fun distinct mutated _ => mutated.distinct distinct)
    (fun distinct change => Material.distinct_congr change.configuration distinct)
  refine preserved.run [] (fun i m present => ?_) (along_any _ steps) i m present
  exact ((coherent_fresh materials limit).built i m present).distinct

/-- Nothing was done yet, or the last step was a build of the material, and it succeeded. -/
def EndsWithBuild (i : Nat) (w : World) (steps : List Step) : Prop :=
  steps = [] ∨ ∃ earlier m handle, steps = earlier ++ [.material i .build] ∧
    (w.run earlier).materials[i]? = some m ∧ (m.build (w.run earlier).backend).result = .ok handle

theorem run_build {w : World} {earlier : List Step}
    (present : (w.run earlier).materials[i]? = some m) :
    w.run (earlier ++ [.material i .build]) =
      (w.run earlier).put i (m.build (w.run earlier).backend).material
        (m.build (w.run earlier).backend).backend := by
  rw [run_append]
  exact step_material present

theorem follows_of_endsWithBuild {steps : List Step}
    (ends : EndsWithBuild i (fresh materials limit) steps) :
    Follows i ((fresh materials limit).run steps) ((fresh materials limit).links steps) := by
  obtain rfl | ⟨earlier, m, handle, rfl, present, ok⟩ := ends
  · have coherent := coherent_fresh materials limit
    refine ⟨coherent.dated, fun _ => coherent.custody, fun m => coherent.built i m, fun m present => ?_⟩
    obtain ⟨name, settings, rfl⟩ := exists_of_fresh present
    exact Material.attuned_create name settings
  · obtain ⟨n, c, d, builds⟩ := Material.exists_buildsBy ok
    have last := run_build present
    have links : (fresh materials limit).links (earlier ++ [.material i .build]) =
        (fresh materials limit).links earlier ++
          [⟨handle, c.vertex.source.text, c.fragment.source.text⟩] := by
      rw [links_append]
      simp only [World.links, link?_material present, builds.link, Option.toList_some,
        List.append_nil]
    refine ⟨dated_run materials limit _, custody_anyRun materials limit, fun o found => ?_,
      fun o found => ?_⟩
    all_goals
      rw [last, getElem?_put_self present] at found
      obtain rfl := Option.some.inj found
    · rw [last, links]
      exact builds.built (distinct_run materials limit present) _
    · exact builds.attuned

/-- A material is known from the beginning or from a build on, as long as its version does not wrap
and, if there are others, handles do not start over. -/
theorem follows_run {before later : List Step}
    (ends : EndsWithBuild i (fresh materials limit) before)
    (few : ∀ v, ((fresh materials limit).run before).version? i = some v →
      v.toNat + ((fresh materials limit).run before).mutations i later < UInt64.size)
    (short : 1 < materials.length →
      ((fresh materials limit).links (before ++ later)).length < UInt32.size) :
    Follows i ((fresh materials limit).run (before ++ later))
      ((fresh materials limit).links (before ++ later)) := by
  have count : (fresh materials limit).materials.length = materials.length := List.length_map _
  rw [← count, ← length_run _ (before ++ later), run_append, links_append] at short
  rw [run_append, links_append]
  exact (Follows.preserved i).run _ (fun _ => follows_of_endsWithBuild materials limit ends)
    ((along_growsAt few).imp fun _ _ => permits_of_growsAt) short

end World

end ShaderComposer
