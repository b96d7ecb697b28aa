import ShaderComposer.Proofs.Graphics.Programs
import ShaderComposer.Proofs.Source.DeclarationLines
import ShaderComposer.Proofs.Source.FirstClaims

/-!
# What a backend reads in a stage

A backend knows a stage by its text alone. From the text of a registry around a body of statements
it reads exactly the variables of the registry, in order, and after them what the helper functions
declare on lines of their own (`Registry.declarations_chars`). It has nothing against such a text
if the braces of directives and helper functions are balanced (`Registry.stageFault_chars`). So two
stages are accepted together if and only if the vertex stage has every varying that the fragment
stage has (`Registry.reads_and_links`).
-/

namespace ShaderComposer

open SourceScan (Text isIdentifier isBlank lead qualifiers declaration? declarations Clean)

/-! ### Texts that are taken over -/

/-- A text with balanced braces that declares nothing. The white space before a line is no part of
it here, as it is none to a backend. -/
structure IsPlainText (text : Text) : Prop where
  opened (start : Text) : start <+: text → start.count '\x7d' ≤ start.count '\x7b'
  closed : text.count '\x7d' = text.count '\x7b'
  apart : ∀ l ∈ SourceScan.lines text, lead l ∉ qualifiers

theorem isPlainText_iff {text : Text} :
    IsPlainText text ↔ SourceScan.braceDepth 0 text = some 0 ∧
      ∀ l ∈ SourceScan.lines text, lead l ∉ qualifiers := by
  rw [SourceScan.braceDepth_eq_some_iff]
  constructor
  · rintro ⟨opened, closed, apart⟩
    exact ⟨⟨by simpa using opened, by simpa using closed.symm⟩, apart⟩
  · rintro ⟨⟨opened, closed⟩, apart⟩
    exact ⟨by simpa using opened, by simpa using closed.symm, apart⟩

instance : DecidablePred IsPlainText := fun _ => decidable_of_iff _ isPlainText_iff.symm

theorem IsPlainText.braceDepth {text : Text} (plain : IsPlainText text) (depth : Nat) :
    SourceScan.braceDepth depth text = some depth := by
  have closed := SourceScan.braceDepth_add (isPlainText_iff.mp plain).1 depth
  rwa [Nat.zero_add] at closed

theorem isPlainText_of_inert {line : Text} (inert : Inert line) (apart : lead line ∉ qualifiers) :
    IsPlainText line := by
  refine isPlainText_iff.mpr ⟨inert.braceDepth 0, fun l mem => ?_⟩
  cases line with
  | nil => cases mem
  | cons c line =>
    rw [SourceScan.lines, SourceScan.linesFrom_plain [] (c :: line) inert.clean.1
      (Or.inr (List.cons_ne_nil _ _))] at mem
    obtain rfl := List.mem_singleton.mp mem
    exact apart

theorem isPlainText_directive {line : Text} (begins : line.head? = some '#') (one : '\n' ∉ line)
    (balanced : SourceScan.braceDepth 0 line = some 0) : IsPlainText line := by
  refine isPlainText_iff.mpr ⟨balanced, fun l mem => ?_⟩
  cases line with
  | nil => cases begins
  | cons c line =>
    obtain rfl := Option.some.inj begins
    rw [SourceScan.lines, SourceScan.linesFrom_plain [] _ one (Or.inr (List.cons_ne_nil _ _))] at mem
    obtain rfl := List.mem_singleton.mp mem
    show lead ('#' :: line) ∉ qualifiers
    rw [lead_sign (by decide) (by decide)]
    decide

/-! ### The lines of a stage -/

namespace Registry

def blockLines (texts : List Text) : List Text := if texts.isEmpty then [] else [] :: texts

def headLines (r : Registry) : List Text :=
  (header r.stage).toList :: r.directives.map String.toList ++
    r.precisions.map fun p => (precisionLine p).toList

def variableLines (r : Registry) : List Text :=
  sections.flatMap fun q => blockLines ((r.withQualifier q).map Variable.chars)

/-- The helper functions, each after a blank line; their texts may be of many lines. -/
def helperLines (r : Registry) : List Text :=
  r.helpers.flatMap fun f => [[], f.text.toList]

def mainLines (depth : Nat) (body : List Stmt) : List Text :=
  [] :: "void main() \x7b".toList :: (Stmt.blockLines depth body ++ [['\x7d']])

/-- A stage, one text for each line that is not taken over from elsewhere. -/
def stageLines (r : Registry) (depth : Nat) (body : List Stmt) : List Text :=
  r.headLines ++ (r.variableLines ++ (r.helperLines ++ mainLines depth body))

theorem linesChars_blockLines (texts : List Text) :
    linesChars (blockLines texts) = blockChars texts := by
  unfold blockLines blockChars
  split <;> rfl

theorem linesChars_variableLines (r : Registry) : linesChars r.variableLines =
    sections.flatMap fun q => blockChars ((r.withQualifier q).map Variable.chars) := by
  rw [variableLines, linesChars, List.flatMap_assoc]
  exact List.flatMap_congr fun q _ => linesChars_blockLines _

theorem linesChars_helperLines (r : Registry) : linesChars r.helperLines =
    r.helpers.flatMap fun f => blockChars [f.text.toList] := by
  rw [helperLines, linesChars, List.flatMap_assoc]
  rfl

theorem chars_eq_linesChars (r : Registry) (depth : Nat) {body : List Stmt}
    (quiet : Stmt.areQuiet body = true) :
    r.chars (Stmt.blockChars depth body) = linesChars (r.stageLines depth body) := by
  have main : linesChars (mainLines depth body) =
      "\nvoid main() \x7b\n".toList ++ (Stmt.blockChars depth body ++ ['\x7d', '\n']) := by
    have opening : "\nvoid main() \x7b\n".toList = '\n' :: ("void main() \x7b".toList ++ ['\n']) := by
      decide
    rw [Stmt.blockChars_eq depth body (Stmt.areShaped_of_areQuiet body quiet), opening]
    simp [mainLines, linesChars]
  rw [stageLines, Stmt.linesChars_append, Stmt.linesChars_append, Stmt.linesChars_append,
    linesChars_variableLines, linesChars_helperLines, main]
  rfl

/-! ### What the lines are -/

theorem inert_header (stage : Stage) :
    Inert (header stage).toList ∧ lead (header stage).toList ∉ declarationWords := by
  cases stage <;> exact ⟨inert_of_all (by decide), by decide⟩

theorem inert_precisionLine (p : DataType × Precision) :
    Inert (precisionLine p).toList ∧ lead (precisionLine p).toList ∉ declarationWords := by
  have text : (precisionLine p).toList = "precision".toList ++ ' ' ::
      (p.2.keyword.toList ++ ' ' :: (p.1.name.toList ++ [';'])) := by
    have opening : "precision ".toList = "precision".toList ++ [' '] := by decide
    simp [precisionLine, opening]
  rw [text]
  have word : ∀ c ∈ "precision".toList, isIdentifier c = true := List.all_eq_true.mp (by decide)
  constructor
  · exact (inert_of_identifiers word).append (.cons (by decide)
      ((inert_of_identifiers (Variable.identifiers_precision p.2)).append (.cons (by decide)
        ((inert_of_identifiers (isQuietName_iff.mp p.1.quiet_name).1).append
          (.cons (by decide) inert_nil)))))
  · rw [lead_word word (by decide) (by decide)]
    decide

/-- Variables have names, with nothing in them that a backend could mistake, and the texts of
directives and helper functions are plain. -/
structure IsReadable (r : Registry) : Prop where
  named : ∀ v ∈ r.vars, v.isQuiet = true ∧ v.name.toList ≠ []
  directives : ∀ line ∈ r.directives, IsPlainText line.toList
  helpers : ∀ f ∈ r.helpers, IsPlainText f.text.toList

variable {r : Registry}

theorem plain_headLines (directives : ∀ line ∈ r.directives, IsPlainText line.toList) :
    ∀ l ∈ r.headLines, IsPlainText l := by
  have of_quiet {l : Text} : Inert l ∧ lead l ∉ declarationWords → IsPlainText l :=
    fun ⟨inert, apart⟩ => isPlainText_of_inert inert fun mem => apart (List.mem_append_left _ mem)
  intro l mem
  rcases List.mem_append.mp mem with mem | mem
  · rcases List.mem_cons.mp mem with rfl | mem
    · exact of_quiet (inert_header r.stage)
    · obtain ⟨line, known, rfl⟩ := List.mem_map.mp mem
      exact directives line known
  · obtain ⟨p, _, rfl⟩ := List.mem_map.mp mem
    exact of_quiet (inert_precisionLine p)

theorem mem_blockLines {texts : List Text} {l : Text} (mem : l ∈ blockLines texts) :
    l = [] ∨ l ∈ texts := by
  unfold blockLines at mem
  split at mem
  · cases mem
  · exact List.mem_cons.mp mem

theorem inert_variableLines (named : ∀ v ∈ r.vars, v.isQuiet = true ∧ v.name.toList ≠ []) :
    ∀ l ∈ r.variableLines, Inert l := by
  intro l mem
  obtain ⟨q, _, inside⟩ := List.mem_flatMap.mp mem
  rcases mem_blockLines inside with rfl | inside
  · exact inert_nil
  · obtain ⟨v, known, rfl⟩ := List.mem_map.mp inside
    exact Variable.inert_chars (named v (List.mem_filter.mp known).1).1

theorem quiet_mainLines (depth : Nat) {body : List Stmt} (quiet : Stmt.areQuiet body = true) :
    ∀ l ∈ mainLines depth body, QuietLine l := by
  intro l mem
  rcases List.mem_cons.mp mem with rfl | mem
  · exact ⟨inert_nil.clean, by decide⟩
  · rcases List.mem_cons.mp mem with rfl | mem
    · exact ⟨clean_text (by decide) (by decide), by decide⟩
    · rcases List.mem_append.mp mem with mem | mem
      · exact Stmt.quiet_blockLines depth body quiet l mem
      · obtain rfl := List.mem_singleton.mp mem
        exact ⟨clean_text (by decide) (by decide), by decide⟩

/-! ### Acceptance of a stage -/

theorem depthAfter_of_balanced {ls : List Text}
    (balanced : ∀ l ∈ ls, ∀ d, SourceScan.braceDepth d l = some d) (depth : Nat) :
    SourceScan.depthAfter depth ls = some depth := by
  induction ls with
  | nil => rfl
  | cons l ls ih =>
    rw [SourceScan.depthAfter_cons, balanced l List.mem_cons_self, Option.bind_some,
      ih fun k mem => balanced k (List.mem_cons_of_mem _ mem)]

theorem depthAfter_mainLines (depth : Nat) {body : List Stmt} (quiet : Stmt.areQuiet body = true) :
    SourceScan.depthAfter 0 (mainLines depth body) = some 0 := by
  have opening : SourceScan.depthAfter 0 [[], "void main() \x7b".toList] = some 1 := by decide
  have main : mainLines depth body =
      [[], "void main() \x7b".toList] ++ (Stmt.blockLines depth body ++ [['\x7d']]) := rfl
  rw [main, SourceScan.depthAfter_append, opening, Option.bind_some, SourceScan.depthAfter_append,
    Stmt.depthAfter_blockLines depth body (Stmt.areShaped_of_areQuiet body quiet),
    Option.bind_some]
  rfl

theorem depthAfter_helperLines {r : Registry}
    (plain : ∀ f ∈ r.helpers, IsPlainText f.text.toList) (depth : Nat) :
    SourceScan.depthAfter depth r.helperLines = some depth := by
  -- the text of a function is taken over as one entry, whatever lines it has
  refine depthAfter_of_balanced (fun l mem d => ?_) depth
  obtain ⟨f, known, here⟩ := List.mem_flatMap.mp mem
  rcases List.mem_cons.mp here with rfl | here
  · rfl
  · obtain rfl := List.mem_singleton.mp here
    exact (plain f known).braceDepth d

theorem stageFault_chars (readable : r.IsReadable) (depth : Nat) {body : List Stmt}
    (quiet : Stmt.areQuiet body = true) :
    SourceScan.stageFault (r.chars (Stmt.blockChars depth body)) = none := by
  rw [chars_eq_linesChars r depth quiet]
  refine SourceScan.stageFault_eq_none ?_ ?_
  · have opening : "void main() \x7b".toList = "void main()".toList ++ " \x7b".toList := by
      decide
    have text : linesChars (r.stageLines depth body) =
        (linesChars r.headLines ++ (linesChars r.variableLines ++ (linesChars r.helperLines ++
          ['\n']))) ++ ("void main()".toList ++
            (" \x7b".toList ++ linesChars ([] :: (Stmt.blockLines depth body ++ [['\x7d']])))) := by
      rw [stageLines, Stmt.linesChars_append, Stmt.linesChars_append, Stmt.linesChars_append,
        mainLines, Stmt.linesChars_cons, Stmt.linesChars_cons, Stmt.linesChars_cons, opening]
      simp only [List.append_assoc, List.nil_append, List.cons_append]
    rw [text]
    exact SourceScan.contains_append _ _ _
  · rw [SourceScan.braceDepth_linesChars, stageLines, SourceScan.depthAfter_append,
      depthAfter_of_balanced fun l mem => (plain_headLines readable.directives l mem).braceDepth,
      Option.bind_some, SourceScan.depthAfter_append,
      depthAfter_of_balanced fun l mem => (inert_variableLines readable.named l mem).braceDepth,
      Option.bind_some, SourceScan.depthAfter_append, depthAfter_helperLines readable.helpers,
      Option.bind_some]
    exact depthAfter_mainLines depth quiet

/-! ### What is declared -/

/-- What a declaration says about a variable: its name and its type. -/
def shown (v : Variable) : Text × Text := (v.name.toList, v.type.name.toList)

abbrev declaredIn (q text : Text) : List (Text × Text) := declarations q (text ++ ['\n'])

section Reading

variable {q : Qualifier} {w : String} (keyword : q.keyword = some w)
  (reads : w.toList ∈ qualifiers) (named : ∀ v ∈ r.vars, v.isQuiet = true ∧ v.name.toList ≠ [])

include reads in
theorem declaredIn_of_lead {l : Text} (clean : Clean l) (apart : lead l ∉ declarationWords) :
    declaredIn w.toList l = [] := by
  rw [declaredIn, SourceScan.declarations_line _ clean, SourceScan.declaration?_of_lead
    (SourceScan.word_of_mem_qualifiers _ reads)
    fun same => apart (List.mem_append_left _ (same ▸ reads))]
  rfl

include reads in
theorem declaredIn_nil : declaredIn w.toList [] = [] :=
  declaredIn_of_lead reads inert_nil.clean (by decide)

include keyword reads in
theorem declaredIn_chars {v : Variable} (quiet : v.isQuiet = true) (text : v.name.toList ≠ []) :
    declaredIn w.toList v.chars = if v.qualifier = q then [shown v] else [] := by
  rw [declaredIn, SourceScan.declarations_line _ (Variable.inert_chars quiet).clean,
    Variable.declaration?_chars quiet text keyword reads]
  split <;> rfl

include keyword reads named in
theorem declaredIn_section (other : Qualifier) :
    (blockLines ((r.withQualifier other).map Variable.chars)).flatMap (declaredIn w.toList) =
      if other = q then (r.withQualifier q).map shown else [] := by
  have blank : ∀ texts : List Text, (blockLines texts).flatMap (declaredIn w.toList) =
      texts.flatMap (declaredIn w.toList) := by
    intro texts
    unfold blockLines
    split
    · next empty => rw [List.isEmpty_iff.mp empty]
    · rw [List.flatMap_cons, declaredIn_nil reads, List.nil_append]
  have each : (r.withQualifier other).flatMap (fun v => declaredIn w.toList v.chars) =
      (r.withQualifier other).flatMap fun v => if other = q then [shown v] else [] := by
    refine List.flatMap_congr fun v mem => ?_
    obtain ⟨known, here⟩ := List.mem_filter.mp mem
    obtain ⟨quiet, text⟩ := named v known
    rw [declaredIn_chars keyword reads quiet text, beq_iff_eq.mp here]
  rw [blank, List.flatMap_map]
  refine each.trans ?_
  split
  · next same =>
    rw [same, List.map_eq_flatMap]
  · exact List.flatMap_eq_nil_iff.mpr fun _ _ => rfl

include keyword reads named in
theorem declaredIn_variableLines :
    r.variableLines.flatMap (declaredIn w.toList) = (r.withQualifier q).map shown := by
  have split : r.variableLines.flatMap (declaredIn w.toList) =
      sections.flatMap fun other => if other = q then (r.withQualifier q).map shown else [] := by
    rw [variableLines, List.flatMap_assoc]
    exact List.flatMap_congr fun other _ => declaredIn_section keyword reads named other
  rw [split]
  cases q <;> cases keyword <;> simp [sections]

include keyword reads named in
/-- A backend reads the variables of the registry, in order, and after them what helper functions
declare on lines of their own. -/
theorem declarations_chars (directives : ∀ line ∈ r.directives, IsPlainText line.toList)
    (depth : Nat) {body : List Stmt} (quiet : Stmt.areQuiet body = true) :
    declarations w.toList (r.chars (Stmt.blockChars depth body)) =
      (r.withQualifier q).map shown ++
        r.helpers.flatMap fun f => declaredIn w.toList f.text.toList := by
  have head : r.headLines.flatMap (declaredIn w.toList) = [] :=
    List.flatMap_eq_nil_iff.mpr fun l mem =>
      SourceScan.declarations_of_lead reads (plain_headLines directives l mem).apart
  have main : (mainLines depth body).flatMap (declaredIn w.toList) = [] :=
    List.flatMap_eq_nil_iff.mpr fun l mem =>
      (quiet_mainLines depth quiet l mem).elim (declaredIn_of_lead reads)
  have helpers : r.helperLines.flatMap (declaredIn w.toList) =
      r.helpers.flatMap fun f => declaredIn w.toList f.text.toList := by
    rw [helperLines, List.flatMap_assoc]
    refine List.flatMap_congr fun f _ => ?_
    rw [List.flatMap_cons, declaredIn_nil reads, List.nil_append, List.flatMap_singleton]
  rw [chars_eq_linesChars r depth quiet, SourceScan.declarations_linesChars, stageLines,
    List.flatMap_append, List.flatMap_append, List.flatMap_append, head, main, helpers,
    declaredIn_variableLines keyword reads named, List.nil_append, List.append_nil]

include keyword reads in
theorem IsReadable.declarations_eq (readable : r.IsReadable) (depth : Nat) {body : List Stmt}
    (quiet : Stmt.areQuiet body = true) :
    declarations w.toList (r.chars (Stmt.blockChars depth body)) =
      (r.withQualifier q).map shown := by
  have helpers : (r.helpers.flatMap fun f => declaredIn w.toList f.text.toList) = [] :=
    List.flatMap_eq_nil_iff.mpr fun f known =>
      SourceScan.declarations_of_lead reads (readable.helpers f known).apart
  rw [declarations_chars keyword reads readable.named readable.directives depth quiet, helpers,
    List.append_nil]

end Reading

end Registry

/-! ### Linking -/

theorem lookup_reverse_eq_some_iff {κ α : Type} [BEq κ] [LawfulBEq κ] {entries : List (κ × α)}
    (distinct : (entries.map Prod.fst).Nodup) {k : κ} {a : α} :
    entries.reverse.lookup k = some a ↔ (k, a) ∈ entries := by
  constructor
  · intro found
    obtain ⟨before, after, shown, _⟩ := List.lookup_eq_some_iff.mp found
    refine List.mem_reverse.mp ?_
    simp [shown]
  · intro mem
    obtain ⟨before, after, rfl⟩ := List.append_of_mem mem
    refine List.lookup_eq_some_iff.mpr ⟨after.reverse, before.reverse, by simp, fun p inside => ?_⟩
    rw [List.map_append, List.map_cons] at distinct
    have new := (List.nodup_cons.mp (List.nodup_append.mp distinct).2.1).1
    refine bne_iff_ne.mpr fun same => new ?_
    exact List.mem_map.mpr ⟨p, List.mem_reverse.mp inside, same.symm⟩

theorem varyingFault_eq_none_iff {written : List (Text × Text)}
    (distinct : (written.map Prod.fst).Nodup) {p : Text × Text} :
    varyingFault written p = none ↔ p ∈ written := by
  rw [← lookup_reverse_eq_some_iff distinct, varyingFault]
  cases found : written.reverse.lookup p.1 with
  | none => simp
  | some ty => simp

theorem varyingFault_of_unwritten {written : List (Text × Text)} {p : Text × Text}
    (unwritten : ∀ q ∈ written, q.1 ≠ p.1) :
    varyingFault written p =
      some ("varying `" ++ String.ofList p.1 ++ "` is not written by the vertex stage") := by
  have missing : written.reverse.lookup p.1 = none := by
    refine List.lookup_eq_none_iff.mpr fun q mem => ?_
    exact bne_iff_ne.mpr (unwritten q (List.mem_reverse.mp mem)).symm
  rw [varyingFault, missing]

/-- Two stages link if every varying that the fragment stage reads is declared alike by the vertex
stage. -/
theorem linkFault_eq_none_iff {vertex fragment : Text}
    (distinct : ((declarations "varying".toList vertex).map Prod.fst).Nodup) :
    linkFault vertex fragment = none ↔
      declarations "varying".toList fragment ⊆ declarations "varying".toList vertex := by
  rw [linkFault, List.findSome?_eq_none_iff]
  exact forall₂_congr fun p _ => varyingFault_eq_none_iff distinct

/-! ### Two stages -/

theorem DataType.name_injective {a b : DataType} (same : a.name = b.name) : a = b := by
  revert same
  cases a <;> cases b <;> decide

namespace Registry

variable {r s : Registry}

theorem shown_eq_iff {x y : Variable} : shown x = shown y ↔ x.name = y.name ∧ x.type = y.type := by
  rw [shown, shown, Prod.mk.injEq, String.toList_inj, String.toList_inj]
  exact and_congr_right fun _ => ⟨DataType.name_injective, congrArg DataType.name⟩

theorem map_shown_subset_iff {read written : List Variable} :
    read.map shown ⊆ written.map shown ↔
      ∀ x ∈ read, ∃ y ∈ written, y.name = x.name ∧ y.type = x.type := by
  constructor
  · intro inside x mem
    obtain ⟨y, known, same⟩ := List.mem_map.mp (inside (List.mem_map_of_mem mem))
    exact ⟨y, known, shown_eq_iff.mp same⟩
  · intro each p mem
    obtain ⟨x, here, rfl⟩ := List.mem_map.mp mem
    obtain ⟨y, known, same⟩ := each x here
    exact List.mem_map.mpr ⟨y, known, shown_eq_iff.mpr same⟩

theorem nodup_shown (distinct : (r.vars.map (·.name)).Nodup) (q : Qualifier) :
    (((r.withQualifier q).map shown).map Prod.fst).Nodup := by
  have names : Prod.fst ∘ shown = String.toList ∘ fun v : Variable => v.name := rfl
  rw [List.map_map, names, ← List.map_map]
  refine List.Nodup.map (fun _ _ => String.toList_inj.mp) ?_
  exact distinct.sublist (List.filter_sublist.map _)

theorem sourceFault_eq_none_iff (distinct : (r.vars.map (·.name)).Nodup) (written : r.IsReadable)
    (read : s.IsReadable) (vertexDepth fragmentDepth : Nat) {vertexBody fragmentBody : List Stmt}
    (vertexQuiet : Stmt.areQuiet vertexBody = true)
    (fragmentQuiet : Stmt.areQuiet fragmentBody = true) :
    sourceFault (r.source (Stmt.renderBlock vertexDepth vertexBody)).text
        (s.source (Stmt.renderBlock fragmentDepth fragmentBody)).text = none ↔
      ∀ x ∈ s.withQualifier .varying, ∃ y ∈ r.withQualifier .varying,
        y.name = x.name ∧ y.type = x.type := by
  have reads : "varying".toList ∈ qualifiers := by decide
  have vertexText : (r.source (Stmt.renderBlock vertexDepth vertexBody)).text.toList =
      r.chars (Stmt.blockChars vertexDepth vertexBody) :=
    (r.toList_render _).trans (by rw [Stmt.toList_renderBlock])
  have fragmentText : (s.source (Stmt.renderBlock fragmentDepth fragmentBody)).text.toList =
      s.chars (Stmt.blockChars fragmentDepth fragmentBody) :=
    (s.toList_render _).trans (by rw [Stmt.toList_renderBlock])
  have vertexVaryings := written.declarations_eq (q := .varying) rfl reads vertexDepth vertexQuiet
  have fragmentVaryings := read.declarations_eq (q := .varying) rfl reads fragmentDepth fragmentQuiet
  rw [sourceFault, vertexText, fragmentText, stageFault_chars written vertexDepth vertexQuiet,
    stageFault_chars read fragmentDepth fragmentQuiet]
  dsimp only
  rw [Option.map_eq_none_iff, linkFault_eq_none_iff, vertexVaryings, fragmentVaryings,
    map_shown_subset_iff]
  rw [vertexVaryings]
  exact nodup_shown distinct .varying

end Registry

/-- Printing and reading agree on every two stages: whatever is asked of their registries, and
whatever statements their bodies are made of, at any depth, a backend reads the variables of each
qualifier that it knows, in order of declaration, and it accepts the two stages exactly if every
varying of the fragment stage is one of the vertex stage, with the same type. A line is read up to
its indentation: a text is plain only if none of its lines starts with a qualifier after the white space
before it. -/
theorem Registry.reads_and_links (vertexRequests fragmentRequests : List Request)
    (vertexDepth fragmentDepth : Nat) (vertexBody fragmentBody : List Stmt)
    (vertexReadable : ((empty .vertex).run vertexRequests).IsReadable)
    (fragmentReadable : ((empty .fragment).run fragmentRequests).IsReadable)
    (vertexQuiet : Stmt.areQuiet vertexBody = true)
    (fragmentQuiet : Stmt.areQuiet fragmentBody = true) :
    let r := (empty .vertex).run vertexRequests
    let s := (empty .fragment).run fragmentRequests
    let vertex := (r.source (Stmt.renderBlock vertexDepth vertexBody)).text
    let fragment := (s.source (Stmt.renderBlock fragmentDepth fragmentBody)).text
    (∀ (q : Qualifier) (w : String), q.keyword = some w → w.toList ∈ qualifiers →
      declarations w.toList vertex.toList = (r.withQualifier q).map shown ∧
        declarations w.toList fragment.toList = (s.withQualifier q).map shown) ∧
      ∀ b : Backend, b.pendingFailure = none →
        ((∃ program, (b.compileAndLink vertex fragment).1 = .ok program) ↔
          ∀ x ∈ s.withQualifier .varying, ∃ y ∈ r.withQualifier .varying,
            y.name = x.name ∧ y.type = x.type) := by
  intro r s vertex fragment
  constructor
  · intro q w keyword reads
    constructor
    · rw [← vertexReadable.declarations_eq keyword reads vertexDepth vertexQuiet,
        ← Stmt.toList_renderBlock]
      exact congrArg _ (r.toList_render _)
    · rw [← fragmentReadable.declarations_eq keyword reads fragmentDepth fragmentQuiet,
        ← Stmt.toList_renderBlock]
      exact congrArg _ (s.toList_render _)
  · intro b calm
    rw [Backend.exists_compileAndLink_iff calm]
    exact sourceFault_eq_none_iff (names_nodup_run .vertex vertexRequests) vertexReadable
      fragmentReadable vertexDepth fragmentDepth vertexQuiet fragmentQuiet

/-- A vertex stage with a macro in braces, a function of several lines and an array. A second owner
shares a varying and is refused another. -/
def bonesRequests : List Registry.Request :=
  [.begin "bones", .directive "#define HALF(x) \x7b (x) * 0.5 \x7d", .precision .float .high,
    .helper "bones" ⟨"bounded", "float bounded(float x) \x7b\n    if (x > 1.0) \x7b\n" ++
      "        return 1.0;\n    \x7d\n    return x;\n\x7d\n"⟩,
    .declare "bones" ⟨"uBones", .mat4, .uniform, some 30, some .medium, none⟩,
    .declare "bones" ⟨"aPosition", .vec3, .vertexInput, none, none, none⟩,
    .declare "bones" ⟨"vShade", .vec3, .varying, none, some .low, none⟩,
    .begin "shade", .declare "shade" ⟨"vShade", .vec3, .varying, none, none, none⟩,
    .declare "shade" ⟨"uBones", .mat4, .uniform, none, none, none⟩]

/-- A fragment stage that reads one varying and has a constant. -/
def shadeRequests : List Registry.Request :=
  [.begin "shade", .declare "shade" ⟨"vShade", .vec3, .varying, none, none, none⟩,
    .declare "shade" ⟨"HALF", .float, .const, none, none, some (.literal (.int 2))⟩]

def bonesBody : List Stmt :=
  [.declare .vec4 "local0" (some (.call .normalize [.var "aPosition" none])),
    .branch [(⟨⟨.swizzle (.var "local0" none) "y", .gt, .literal (.int 0)⟩, []⟩,
      [.assign (.var "vShade" none) .set (.swizzle (.var "local0" none) "xyz")])] none]

theorem Registry.reads_and_links_bones :
    let r := (empty .vertex).run bonesRequests
    let s := (empty .fragment).run shadeRequests
    r.IsReadable ∧ s.IsReadable ∧ Stmt.areQuiet bonesBody = true ∧
      declarations "uniform".toList (r.source (Stmt.renderBlock 1 bonesBody)).text.toList =
        [("uBones".toList, "mat4".toList)] ∧
      ∃ program, ((Backend.create 8 false).compileAndLink
        (r.source (Stmt.renderBlock 1 bonesBody)).text
        (s.source (Stmt.renderBlock 1 [])).text).1 = .ok program := by
  have directives : ∀ line ∈ ((empty .vertex).run bonesRequests).directives,
      line.toList.head? = some '#' ∧ '\n' ∉ line.toList ∧
        SourceScan.braceDepth 0 line.toList = some 0 := by
    decide +kernel
  have readable : ((empty .vertex).run bonesRequests).IsReadable :=
    ⟨by decide +kernel, fun line mem => (directives line mem).elim fun begins one =>
      isPlainText_directive begins one.1 one.2, by decide +kernel⟩
  have fragmentReadable : ((empty .fragment).run shadeRequests).IsReadable :=
    ⟨by decide +kernel, by decide +kernel, by decide +kernel⟩
  have quiet : Stmt.areQuiet bonesBody = true := by decide +kernel
  obtain ⟨reads, links⟩ := reads_and_links bonesRequests shadeRequests 1 1 bonesBody [] readable
    fragmentReadable quiet rfl
  refine ⟨readable, fragmentReadable, quiet, ?_, (links (Backend.create 8 false) rfl).mpr ?_⟩
  · rw [(reads .uniform "uniform" rfl (by decide)).1]
    decide +kernel
  · decide +kernel

end ShaderComposer
