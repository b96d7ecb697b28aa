import ShaderComposer.Proofs.Script.Quiet

/-!
# Declaration lines

The declaration of a variable with a quiet name is one line without braces (`Variable.inert_chars`),
and a backend reads it as the variable's name and type, under the variable's own qualifier only
(`Variable.declaration?_chars`).
-/

namespace ShaderComposer

open SourceScan (Text isIdentifier isBlank lead qualifiers precisions words words_append words_plain
  declaration? Clean)

namespace Variable

def typedName (v : Variable) : Text :=
  (leading (v.precision.map Precision.keyword)).toList ++ (v.type.name.toList ++ ' ' :: v.name.toList)

def ending (v : Variable) : Text :=
  (lengthSuffix v.arrayLength).toList ++ (Stmt.initialChars v.initial ++ [';'])

theorem toList_leading (keyword : String) :
    (leading (some keyword)).toList = keyword.toList ++ [' '] :=
  String.toList_append

theorem chars_eq (v : Variable) :
    v.chars = (leading v.qualifier.keyword).toList ++ (v.typedName ++ v.ending) := by
  simp [chars, typedName, ending]

theorem chars_of_keyword {v : Variable} {w : String} (keyword : v.qualifier.keyword = some w) :
    v.chars = w.toList ++ ' ' :: (v.typedName ++ v.ending) := by
  rw [chars_eq, keyword, toList_leading, List.append_assoc, List.singleton_append]

variable {v : Variable}

theorem name_of_isQuiet (quiet : v.isQuiet = true) :
    (∀ c ∈ v.name.toList, isIdentifier c = true) ∧ v.name.toList ∉ declarationWords :=
  isQuietName_iff.mp (isQuiet_iff.mp quiet).1

theorem identifiers_type (v : Variable) : ∀ c ∈ v.type.name.toList, isIdentifier c = true :=
  (isQuietName_iff.mp v.type.quiet_name).1

theorem identifiers_precision (p : Precision) : ∀ c ∈ p.keyword.toList, isIdentifier c = true := by
  cases p <;> exact List.all_eq_true.mp (by decide)

theorem mem_typedName (quiet : v.isQuiet = true) {c : Char} (mem : c ∈ v.typedName) :
    c = ' ' ∨ isIdentifier c = true := by
  rcases List.mem_append.mp mem with mem | mem
  · cases written : v.precision with
    | none =>
      rw [written] at mem
      cases mem
    | some p =>
      rw [written, Option.map_some, toList_leading] at mem
      rcases List.mem_append.mp mem with mem | mem
      · exact Or.inr (identifiers_precision p c mem)
      · exact Or.inl (List.mem_singleton.mp mem)
  · rcases List.mem_append.mp mem with mem | mem
    · exact Or.inr (v.identifiers_type c mem)
    · rcases List.mem_cons.mp mem with rfl | mem
      · exact Or.inl rfl
      · exact Or.inr ((name_of_isQuiet quiet).1 c mem)

theorem inert_typedName (quiet : v.isQuiet = true) : Inert v.typedName := by
  intro c mem
  rcases mem_typedName quiet mem with rfl | identifier
  · decide
  · exact isInert_of_isIdentifier identifier

theorem inert_lengthSuffix (length : Option Nat) : Inert (lengthSuffix length).toList := by
  cases length with
  | none => exact inert_nil
  | some n =>
    have text : (lengthSuffix (some n)).toList = '[' :: ((toString n).toList ++ [']']) := by
      simp [lengthSuffix]
    rw [text]
    exact .cons (by decide) ((inert_of_identifiers isIdentifier_of_mem_toString).append
      (.cons (by decide) inert_nil))

theorem inert_ending (quiet : v.isQuiet = true) : Inert v.ending :=
  (inert_lengthSuffix v.arrayLength).append
    ((Stmt.inert_initialChars (spelled_initial (isQuiet_iff.mp quiet).2)).append
      (.cons (by decide) inert_nil))

theorem inert_leading (q : Qualifier) : Inert (leading q.keyword).toList := by
  cases q <;> exact inert_of_all (by decide)

theorem inert_chars (quiet : v.isQuiet = true) : Inert v.chars := by
  rw [chars_eq]
  exact (inert_leading v.qualifier).append ((inert_typedName quiet).append (inert_ending quiet))

/-- The name ends where the array length, the initial value or the declaration ends. -/
theorem takeWhile_typedName (quiet : v.isQuiet = true) :
    ∃ space, (space = [] ∨ space = [' ']) ∧
      (v.typedName ++ v.ending).takeWhile (fun c => c != ';' && c != '[' && c != '=') =
        v.typedName ++ space := by
  have passes : ∀ c ∈ v.typedName, (c != ';' && c != '[' && c != '=') = true := by
    intro c mem
    rcases mem_typedName quiet mem with rfl | identifier
    · decide
    · simp only [Bool.and_eq_true, bne_iff_ne, ne_eq]
      refine ⟨⟨?_, ?_⟩, ?_⟩ <;> rintro rfl <;> cases identifier
  rw [List.takeWhile_append_of_pos passes]
  unfold ending
  cases v.arrayLength with
  | some n =>
    have text : (lengthSuffix (some n)).toList = '[' :: ((toString n).toList ++ [']']) := by
      simp [lengthSuffix]
    exact ⟨[], Or.inl rfl, by rw [text]; rfl⟩
  | none =>
    cases v.initial with
    | none => exact ⟨[], Or.inl rfl, rfl⟩
    | some e => exact ⟨[' '], Or.inr rfl, rfl⟩

theorem not_contains_precisions {word : Text} (plain : word ∉ declarationWords) :
    (!precisions.contains word) = true := by
  simpa using fun mem : word ∈ precisions => plain (List.mem_append_right _ mem)

/-- The type and the name, whatever ends the name. -/
theorem words_named (quiet : v.isQuiet = true) (named : v.name.toList ≠ []) {space : Text}
    (ends : space = [] ∨ space = [' ']) :
    words (v.type.name.toList ++ ' ' :: (v.name.toList ++ space)) =
      [v.type.name.toList, v.name.toList] := by
  have blankless := blankless_of_identifiers (name_of_isQuiet quiet).1
  have last : words (v.name.toList ++ space) = [v.name.toList] := by
    rcases ends with rfl | rfl
    · rw [List.append_nil, words_plain blankless named]
    · rw [words_append blankless named]
      rfl
  rw [words_append (blankless_of_identifiers v.identifiers_type) v.type.toList_name_ne_nil, last]

/-- The words of a declaration after its qualifier, precisions apart. -/
theorem words_typedName (quiet : v.isQuiet = true) (named : v.name.toList ≠ []) {space : Text}
    (ends : space = [] ∨ space = [' ']) :
    (words (v.typedName ++ space)).filter (fun w => !precisions.contains w) =
      [v.type.name.toList, v.name.toList] := by
  have typed := words_named quiet named ends
  have kept : [v.type.name.toList, v.name.toList].filter (fun w => !precisions.contains w) =
      [v.type.name.toList, v.name.toList] := by
    refine List.filter_eq_self.mpr fun word mem => ?_
    rcases List.mem_cons.mp mem with rfl | mem
    · exact not_contains_precisions (isQuietName_iff.mp v.type.quiet_name).2
    · obtain rfl := List.mem_singleton.mp mem
      exact not_contains_precisions (name_of_isQuiet quiet).2
  unfold typedName
  cases v.precision with
  | none =>
    have text : (leading (none.map Precision.keyword)).toList ++
        (v.type.name.toList ++ ' ' :: v.name.toList) ++ space =
          v.type.name.toList ++ ' ' :: (v.name.toList ++ space) := by
      simp [leading]
    rw [text, typed, kept]
  | some p =>
    have text : (leading ((some p).map Precision.keyword)).toList ++
        (v.type.name.toList ++ ' ' :: v.name.toList) ++ space =
          p.keyword.toList ++ ' ' :: (v.type.name.toList ++ ' ' :: (v.name.toList ++ space)) := by
      simp [leading]
    have known : ¬ (!precisions.contains p.keyword.toList) = true := by
      cases p <;> decide
    have written : p.keyword.toList ≠ [] := by
      cases p <;> decide
    rw [text, words_append (blankless_of_identifiers (identifiers_precision p)) written, typed,
      List.filter_cons, if_neg known, kept]

/-- The word that a declaration begins with: the qualifier, else the precision, else the type. -/
theorem lead_chars (v : Variable) : lead v.chars =
    ((v.qualifier.keyword.or (v.precision.map Precision.keyword)).getD v.type.name).toList := by
  have word {text : String} (all : ∀ c ∈ text.toList, isIdentifier c = true)
      (nonempty : text.toList ≠ []) (rest : Text) :
      lead (text.toList ++ ' ' :: rest) = text.toList :=
    lead_word all nonempty (by decide) rest
  cases keyword : v.qualifier.keyword with
  | some w =>
    have known : (∀ c ∈ w.toList, isIdentifier c = true) ∧ w.toList ≠ [] := by
      cases q : v.qualifier <;> rw [q] at keyword <;> cases keyword <;>
        exact ⟨List.all_eq_true.mp (by decide), by decide⟩
    rw [chars_of_keyword keyword]
    exact word known.1 known.2 _
  | none =>
    rw [chars_eq, keyword, typedName]
    cases v.precision with
    | some p =>
      have known : p.keyword.toList ≠ [] := by
        cases p <;> decide
      rw [Option.map_some, toList_leading]
      simp only [leading, String.toList_empty, List.nil_append, List.append_assoc, List.cons_append]
      exact word (identifiers_precision p) known _
    | none =>
      simp only [leading, Option.map_none, String.toList_empty, List.nil_append, List.append_assoc,
        List.cons_append]
      exact word v.identifiers_type v.type.toList_name_ne_nil _

theorem afterQualifier?_word {word : Text} (all : ∀ c ∈ word, isIdentifier c = true)
    (nonempty : word ≠ []) (rest : Text) :
    SourceScan.afterQualifier? word (word ++ ' ' :: rest) = some rest := by
  have split : word ++ ' ' :: rest = word ++ [' '] ++ rest := by
    rw [List.append_assoc, List.singleton_append]
  rw [SourceScan.afterQualifier?, trimStart_word all nonempty, split, SourceScan.after?_append]

theorem keyword_ne_of_ne : ∀ {q r : Qualifier}, q ≠ r → q.keyword.isSome = true →
    q.keyword ≠ r.keyword := by
  intro q r
  cases q <;> cases r <;> decide

/-- A declaration is read as what it declares, under its own qualifier only. -/
theorem declaration?_chars (quiet : v.isQuiet = true) (named : v.name.toList ≠ []) {q : Qualifier}
    {w : String} (keyword : q.keyword = some w) (reads : w.toList ∈ qualifiers) :
    declaration? w.toList v.chars =
      if v.qualifier = q then some (v.name.toList, v.type.name.toList) else none := by
  have identifiers := SourceScan.word_of_mem_qualifiers _ reads
  split
  · next same =>
    have nonempty : w.toList ≠ [] := by
      intro empty
      rw [empty] at reads
      revert reads
      decide
    obtain ⟨space, ends, stops⟩ := takeWhile_typedName quiet
    rw [declaration?, chars_of_keyword (same ▸ keyword), afterQualifier?_word identifiers nonempty]
    dsimp only
    rw [stops, words_typedName quiet named ends]
  · next other =>
    refine SourceScan.declaration?_of_lead identifiers fun same => ?_
    rw [lead_chars] at same
    -- a declaration without a keyword begins with its precision or its type, neither a qualifier
    cases written : v.qualifier.keyword with
    | some w' =>
      rw [written] at same
      have equal : w' = w := String.toList_inj.mp same
      refine keyword_ne_of_ne other (by rw [written]; rfl) ?_
      rw [written, keyword, equal]
    | none =>
      rw [written, Option.none_or] at same
      cases precise : v.precision with
      | some p =>
        rw [precise] at same
        have apart : p.keyword.toList ∉ qualifiers := by
          cases p <;> decide
        exact apart (same ▸ reads)
      | none =>
        rw [precise] at same
        have apart := (isQuietName_iff.mp v.type.quiet_name).2
        exact apart (List.mem_append_left _ (same ▸ reads))

end Variable

end ShaderComposer
