import ShaderComposer.Graphics.Headless
import ShaderComposer.Proofs.Glsl.Characters

/-!
# Scanning texts line by line

A text that is made of texts, each with a line feed after it, declares what they declare, one after
another (`declarations_linesChars`). Its braces are checked line by line, which is to say all through
(`depthAfter_lines`). Which lines declare something is told by the identifier that they begin with.
-/

namespace ShaderComposer.SourceScan

open Registry (linesChars)

/-! ### Lines -/

/-- No line ends inside the line. -/
def Clean (line : Text) : Prop := '\n' ∉ line ∧ '\r' ∉ line

theorem endedLine_clean {line : Text} (clean : Clean line) : endedLine line.reverse = line := by
  have plain : '\r' ∉ line.reverse := fun mem => clean.2 (List.mem_reverse.mp mem)
  unfold endedLine
  split
  · next before same =>
    rw [same] at plain
    exact absurd List.mem_cons_self plain
  · exact List.reverse_reverse line

/-! ### Braces -/

/-- The depth of open braces after lines, unless a brace closes more than was opened. -/
def depthAfter (depth : Nat) (ls : List Text) : Option Nat := ls.foldlM braceDepth depth

theorem depthAfter_cons (depth : Nat) (l : Text) (ls : List Text) :
    depthAfter depth (l :: ls) = (braceDepth depth l).bind fun d => depthAfter d ls := rfl

theorem depthAfter_append (depth : Nat) (first second : List Text) :
    depthAfter depth (first ++ second) =
      (depthAfter depth first).bind fun d => depthAfter d second :=
  List.foldlM_append

theorem braceFault_eq_none_iff (number depth : Nat) (ls : List Text) :
    braceFault number depth ls = none ↔ depthAfter depth ls = some 0 := by
  induction ls generalizing number depth with
  | nil => cases depth <;> simp [braceFault, depthAfter]
  | cons l ls ih =>
    rw [braceFault, depthAfter_cons]
    cases braceDepth depth l with
    | none => simp
    | some next => exact ih (number + 1) next

theorem braceDepth_append (depth : Nat) (first second : Text) :
    braceDepth depth (first ++ second) =
      (braceDepth depth first).bind fun d => braceDepth d second := by
  induction first generalizing depth with
  | nil => rfl
  | cons c first ih =>
    simp only [List.cons_append, braceDepth]
    split
    · exact ih _
    · split
      · cases depth with
        | zero => rfl
        | succ outer => exact ih outer
      · exact ih depth

theorem braceDepth_plain {line : Text} (opening : '\x7b' ∉ line) (closing : '\x7d' ∉ line)
    (depth : Nat) : braceDepth depth line = some depth := by
  induction line with
  | nil => rfl
  | cons c line ih =>
    have notOpening : c ≠ '\x7b' := fun same => opening (same ▸ List.mem_cons_self)
    have notClosing : c ≠ '\x7d' := fun same => closing (same ▸ List.mem_cons_self)
    simp only [braceDepth, if_neg notOpening, if_neg notClosing]
    exact ih (fun mem => opening (List.mem_cons_of_mem _ mem))
      fun mem => closing (List.mem_cons_of_mem _ mem)

theorem braceDepth_cons_of_ne {c : Char} (opening : c ≠ '\x7b') (closing : c ≠ '\x7d')
    (depth : Nat) (text : Text) : braceDepth depth (c :: text) = braceDepth depth text := by
  simp only [braceDepth, if_neg opening, if_neg closing]

theorem braceDepth_linesChars (depth : Nat) (texts : List Text) :
    braceDepth depth (linesChars texts) = depthAfter depth texts := by
  induction texts generalizing depth with
  | nil => rfl
  | cons t texts ih =>
    have split : linesChars (t :: texts) = t ++ '\n' :: linesChars texts := by
      simp [linesChars]
    rw [split, braceDepth_append, depthAfter_cons]
    refine Option.bind_congr fun d _ => ?_
    rw [braceDepth_cons_of_ne (by decide) (by decide), ih]

theorem braceDepth_endedLine (depth : Nat) (before : Text) :
    braceDepth depth (endedLine before) = braceDepth depth before.reverse := by
  unfold endedLine
  split
  · next before =>
    rw [List.reverse_cons, braceDepth_append]
    cases braceDepth depth before.reverse with
    | none => rfl
    | some d => rfl
  · rfl

theorem depthAfter_linesFrom (depth : Nat) (before text : Text) :
    depthAfter depth (linesFrom before text) =
      (braceDepth depth before.reverse).bind fun d => braceDepth d text := by
  induction text generalizing depth before with
  | nil =>
    unfold linesFrom
    cases before with
    | nil => rfl
    | cons c before => exact depthAfter_cons depth _ []
  | cons c text ih =>
    unfold linesFrom
    split
    · next feed =>
      rw [depthAfter_cons, braceDepth_endedLine]
      refine Option.bind_congr fun d _ => ?_
      rw [ih, feed, braceDepth_cons_of_ne (by decide) (by decide)]
      rfl
    · rw [ih, List.reverse_cons, braceDepth_append, Option.bind_assoc]
      refine Option.bind_congr fun d _ => ?_
      rw [← braceDepth_append, List.singleton_append]

theorem depthAfter_lines (depth : Nat) (text : Text) :
    depthAfter depth (lines text) = braceDepth depth text :=
  depthAfter_linesFrom depth [] text

/-- Braces that are balanced on their own are balanced at any depth. -/
theorem braceDepth_add {depth last : Nat} {text : Text} (closed : braceDepth depth text = some last)
    (more : Nat) : braceDepth (depth + more) text = some (last + more) := by
  induction text generalizing depth with
  | nil =>
    cases closed
    rfl
  | cons c text ih =>
    simp only [braceDepth] at closed ⊢
    split at closed
    · next opening =>
      rw [if_pos opening, Nat.add_right_comm]
      exact ih closed
    · next notOpening =>
      rw [if_neg notOpening]
      split at closed
      · next closing =>
        rw [if_pos closing]
        cases depth with
        | zero => cases closed
        | succ outer =>
          rw [Nat.add_right_comm]
          exact ih closed
      · next notClosing =>
        rw [if_neg notClosing]
        exact ih closed

/-- No beginning of a text closes more braces than it opens, and the whole leaves as many open. -/
theorem braceDepth_eq_some_iff {depth last : Nat} {text : Text} :
    braceDepth depth text = some last ↔
      (∀ start, start <+: text → start.count '\x7d' ≤ depth + start.count '\x7b') ∧
        depth + text.count '\x7b' = last + text.count '\x7d' := by
  induction text generalizing depth with
  | nil =>
    simp [braceDepth]
  | cons c text ih =>
    -- the beginnings are the empty one and those that take the first character
    have prefixes {P : Text → Prop} (nil : P []) :
        (∀ start, start <+: c :: text → P start) ↔ ∀ start, start <+: text → P (c :: start) := by
      constructor
      · exact fun all start before => all _ (List.cons_prefix_cons.mpr ⟨rfl, before⟩)
      · intro all start before
        cases start with
        | nil => exact nil
        | cons d start =>
          obtain ⟨rfl, rest⟩ := List.cons_prefix_cons.mp before
          exact all start rest
    rw [prefixes (by simp)]
    simp only [braceDepth]
    split
    · next opening =>
      subst opening
      rw [ih]
      simp only [List.count_cons]
      refine and_congr (forall₂_congr fun start _ => ?_) ?_ <;> simp <;> omega
    · next notOpening =>
      split
      · next closing =>
        subst closing
        cases depth with
        | zero =>
          simp only [List.count_cons, reduceCtorEq, false_iff, not_and]
          intro all
          have first := all [] (List.nil_prefix)
          simp at first
        | succ outer =>
          rw [ih]
          simp only [List.count_cons]
          refine and_congr (forall₂_congr fun start _ => ?_) ?_ <;> simp <;> omega
      · next notClosing =>
        rw [ih]
        simp only [List.count_cons, beq_eq_false_iff_ne.mpr notOpening,
          beq_eq_false_iff_ne.mpr notClosing, Bool.false_eq_true, if_false, Nat.add_zero]

/-! ### Definitions of `main()` -/

theorem contains_append (before needle after : Text) :
    contains needle (before ++ (needle ++ after)) = true := by
  induction before with
  | nil =>
    cases needle with
    | nil => cases after <;> rfl
    | cons c needle =>
      have here : (c :: needle).isPrefixOf (c :: (needle ++ after)) = true :=
        List.isPrefixOf_iff_prefix.mpr ⟨after, rfl⟩
      simp only [List.nil_append, List.cons_append, contains, here, Bool.true_or]
  | cons c before ih => rw [List.cons_append, contains, ih, Bool.or_true]

/-- A stage is accepted if it defines `main()` and its braces, line ends apart, are closed. -/
theorem stageFault_eq_none {text : Text} (main : contains "void main()".toList text = true)
    (closed : braceDepth 0 text = some 0) : stageFault text = none := by
  rw [stageFault, if_pos main]
  exact (braceFault_eq_none_iff 1 0 _).mpr ((depthAfter_lines 0 text).trans closed)

/-! ### How a line begins -/

/-- The identifier that a line begins with after white space; empty if it begins otherwise. -/
def lead (line : Text) : Text := (trimStart line).takeWhile isIdentifier

theorem after?_append (opening rest : Text) : after? opening (opening ++ rest) = some rest := by
  induction opening with
  | nil => rfl
  | cons c opening ih => rw [List.cons_append, after?, if_pos rfl, ih]

theorem eq_of_after? : ∀ {opening text rest : Text}, after? opening text = some rest →
    text = opening ++ rest
  | [], _, _, same => Option.some.inj same
  | _ :: _, [], _, same => by cases same
  | p :: opening, c :: text, rest, same => by
    rw [after?] at same
    split at same
    · next equal => rw [equal, List.cons_append, ← eq_of_after? same]
    · cases same

theorem takeWhile_append_stop {word : Text} (all : ∀ c ∈ word, isIdentifier c = true) {c : Char}
    (stop : isIdentifier c = false) (rest : Text) :
    (word ++ c :: rest).takeWhile isIdentifier = word := by
  rw [List.takeWhile_append_of_pos all, List.takeWhile_cons_of_neg (by simp [stop]),
    List.append_nil]

theorem afterQualifier?_of_lead {q line : Text} (word : ∀ c ∈ q, isIdentifier c = true)
    (other : lead line ≠ q) : afterQualifier? q line = none := by
  cases found : afterQualifier? q line with
  | none => rfl
  | some rest =>
    have begins := eq_of_after? found
    rw [List.append_assoc] at begins
    refine absurd ?_ other
    rw [lead, begins]
    exact takeWhile_append_stop word (by decide) rest

theorem word_of_mem_qualifiers : ∀ q ∈ qualifiers, ∀ c ∈ q, isIdentifier c = true := by
  have words : (qualifiers.all fun q => q.all isIdentifier) = true := by
    decide
  intro q mem
  exact List.all_eq_true.mp (List.all_eq_true.mp words q mem)

theorem declaration?_of_lead {q line : Text} (word : ∀ c ∈ q, isIdentifier c = true)
    (other : lead line ≠ q) : declaration? q line = none := by
  rw [declaration?, afterQualifier?_of_lead word other]

/-! ### Texts one after another -/

theorem lead_append_of_blank {line : Text} {c : Char} (blank : isBlank c = true)
    (stop : isIdentifier c = false) : lead (line ++ [c]) = lead line := by
  unfold lead trimStart
  rw [List.dropWhile_append]
  split
  · next all =>
    rw [List.isEmpty_iff.mp all, List.dropWhile_cons_of_pos blank]
    rfl
  · rw [List.takeWhile_append]
    split
    · rw [List.takeWhile_cons_of_neg (by simp [stop]), List.append_nil]
      next whole => exact (List.takeWhile_prefix isIdentifier).eq_of_length whole |>.symm
    · rfl

theorem lead_endedLine (before : Text) : lead (endedLine before) = lead before.reverse := by
  unfold endedLine
  split
  · next before =>
    rw [List.reverse_cons, lead_append_of_blank (by decide) (by decide)]
  · rfl

theorem linesFrom_append_lineFeed (before text rest : Text) :
    linesFrom before (text ++ '\n' :: rest) =
      linesFrom before (text ++ ['\n']) ++ linesFrom [] rest := by
  induction text generalizing before with
  | nil => rfl
  | cons c text ih =>
    rw [List.cons_append, List.cons_append, linesFrom, linesFrom]
    split
    · rw [ih, List.cons_append]
    · exact ih _

/-- A line feed at the end begins no line and ends the last one, which begins as it did. -/
theorem lead_of_mem_linesFrom {before text : Text} {l : Text}
    (mem : l ∈ linesFrom before (text ++ ['\n'])) :
    l = [] ∨ ∃ k ∈ linesFrom before text, lead l = lead k := by
  induction text generalizing before with
  | nil =>
    obtain rfl := List.mem_singleton.mp mem
    cases before with
    | nil => exact Or.inl rfl
    | cons c before => exact Or.inr ⟨_, List.mem_singleton_self _, lead_endedLine _⟩
  | cons c text ih =>
    rw [List.cons_append, linesFrom] at mem
    rw [linesFrom]
    split at mem
    · next feed =>
      rw [if_pos feed]
      rcases List.mem_cons.mp mem with rfl | mem
      · exact Or.inr ⟨_, List.mem_cons_self, rfl⟩
      · refine (ih mem).imp_right fun begun => ?_
        obtain ⟨k, known, same⟩ := begun
        exact ⟨k, List.mem_cons_of_mem _ known, same⟩
    · next other =>
      rw [if_neg other]
      exact ih mem

theorem declarations_linesChars (q : Text) (texts : List Text) :
    declarations q (linesChars texts) = texts.flatMap fun t => declarations q (t ++ ['\n']) := by
  induction texts with
  | nil => rfl
  | cons t texts ih =>
    have split : linesChars (t :: texts) = t ++ '\n' :: linesChars texts := by
      simp [linesChars]
    rw [split, declarations, lines, linesFrom_append_lineFeed, List.filterMap_append,
      List.flatMap_cons, ← ih]
    rfl

theorem declarations_line (q : Text) {line : Text} (clean : Clean line) :
    declarations q (line ++ ['\n']) = (declaration? q line).toList := by
  rw [declarations, lines, linesFrom_append [] line [] clean.1, List.append_nil,
    endedLine_clean clean]
  cases found : declaration? q line <;> simp [linesFrom, found]

theorem declarations_of_lead {q : Text} (reads : q ∈ qualifiers) {text : Text}
    (apart : ∀ l ∈ lines text, lead l ∉ qualifiers) : declarations q (text ++ ['\n']) = [] := by
  refine List.filterMap_eq_nil_iff.mpr fun l mem => ?_
  refine declaration?_of_lead (word_of_mem_qualifiers q reads) fun same => ?_
  rcases lead_of_mem_linesFrom mem with rfl | ⟨k, known, begins⟩
  · rw [← same] at reads
    revert reads
    decide
  · exact apart k known (begins ▸ same ▸ reads)

/-! ### Words of a line -/

theorem splitOn_ne_nil (separates : Char → Bool) (text : Text) : splitOn separates text ≠ [] := by
  cases text with
  | nil => exact List.cons_ne_nil _ _
  | cons c text =>
    unfold splitOn
    split
    · exact List.cons_ne_nil _ _
    · split <;> exact List.cons_ne_nil _ _

/-- A character that separates cuts the text in two. -/
theorem splitOn_cut {separates : Char → Bool} {c : Char} (stop : separates c = true)
    (first second : Text) :
    splitOn separates (first ++ c :: second) =
      splitOn separates first ++ splitOn separates second := by
  induction first with
  | nil => simp [splitOn, stop]
  | cons d first ih =>
    rw [List.cons_append, splitOn, splitOn, ih]
    split
    · rfl
    · cases pieces : splitOn separates first with
      | nil => exact absurd pieces (splitOn_ne_nil separates first)
      | cons p others => rfl

theorem splitOn_plain {separates : Char → Bool} {word : Text}
    (plain : ∀ c ∈ word, separates c = false) : splitOn separates word = [word] := by
  induction word with
  | nil => rfl
  | cons d word ih =>
    have here : ¬ separates d = true := by simp [plain d List.mem_cons_self]
    rw [splitOn, if_neg here, ih fun e mem => plain e (List.mem_cons_of_mem _ mem)]

theorem splitOn_append {separates : Char → Bool} {word : Text}
    (plain : ∀ c ∈ word, separates c = false) {c : Char} (stop : separates c = true) (rest : Text) :
    splitOn separates (word ++ c :: rest) = word :: splitOn separates rest := by
  rw [splitOn_cut stop, splitOn_plain plain, List.singleton_append]

variable {word : Text} (plain : ∀ c ∈ word, isBlank c = false) (nonempty : word ≠ [])

include plain nonempty in
theorem words_append (rest : Text) : words (word ++ ' ' :: rest) = word :: words rest := by
  have blank : isBlank ' ' = true := by decide
  rw [words, splitOn_append plain blank, List.filter_cons_of_pos (by simpa using nonempty)]
  rfl

include plain nonempty in
theorem words_plain : words word = [word] := by
  rw [words, splitOn_plain plain, List.filter_cons_of_pos (by simpa using nonempty)]
  rfl

end ShaderComposer.SourceScan
