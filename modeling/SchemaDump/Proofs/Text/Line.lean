import Mathlib
import SchemaDump.Text.Line
import SchemaDump.Text.Word

/-!
# Trimming, lines and occurrences

Facts about the ends of a text, its lines, and the texts that occur in it.

* `exists_trim` — a text is its trimmed part between two runs of blanks.
* `lines_append`, `lines_append_newline` — a text that ends with a line feed can be read line
  by line, apart from what follows it.
* `contains_iff` — the search for a text finds exactly the contiguous parts.
-/

namespace SchemaDump.Text

/-! ## Texts in pieces -/

/-- The characters of a text in two pieces.  The text of a long literal is evaluated in quadratic
time, so a proof about one is given its characters, with `String.toList_ofList` for a piece. -/
theorem toList_append_eq {a b : String} {l m : List Char} (ha : a.toList = l) (hb : b.toList = m) :
    (a ++ b).toList = l ++ m := by
  rw [String.toList_append, ha, hb]

/-! ## Blanks at the ends -/

theorem trimEnd_eq_rdropWhile (cs : List Char) : trimEnd cs = cs.rdropWhile isBlank := rfl

theorem trimEnd_append_of_blank {bs : List Char} (cs : List Char)
    (h : ∀ c ∈ bs, isBlank c = true) : trimEnd (cs ++ bs) = trimEnd cs := by
  induction bs using List.reverseRecOn with
  | nil => rw [List.append_nil]
  | append_singleton bs c ih =>
    rw [← List.append_assoc, trimEnd_eq_rdropWhile,
      List.rdropWhile_concat_pos _ _ _ (h c (by simp)), ← trimEnd_eq_rdropWhile]
    exact ih fun d hd => h d (by simp [hd])

theorem skipBlanks_append_of_blank {bs : List Char} (cs : List Char)
    (h : ∀ c ∈ bs, isBlank c = true) : skipBlanks (bs ++ cs) = skipBlanks cs := by
  rw [skipBlanks, List.dropWhile_append, if_pos]
  · rfl
  · simpa using h

theorem trimEnd_eq_self {cs : List Char} (hl : cs.getLast?.any isBlank = false) :
    trimEnd cs = cs := by
  rw [trimEnd_eq_rdropWhile, List.rdropWhile_eq_self_iff]
  intro hne
  rw [List.getLast?_eq_some_getLast hne, Option.any_some] at hl
  simp [hl]

/-- A text whose first and last characters are not blank is left alone. -/
theorem trim_eq_self {cs : List Char} (hd : cs.head?.any isBlank = false)
    (hl : cs.getLast?.any isBlank = false) : trim cs = cs := by
  have hskip : skipBlanks cs = cs := by
    cases cs with
    | nil => rfl
    | cons c cs =>
      simp only [List.head?_cons, Option.any_some] at hd
      rw [skipBlanks, List.dropWhile_cons_of_neg (by simp [hd])]
  rw [trim, hskip, trimEnd_eq_self hl]

theorem trim_of_not_blank {cs : List Char} (h : ∀ c ∈ cs, isBlank c = false) : trim cs = cs := by
  refine trim_eq_self ?_ ?_
  · cases hc : cs.head? with
    | none => rfl
    | some c => exact h c (List.mem_of_head? hc)
  · cases hc : cs.getLast? with
    | none => rfl
    | some c => exact h c (List.mem_of_getLast? hc)

theorem trim_eq_nil {cs : List Char} (h : isAllBlank cs = true) : trim cs = [] := by
  have hskip : skipBlanks cs = [] := List.dropWhile_eq_nil_iff.2 (List.all_eq_true.1 h)
  rw [trim, hskip]
  rfl

theorem exists_trimEnd (cs : List Char) : ∃ bs, cs = trimEnd cs ++ bs ∧
    ∀ c ∈ bs, isBlank c = true := by
  refine ⟨(cs.reverse.takeWhile isBlank).reverse, ?_, ?_⟩
  · rw [trimEnd, ← List.reverse_append, List.takeWhile_append_dropWhile, List.reverse_reverse]
  · exact fun c hc => List.mem_takeWhile_imp (List.mem_reverse.1 hc)

/-- A text is its trimmed part between two runs of blanks. -/
theorem exists_trim (cs : List Char) : ∃ pre post, cs = pre ++ trim cs ++ post ∧
    (∀ c ∈ pre, isBlank c = true) ∧ (∀ c ∈ post, isBlank c = true) := by
  obtain ⟨post, hpost, hblank⟩ := exists_trimEnd (skipBlanks cs)
  refine ⟨cs.takeWhile isBlank, post, ?_, fun c hc => List.mem_takeWhile_imp hc, hblank⟩
  rw [List.append_assoc, trim, ← hpost, skipBlanks, List.takeWhile_append_dropWhile]

/-- What is left of a text does not end with a blank. -/
theorem getLast?_trimEnd (cs : List Char) : (trimEnd cs).getLast?.any isBlank = false := by
  rw [trimEnd_eq_rdropWhile]
  by_cases hne : cs.rdropWhile isBlank = []
  · rw [hne]
    rfl
  · rw [List.getLast?_eq_some_getLast hne, Option.any_some]
    simpa using List.rdropWhile_last_not isBlank cs hne

theorem trim_append_of_blank {bs : List Char} (cs : List Char)
    (h : ∀ c ∈ bs, isBlank c = true) : trim (cs ++ bs) = trim cs := by
  by_cases hall : ∀ c ∈ cs, isBlank c = true
  · have hcs : skipBlanks cs = [] := List.dropWhile_eq_nil_iff.2 hall
    have happ : skipBlanks (cs ++ bs) = [] :=
      List.dropWhile_eq_nil_iff.2 fun c hc => (List.mem_append.1 hc).elim (hall c) (h c)
    rw [trim, trim, hcs, happ]
  · rw [trim, skipBlanks, List.dropWhile_append, if_neg (by simpa using hall)]
    exact trimEnd_append_of_blank _ h

theorem trim_blank_append {bs : List Char} (cs : List Char)
    (h : ∀ c ∈ bs, isBlank c = true) : trim (bs ++ cs) = trim cs := by
  rw [trim, skipBlanks_append_of_blank cs h, trim]

theorem trim_trim (cs : List Char) : trim (trim cs) = trim cs := by
  obtain ⟨pre, post, hcs, hpre, hpost⟩ := exists_trim cs
  conv_rhs => rw [hcs, trim_append_of_blank _ hpost, trim_blank_append _ hpre]

/-! ## Lines -/

theorem trim_dropReturn (l : List Char) : trim (dropReturn l) = trim l := by
  unfold dropReturn
  split
  · rename_i h
    obtain ⟨ys, rfl⟩ := List.getLast?_eq_some_iff.1 h
    rw [List.dropLast_concat, trim_append_of_blank ys (by simp; decide)]
  · rfl

theorem lines_nil : lines [] = [] := rfl

/-- The first line of a text goes to its first line feed. -/
theorem lines_append_newline {l : List Char} (h : '\n' ∉ l) (cs : List Char) :
    lines (l ++ '\n' :: cs) = dropReturn l :: lines cs := by
  obtain ⟨p, ps, hps⟩ := List.exists_cons_of_ne_nil (List.splitOn_ne_nil '\n' cs)
  simp [lines, List.splitOn_append_cons_self_of_not_mem h, hps]

/-- A last line without a line feed is kept as it is. -/
theorem lines_of_not_mem {l : List Char} (h : '\n' ∉ l) (hne : l ≠ []) : lines l = [l] := by
  simp [lines, List.splitOn_eq_singleton h, hne]

/-- Whether a text can be followed by another line: it is empty or ends with a line feed. -/
def EndsLine (cs : List Char) : Prop := cs = [] ∨ cs.getLast? = some '\n'

/-- Lines written one after another, each with its line feed. -/
def joinLines (ls : List (List Char)) : List Char := ls.flatMap (· ++ ['\n'])

@[simp] theorem joinLines_nil : joinLines [] = [] := rfl

@[simp] theorem joinLines_cons (l : List Char) (ls : List (List Char)) :
    joinLines (l :: ls) = l ++ '\n' :: joinLines ls := by simp [joinLines]

/-- The lines of a written list of lines are that list, followed by the lines of the rest. -/
theorem lines_joinLines_append {ls : List (List Char)} (h : ∀ l ∈ ls, '\n' ∉ l)
    (cs : List Char) : lines (joinLines ls ++ cs) = ls.map dropReturn ++ lines cs := by
  induction ls with
  | nil => rfl
  | cons l ls ih =>
    rw [joinLines_cons, List.append_assoc, List.cons_append,
      lines_append_newline (h l (by simp)), ih fun m hm => h m (by simp [hm])]
    rfl

/-- No piece of a text cut at its line feeds has a line feed. -/
theorem newline_not_mem_of_mem_splitOn {cs l : List Char} (h : l ∈ cs.splitOn '\n') :
    '\n' ∉ l := by
  induction cs generalizing l with
  | nil =>
    rw [List.splitOn_nil, List.mem_singleton] at h
    simp [h]
  | cons c cs ih =>
    rw [List.splitOn_cons_eq_if_modifyHead] at h
    obtain ⟨p, ps, hps⟩ := List.exists_cons_of_ne_nil (List.splitOn_ne_nil '\n' cs)
    split at h
    · rcases List.mem_cons.1 h with rfl | h
      · simp
      · exact ih h
    · rename_i hc
      rw [hps, List.modifyHead_cons, List.mem_cons] at h
      rcases h with rfl | h
      · rw [List.mem_cons, not_or]
        exact ⟨fun he => hc (by simp [← he]), ih (by simp [hps])⟩
      · exact ih (by simp [hps, h])

theorem newline_not_mem_of_mem_lines {cs l : List Char} (h : l ∈ lines cs) : '\n' ∉ l := by
  have hlast : ∀ m ∈ (cs.splitOn '\n').getLast?, '\n' ∉ m := fun m hm =>
    newline_not_mem_of_mem_splitOn (List.mem_of_getLast? hm)
  have hdrop : ∀ m : List Char, '\n' ∉ m → '\n' ∉ dropReturn m := by
    intro m hm
    unfold dropReturn
    split
    · exact fun hd => hm (List.mem_of_mem_dropLast hd)
    · exact hm
  simp only [lines, List.mem_append, List.mem_map] at h
  rcases h with ⟨m, hm, rfl⟩ | h
  · exact hdrop m (newline_not_mem_of_mem_splitOn (List.mem_of_mem_dropLast hm))
  · split at h
    · simp at h
    · rw [List.mem_singleton.1 h]
      obtain ⟨m, hm⟩ := Option.isSome_iff_exists.1
        (List.getLast?_isSome.2 (List.splitOn_ne_nil '\n' cs))
      rw [hm]
      exact hlast m hm

theorem joinLines_eq_unlines {ls : List (List Char)} (h : ls ≠ []) :
    joinLines ls = unlines ls ++ ['\n'] := by
  induction ls with
  | nil => exact absurd rfl h
  | cons l ls ih =>
    cases ls with
    | nil => simp [unlines]
    | cons m ms => simp [unlines, List.intercalate_cons_cons, ih (by simp)]

/-- A text that can be followed by another line is a written list of lines. -/
theorem EndsLine.exists_joinLines {cs : List Char} (h : EndsLine cs) :
    ∃ ls : List (List Char), (∀ l ∈ ls, '\n' ∉ l) ∧ joinLines ls = cs := by
  rcases h with rfl | h
  · exact ⟨[], by simp, rfl⟩
  · obtain ⟨ys, rfl⟩ := List.getLast?_eq_some_iff.1 h
    refine ⟨ys.splitOn '\n', fun l hl => newline_not_mem_of_mem_splitOn hl, ?_⟩
    rw [joinLines_eq_unlines (List.splitOn_ne_nil _ _), unlines, List.intercalate_splitOn]

/-- The lines of a text after one that ends a line are its own. -/
theorem lines_append {a : List Char} (h : EndsLine a) (b : List Char) :
    lines (a ++ b) = lines a ++ lines b := by
  obtain ⟨ls, hls, rfl⟩ := h.exists_joinLines
  have hnil := lines_joinLines_append hls []
  rw [List.append_nil, lines_nil, List.append_nil] at hnil
  rw [lines_joinLines_append hls, hnil]

theorem unlines_singleton (l : List Char) : unlines [l] = l := by
  rw [unlines, List.intercalate_singleton]

/-- Every line but the first comes after a line feed. -/
theorem unlines_cons (l : List Char) (ls : List (List Char)) :
    unlines (l :: ls) = l ++ ls.flatMap ('\n' :: ·) := by
  induction ls generalizing l with
  | nil => rw [unlines_singleton, List.flatMap_nil, List.append_nil]
  | cons m ls ih =>
    rw [unlines, List.intercalate_cons_cons, ← unlines, ih, List.flatMap_cons]
    simp

/-- Lines put together and cut at the line feeds again. -/
theorem splitOn_unlines {ls : List (List Char)} (h : ∀ l ∈ ls, '\n' ∉ l) (hne : ls ≠ []) :
    (unlines ls).splitOn '\n' = ls :=
  List.splitOn_intercalate '\n' h hne

/-! ## Words -/

/-- A blank ends a word. -/
theorem words_append_blank {c : Char} (hc : isBlank c = true) (a b : List Char) :
    words (a ++ c :: b) = words a ++ words b := by
  rw [words, List.splitOnP_append_cons a b hc, List.filter_append, words, words]

theorem words_ne_nil {cs : List Char} {c : Char} (hmem : c ∈ cs) (hc : isBlank c = false) :
    words cs ≠ [] := by
  induction cs with
  | nil => exact absurd hmem (by simp)
  | cons d cs ih =>
    obtain ⟨w, ws, hws⟩ := List.exists_cons_of_ne_nil (List.splitOnP_ne_nil isBlank cs)
    rw [words, List.splitOnP_cons_eq_if_modifyHead]
    by_cases hd : isBlank d = true
    · have hne : c ≠ d := fun h => absurd (h ▸ hc) (by simp [hd])
      rw [if_pos hd]
      exact ih ((List.mem_cons.1 hmem).resolve_left hne)
    · rw [if_neg hd, hws]
      simp

/-- A text that is left alone by `trim` and is not empty has a first and a last character that are
no blanks. -/
theorem exists_ends_of_trim_eq_self {cs : List Char} (hne : cs ≠ []) (h : trim cs = cs) :
    ∃ a z, cs.head? = some a ∧ isBlank a = false ∧ cs.getLast? = some z ∧ isBlank z = false := by
  obtain ⟨a, as, rfl⟩ := List.exists_cons_of_ne_nil hne
  have ha : isBlank a = false := by
    rw [← Bool.not_eq_true]
    intro ha
    have hlen := congrArg List.length h
    have hle : (trim (a :: as)).length ≤ as.length := by
      rw [trim, skipBlanks, List.dropWhile_cons_of_pos ha, trimEnd_eq_rdropWhile]
      exact (List.rdropWhile_prefix _ _).length_le.trans (List.dropWhile_suffix _).length_le
    rw [List.length_cons] at hlen
    omega
  refine ⟨a, (a :: as).getLast hne, rfl, ha, List.getLast?_eq_some_getLast hne, ?_⟩
  rw [trim, skipBlanks, List.dropWhile_cons_of_neg (by simp [ha]), trimEnd_eq_rdropWhile,
    List.rdropWhile_eq_self_iff] at h
  simpa using h hne

/-- Two texts without blanks at their ends, with any character between them. -/
theorem trim_append_cons {a t : List Char} {c : Char} (ha : a ≠ []) (ha' : trim a = a) (ht : t ≠ [])
    (ht' : trim t = t) : trim (a ++ c :: t) = a ++ c :: t := by
  obtain ⟨d, -, hd, hblank, -, -⟩ := exists_ends_of_trim_eq_self ha ha'
  obtain ⟨-, z, -, -, hz, hblank'⟩ := exists_ends_of_trim_eq_self ht ht'
  refine trim_eq_self ?_ ?_
  · rw [List.head?_append_of_ne_nil _ ha, hd, Option.any_some, hblank]
  · rw [List.getLast?_append, List.getLast?_cons, hz]
    simpa using hblank'

/-- Blanks at the end of a text are not those of its beginning. -/
theorem trim_append_of_solid {a : List Char} (hhead : a.head?.any isBlank = false)
    (hlast : a.getLast?.any (!isBlank ·) = true) (v : List Char) :
    trim (a ++ v) = a ++ trimEnd v := by
  obtain ⟨bs, hsplit, hbs⟩ := exists_trimEnd v
  have hne : a ≠ [] := by
    rintro rfl
    simp at hlast
  conv_lhs => rw [hsplit, ← List.append_assoc, trim_append_of_blank _ hbs]
  refine trim_eq_self ?_ ?_
  · rwa [List.head?_append_of_ne_nil _ hne]
  · cases htrim : trimEnd v with
    | nil =>
      rw [List.append_nil]
      cases hl : a.getLast? with
      | none => rfl
      | some c => simpa [hl] using hlast
    | cons c t =>
      have hend := getLast?_trimEnd v
      rw [htrim] at hend
      rwa [List.getLast?_append_of_ne_nil _ (by simp)]

/-! ## Occurrences -/

theorem contains_iff {needle cs : List Char} : contains needle cs = true ↔ needle <:+: cs := by
  induction cs with
  | nil => simp [contains]
  | cons c cs ih => simp [contains, ih, List.infix_cons_iff]

/-- Characters around a text that do not occur in the needle hide no occurrence. -/
theorem infix_of_infix_append {needle pre cs post : List Char} (hne : needle ≠ [])
    (hpre : ∀ c ∈ pre, c ∉ needle) (hpost : ∀ c ∈ post, c ∉ needle)
    (h : needle <:+: pre ++ cs ++ post) : needle <:+: cs := by
  have hleft : ∀ {xs ys ns : List Char}, ns ≠ [] → (∀ c ∈ xs, c ∉ ns) → ns <:+: xs ++ ys →
      ns <:+: ys := by
    intro xs ys ns hns hxs h
    induction xs with
    | nil => exact h
    | cons x xs ih =>
      rw [List.cons_append, List.infix_cons_iff] at h
      rcases h with h | h
      · cases ns with
        | nil => exact absurd rfl hns
        | cons n ns =>
          rw [List.cons_prefix_cons] at h
          exact absurd (h.1 ▸ List.mem_cons_self) (hxs x List.mem_cons_self)
      · exact ih (fun c hc => hxs c (List.mem_cons_of_mem _ hc)) h
  rw [List.append_assoc] at h
  have h₁ := List.reverse_infix.2 (hleft hne hpre h)
  rw [List.reverse_append] at h₁
  have h₂ := hleft (by simpa using hne) (fun c hc => by simpa using hpost c (by simpa using hc)) h₁
  exact List.reverse_infix.1 h₂

/-- A text without blanks occurs in a line exactly when it occurs in the trimmed line. -/
theorem contains_trim {needle : List Char} (hne : needle ≠ [])
    (hb : ∀ c ∈ needle, isBlank c = false) (l : List Char) :
    contains needle (trim l) = contains needle l := by
  obtain ⟨pre, post, hl, hpre, hpost⟩ := exists_trim l
  rw [Bool.eq_iff_iff, contains_iff, contains_iff]
  constructor
  · intro h
    rw [hl]
    exact h.trans (List.infix_append _ _ _)
  · intro h
    rw [hl] at h
    refine infix_of_infix_append hne (fun c hc hn => ?_) (fun c hc hn => ?_) h
    · exact absurd (hpre c hc) (by simp [hb c hn])
    · exact absurd (hpost c hc) (by simp [hb c hn])

end SchemaDump.Text
