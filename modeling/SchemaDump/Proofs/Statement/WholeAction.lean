import Mathlib
import SchemaDump.Proofs.Statement.KeywordMeaning

/-!
# Actions are cut nowhere

A column's text is cut at its clause keywords, and `NULL` and `DEFAULT` are both clause keywords and
the ends of actions.  The word before them tells which they are, so no clause begins inside an
action, in letters of any case and with any gaps between the words.

A place inside an action is not inside a word of it, nor in a gap, and so it is between two of its
keywords.  These are few, and so are the clause keywords: of the pairs of one word after another in
an action, only `SET NULL` and `SET DEFAULT` have a second word that begins a clause, and their
first word keeps it from doing so.

* `le_start_of_word_gap` — no place is inside a word or in the gap after it.
* `IsPhrase.exists_between` — a place inside a phrase is between two of its keywords.
* `exists_isPhrase_of_actionText` — an action as it is written.
* `adjacent_in_action`, `ClauseKind.not_beginsAfter_set` — the keywords that follow one another.
* `no_clause_inside_action` — no clause begins inside an action.
-/

namespace SchemaDump

open Text Reader

/-! ## Places in a phrase -/

section Places

variable {a b w g t r v u cs : List Char} {k : String} {ks : List String} {p : Place}

/-- No place is inside a word or in the gap after it. -/
theorem le_start_of_word_gap (hw : ∀ c ∈ w, isWordChar c = true) (hg : ∀ c ∈ g, isBlank c = true)
    (hp : p ∈ findWords clauseKeyword (a ++ (w ++ (g ++ b)))) :
    p.start ≤ a.length ∨ a.length + w.length + g.length ≤ p.start := by
  refine (not_inside_word hw hp).imp_right fun hword => ?_
  by_contra hgap
  obtain ⟨c, hc, hcword⟩ := exists_wordChar_of_mem_findWords hp
  obtain ⟨i, hi⟩ := Nat.exists_eq_add_of_le hword.le
  rw [← List.append_assoc, hi, ← List.length_append, List.getElem?_append_right (Nat.le_add_right _ _),
    Nat.add_sub_cancel_left, List.getElem?_append_left (by omega)] at hc
  rw [isWordChar_of_isBlank (hg c (List.mem_of_getElem? hc))] at hcword
  exact Bool.noConfusion hcword

/-- The text is empty or ends with a blank. -/
def EndsBlank (u : List Char) : Prop := u.getLast?.all isBlank = true

theorem EndsBlank.append_gap (hg : IsGap g) (u : List Char) : EndsBlank (u ++ g) := by
  rw [EndsBlank, List.getLast?_append_of_ne_nil _ hg.ne_nil,
    List.getLast?_eq_some_getLast hg.ne_nil]
  exact hg.blank _ (List.getLast_mem hg.ne_nil)

/-- The last word of a text that ends with a word and a gap. -/
theorem lastWord_word_gap (hu : EndsBlank u) (hne : w ≠ []) (hw : ∀ c ∈ w, isWordChar c = true)
    (hg : IsGap g) : lastWord (u ++ (w ++ g)) = String.ofList (upper w) := by
  have hword : words w = [w] := words_of_solid hne fun c hc => isBlank_of_isWordChar (hw c hc)
  have hends : (words (u ++ w)).getLast? = some w := by
    rcases List.eq_nil_or_concat u with rfl | ⟨u, c, rfl⟩
    · rw [List.nil_append, hword, List.getLast?_singleton]
    · have hc : isBlank c = true := by simpa [EndsBlank] using hu
      rw [List.concat_eq_append, List.append_assoc, List.singleton_append, words_append_blank hc,
        hword, List.getLast?_concat]
  obtain ⟨c, g, rfl⟩ := List.exists_cons_of_ne_nil hg.ne_nil
  have hnone : words g = [] := by
    simpa [words] using words_blank_append (fun d hd => hg.blank d (List.mem_cons_of_mem c hd)) []
  rw [lastWord, ← List.append_assoc, words_append_blank (hg.blank c List.mem_cons_self), hnone,
    List.append_nil, hends, Option.getD_some]

/-- The text `u` ends with the keyword `j` and a gap, and the text `y` is a phrase that begins with
the keyword `k`. -/
structure IsBetween (j k : String) (u y : List Char) : Prop where
  before : ∃ s w g, u = s ++ (w ++ g) ∧ EndsBlank s ∧ isCapital j = true ∧ upper w = j.toList ∧
    IsGap g
  after : ∃ ks, IsPhrase (k :: ks) y

theorem IsBetween.lastWord_eq {j : String} (h : IsBetween j k u v) : lastWord u = j := by
  obtain ⟨s, w, g, rfl, hs, hj, hw, hg⟩ := h.before
  have hmap := map_keyLetter_of_upper hj hw
  have hkeyword := isKeyword_of_isCapital hj
  have hne : w ≠ [] := by
    rintro rfl
    exact toList_ne_nil_of_isKeyword hkeyword hmap.symm
  rw [lastWord_word_gap hs hne (isWordChar_of_map_keyLetter hkeyword hmap) hg, hw,
    String.ofList_toList]

/-- A place inside a phrase is between two keywords that follow each other. -/
theorem IsPhrase.exists_between (hv : IsPhrase ks v) (ha : EndsBlank a)
    (hp : p ∈ findWords clauseKeyword (a ++ (v ++ r))) :
    p.start ≤ a.length ∨ a.length + v.length ≤ p.start ∨
      ∃ j k u y, (j, k) ∈ ks.zip ks.tail ∧ a ++ v = u ++ y ∧ p.start = u.length ∧
        IsBetween j k u y := by
  induction hv generalizing a with
  | @single k w hk hw =>
    have hword := isWordChar_of_map_keyLetter (isKeyword_of_isCapital hk)
      (map_keyLetter_of_upper hk hw)
    exact (not_inside_word hword hp).imp_right fun h => .inl h.le
  | @cons k k' ks w g t hk hw hg ht ih =>
    have hword := isWordChar_of_map_keyLetter (isKeyword_of_isCapital hk)
      (map_keyLetter_of_upper hk hw)
    have hsplit : a ++ (w ++ (g ++ t)) = a ++ (w ++ g) ++ t := by simp
    have hlen : (a ++ (w ++ g)).length = a.length + w.length + g.length := by
      rw [List.length_append, List.length_append, Nat.add_assoc]
    have hp' : p ∈ findWords clauseKeyword (a ++ (w ++ (g ++ (t ++ r)))) := by simpa using hp
    refine (le_start_of_word_gap hword hg.blank hp').imp_right fun hle => ?_
    rcases hle.eq_or_lt with heq | hlt
    · exact .inr ⟨k, k', a ++ (w ++ g), t, by simp, hsplit, heq.symm.trans hlen.symm,
        ⟨a, w, g, rfl, ha, hk, hw, hg⟩, ks, ht⟩
    · have hends : EndsBlank (a ++ (w ++ g)) := by
        rw [← List.append_assoc]
        exact .append_gap hg _
      rcases ih hends (by simpa using hp) with h | h | ⟨j, k'', u, y, hmem, heq, hrest⟩
      · omega
      · refine .inl ?_
        simp only [List.length_append] at h ⊢
        omega
      · exact .inr ⟨j, k'', u, y, List.mem_cons_of_mem _ hmem, hsplit.trans heq, hrest⟩

/-! ## Keywords at a place -/

/-- A phrase begins with the word it spells first. -/
theorem IsPhrase.map_firstWord (hw : IsPhrase (k :: ks) w) (hr : StopsWord r) :
    (firstWord (w ++ r)).map keyLetter = k.toList := by
  have hfirst : ∀ {v y : List Char}, isCapital k = true → upper v = k.toList → StopsWord y →
      (firstWord (v ++ y)).map keyLetter = k.toList := fun hk hv hy => by
    have hmap := map_keyLetter_of_upper hk hv
    rw [firstWord_append (isWordChar_of_map_keyLetter (isKeyword_of_isCapital hk) hmap) hy, hmap]
  cases hw with
  | single hk hw => exact hfirst hk hw hr
  | cons hk hw hg ht =>
    rw [List.append_assoc, List.append_assoc]
    exact hfirst hk hw (hg.stopsWord _)

/-- A place at a phrase is one for a clause keyword that begins with the same word. -/
theorem exists_spelling_of_isPhrase (hcs : IsAscii cs) (hp : p ∈ findWords clauseKeyword cs)
    (hsplit : cs = u ++ (t ++ r)) (hstart : p.start = u.length) (ht : IsPhrase (k :: ks) t)
    (hr : StopsWord r) : ∃ js, k :: js ∈ (ClauseKind.ofKeyword p.text).spellings := by
  obtain ⟨pre, y, hpre, hlen, hy, is, his, hphrase⟩ := exists_spelling_of_mem_findWords hcs hp
  obtain ⟨-, hrest⟩ := List.append_inj (hpre.symm.trans hsplit) (hlen.symm.trans hstart)
  obtain ⟨i, js, rfl⟩ := hphrase.exists_cons
  have hletters := hphrase.map_firstWord hy
  rw [hrest, ht.map_firstWord hr, String.toList_inj] at hletters
  exact ⟨js, by rwa [hletters]⟩

end Places

/-! ## Actions -/

section Actions

variable {cs pre suf w r : List Char} {event : String} {p : Place}

/-- An action is the keyword `ON`, a gap, and the event and the keywords of the action as one
phrase. -/
theorem exists_isPhrase_of_actionText (hevent : isCapital event = true) (hcs : IsAscii suf)
    (h : (actionText event).run suf = some (w, r)) : StopsWord r ∧ ∃ o g v,
      suf = o ++ (g ++ (v ++ r)) ∧ o.map keyLetter = "ON".toList ∧ IsGap g ∧
      ∃ a : ReferentialAction, IsPhrase (event :: a.keywords) v := by
  obtain ⟨_, t, hleading, haction⟩ := exists_of_run_bind h
  clear h
  rw [run_leading_cons, Option.bind_eq_some_iff] at hleading
  obtain ⟨⟨_, t₁⟩, hon, hleading⟩ := hleading
  obtain ⟨o, g₁, rfl, ho, hne, hblank, -⟩ := eq_append_of_leading hon
  obtain ⟨e, g₂, rfl, he, hne', hblank', -⟩ := eq_append_of_leading hleading
  have hphrases : ArePhrases actionPhrases := by decide
  obtain ⟨rfl, hstop, ks, hks, hw⟩ :=
    exists_isPhrase_of_wholeWords hphrases hcs.right.right haction
  obtain ⟨a, rfl⟩ := ReferentialAction.exists_keywords hks
  have hupper : upper e = event.toList := hcs.right.left.left.upper_eq.trans he
  refine ⟨hstop, o, g₁, e ++ (g₂ ++ w), by simp, ho, ⟨hne, hblank⟩, a, ?_⟩
  cases a <;> exact .cons hevent hupper ⟨hne', hblank'⟩ hw

/-- Of the words inside an action only the two after `SET` are words that a clause begins with. -/
theorem adjacent_in_action : ∀ event ∈ actionEvents, ∀ a : ReferentialAction,
    ∀ q ∈ (event :: a.keywords).zip a.keywords, q = ("SET", "NULL") ∨ q = ("SET", "DEFAULT") ∨
      ∀ ks ∈ clausePhrases, ks.head? ≠ some q.2 := by
  intro event he a
  revert event
  cases a <;> decide

/-- The event begins no clause. -/
theorem event_not_clause : ∀ event ∈ actionEvents, ∀ ks ∈ clausePhrases, ks.head? ≠ some event := by
  decide

theorem ClauseKind.spellings_subset (kind : ClauseKind) :
    ∀ ks ∈ kind.spellings, ks ∈ clausePhrases := by
  cases kind <;> decide

/-- The keywords that end an action with `SET` begin no clause after it. -/
theorem ClauseKind.not_beginsAfter_set {kind : ClauseKind} {k : String} {js : List String}
    (hk : k = "NULL" ∨ k = "DEFAULT") (h : k :: js ∈ kind.spellings) :
    kind.beginsAfter "SET" = false := by
  cases kind
  case null | default => decide
  all_goals rcases hk with rfl | rfl <;> simp [spellings] at h

/-- **No clause begins inside an action.** -/
theorem no_clause_inside_action (hevent : event ∈ actionEvents) (hcs : IsAscii cs)
    (hsplit : cs = pre ++ suf) (h : (actionText event).run suf = some (w, r))
    (hp : p ∈ clauseStarts cs) : p.start ≤ pre.length ∨ cs.length ≤ p.start + r.length := by
  have hcapital : ∀ event ∈ actionEvents, isCapital event = true := by decide
  subst hsplit
  obtain ⟨hr, o, g, v, rfl, ho, hg, a, hv⟩ :=
    exists_isPhrase_of_actionText (hcapital event hevent) hcs.right h
  have hplace := List.mem_of_mem_filter hp
  have hword := isWordChar_of_map_keyLetter (k := "ON") (by decide) ho
  refine (le_start_of_word_gap hword hg.blank hplace).imp_right fun hle => ?_
  have hparts : pre ++ (o ++ (g ++ (v ++ r))) = pre ++ (o ++ g) ++ (v ++ r) := by simp
  have hlen : (pre ++ (o ++ g)).length = pre.length + o.length + g.length := by
    rw [List.length_append, List.length_append, Nat.add_assoc]
  rcases hle.eq_or_lt with heq | hlt
  · -- at the event
    obtain ⟨js, hjs⟩ := exists_spelling_of_isPhrase hcs hplace hparts (heq.symm.trans hlen.symm) hv hr
    exact absurd rfl (event_not_clause event hevent _ (ClauseKind.spellings_subset _ _ hjs))
  · have hends : EndsBlank (pre ++ (o ++ g)) := by
      rw [← List.append_assoc]
      exact .append_gap hg _
    rw [hparts] at hplace hcs hp
    rcases hv.exists_between hends hplace with
      hbefore | hafter | ⟨j, k, u, y, hmem, hcut, hstart, hbetween⟩
    · omega
    · rw [hparts]
      simp only [List.length_append] at hafter ⊢
      omega
    · -- between two words of the action
      rw [← List.append_assoc, hcut, List.append_assoc] at hplace hcs hp
      obtain ⟨ks, hy⟩ := hbetween.after
      obtain ⟨js, hjs⟩ := exists_spelling_of_isPhrase hcs hplace rfl hstart hy hr
      have hbegins : beginsClause (u ++ (y ++ r)) p = true := List.of_mem_filter hp
      rw [beginsClause, Bool.and_eq_true, hstart, List.take_left, hbetween.lastWord_eq] at hbegins
      rcases adjacent_in_action event hevent a (j, k) hmem with hset | hset | hnone
      · obtain ⟨rfl, rfl⟩ := Prod.mk.inj hset
        exact absurd hbegins.2 (by simp [ClauseKind.not_beginsAfter_set (.inl rfl) hjs])
      · obtain ⟨rfl, rfl⟩ := Prod.mk.inj hset
        exact absurd hbegins.2 (by simp [ClauseKind.not_beginsAfter_set (.inr rfl) hjs])
      · exact absurd rfl (hnone _ (ClauseKind.spellings_subset _ _ hjs))

end Actions

end SchemaDump
