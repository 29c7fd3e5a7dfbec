import Mathlib
import SchemaDump.Proofs.Statement.ClauseList
import SchemaDump.Proofs.Statement.Coherence
import SchemaDump.Proofs.Statement.TableReference

/-!
# Where defaults come from

The default of a column is the text of one of its `DEFAULT` clauses, up to the next clause.

The clauses of a column are read one after another, and only a `DEFAULT` clause changes the default.
So a default comes from such a clause, by induction on the clauses, and the clause is the text from
its keyword to the next place at which a clause begins.  All of it is within one entry of the body,
which has no comma outside quotes and parentheses; and since the keyword is at the top level, the
clause has none either when it is walked alone.

* `exists_place_of_mem_clausesFrom` — a clause goes on to the beginning of the next one at most.
* `exists_keyword_of_mem_clausesFrom` — a clause has all of its keyword.
* `IsDefaultAt`, `exists_place_of_default` — the clause a default is the text of.
* `IsDefaultAt.length_le` — a default is no longer than the text it is from.
* `no_comma_default` — no default has a comma outside quotes and parentheses.
-/

namespace SchemaDump

open Text Reader

/-! ## Where clauses end -/

/-- Clauses begin one after another, and none in the keyword of another one. -/
theorem pairwise_clauseStarts (cs : List Char) : (clauseStarts cs).Pairwise fun p q =>
    p.start < q.start ∧ p.start + p.text.length ≤ q.start :=
  (pairwise_findWordsFrom 0 0 false cs).filter _

/-- Each clause goes on to the beginning of the next one at most. -/
theorem exists_place_of_mem_clausesFrom {cs : List Char} {ps : List Place}
    (hps : ps.Pairwise fun p q => p.start < q.start) {c : ClauseKind × List Char}
    (hc : c ∈ clausesFrom cs ps) :
    ∃ p ∈ ps, ∃ stop, c = (ClauseKind.ofKeyword p.text, (cs.take stop).drop p.start) ∧
      ∀ q ∈ ps, p.start < q.start → stop ≤ q.start := by
  induction ps with
  | nil => exact absurd hc (by simp [clausesFrom])
  | cons p ps ih =>
    obtain ⟨hp, hps⟩ := List.pairwise_cons.1 hps
    rw [clausesFrom] at hc
    rcases List.mem_cons.1 hc with rfl | hc
    · refine ⟨p, List.mem_cons_self, _, rfl, fun q hq hlt => ?_⟩
      have hq : q ∈ ps := (List.mem_cons.1 hq).resolve_left (by rintro rfl; omega)
      cases ps with
      | nil => exact absurd hq (by simp)
      | cons p' ps =>
        rcases List.mem_cons.1 hq with rfl | hq
        · exact le_rfl
        · exact ((List.pairwise_cons.1 hps).1 q hq).le
    · obtain ⟨p', hp', stop, hclause, hstop⟩ := ih hps hc
      refine ⟨p', List.mem_cons_of_mem p hp', stop, hclause, fun q hq hlt => ?_⟩
      rcases List.mem_cons.1 hq with rfl | hq
      · have := hp p' hp'
        omega
      · exact hstop q hq hlt

/-! ## Where defaults come from -/

theorem default_readGenerated (clause : List Char) (c : Column) :
    (readGenerated clause c).default = c.default := by
  unfold readGenerated
  repeat' split
  all_goals rfl

/-- Only a `DEFAULT` clause changes the default. -/
theorem ColumnDraft.default_readClause (owner : Owner) (d : ColumnDraft) {kind : ClauseKind}
    (hkind : kind ≠ .default) (clause : List Char) :
    (d.readClause owner kind clause).column.default = d.column.default := by
  cases kind with
  | default => exact absurd rfl hkind
  | generated => exact default_readGenerated clause d.column
  | _ => rfl

/-- A default is the text of a clause. -/
theorem exists_clause_of_default {owner : Owner} {clauses : List (ClauseKind × List Char)}
    {d : ColumnDraft} {x : String} (hnone : d.column.default = none)
    (h : (clauses.foldl (fun d k => d.readClause owner k.1 k.2) d).column.default = some x) :
    ∃ c ∈ clauses, c.1 = .default ∧ x.toList = trimItem (c.2.drop "DEFAULT".length) := by
  induction clauses using List.reverseRecOn with
  | nil => exact absurd (hnone.symm.trans h) (by simp)
  | append_singleton clauses c ih =>
    rw [List.foldl_append, List.foldl_cons, List.foldl_nil] at h
    by_cases hkind : c.1 = .default
    · refine ⟨c, by simp, hkind, ?_⟩
      rw [hkind, ColumnDraft.readClause] at h
      dsimp only at h
      split at h
      · exact absurd h (by simp)
      · rw [← Option.some.inj h, String.toList_ofList]
    · rw [ColumnDraft.default_readClause owner _ hkind] at h
      obtain ⟨c', hc', htext⟩ := ih h
      exact ⟨c', List.mem_append_left _ hc', htext⟩

/-- The text `x` is that of the `DEFAULT` clause at the place `p`, which ends before `stop`. -/
structure IsDefaultAt (cs x : List Char) (p : Place) (stop : Nat) : Prop where
  mem : p ∈ clauseStarts cs
  kind : ClauseKind.ofKeyword p.text = .default
  ends : ∀ q ∈ clauseStarts cs, p.start < q.start → stop ≤ q.start
  text : x = trimItem ((trim ((cs.take stop).drop p.start)).drop "DEFAULT".length)

/-- The default of a column is the text of one of its clauses, and the column has a type. -/
theorem exists_place_of_default {entry : List Char} {owner : Owner} {d : ColumnDraft} {x : String}
    (h : parseColumn? entry owner = some d) (hx : d.column.default = some x) :
    ∃ n cs p stop, columnHead.read? entry = some (n, cs) ∧ trimItem (typeOf cs) ≠ [] ∧
      IsDefaultAt cs x.toList p stop := by
  cases hhead : columnHead.read? entry with
  | none => exact absurd h (by rw [parseColumn?, hhead]; simp)
  | some v =>
    obtain ⟨n, cs⟩ := v
    rw [parseColumn?_eq_of_head hhead] at h
    split at h
    · exact absurd h (by simp)
    · rename_i htype
      rw [← Option.some.inj h] at hx
      obtain ⟨c, hc, hkind, htext⟩ := exists_clause_of_default rfl hx
      obtain ⟨c', hc', rfl⟩ := List.mem_map.1 hc
      obtain ⟨p, hp, stop, rfl, hstop⟩ :=
        exists_place_of_mem_clausesFrom ((pairwise_clauseStarts cs).imp And.left) hc'
      exact ⟨n, cs, p, stop, rfl, by simpa using htype, hp, hkind, hstop, htext⟩

/-! ## How long defaults are -/

theorem prefix_dropFinalCommas (cs : List Char) : dropFinalCommas cs <+: cs := by
  rw [dropFinalCommas, ← List.reverse_reverse cs, List.reverse_prefix, List.reverse_reverse]
  exact List.dropWhile_suffix _

theorem prefix_trim {cs : List Char} (h : BeginsSolid cs) : trim cs <+: cs := by
  have hskip : skipBlanks cs = cs := dropWhile_append_of_stop (List.forall_mem_nil _) h
  rw [trim, hskip]
  exact prefix_trimEnd cs

theorem length_trim_le (cs : List Char) : (trim cs).length ≤ cs.length :=
  (prefix_trimEnd _).length_le.trans (List.length_dropWhile_le _ _)

theorem length_trimItem_le (cs : List Char) : (trimItem cs).length ≤ cs.length :=
  (length_trim_le _).trans ((prefix_dropFinalCommas _).length_le.trans (length_trim_le cs))

/-- A clause of a column is no longer than the text from its keyword to its end. -/
theorem IsDefaultAt.length_le {cs x : List Char} {p : Place} {stop : Nat}
    (h : IsDefaultAt cs x p stop) :
    x.length ≤ min stop cs.length - p.start - "DEFAULT".length := by
  rw [h.text]
  refine (length_trimItem_le _).trans ?_
  rw [List.length_drop]
  have := length_trim_le ((cs.take stop).drop p.start)
  rw [List.length_drop, List.length_take] at this
  omega

/-- Nor is it longer than what is between the blank after the keyword and its end. -/
theorem IsDefaultAt.length_le_of_blank {pre u x : List Char} {p : Place} {stop : Nat}
    (h : IsDefaultAt (pre ++ ("DEFAULT".toList ++ ' ' :: u)) x p stop) (hp : p.start = pre.length) :
    x.length ≤ stop - p.start - ("DEFAULT".length + 1) := by
  have htake : ((pre ++ ("DEFAULT".toList ++ ' ' :: u)).take stop).drop p.start =
      ("DEFAULT".toList ++ ' ' :: u).take (stop - p.start) := by
    rw [List.drop_take, hp, List.drop_left]
  rw [h.text, htake]
  generalize stop - p.start = k
  have hsolid : BeginsSolid (("DEFAULT".toList ++ ' ' :: u).take k) := by
    cases k with
    | zero => rfl
    | succ k => exact BeginsSolid.of_cons (by decide) _
  have hbegins := prefix_trim hsolid
  have hlen : (trim (("DEFAULT".toList ++ ' ' :: u).take k)).length ≤ k :=
    hbegins.length_le.trans (List.length_take_le _ _)
  have hrest := (hbegins.trans (List.take_prefix k _)).drop "DEFAULT".length
  generalize trim (("DEFAULT".toList ++ ' ' :: u).take k) = y at hlen hrest
  have hdrop : (y.drop "DEFAULT".length).length = y.length - "DEFAULT".length := List.length_drop
  cases hy : y.drop "DEFAULT".length with
  | nil => exact Nat.zero_le _
  | cons b v =>
    rw [hy] at hrest hdrop
    obtain ⟨rfl, -⟩ := List.cons_prefix_cons.1 (show b :: v <+: ' ' :: u from hrest)
    have hblank : trimItem (' ' :: v) = trimItem v := by
      rw [trimItem, trimItem, ← List.singleton_append, trim_blank_append v isBlank_of_mem_space]
    have := length_trimItem_le v
    rw [hblank]
    rw [List.length_cons] at hdrop
    omega

/-! ## No default has a comma at the top level -/

theorem exists_phrase_of_read? {cs w : List Char} (h : clauseKeyword.read? cs = some w) :
    ∃ r, cs = w ++ r ∧ ∃ ks ∈ clausePhrases, (phrase ks).run cs = some (w, r) := by
  obtain ⟨⟨v, r⟩, hrun, rfl⟩ := Option.map_eq_some_iff.1 h
  refine ⟨r, eq_append_of_clauseKeyword hrun, ?_⟩
  rw [run_clauseKeyword, Option.bind_eq_some_iff] at hrun
  obtain ⟨q, hq, hend⟩ := hrun
  rw [keepAtWordEnd] at hend
  split at hend
  · exact absurd hend (by simp)
  · rw [Option.some.inj hend] at hq
    exact exists_of_run_anyPhrase hq

/-- A keyword with the meaning of `DEFAULT` is that word. -/
theorem map_keyLetter_of_default {cs w : List Char} (h : clauseKeyword.read? cs = some w)
    (hkind : ClauseKind.ofKeyword w = .default) : w.map keyLetter = "DEFAULT".toList := by
  have htext : keywordText w = "DEFAULT" := by
    rw [ClauseKind.ofKeyword] at hkind
    split at hkind
    all_goals first
      | assumption
      | exact absurd hkind (by simp)
  obtain ⟨r, hsplit, ks, hks, hphrase⟩ := exists_phrase_of_read? h
  cases w with
  | nil => exact absurd htext (by decide)
  | cons d t =>
    have hword := (beginsOther_of_clauseKeyword h d (by simp [hsplit])).1
    have hletter : [d].map keyLetter = ['D'] := by
      have hd : keyLetter d = 'D' := keyLetter_of_keywordText hword htext rfl (by decide)
      rw [List.map_singleton, hd]
    -- the other phrases begin with other letters
    have hclash : ∀ ks ∈ clausePhrases, ks ≠ ["DEFAULT"] →
        clashes (ks.headD "").toList ['D'] = true := by decide
    by_cases hks' : ks = ["DEFAULT"]
    · rw [hks'] at hphrase
      exact (eq_append_of_letters hphrase).2
    · have hj := hclash ks hks hks'
      cases ks with
      | nil => exact absurd hj (by simp [clashes])
      | cons j js =>
        have hnone := run_phrase_eq_none (run_keyword_of_clash hletter hj (t ++ r)) js
        rw [hsplit] at hphrase
        exact absurd (hphrase.symm.trans hnone) (by simp)

theorem no_comma_trimItem {cs : List Char} (h : cutAt isTopComma {} cs = none) :
    cutAt isTopComma {} (trimItem cs) = none := by
  obtain ⟨r, hr⟩ := prefix_dropFinalCommas (trim cs)
  refine sparesBlanks_isTopComma.cutAt_trim (cutAt_left_eq_none (b := r) ?_)
  rw [hr]
  exact sparesBlanks_isTopComma.cutAt_trim h

/-- A clause begins with its keyword, at the top level. -/
theorem exists_keyword_of_mem_clauseStarts {cs : List Char} {p : Place}
    (h : p ∈ clauseStarts cs) :
    ∃ pre r, cs = pre ++ (p.text ++ r) ∧ p.start = pre.length ∧
      clauseKeyword.read? (p.text ++ r) = some p.text ∧ Nesting.after {} pre = {} := by
  obtain ⟨pre, suf, rfl, hstart, hread, -⟩ := isPlaceIn_of_mem_clauseStarts p h
  rw [Nat.zero_add] at hstart
  obtain ⟨r, rfl, -⟩ := exists_phrase_of_read? hread
  refine ⟨pre, r, rfl, hstart, hread, ?_⟩
  cases hw : p.text ++ r with
  | nil =>
    have hnil : clauseKeyword.read? [] = none := by decide
    rw [hw, hnil] at hread
    exact absurd hread (by simp)
  | cons c suf =>
    have hbegins : beginsClause (pre ++ (p.text ++ r)) p = true := List.of_mem_filter h
    rw [beginsClause, Bool.and_eq_true, hstart, hw, topLevelMask, maskFrom_append_cons,
      Option.getD_some] at hbegins
    refine eq_start_of_isTop hbegins.1 ?_
    rintro rfl
    rw [hw, read?_clauseKeyword_of_not_word ')' suf (by decide)] at hread
    exact absurd hread (by simp)

/-- A clause begins with all of its keyword, since no other one begins in it. -/
theorem exists_keyword_of_mem_clausesFrom {cs : List Char} {ps : List Place}
    (hps : ∀ p ∈ ps, p ∈ clauseStarts cs)
    (hapart : ps.Pairwise fun p q => p.start + p.text.length ≤ q.start)
    {c : ClauseKind × List Char} (hc : c ∈ clausesFrom cs ps) :
    ∃ p ∈ ps, ∃ r e, p.text ++ r <:+ cs ∧ clauseKeyword.read? (p.text ++ r) = some p.text ∧
      e <+: r ∧ c = (ClauseKind.ofKeyword p.text, p.text ++ e) := by
  induction ps with
  | nil => exact absurd hc (by simp [clausesFrom])
  | cons p ps ih =>
    obtain ⟨hp, htail⟩ := List.pairwise_cons.1 hapart
    rw [clausesFrom] at hc
    rcases List.mem_cons.1 hc with rfl | hc
    · obtain ⟨pre, r, hcs, hstart, hread, -⟩ :=
        exists_keyword_of_mem_clauseStarts (hps p List.mem_cons_self)
      have hstop : pre.length + p.text.length ≤ (ps.head?.map Place.start).getD cs.length := by
        cases ps with
        | nil =>
          have hlen := congrArg List.length hcs
          rw [List.length_append, List.length_append] at hlen
          show _ ≤ cs.length
          omega
        | cons q ps =>
          rw [← hstart]
          exact hp q List.mem_cons_self
      refine ⟨p, List.mem_cons_self, r, r.take
        ((ps.head?.map Place.start).getD cs.length - pre.length - p.text.length),
        ⟨pre, hcs.symm⟩, hread, List.take_prefix _ r, ?_⟩
      generalize (ps.head?.map Place.start).getD cs.length = stop at hstop ⊢
      rw [hcs, hstart, List.drop_take, List.drop_left, List.take_append,
        List.take_of_length_le (by omega)]
    · obtain ⟨q, hq, hrest⟩ := ih (fun q hq => hps q (List.mem_cons_of_mem p hq)) htail hc
      exact ⟨q, List.mem_cons_of_mem p hq, hrest⟩

/-- The text of a clause has no comma at the top level, if the column's text has none. -/
theorem IsDefaultAt.no_comma {cs x : List Char} {p : Place} {stop : Nat}
    (h : IsDefaultAt cs x p stop) (hcs : cutAt isTopComma {} cs = none) :
    cutAt isTopComma {} x = none := by
  obtain ⟨pre, r, rfl, hstart, hread, hclosed⟩ := exists_keyword_of_mem_clauseStarts h.mem
  have hletters := map_keyLetter_of_default hread h.kind
  have hword := isWordChar_of_map_keyLetter (by decide) hletters
  have hlen : p.text.length = "DEFAULT".length := by
    rw [← List.length_map keyLetter, hletters, String.length_toList]
  have hsuf := cutAt_right_eq_none hcs
  rw [hclosed] at hsuf
  have htake : ((pre ++ (p.text ++ r)).take stop).drop p.start =
      (p.text ++ r).take (stop - p.start) := by
    rw [List.drop_take, hstart, List.drop_left]
  rw [h.text, htake]
  refine no_comma_trimItem ?_
  generalize stop - p.start = k
  have hclause : cutAt isTopComma {} (trim ((p.text ++ r).take k)) = none :=
    sparesBlanks_isTopComma.cutAt_trim
      (cutAt_left_eq_none (b := (p.text ++ r).drop k) (by rwa [List.take_append_drop]))
  -- what is dropped from the clause is its keyword
  have hsolid := ((beginsOther_of_clauseKeyword hread).take k).beginsSolid
  have hbegins : (trim ((p.text ++ r).take k)).take "DEFAULT".length <+: p.text := by
    have hwhole := ((List.take_prefix "DEFAULT".length _).trans (prefix_trim hsolid)).trans
      (List.take_prefix k _)
    refine List.prefix_of_prefix_length_le hwhole ⟨r, rfl⟩ ?_
    rw [hlen]
    exact List.length_take_le _ _
  have hkeyword : Nesting.after {} ((trim ((p.text ++ r).take k)).take "DEFAULT".length) = {} :=
    (IsPart.of_words fun c hc => .inl (hword c (hbegins.subset hc))).closed
  rw [← List.take_append_drop "DEFAULT".length (trim ((p.text ++ r).take k))] at hclause
  simpa only [hkeyword] using cutAt_right_eq_none hclause

/-! ## Entries -/

/-- Nothing is open after an identifier. -/
theorem eq_append_of_ident {cs n r : List Char} (h : ident.run cs = some (n, r)) :
    cs = n ++ r ∧ Nesting.after {} n = {} := by
  rw [ident, run_orElse] at h
  rcases Option.or_eq_some_iff.1 h with h | ⟨-, h⟩
  · obtain ⟨_, r₁, hquote, h⟩ := exists_of_run_bind h
    obtain ⟨body, r₂, hbody, h⟩ := exists_of_run_bind h
    split at h
    · exact absurd h (by simp)
    · obtain ⟨rfl, rfl⟩ := Prod.mk.inj (Option.some.inj h)
      obtain ⟨rfl, hafter⟩ := after_quotedBody hbody
      refine ⟨by rw [run_char_iff.1 hquote]; simp, ?_⟩
      show Nesting.after ⟨.double, 0⟩ (body ++ ['"']) = _
      rw [Nesting.after_append, hafter]
      rfl
  · have hrun : runOf isIdentChar cs = some (n, r) := h
    rw [runOf] at hrun
    split at hrun
    · exact absurd hrun (by simp)
    · rename_i hne
      obtain ⟨rfl, rfl⟩ := Prod.mk.inj (Option.some.inj hrun)
      exact ⟨(List.takeWhile_append_dropWhile).symm,
        (IsIdent.bare hne fun c hc => List.mem_takeWhile_imp hc).isPart.closed⟩

/-- Nothing is open between the name of a column and the text after it. -/
theorem exists_append_of_columnHead {entry n cs : List Char}
    (h : columnHead.read? entry = some (n, cs)) :
    ∃ pre, entry = pre ++ cs ∧ Nesting.after {} pre = {} := by
  obtain ⟨⟨v, r⟩, hrun, rfl⟩ := Option.map_eq_some_iff.1 h
  have hblanks : ∀ b, (∀ c ∈ b, isBlank c = true) → Nesting.after {} b = {} :=
    fun b hb => (sparesBlanks_isTopComma.walk hb {}).2
  rw [columnHead, run_bind_eq (run_blanks entry)] at hrun
  obtain ⟨n, r₂, hident, hrun⟩ := exists_of_run_bind hrun
  obtain ⟨g, r₃, hgap, hrun⟩ := exists_of_run_bind hrun
  obtain ⟨hsplit, hclosed⟩ := eq_append_of_ident hident
  obtain ⟨hsplit', hne, hg, -⟩ := eq_append_of_gap hgap
  have hfirst := hblanks _ fun c hc => List.mem_takeWhile_imp (l := entry) (p := isBlank) hc
  have hentry : entry = entry.takeWhile isBlank ++ (n ++ (g ++ r₃)) := by
    rw [← hsplit', ← hsplit, List.takeWhile_append_dropWhile]
  have hrest : Reader.rest.run r₃ = some (r₃, []) := rfl
  rw [run_bind_eq hrest] at hrun
  cases r₃ with
  | cons c r₃ =>
    obtain ⟨rfl, rfl⟩ := Prod.mk.inj (Prod.mk.inj (Option.some.inj hrun)).1
    refine ⟨entry.takeWhile isBlank ++ (n ++ g), by simpa using hentry, ?_⟩
    rw [Nesting.after_append, hfirst, Nesting.after_append, hclosed, hblanks g hg]
  | nil =>
    -- the last blank counts as the rest
    dsimp only at hrun
    split at hrun
    · obtain ⟨rfl, rfl⟩ := Prod.mk.inj (Prod.mk.inj (Option.some.inj hrun)).1
      obtain ⟨g, b, rfl⟩ := List.eq_nil_or_concat g |>.resolve_left hne
      refine ⟨entry.takeWhile isBlank ++ (n ++ g), by simpa using hentry, ?_⟩
      rw [Nesting.after_append, hfirst, Nesting.after_append, hclosed,
        hblanks g fun c hc => hg c (by simp [hc])]
    · exact absurd hrun (by simp)

/-- **No default has a comma outside quotes and parentheses**, whatever the body of the table. -/
theorem no_comma_default {body : List Char} {owner : Owner} {c : Column} {x : String}
    (hc : c ∈ (parseTableBody body owner).columns) (hx : c.default = some x) :
    cutAt isTopComma {} x.toList = none := by
  obtain ⟨entry, hentry, d, hd, rfl⟩ := exists_entry_of_mem_columns hc
  obtain ⟨n, cs, p, stop, hhead, -, hdefault⟩ := exists_place_of_default hd hx
  obtain ⟨pre, rfl, hclosed⟩ := exists_append_of_columnHead hhead
  have hwhole : cutAt isTopComma {} (pre ++ cs) = none := by
    rw [bodyEntries_eq] at hentry
    obtain ⟨piece, hpiece, heq⟩ := List.mem_map.1 (List.mem_of_mem_filter hentry)
    rw [← heq]
    exact sparesBlanks_isTopComma.cutAt_trim (no_comma_of_mem_piecesAt hpiece)
  have hright := cutAt_right_eq_none hwhole
  rw [hclosed] at hright
  exact hdefault.no_comma hright

end SchemaDump
