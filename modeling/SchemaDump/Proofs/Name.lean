import Mathlib
import SchemaDump.Name
import SchemaDump.Proofs.Reader
import SchemaDump.Proofs.Text.Nesting
import SchemaDump.Proofs.Text.Quoted

/-!
# Written names

A name written in double quotes, two of them with a dot between, and a list of them in parentheses
are read back as they were.

* `quotedName`, `qualifiedName`, `nameList` — the written forms.
* `run_ident_quotedName`, `run_name_qualifiedName` — their reading.
* `parse_qualifiedName`, `IsNameList.columnList_eq` — what they stand for.
-/

namespace SchemaDump

open Text Reader

/-! ## Writing -/

/-- A name in double quotes. -/
def quotedName (n : String) : List Char := quote '"' n.toList

/-- The name of an object with its schema. -/
def qualifiedName (schema name : String) : List Char :=
  quotedName schema ++ '.' :: quotedName name

/-- Names with commas between them. -/
def commaNames (ns : List String) : List Char := List.intercalate [',', ' '] (ns.map quotedName)

/-- Names in parentheses. -/
def nameList (ns : List String) : List Char := '(' :: (commaNames ns ++ [')'])

theorem quotedName_eq (n : String) : quotedName n = '"' :: (doubled '"' n.toList ++ ['"']) := rfl

theorem beginsSolid_quotedName (n : String) (r : List Char) : BeginsSolid (quotedName n ++ r) :=
  BeginsSolid.of_cons (by decide) _

theorem beginsSolid_qualifiedName (schema name : String) (r : List Char) :
    BeginsSolid (qualifiedName schema name ++ r) := BeginsSolid.of_cons (by decide) _

/-! ## Reading one name -/

/-- The text between the quotes is read up to the closing quote. -/
theorem quotedBody_doubled (cs : List Char) {r : List Char} (hr : r.head? ≠ some '"') :
    quotedBody (doubled '"' cs ++ '"' :: r) = some (doubled '"' cs, r) := by
  induction cs with
  | nil =>
    cases r with
    | nil => rfl
    | cons b r =>
      have hb : b ≠ '"' := by simpa using hr
      simp [doubled, quotedBody, hb]
  | cons c cs ih =>
    rw [doubled, List.flatMap_cons, ← doubled]
    by_cases hc : c = '"'
    · subst hc
      rw [if_pos rfl, List.append_assoc]
      show quotedBody ('"' :: '"' :: (doubled '"' cs ++ '"' :: r)) = _
      rw [quotedBody, if_pos rfl, if_pos rfl, ih]
      rfl
    · rw [if_neg hc, List.append_assoc, List.singleton_append]
      obtain ⟨d, ds, hd⟩ := List.exists_cons_of_ne_nil
        (show doubled '"' cs ++ '"' :: r ≠ [] by simp)
      rw [hd, quotedBody, if_neg hc, ← hd, ih]
      rfl

theorem doubled_ne_nil {cs : List Char} (h : cs ≠ []) : doubled '"' cs ≠ [] := by
  cases cs with
  | nil => exact absurd rfl h
  | cons c cs =>
    rw [doubled, List.flatMap_cons]
    split <;> simp

/-- A written name is read as it is. -/
theorem run_ident_quotedName {n : String} (hn : n.toList ≠ []) {r : List Char}
    (hr : r.head? ≠ some '"') : ident.run (quotedName n ++ r) = some (quotedName n, r) := by
  have hbody : StateT.run (m := Option) quotedBody (doubled '"' n.toList ++ '"' :: r) =
      some (doubled '"' n.toList, r) := quotedBody_doubled n.toList hr
  have hchar : (Reader.char '"').run ('"' :: (doubled '"' n.toList ++ '"' :: r)) =
      some ((), doubled '"' n.toList ++ '"' :: r) := rfl
  have htext : quotedName n ++ r = '"' :: (doubled '"' n.toList ++ '"' :: r) := by
    rw [quotedName_eq, List.cons_append, List.append_assoc, List.singleton_append]
  have hquoted : quotedIdent.run (quotedName n ++ r) = some (quotedName n, r) := by
    rw [htext, quotedIdent, run_bind_eq hchar, run_bind_eq hbody,
      if_neg (by simpa using doubled_ne_nil hn)]
    rfl
  rw [ident, run_orElse, hquoted, Option.some_or]

/-- So is a name without quotes, up to a character that it cannot go on with. -/
theorem run_ident_bare {n r : List Char} (hne : n ≠ []) (h : ∀ c ∈ n, isIdentChar c = true)
    (hr : r.head?.any isIdentChar = false) : ident.run (n ++ r) = some (n, r) := by
  have hquoted : quotedIdent.run (n ++ r) = none := by
    obtain ⟨c, cs, rfl⟩ := List.exists_cons_of_ne_nil hne
    have hc : c ≠ '"' := by
      rintro rfl
      exact absurd (h _ List.mem_cons_self) (by decide)
    exact run_bind_eq_none (run_char_of_ne hc _) _
  rw [ident, run_orElse, hquoted, Option.none_or, run_runOf hne h hr]

/-- A qualified name is read as it is. -/
theorem run_name_qualifiedName {schema name : String} (hs : schema.toList ≠ [])
    (hn : name.toList ≠ []) {r : List Char} (hr : r.head? ≠ some '"') :
    Reader.name.run (qualifiedName schema name ++ r) = some (qualifiedName schema name, r) := by
  have hdot : dotIdent.run ('.' :: (quotedName name ++ r)) = some (quotedName name, r) := by
    have hchar : (Reader.char '.').run ('.' :: (quotedName name ++ r)) =
        some ((), quotedName name ++ r) := rfl
    rw [dotIdent, run_bind_eq hchar, run_ident_quotedName hn hr]
  have hfirst : ident.run (qualifiedName schema name ++ r) =
      some (quotedName schema, '.' :: (quotedName name ++ r)) := by
    rw [qualifiedName, List.append_assoc, List.cons_append]
    exact run_ident_quotedName hs (by simp)
  rw [Reader.name, run_bind_eq hfirst, run_orElse, run_bind_eq hdot]
  rfl

/-- No keyword begins with a quote. -/
theorem run_leading_quotedName {k : String} (hk : clashes k.toList ['"'] = true)
    (ks : List String) (n : String) (r : List Char) :
    (leading (k :: ks)).run (quotedName n ++ r) = none := by
  have h := run_leading_of_clash (w := ['"']) rfl hk ks (doubled '"' n.toList ++ '"' :: r)
  rwa [quotedName_eq, List.cons_append, List.append_assoc, List.singleton_append]

theorem run_leading_qualifiedName {k : String} (hk : clashes k.toList ['"'] = true)
    (ks : List String) (schema name : String) (r : List Char) :
    (leading (k :: ks)).run (qualifiedName schema name ++ r) = none := by
  rw [qualifiedName, List.append_assoc]
  exact run_leading_quotedName hk ks schema _

/-! ## What names stand for -/

theorem unquoteIdent_quotedName (n : String) : unquoteIdent (quotedName n) = n.toList :=
  unquoteIdent_quote n.toList

/-- A text that does not both begin and end with a quote stands for itself. -/
theorem unquoteIdent_of_ends {e : List Char} (htrim : trim e = e)
    (hends : e.head? = some '"' → e.getLast? ≠ some '"') : unquoteIdent e = e := by
  have hnot : ¬(2 ≤ e.length && e.head? == some '"' && e.getLast? == some '"') = true := by
    simp only [Bool.and_eq_true, beq_iff_eq, not_and]
    exact fun h => hends h.2
  rw [unquoteIdent, unquote, htrim, if_neg hnot]

theorem plainOnly_isSeparator : PlainOnly QualifiedName.isSeparator := by
  intro s c h
  rw [QualifiedName.isSeparator, Bool.and_eq_true] at h
  exact h.1

theorem parse_qualifiedName (schema name current : String) :
    QualifiedName.parse (qualifiedName schema name) current = { schema, name } := by
  have hpart : Uncut QualifiedName.isSeparator (quotedName schema) :=
    Uncut.quote plainOnly_isSeparator schema.toList
  have hstop : QualifiedName.isSeparator (Nesting.after {} (quotedName schema)) '.' = true := by
    rw [hpart.closed]
    decide
  rw [QualifiedName.parse, qualifiedName, cutAt_append_of_stop hpart.cutAt_eq hstop]
  simp only [unquoteIdent_quotedName, String.ofList_toList]

/-! ## Lists of names -/

/-- A name with any blanks around it. -/
def IsSpacedName (n : String) (p : List Char) : Prop :=
  ∃ a b, (∀ c ∈ a, isBlank c = true) ∧ (∀ c ∈ b, isBlank c = true) ∧ p = a ++ (quotedName n ++ b)

/-- Names with commas between them, and any blanks around each. -/
def IsNameList (ns : List String) (t : List Char) : Prop :=
  ∃ ps, List.Forall₂ IsSpacedName ns ps ∧ t = List.intercalate [','] ps

section NameList

variable {ns : List String} {t : List Char} {stop : Nesting → Char → Bool}

theorem IsSpacedName.uncut {n : String} {p : List Char} (h : IsSpacedName n p)
    (hplain : PlainOnly stop) (hspare : SparesBlanks stop) : Uncut stop p := by
  obtain ⟨a, b, ha, hb, rfl⟩ := h
  exact (Uncut.blanks hspare ha).append
    ((Uncut.quote hplain n.toList).append (Uncut.blanks hspare hb))

theorem IsSpacedName.trim_eq {n : String} {p : List Char} (h : IsSpacedName n p) :
    trim p = quotedName n := by
  obtain ⟨a, b, ha, hb, rfl⟩ := h
  rw [trim_blank_append _ ha, trim_append_of_blank _ hb]
  exact trim_quote (by decide) n.toList

theorem exists_of_mem_forall₂ {ps : List (List Char)} (h : List.Forall₂ IsSpacedName ns ps) :
    ∀ p ∈ ps, ∃ n, IsSpacedName n p := by
  induction h with
  | nil => simp
  | @cons n p ns ps hp _ ih =>
    intro q hq
    rcases List.mem_cons.1 hq with rfl | hq
    · exact ⟨n, hp⟩
    · exact ih q hq

theorem map_trim_of_forall₂ {ps : List (List Char)} (h : List.Forall₂ IsSpacedName ns ps) :
    ps.map trim = ns.map quotedName := by
  induction h with
  | nil => rfl
  | cons hp _ ih => rw [List.map_cons, List.map_cons, hp.trim_eq, ih]

theorem IsNameList.uncut (h : IsNameList ns t) (hplain : PlainOnly stop)
    (hspare : SparesBlanks stop) (hcomma : Uncut stop [',']) : Uncut stop t := by
  obtain ⟨ps, hps, rfl⟩ := h
  refine Uncut.intercalate hcomma fun p hp => ?_
  obtain ⟨n, hn⟩ := exists_of_mem_forall₂ hps p hp
  exact hn.uncut hplain hspare

theorem IsNameList.balanced (h : IsNameList ns t) : Balanced t :=
  h.uncut plainOnly_isUnmatched sparesBlanks_isUnmatched ⟨rfl, rfl⟩

theorem dropParens_of_uncut (h : Uncut isOpening t) : dropParens t = t := by
  rw [dropParens, firstGroup, h.cutAt_eq]
  rfl

/-- A list of entries without parentheses around it is read entry by entry. -/
theorem columnList_of_dropParens {ps : List (List Char)}
    (hparens : dropParens (Text.trim (List.intercalate [','] ps)) =
      Text.trim (List.intercalate [','] ps))
    (hentry : ∀ p ∈ ps, IsEntry p) (hne : ∀ p ∈ ps, Text.trim p ≠ []) :
    columnList (List.intercalate [','] ps) =
      ps.map fun p => String.ofList (unquoteIdent (Text.trim p)) := by
  have hentries : ((piecesAt isTopComma {} (List.intercalate [','] ps)).map Text.trim).filter
      (fun e => !e.isEmpty) = ps.map Text.trim := by
    cases ps with
    | nil => rfl
    | cons p ps =>
      rw [piecesAt_intercalate (List.cons_ne_nil p ps) hentry, List.filter_eq_self]
      intro c hc
      obtain ⟨q, hq, rfl⟩ := List.mem_map.1 hc
      simpa using hne q hq
  rw [columnList, hparens, filter_map_trim_splitTopLevel,
    map_trim_piecesAt_trim sparesBlanks_isTopComma, hentries, List.map_map]
  rfl

/-- So is a list without any parentheses. -/
theorem columnList_intercalate {ps : List (List Char)} (hopen : ∀ p ∈ ps, Uncut isOpening p)
    (hentry : ∀ p ∈ ps, IsEntry p) (hne : ∀ p ∈ ps, Text.trim p ≠ []) :
    columnList (List.intercalate [','] ps) =
      ps.map fun p => String.ofList (unquoteIdent (Text.trim p)) := by
  have hlist : Uncut isOpening (List.intercalate [','] ps) := Uncut.intercalate ⟨rfl, rfl⟩ hopen
  exact columnList_of_dropParens (dropParens_of_uncut (hlist.trim sparesBlanks_isOpening)) hentry
    hne

/-- A list of names is read back as it was. -/
theorem IsNameList.columnList_eq (h : IsNameList ns t) : columnList t = ns := by
  obtain ⟨ps, hps, rfl⟩ := h
  have huncut : ∀ {stop}, PlainOnly stop → SparesBlanks stop → ∀ p ∈ ps, Uncut stop p := by
    intro stop hplain hspare p hp
    obtain ⟨n, hn⟩ := exists_of_mem_forall₂ hps p hp
    exact hn.uncut hplain hspare
  rw [columnList_intercalate (huncut plainOnly_isOpening sparesBlanks_isOpening)
    (huncut plainOnly_isTopComma sparesBlanks_isTopComma)]
  · have htrim := congrArg (List.map fun p => String.ofList (unquoteIdent p))
      (map_trim_of_forall₂ hps)
    rw [List.map_map, List.map_map] at htrim
    refine (htrim.trans (List.map_congr_left fun n _ => ?_)).trans (List.map_id ns)
    rw [Function.comp_apply, unquoteIdent_quotedName, String.ofList_toList]
    rfl
  · intro p hp
    obtain ⟨n, hn⟩ := exists_of_mem_forall₂ hps p hp
    rw [hn.trim_eq]
    exact List.cons_ne_nil _ _

end NameList

/-- The blank after a comma belongs to the entry that follows. -/
theorem intercalate_comma_blank (p : List Char) (ps : List (List Char)) :
    List.intercalate [',', ' '] (p :: ps) = List.intercalate [','] (p :: ps.map (' ' :: ·)) := by
  induction ps generalizing p with
  | nil => rw [List.map_nil, List.intercalate_singleton, List.intercalate_singleton]
  | cons q ps ih =>
    have hcons : ∀ rs : List (List Char), List.intercalate [','] ((' ' :: q) :: rs) =
        ' ' :: List.intercalate [','] (q :: rs) := by
      intro rs
      cases rs with
      | nil => rw [List.intercalate_singleton, List.intercalate_singleton]
      | cons r rs => rw [List.intercalate_cons_cons, List.intercalate_cons_cons]; rfl
    rw [List.map_cons, List.intercalate_cons_cons, List.intercalate_cons_cons, ih, hcons]
    simp

theorem isNameList_commaNames (ns : List String) : IsNameList ns (commaNames ns) := by
  have hnil := List.forall_mem_nil (fun c : Char => isBlank c = true)
  have hrest : ∀ ms : List String,
      List.Forall₂ IsSpacedName ms ((ms.map quotedName).map (' ' :: ·)) := by
    intro ms
    induction ms with
    | nil => exact .nil
    | cons m ms ih =>
      exact .cons ⟨[' '], [], isBlank_of_mem_space, hnil, by rw [List.append_nil]; rfl⟩ ih
  cases ns with
  | nil => exact ⟨[], .nil, rfl⟩
  | cons n ns =>
    exact ⟨_, .cons ⟨[], [], hnil, hnil, by rw [List.append_nil]; rfl⟩ (hrest ns),
      intercalate_comma_blank _ _⟩

theorem columnList_commaNames (ns : List String) : columnList (commaNames ns) = ns :=
  (isNameList_commaNames ns).columnList_eq

/-- The group after a text without parentheses is the list of names written there. -/
theorem groupContent_nameList {a : List Char} (ha : Uncut isOpening a) (ns : List String)
    (r : List Char) : groupContent (a ++ (nameList ns ++ r)) = some (commaNames ns) := by
  rw [groupContent, nameList, List.cons_append, List.append_assoc, List.singleton_append,
    firstGroup_append ha (isNameList_commaNames ns).balanced]
  rfl

end SchemaDump
