import Mathlib
import SchemaDump.Proofs.Dump.Fold
import SchemaDump.Proofs.Statement.Scope

/-!
# A smaller scope filters the catalog

Two scopes that agree on the default schema cut a dump into the same statements and read each of
them alike, so the catalog in the smaller scope is the one in the larger scope without the objects
that are left out.

There are two halves.  The first is about one statement: whatever shape fits it, the scope is asked
one question about one name, and what is extracted is about an object of that name.  So the
statements extracted in the smaller scope are those of the larger one with names that it keeps.
The second is about the catalog: a statement that is kept changes the filtered catalog as it changes
the whole one, and a statement that is left out changes nothing that is kept.  The invariant along
the run of statements is that the smaller catalog is the filtered larger one.

* `AsksOnce.statement?_eq`, `dumpStatements_eq_filter` — the statements in two scopes.
* `Contents.keep_apply_of_kept`, `Contents.keep_apply_of_not_kept` — one statement.  A completion
  looks for the first object of a name; all objects of one name are kept or none is, and therefore
  filtering does not change which one is first.
* `Contents.keep_foldl_apply` — filtering after a run of statements is running those that are kept.
* `Catalog.isRestrictionOf_of_contents` — look-ups find the first object of a name in the container,
  so they are filtered with it.
* `parseDump_isRestrictionOf` — the catalogs of one dump in two scopes.
-/

namespace SchemaDump

/-! ## Filtered contents -/

namespace Contents

/-- The objects whose name has the property `p`. -/
def keep (p : String → Bool) (c : Contents) : Contents where
  version := c.version
  tables := c.tables.filter fun t => p t.schema
  constraints := c.constraints.filter fun k => p k.schema
  indexes := c.indexes.filter fun i => p i.schema
  sequences := c.sequences.filter fun s => p s.schema
  extensions := c.extensions.filter fun e => p e.scopeName
  enumTypes := c.enumTypes.filter fun e => p e.schema
  rules := c.rules.filter fun r => p r.schema

/-- A change of the first element that passes a test, before and after filtering: it is the same
when all that pass the test are kept, and it is lost when none of them are. -/
theorem filter_modifyFirst {α : Type} {p q : α → Bool} {f : α → α} {b : Bool}
    (hq : ∀ a, q (f a) = q a) (hp : ∀ a, p a = true → q a = b) (l : List α) :
    (Catalog.modifyFirst p f l).filter q =
      if b then Catalog.modifyFirst p f (l.filter q) else l.filter q := by
  induction l with
  | nil => simp [Catalog.modifyFirst]
  | cons a l ih =>
    rw [Catalog.modifyFirst]
    by_cases ha : p a = true
    · rw [if_pos ha, List.filter_cons, List.filter_cons, hq, hp a ha]
      cases b with
      | true => simp [Catalog.modifyFirst, ha]
      | false => simp
    · rw [if_neg ha, List.filter_cons, List.filter_cons, ih]
      cases b with
      | false => simp
      | true =>
        by_cases hqa : q a = true
        · simp [hqa, Catalog.modifyFirst, ha]
        · simp [hqa]

variable {p : String → Bool}

theorem keep_changeColumn (c : Contents) (k : ColumnRef) (f : Column → Column) :
    (c.changeColumn k f).keep p = if p k.schema then (c.keep p).changeColumn k f else c.keep p := by
  have htables := filter_modifyFirst (q := fun t : Table => p t.schema) (b := p k.schema)
    (p := fun t => t.key == (k.schema, k.table))
    (f := fun t => { t with columns := Catalog.modifyFirst (·.name == k.column) f t.columns })
    (fun _ => rfl) (fun t ht => congrArg (fun x => p x.1) (beq_iff_eq.1 ht)) c.tables
  unfold keep changeColumn
  simp only [htables]
  split <;> rfl

theorem keep_changeOwner (c : Contents) (schema name : String) (owner : ColumnRef) :
    (c.changeOwner schema name owner).keep p =
      if p schema then (c.keep p).changeOwner schema name owner else c.keep p := by
  have hsequences := filter_modifyFirst (q := fun s : Sequence => p s.schema) (b := p schema)
    (p := fun s => s.key == (schema, name)) (f := fun s => { s with ownedBy := some owner })
    (fun _ => rfl) (fun s hs => congrArg (fun x => p x.1) (beq_iff_eq.1 hs)) c.sequences
  unfold keep changeOwner
  simp only [hsequences]
  split <;> rfl

/-- A statement about a name that is kept does the same before and after filtering. -/
theorem keep_apply_of_kept {s : Statement} (hs : s.IsAbout s.scopeName)
    (hp : p s.scopeName = true) (c : Contents) : (c.apply s).keep p = (c.keep p).apply s := by
  cases s with
  | table t ks =>
    have hks : ks.filter (fun k => p k.schema) = ks :=
      List.filter_eq_self.2 fun k hk => (hs.2 k hk).symm ▸ hp
    have ht : p t.schema = true := hp
    simp [apply, keep, hks, ht]
  | setDefault k expr => exact (keep_changeColumn c k _).trans (if_pos hp)
  | addIdentity k kind => exact (keep_changeColumn c k _).trans (if_pos hp)
  | ownSequence schema name owner => exact (keep_changeOwner c schema name owner).trans (if_pos hp)
  | _ =>
    rw [Statement.scopeName] at hp
    simp [apply, keep, hp]

/-- A statement about a name that is not kept does nothing after filtering. -/
theorem keep_apply_of_not_kept {s : Statement} (hs : s.IsAbout s.scopeName)
    (hp : ¬ p s.scopeName = true) (c : Contents) : (c.apply s).keep p = c.keep p := by
  cases s with
  | table t ks =>
    have hks : ks.filter (fun k => p k.schema) = [] :=
      List.filter_eq_nil_iff.2 fun k hk => (hs.2 k hk).symm ▸ hp
    have ht : ¬ p t.schema = true := hp
    simp [apply, keep, hks, ht]
  | setDefault k expr => exact (keep_changeColumn c k _).trans (if_neg hp)
  | addIdentity k kind => exact (keep_changeColumn c k _).trans (if_neg hp)
  | ownSequence schema name owner => exact (keep_changeOwner c schema name owner).trans (if_neg hp)
  | _ =>
    rw [Statement.scopeName] at hp
    simp [apply, keep, hp]

/-- Filtering after a run of statements is running those that are kept. -/
theorem keep_foldl_apply {ss : List Statement} (hs : ∀ s ∈ ss, s.IsAbout s.scopeName)
    (c : Contents) : (ss.foldl apply c).keep p =
      (ss.filter fun s => p s.scopeName).foldl apply (c.keep p) := by
  induction ss generalizing c with
  | nil => rfl
  | cons s ss ih =>
    rw [List.foldl_cons, ih (fun t ht => hs t (by simp [ht])), List.filter_cons]
    split
    · rename_i hp
      rw [keep_apply_of_kept (hs s (by simp)) hp, List.foldl_cons]
    · rename_i hp
      rw [keep_apply_of_not_kept (hs s (by simp)) hp]

end Contents

/-! ## The statements of a dump in two scopes -/

/-- Whether the objects of a name are in scope. -/
def Scope.keeps (o : Scope) (name : String) : Bool := !o.isExcluded name

section TwoScopes

variable {f : Scope → Outcome} {o o₂ : Scope}

theorem AsksOnce.isAbout (hf : AsksOnce f) {s : Statement} (h : f o = .extracted s) :
    s.IsAbout s.scopeName := by
  cases hf with
  | declines hnone => exact absurd (hnone o ▸ h) (by simp)
  | asks name reason outcome fits about hasks =>
    rw [hasks o] at h
    split at h
    · exact absurd h (by simp)
    · have hs := about s h
      rwa [← hs.1] at hs

/-- In the smaller scope a statement is read as in the larger one, unless its name is left out. -/
theorem AsksOnce.statement?_eq (hf : AsksOnce f)
    (hsub : ∀ s, o.isExcluded s = true → o₂.isExcluded s = true) :
    (f o₂).statement? = (f o).statement?.filter fun s => o₂.keeps s.scopeName := by
  cases hf with
  | declines hnone => rw [hnone, hnone]; rfl
  | asks name reason outcome fits about hasks =>
    rw [hasks o, hasks o₂]
    by_cases h : o.isExcluded name = true
    · rw [if_pos h, if_pos (hsub name h)]
      rfl
    · rw [if_neg h]
      cases outcome with
      | noMatch => exact absurd rfl fits
      | discarded r => split <;> rfl
      | extracted s =>
        have hname : s.scopeName = name := (about s rfl).1
        by_cases h₂ : o₂.isExcluded name = true
        · rw [if_pos h₂]
          simp [Outcome.statement?, Option.filter, Scope.keeps, hname, h₂]
        · rw [if_neg h₂]
          simp [Outcome.statement?, Option.filter, Scope.keeps, hname, h₂]

end TwoScopes

theorem isAbout_of_mem_dumpStatements {o : Scope} {text : String} {s : Statement}
    (h : s ∈ dumpStatements o text) : s.IsAbout s.scopeName := by
  obtain ⟨g, -, hg⟩ := List.mem_filterMap.1 h
  have hx : g.outcome o = .extracted s := by
    unfold Outcome.statement? at hg
    split at hg
    · rename_i hout
      rw [hout, Option.some.inj hg]
    · exact absurd hg (by simp)
  exact (asksOnce_classify g.text g.schema).isAbout (o := o) hx

theorem dumpStatements_eq_filter {o o₂ : Scope} (hdef : o₂.defaultSchema = o.defaultSchema)
    (hsub : ∀ s, o.isExcluded s = true → o₂.isExcluded s = true) (text : String) :
    dumpStatements o₂ text = (dumpStatements o text).filter fun s => o₂.keeps s.scopeName := by
  unfold dumpStatements extractedStatements
  rw [hdef, List.filter_filterMap]
  refine List.filterMap_congr ?_
  intro g _
  exact (asksOnce_classify g.text g.schema).statement?_eq hsub

/-- The contents of a dump in the smaller scope are the filtered contents in the larger one. -/
theorem contents_parseDump_eq_keep {o o₂ : Scope} (hdef : o₂.defaultSchema = o.defaultSchema)
    (hsub : ∀ s, o.isExcluded s = true → o₂.isExcluded s = true) (text : String) :
    (parseDump o₂ text).contents = (parseDump o text).contents.keep o₂.keeps := by
  rw [contents_parseDump, contents_parseDump, dumpStatements_eq_filter hdef hsub, hdef,
    Contents.keep_foldl_apply fun s hs => isAbout_of_mem_dumpStatements hs]
  rfl

/-! ## Catalogs -/

/-- A catalog is another one without the objects whose name is not kept, container by container
and in order; a table or a sequence that is kept is found as before, and no other is found. -/
structure Catalog.IsRestrictionOf (c₂ c : Catalog) (keeps : String → Bool) : Prop where
  version_eq : c₂.version = c.version
  tables_eq : c₂.tables = c.tables.filter fun t => keeps t.schema
  constraints_eq : c₂.constraints = c.constraints.filter fun k => keeps k.schema
  indexes_eq : c₂.indexes = c.indexes.filter fun i => keeps i.schema
  sequences_eq : c₂.sequences = c.sequences.filter fun s => keeps s.schema
  extensions_eq : c₂.extensions = c.extensions.filter fun e => keeps e.scopeName
  enumTypes_eq : c₂.enumTypes = c.enumTypes.filter fun e => keeps e.schema
  rules_eq : c₂.rules = c.rules.filter fun r => keeps r.schema
  table?_eq : ∀ schema name,
    c₂.table? schema name = if keeps schema then c.table? schema name else none
  sequence?_eq : ∀ schema name,
    c₂.sequence? schema name = if keeps schema then c.sequence? schema name else none

/-- Every object of a catalog has a name that is kept. -/
structure Catalog.HasOnly (c : Catalog) (keeps : String → Bool) : Prop where
  tables : ∀ t ∈ c.tables, keeps t.schema = true
  constraints : ∀ k ∈ c.constraints, keeps k.schema = true
  indexes : ∀ i ∈ c.indexes, keeps i.schema = true
  sequences : ∀ s ∈ c.sequences, keeps s.schema = true
  extensions : ∀ e ∈ c.extensions, keeps e.scopeName = true
  enumTypes : ∀ e ∈ c.enumTypes, keeps e.schema = true
  rules : ∀ r ∈ c.rules, keeps r.schema = true

/-- Looking for a key in a filtered list. -/
theorem find?_filter_key {α : Type} {key : α → String × String} {q : α → Bool}
    {p : String → Bool} (hq : ∀ a, q a = p (key a).1) (schema name : String) (l : List α) :
    (l.filter q).find? (fun a => key a == (schema, name)) =
      if p schema then l.find? fun a => key a == (schema, name) else none := by
  rw [List.find?_filter]
  by_cases hp : p schema = true
  · rw [if_pos hp]
    congr 1
    funext a
    by_cases ha : key a = (schema, name)
    · simp [ha, hq, hp]
    · simp [ha]
  · rw [if_neg hp, List.find?_eq_none]
    intro a _ h
    simp only [decide_eq_true_eq, beq_iff_eq] at h
    rw [hq, h.2] at h
    exact hp h.1

theorem eq_filter_of_toList {α : Type} {as bs : Array α} {q : α → Bool}
    (h : as.toList = bs.toList.filter q) : as = bs.filter q :=
  Array.ext' (by rw [h, Array.toList_filter])

theorem Catalog.isRestrictionOf_of_contents {c c₂ : Catalog} {keeps : String → Bool}
    (h : c₂.contents = c.contents.keep keeps) (hc : c.Indexed) (hc₂ : c₂.Indexed) :
    c₂.IsRestrictionOf c keeps where
  version_eq := congrArg Contents.version h
  tables_eq := eq_filter_of_toList (congrArg Contents.tables h)
  constraints_eq := eq_filter_of_toList (congrArg Contents.constraints h)
  indexes_eq := eq_filter_of_toList (congrArg Contents.indexes h)
  sequences_eq := eq_filter_of_toList (congrArg Contents.sequences h)
  extensions_eq := eq_filter_of_toList (congrArg Contents.extensions h)
  enumTypes_eq := eq_filter_of_toList (congrArg Contents.enumTypes h)
  rules_eq := eq_filter_of_toList (congrArg Contents.rules h)
  table?_eq schema name := by
    rw [hc₂.table?_eq, hc.table?_eq, h]
    exact find?_filter_key (fun _ => rfl) schema name _
  sequence?_eq schema name := by
    rw [hc₂.sequence?_eq, hc.sequence?_eq, h]
    exact find?_filter_key (fun _ => rfl) schema name _

theorem of_mem_eq_filter {α : Type} {as bs : Array α} {q : α → Bool} (h : as = bs.filter q) :
    ∀ a ∈ as, q a = true := by
  intro a ha
  rw [h] at ha
  exact (Array.mem_filter.1 ha).2

theorem Catalog.IsRestrictionOf.hasOnly {c c₂ : Catalog} {keeps : String → Bool}
    (h : c₂.IsRestrictionOf c keeps) : c₂.HasOnly keeps where
  tables := of_mem_eq_filter h.tables_eq
  constraints := of_mem_eq_filter h.constraints_eq
  indexes := of_mem_eq_filter h.indexes_eq
  sequences := of_mem_eq_filter h.sequences_eq
  extensions := of_mem_eq_filter h.extensions_eq
  enumTypes := of_mem_eq_filter h.enumTypes_eq
  rules := of_mem_eq_filter h.rules_eq

/-- **Exclusion is exactly a filter.**  A scope that leaves out more, with the same default schema,
gives the catalog of a dump without the objects it leaves out: nothing else is lost or changed,
and nothing it leaves out is there. -/
theorem parseDump_isRestrictionOf (text : String) {o o₂ : Scope}
    (hdef : o₂.defaultSchema = o.defaultSchema)
    (hsub : ∀ s, o.isExcluded s = true → o₂.isExcluded s = true) :
    (parseDump o₂ text).IsRestrictionOf (parseDump o text) o₂.keeps ∧
      (parseDump o₂ text).HasOnly o₂.keeps := by
  have h : (parseDump o₂ text).IsRestrictionOf (parseDump o text) o₂.keeps :=
    Catalog.isRestrictionOf_of_contents (contents_parseDump_eq_keep hdef hsub text)
      (indexed_parseDump o text) (indexed_parseDump o₂ text)
  exact ⟨h, h.hasOnly⟩

/-- Two tables, one of them in a schema that only the smaller scope leaves out. -/
def auditDump : String :=
  "CREATE TABLE audit.log (id integer);\nCREATE TABLE public.log (id integer);\n"

theorem parseDump_isRestrictionOf_audit :
    ((parseDump { extraExcluded := ["audit"] } auditDump).IsRestrictionOf (parseDump {} auditDump)
        ({ extraExcluded := ["audit"] } : Scope).keeps ∧
      (parseDump { extraExcluded := ["audit"] } auditDump).HasOnly
        ({ extraExcluded := ["audit"] } : Scope).keeps) ∧
    (parseDump {} auditDump).tables.toList.map Table.schema = ["audit", "public"] ∧
    (parseDump { extraExcluded := ["audit"] } auditDump).tables.toList.map Table.schema =
      ["public"] := by
  have hchars : auditDump.toList = _ := String.toList_ofList
  refine ⟨parseDump_isRestrictionOf auditDump rfl fun s hs => ?_, ?_, ?_⟩
  · simp only [Scope.isExcluded, Bool.or_eq_true] at hs ⊢
    exact Or.inl (by simpa using hs)
  · rw [parseDump_eq_applyAll, dumpStatements, hchars]
    decide +kernel
  · rw [parseDump_eq_applyAll, dumpStatements, hchars]
    decide +kernel

end SchemaDump
