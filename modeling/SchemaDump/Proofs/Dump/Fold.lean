import Mathlib
import SchemaDump.Proofs.Catalog.Contents

/-!
# The catalog of a dump as a fold

Of what the reading of a dump reports, only the statements that were extracted reach the catalog.
`dumpStatements` are these, in order, and `parseDump_eq_applyAll` says that the catalog of a dump is
the result of applying them one after another.
-/

namespace SchemaDump

/-- The statement that was read, if one was. -/
def Outcome.statement? : Outcome → Option Statement
  | .extracted s => some s
  | _ => none

/-- The statements read from segments, in order. -/
def extractedStatements (scope : Scope) (segments : List Segment) : List Statement :=
  segments.filterMap fun s => (s.outcome scope).statement?

/-- The statements read from a dump, in order. -/
def dumpStatements (scope : Scope) (text : String) : List Statement :=
  extractedStatements scope (segment text.toList scope.defaultSchema).statements

/-- Applies statements to a catalog. -/
def Catalog.applyAll (c : Catalog) (ss : List Statement) : Catalog :=
  ss.foldl (fun c s => (c.apply s).1) c

theorem Reading.catalog_readSegment (scope : Scope) (r : Reading) (s : Segment) :
    (r.readSegment scope s).catalog =
      r.catalog.applyAll (s.outcome scope).statement?.toList := by
  unfold Reading.readSegment
  cases h : s.outcome scope <;> rfl

theorem Reading.catalog_foldl (scope : Scope) (r : Reading) (segments : List Segment) :
    (segments.foldl (Reading.readSegment scope) r).catalog =
      r.catalog.applyAll (extractedStatements scope segments) := by
  induction segments generalizing r with
  | nil => rfl
  | cons s ss ih =>
    rw [List.foldl_cons, ih, Reading.catalog_readSegment]
    unfold Catalog.applyAll extractedStatements
    rw [← List.foldl_append, List.filterMap_cons]
    cases (s.outcome scope).statement? <;> rfl

/-- The catalog of a dump is its statements applied in order. -/
theorem parseDump_eq_applyAll (scope : Scope) (text : String) :
    parseDump scope text =
      (initialCatalog (segment text.toList scope.defaultSchema)).applyAll
        (dumpStatements scope text) := by
  unfold parseDump readDump dumpStatements
  rw [Reading.catalog_foldl]

namespace Catalog

theorem Indexed.initialCatalog (s : Segmented) : (initialCatalog s).Indexed := by
  unfold SchemaDump.initialCatalog
  split
  · exact ⟨Indexed.empty.1, Indexed.empty.2⟩
  · exact Indexed.empty

theorem contents_initialCatalog (s : Segmented) :
    (initialCatalog s).contents = { version := s.version } := by
  unfold SchemaDump.initialCatalog
  split <;> rename_i h <;> rw [h] <;> rfl

/-- Applying statements to a catalog and to its lists. -/
theorem Indexed.applyAll {c : Catalog} (h : c.Indexed) (ss : List Statement) :
    (c.applyAll ss).contents = ss.foldl Contents.apply c.contents ∧ (c.applyAll ss).Indexed := by
  induction ss generalizing c with
  | nil => exact ⟨rfl, h⟩
  | cons s ss ih =>
    obtain ⟨hc, hi⟩ := h.apply s
    obtain ⟨hc', hi'⟩ := ih hi
    exact ⟨hc'.trans (by rw [List.foldl_cons, hc]), hi'⟩

end Catalog

/-- The lists of a dump's catalog. -/
theorem contents_parseDump (scope : Scope) (text : String) :
    (parseDump scope text).contents = (dumpStatements scope text).foldl Contents.apply
      { version := (segment text.toList scope.defaultSchema).version } := by
  rw [parseDump_eq_applyAll, ((Catalog.Indexed.initialCatalog _).applyAll _).1,
    Catalog.contents_initialCatalog]

/-- The indexes of a dump's catalog are right. -/
theorem indexed_parseDump (scope : Scope) (text : String) : (parseDump scope text).Indexed := by
  rw [parseDump_eq_applyAll]
  exact ((Catalog.Indexed.initialCatalog _).applyAll _).2

end SchemaDump
