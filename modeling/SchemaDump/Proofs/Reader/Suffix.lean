import Mathlib
import SchemaDump.Proofs.Name
import SchemaDump.Proofs.Reader.Places
import SchemaDump.Statement.Form

/-!
# What a reader leaves

A reader takes a text apart from its beginning, so what it leaves is an end of the text.  What holds
of every part of a text holds of all that is read from it.

* `LeavesSuffix` — the property, and that it is kept by what readers are made of.
* `exists_suffix_of_findWord` — where a search succeeds.
* `Form.exists_suffix_of_alterTable`, `Form.exists_suffix_of_alterColumn` — what follows the names
  in a statement about a table.
-/

namespace SchemaDump

open Text

namespace Reader

variable {α β : Type} {r s : Reader α} {cs : List Char}

/-- What the reader leaves of a text is an end of it. -/
def LeavesSuffix (r : Reader α) : Prop := ∀ ⦃cs : List Char⦄ ⦃a t⦄, r.run cs = some (a, t) → t <:+ cs

theorem leavesSuffix_pure (a : α) : LeavesSuffix (pure a) := by
  intro cs b t h
  rw [(Prod.mk.inj (Option.some.inj h)).2]

theorem leavesSuffix_failure : LeavesSuffix (failure : Reader α) := fun _ _ _ h => absurd h (by simp)

theorem LeavesSuffix.bind {f : α → Reader β} (hr : LeavesSuffix r) (hf : ∀ a, LeavesSuffix (f a)) :
    LeavesSuffix (r >>= f) := by
  intro cs b t h
  obtain ⟨a, u, hu, ht⟩ := exists_of_run_bind h
  exact (hf a ht).trans (hr hu)

theorem LeavesSuffix.orElse (hr : LeavesSuffix r) (hs : LeavesSuffix s) :
    LeavesSuffix (r <|> s) := by
  intro cs a t h
  rw [run_orElse] at h
  rcases Option.or_eq_some_iff.1 h with h | ⟨-, h⟩
  · exact hr h
  · exact hs h

/-! ## Characters -/

theorem leavesSuffix_blanks : LeavesSuffix blanks := by
  intro cs b t h
  rw [← (Prod.mk.inj (Option.some.inj h)).2]
  exact List.dropWhile_suffix _

theorem leavesSuffix_gap : LeavesSuffix gap := by
  refine leavesSuffix_blanks.bind fun b => ?_
  split
  · exact leavesSuffix_failure
  · exact leavesSuffix_pure b

theorem leavesSuffix_char (c : Char) : LeavesSuffix (char c) := by
  intro cs u t h
  rw [run_char_iff.1 h]
  exact List.suffix_cons c t

theorem leavesSuffix_expect (c : Char) : LeavesSuffix (expect c) := by
  intro cs a t h
  have hrun : (if cs.head? = some c then some ((), cs) else none) = some (a, t) := h
  split at hrun
  · rw [(Prod.mk.inj (Option.some.inj hrun)).2]
  · exact absurd hrun (by simp)

theorem leavesSuffix_runOf (p : Char → Bool) : LeavesSuffix (runOf p) := by
  intro cs a t h
  have hrun : runOf p cs = some (a, t) := h
  rw [runOf] at hrun
  split at hrun
  · exact absurd hrun (by simp)
  · rw [← (Prod.mk.inj (Option.some.inj hrun)).2]
    exact List.dropWhile_suffix _

/-! ## Keywords -/

theorem leavesSuffix_keyword (k : String) : LeavesSuffix (keyword k) := by
  intro cs w t h
  rw [(eq_append_of_letters h).1]
  exact List.suffix_append w t

theorem leavesSuffix_phrase (ks : List String) : LeavesSuffix (phrase ks) := by
  induction ks with
  | nil => exact leavesSuffix_pure []
  | cons k ks ih =>
    cases ks with
    | nil => exact leavesSuffix_keyword k
    | cons k' ks =>
      exact (leavesSuffix_keyword k).bind fun _ => leavesSuffix_gap.bind fun _ =>
        ih.bind fun _ => leavesSuffix_pure _

theorem leavesSuffix_leading (ks : List String) : LeavesSuffix (leading ks) :=
  (leavesSuffix_phrase ks).bind fun _ => leavesSuffix_gap.bind fun _ => leavesSuffix_pure ()

theorem LeavesSuffix.skipping (hr : LeavesSuffix r) (ks : List String) :
    LeavesSuffix (skipping ks r) := ((leavesSuffix_leading ks).bind fun _ => hr).orElse hr

theorem LeavesSuffix.optionally (hr : LeavesSuffix r) (ks : List String) :
    LeavesSuffix (optionally ks r) :=
  ((leavesSuffix_leading ks).bind fun _ => hr.bind fun _ => leavesSuffix_pure _).orElse
    (hr.bind fun _ => leavesSuffix_pure _)

/-! ## Names -/

/-- The name in double quotes is closed where it ends. -/
theorem after_quotedBody {w r : List Char} (h : quotedBody cs = some (w, r)) :
    cs = w ++ '"' :: r ∧ Nesting.after ⟨.double, 0⟩ w = ⟨.double, 0⟩ := by
  have hpair : Nesting.after ⟨.double, 0⟩ ['"', '"'] = ⟨.double, 0⟩ := rfl
  induction cs using quotedBody.induct generalizing w r with
  | case1 => exact absurd h (by simp [quotedBody])
  | case2 =>
    rw [quotedBody, if_pos rfl] at h
    obtain ⟨rfl, rfl⟩ := Prod.mk.inj (Option.some.inj h)
    exact ⟨rfl, rfl⟩
  | case3 c hc => exact absurd h (by simp [quotedBody, hc])
  | case4 r' w' rest hr ih =>
    rw [quotedBody, if_pos rfl, if_pos rfl, hr] at h
    obtain ⟨rfl, rfl⟩ := Prod.mk.inj (Option.some.inj h)
    obtain ⟨rfl, hafter⟩ := ih hr
    refine ⟨rfl, ?_⟩
    show Nesting.after (Nesting.after ⟨.double, 0⟩ ['"', '"']) w' = _
    rw [hpair, hafter]
  | case5 r' hr ih =>
    rw [quotedBody, if_pos rfl, if_pos rfl, hr] at h
    obtain ⟨rfl, rfl⟩ := Prod.mk.inj (Option.some.inj h)
    exact ⟨rfl, rfl⟩
  | case6 b r' hb =>
    rw [quotedBody, if_pos rfl, if_neg hb] at h
    obtain ⟨rfl, rfl⟩ := Prod.mk.inj (Option.some.inj h)
    exact ⟨rfl, rfl⟩
  | case7 a b r' ha ih =>
    rw [quotedBody, if_neg ha] at h
    obtain ⟨⟨w', rest⟩, hw', hrest⟩ := Option.map_eq_some_iff.1 h
    obtain ⟨rfl, rfl⟩ := Prod.mk.inj hrest
    obtain ⟨hsplit, hafter⟩ := ih hw'
    rw [hsplit, Nesting.after_cons, IsMark.double.next_of_ne ha, hafter]
    exact ⟨rfl, rfl⟩

theorem leavesSuffix_quotedBody : LeavesSuffix quotedBody := by
  intro cs w t h
  rw [(after_quotedBody h).1]
  exact (List.suffix_cons '"' t).trans (List.suffix_append w _)

theorem leavesSuffix_ident : LeavesSuffix ident := by
  refine .orElse ?_ (leavesSuffix_runOf isIdentChar)
  refine (leavesSuffix_char '"').bind fun _ => leavesSuffix_quotedBody.bind fun body => ?_
  split
  · exact leavesSuffix_failure
  · exact leavesSuffix_pure _

theorem leavesSuffix_name : LeavesSuffix name := by
  refine leavesSuffix_ident.bind fun n => .orElse (.bind ?_ fun m => leavesSuffix_pure _)
    (leavesSuffix_pure n)
  exact (leavesSuffix_char '.').bind fun _ => leavesSuffix_ident

/-! ## Searching -/

/-- A search succeeds at an end of the text. -/
theorem exists_suffix_of_findWord {p : α × List Char} (h : findWord r cs = some p) :
    ∃ t, t <:+ cs ∧ r.run t = some p := by
  have hfrom : ∀ {inWord : Bool} {cs : List Char}, findWordFrom r inWord cs = some p →
      ∃ t, t <:+ cs ∧ r.run t = some p := by
    intro inWord cs
    induction cs generalizing inWord with
    | nil => exact fun h => absurd h (by simp [findWordFrom])
    | cons c cs ih =>
      intro h
      have hlater : findWordFrom r (isWordChar c) cs = some p →
          ∃ t, t <:+ c :: cs ∧ r.run t = some p := fun h =>
        (ih h).imp fun _ ht => ht.imp_left fun ht => ht.trans (List.suffix_cons c cs)
      rw [findWordFrom] at h
      split at h
      · exact hlater h
      · split at h
        · rename_i hrun
          exact ⟨c :: cs, List.suffix_rfl, hrun.trans h⟩
        · exact hlater h
  exact hfrom h

end Reader

open Reader

namespace Form

variable {α : Type} {r : Reader α} {cs n t : List Char} {a : α}

/-- What follows the name of the table is read from an end of the statement. -/
theorem exists_suffix_of_alterTable (h : (alterTable r).run cs = some ((n, a), t)) :
    ∃ u, u <:+ cs ∧ r.run u = some (a, t) := by
  have hread : ∀ {u : List Char}, (do let n ← name; let _ ← gap; return (n, ← r) :
      Reader (List Char × α)).run u = some ((n, a), t) → ∃ v, v <:+ u ∧ r.run v = some (a, t) := by
    intro u hu
    obtain ⟨m, u₁, hm, hu⟩ := exists_of_run_bind hu
    obtain ⟨g, u₂, hg, hu⟩ := exists_of_run_bind hu
    obtain ⟨b, u₃, hb, hu⟩ := exists_of_run_bind hu
    obtain ⟨hpair, rfl⟩ := Prod.mk.inj (Option.some.inj hu)
    obtain ⟨-, rfl⟩ := Prod.mk.inj hpair
    exact ⟨u₂, (leavesSuffix_gap hg).trans (leavesSuffix_name hm), hb⟩
  obtain ⟨b, u₁, hb, h⟩ := exists_of_run_bind h
  obtain ⟨_, u₂, hl, h⟩ := exists_of_run_bind h
  have hsuffix := (leavesSuffix_leading _ hl).trans (leavesSuffix_blanks hb)
  rw [run_skipping] at h
  rcases Option.or_eq_some_iff.1 h with h | ⟨-, h⟩
  · obtain ⟨⟨_, u₃⟩, ho, h⟩ := Option.bind_eq_some_iff.1 h
    obtain ⟨v, hv, hrun⟩ := hread h
    exact ⟨v, (hv.trans (leavesSuffix_leading _ ho)).trans hsuffix, hrun⟩
  · obtain ⟨v, hv, hrun⟩ := hread h
    exact ⟨v, hv.trans hsuffix, hrun⟩

/-- What follows the name of the column is read from an end of the statement. -/
theorem exists_suffix_of_alterColumn {c : List Char}
    (h : (alterColumn r).run cs = some ((n, c, a), t)) :
    ∃ u, u <:+ cs ∧ r.run u = some (a, t) := by
  obtain ⟨u, hu, h⟩ := exists_suffix_of_alterTable h
  obtain ⟨_, u₁, hl, h⟩ := exists_of_run_bind h
  obtain ⟨d, u₂, hd, h⟩ := exists_of_run_bind h
  obtain ⟨g, u₃, hg, h⟩ := exists_of_run_bind h
  obtain ⟨b, u₄, hb, h⟩ := exists_of_run_bind h
  obtain ⟨hpair, rfl⟩ := Prod.mk.inj (Option.some.inj h)
  obtain ⟨-, rfl⟩ := Prod.mk.inj hpair
  exact ⟨u₃, (((leavesSuffix_gap hg).trans (leavesSuffix_ident hd)).trans
    (leavesSuffix_leading _ hl)).trans hu, hb⟩

end Form

end SchemaDump
