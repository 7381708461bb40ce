import CatalogSync.Proofs.Filtering
import CatalogSync.Proofs.Reconciliation

/- The issues of a variant diff. Blank master keys call the diff off, and they alone are reported
   then. Otherwise the entries at fault are reported one by one, and at the end a promotion for
   which the sku is missing. An entry at fault calls for nothing (`entryActions_of_faulty`), so it
   can be left out of the draft unless a stored variant is kept for its sake
   (`variantListPlan_keeping`). Main statement: `variantListPlan_reports`. -/
namespace CatalogSync.Diff

/-- An entry of a draft is at fault if it is null or has a blank key. -/
def isFaulty (e : Option VariantDraft) : Bool := e.all fun d => isBlank d.key

/-- What an entry at fault is reported as. -/
def fault : Option VariantDraft → VariantProblem
  | none => .nullVariant
  | some _ => .blankVariantKey

/-- The draft with those of the other variants that pass a test; the master variant stays. -/
def keeping (keep : Option VariantDraft → Bool) (new : ProductDraft) : ProductDraft :=
  { new with variants := new.variants.filter keep }

variable {ctx : DiffContext} {old : Product} {new : ProductDraft}
  {keep : Option VariantDraft → Bool}

/-! ### The issues -/

theorem entryProblem_eq (e : Option VariantDraft) :
    entryProblem e = if isFaulty e then some (fault e) else none := by
  cases e <;> rfl

theorem filterMap_entryProblem (es : List (Option VariantDraft)) :
    es.filterMap entryProblem = (es.filter isFaulty).map fault := by
  induction es with
  | nil => rfl
  | cons e es ih =>
    cases h : isFaulty e with
    | true =>
      rw [List.filterMap_cons_some (by rw [entryProblem_eq, if_pos h]),
        List.filter_cons_of_pos h, List.map_cons, ih]
    | false =>
      rw [List.filterMap_cons_none (by rw [entryProblem_eq, h]; rfl),
        List.filter_cons_of_neg (by simp [h]), ih]

theorem masterKeyProblems_eq_nil_iff : masterKeyProblems old new = [] ↔
    isBlank old.masterVariant.key = false ∧ isBlank (new.masterVariant.bind (·.key)) = false := by
  rw [masterKeyProblems_eq_nil]
  cases new.masterVariant <;> simp

/-- Between master variants with keys, a promotion is refused for a blank sku and nothing else. -/
theorem promotionProblems_eq (h : masterKeyProblems old new = []) :
    promotionProblems old new =
      if old.masterVariant.key ≠ new.masterVariant.bind (·.key) ∧
          isBlank (new.masterVariant.bind (·.sku)) = true then
        [.blankNewMasterSku]
      else [] := by
  obtain ⟨ho, m, hm, hk⟩ := masterKeyProblems_eq_nil.1 h
  rw [promotionProblems, masterActions_eq ho hm hk, hm, Option.bind_some, Option.bind_some]
  by_cases he : old.masterVariant.key = m.key
  · rw [if_pos he, if_neg fun h => h.1 he]
  · rw [if_neg he]
    cases hs : isBlank m.sku with
    | true => rw [if_pos rfl, if_pos ⟨he, rfl⟩]
    | false =>
      rw [if_neg Bool.false_ne_true]
      exact (if_neg fun h => Bool.false_ne_true h.2).symm

theorem eq_blankSku_of_refused (h : masterKeyProblems old new = []) {p : VariantProblem}
    (hp : masterActions old new = .error p) : p = .blankNewMasterSku := by
  apply promotionProblems_of_keys h
  rw [promotionProblems, hp]
  exact List.mem_singleton_self p

/-! ### Drafts without their entries at fault -/

theorem entryActions_of_faulty {stored : SortedMap String Variant} {e : Option VariantDraft}
    (h : isFaulty e = true) : entryActions ctx stored e = [] := by
  cases e with
  | none => rfl
  | some d => exact if_pos h

/-- The entries that a test leaves out are at fault, and no stored variant is kept for their sake.
    -/
structure Needless (old : Product) (keep : Option VariantDraft → Bool) : Prop where
  faulty : ∀ e, keep e = false → isFaulty e = true
  unshared : ∀ v ∈ old.variants, ∀ d, keep (some d) = false → d.key = v.key → v.key = none

theorem updates_keeping (h : Needless old keep) :
    updates ctx old (keeping keep new) = updates ctx old new := by
  have hrest (es : List (Option VariantDraft)) :
      (es.filter keep).flatMap (entryActions ctx (variantsByKey old)) =
        es.flatMap (entryActions ctx (variantsByKey old)) := by
    induction es with
    | nil => rfl
    | cons e es ih =>
      cases hk : keep e with
      | true => rw [List.filter_cons_of_pos hk, List.flatMap_cons, List.flatMap_cons, ih]
      | false =>
        rw [List.filter_cons_of_neg (by simp [hk]), List.flatMap_cons,
          entryActions_of_faulty (h.faulty e hk), List.nil_append, ih]
  rw [updates, updates, ProductDraft.allVariants, ProductDraft.allVariants, List.flatMap_cons,
    List.flatMap_cons]
  exact congrArg _ (hrest new.variants)

theorem dropped_keeping (h : Needless old keep) {v : Variant} (hv : v ∈ old.variants) :
    Dropped (keeping keep new) v ↔ Dropped new v := by
  refine or_congr_right' fun hkey => ?_
  constructor
  · intro hall e he d hd hdk
    -- an entry with the key of the variant is not left out
    have hkeep : keep e = true := by
      by_contra hk
      exact hkey (h.unshared v hv d (hd ▸ Bool.eq_false_iff.2 hk) hdk)
    refine hall e ?_ d hd hdk
    rcases List.mem_cons.1 he with he | he
    · exact List.mem_cons.2 (Or.inl he)
    · exact List.mem_cons_of_mem _ (List.mem_filter.2 ⟨he, hkeep⟩)
  · intro hall e he
    refine hall e ?_
    rcases List.mem_cons.1 he with he | he
    · exact List.mem_cons.2 (Or.inl he)
    · exact List.mem_cons_of_mem _ (List.mem_filter.1 he).1

theorem removeVariantActions_keeping (h : Needless old keep) :
    removeVariantActions old (keeping keep new) = removeVariantActions old new := by
  rw [removeVariantActions_eq, removeVariantActions_eq]
  congr 1
  apply List.filter_congr
  intro v hv
  rw [Bool.eq_iff_iff, decide_eq_true_iff, decide_eq_true_iff]
  exact dropped_keeping h hv

theorem demoted_keeping (h : Needless old keep) (ho : isBlank old.masterVariant.key = false) :
    Demoted old (keeping keep new) ↔ Demoted old new := by
  constructor
  · intro hdem
    obtain ⟨e, he, hd⟩ := hdem
    exact ⟨e, (List.mem_filter.1 he).1, hd⟩
  · intro hdem
    obtain ⟨e, he, d, rfl, hk⟩ := hdem
    refine ⟨some d, List.mem_filter.2 ⟨he, ?_⟩, d, rfl, hk⟩
    by_contra hkeep
    have hblank : isBlank d.key = true := h.faulty (some d) (Bool.eq_false_iff.2 hkeep)
    rw [hk, ho] at hblank
    cases hblank

theorem promotion_keeping (h : Needless old keep) (hk : masterKeyProblems old new = []) :
    promotion old (keeping keep new) = promotion old new := by
  obtain ⟨ho, m, hm, hmk⟩ := masterKeyProblems_eq_nil.1 hk
  have hm' : (keeping keep new).masterVariant = some m := hm
  rw [promotion_eq ho hm' hmk, promotion_eq ho hm hmk]
  simp only [demoted_keeping h ho]

/-- Entries at fault may be left out. -/
theorem variantListPlan_keeping (h : Needless old keep) :
    (variantListPlan ctx old (keeping keep new)).actions = (variantListPlan ctx old new).actions := by
  have hsame : masterKeyProblems old (keeping keep new) = masterKeyProblems old new := rfl
  by_cases hk : masterKeyProblems old new = []
  · rw [variantListPlan_actions (hsame.trans hk), variantListPlan_actions hk,
      removeVariantActions_keeping h, updates_keeping h, promotion_keeping h hk]
  · rw [variantListPlan_of_problems (hsame ▸ hk), variantListPlan_of_problems hk]

theorem needless_nulls (old : Product) : Needless old (·.isSome) where
  faulty e h := by
    cases e with
    | none => rfl
    | some d => cases h
  unshared _ _ _ h := by cases h

theorem needless_faults (h : ∀ v ∈ old.variants, v.key ≠ none → isBlank v.key = false) :
    Needless old (!isFaulty ·) where
  faulty e he := by simpa using he
  unshared v hv d hd hk := by
    have hblank : isBlank d.key = true := by simpa [isFaulty] using hd
    by_contra hne
    rw [hk, h v hv hne] at hblank
    cases hblank

/-- **Issues are exact, and what they are about is contained.** With a blank master key there are no
    actions, and the issues name the blank master keys, that of the product first. Otherwise every
    null entry and every entry with a blank key is reported, in the order of the draft; then a
    blank sku of the new master, if variants pass and the master keys differ, and the change of the
    master raises no other problem. All issues carry the key of the draft. Null entries may be left
    out of the draft and the actions are the same, and so may those with a blank key, if no variant
    is stored under a blank key. -/
theorem variantListPlan_reports (ctx : DiffContext) (old : Product) (new : ProductDraft) :
    let plan := variantListPlan ctx old new
    let oldBlank := isBlank old.masterVariant.key
    let newBlank := isBlank (new.masterVariant.bind (·.key))
    (oldBlank = true ∨ newBlank = true → plan.actions = [] ∧
      plan.issues.map (·.problem) =
        (if oldBlank then [.blankOldMasterKey] else []) ++
          if newBlank then [.blankNewMasterKey] else []) ∧
    (oldBlank = false → newBlank = false →
      plan.issues.map (·.problem) =
        (new.allVariants.filter isFaulty).map fault ++
          (if ctx.filter.passes .variants = true ∧
              old.masterVariant.key ≠ new.masterVariant.bind (·.key) ∧
              isBlank (new.masterVariant.bind (·.sku)) = true then
            [.blankNewMasterSku]
          else []) ∧
      ∀ p, masterActions old new = .error p → p = .blankNewMasterSku) ∧
    (∀ i ∈ plan.issues, i.productKey = new.key.getD "") ∧
    (variantListPlan ctx old (keeping (·.isSome) new)).actions = plan.actions ∧
    ((∀ v ∈ old.variants, v.key ≠ none → isBlank v.key = false) →
      (variantListPlan ctx old (keeping (!isFaulty ·) new)).actions = plan.actions) := by
  intro plan oldBlank newBlank
  have hproblem (ps : List VariantProblem) :
      (ps.map (Issue.mk (new.key.getD ""))).map (·.problem) = ps := by
    rw [List.map_map]
    exact List.map_id ps
  have hkey (ps : List VariantProblem) :
      ∀ i ∈ ps.map (Issue.mk (new.key.getD "")), i.productKey = new.key.getD "" := by
    intro i hi
    obtain ⟨p, -, rfl⟩ := List.mem_map.1 hi
    rfl
  refine ⟨?_, ?_, ?_, variantListPlan_keeping (needless_nulls old),
    fun h => variantListPlan_keeping (needless_faults h)⟩
  · intro hblank
    have hk : masterKeyProblems old new ≠ [] := by
      rw [ne_eq, masterKeyProblems_eq_nil_iff, ← Bool.not_eq_true, ← Bool.not_eq_true]
      tauto
    have hplan : plan = _ := variantListPlan_of_problems hk
    rw [hplan]
    exact ⟨rfl, hproblem _⟩
  · intro ho hn
    have hk := masterKeyProblems_eq_nil_iff.2 ⟨ho, hn⟩
    have hissues : plan.issues = _ := variantListPlan_issues hk
    refine ⟨?_, fun p => eq_blankSku_of_refused hk⟩
    rw [hissues, hproblem, filterMap_entryProblem, promotionProblems_eq hk]
    cases hf : ctx.filter.passes .variants <;> simp [Filter.gate, hf]
  · by_cases hk : masterKeyProblems old new = []
    · have hissues : plan.issues = _ := variantListPlan_issues hk
      rw [hissues]
      exact hkey _
    · have hplan : plan = _ := variantListPlan_of_problems hk
      rw [hplan]
      exact hkey _

/-- A draft with a new master that has no sku, and with a null, a blank and a kept entry. -/
def unpromotableDraft : ProductDraft where
  toProductDetails := .of "p" .empty .empty
  publish := none
  masterVariant := some (.ofKey "d")
  variants := [none, some (.ofKey "b"), some (.ofKey " "), none]

theorem variantListPlan_reports_unpromotable :
    (∀ v ∈ fourVariants.variants, v.key ≠ none → isBlank v.key = false) ∧
    isBlank fourVariants.masterVariant.key = false ∧
    isBlank (unpromotableDraft.masterVariant.bind (·.key)) = false ∧
    (variantListPlan .unrestricted fourVariants unpromotableDraft).issues.map (·.problem) =
      [.nullVariant, .blankVariantKey, .nullVariant, .blankNewMasterSku] ∧
    (variantListPlan .unrestricted fourVariants (keeping (!isFaulty ·) unpromotableDraft)).actions =
      (variantListPlan .unrestricted fourVariants unpromotableDraft).actions := by
  have hkeys : ∀ v ∈ fourVariants.variants, v.key ≠ none → isBlank v.key = false := by decide
  obtain ⟨-, hissues, -, -, hcontained⟩ :=
    variantListPlan_reports .unrestricted fourVariants unpromotableDraft
  exact ⟨hkeys, by decide, by decide, (hissues (by decide) (by decide)).1, hcontained hkeys⟩

/-- With a variant that is stored under a blank key, the entry that keeps it makes a difference. -/
example :
    let old := { fourVariants with variants := [.ofDraft 2 (.ofKey " ")] }
    (variantListPlan .unrestricted old unpromotableDraft).actions.filterMap removed? = [] ∧
    (variantListPlan .unrestricted old
      (keeping (!isFaulty ·) unpromotableDraft)).actions.filterMap removed? = [2] := by
  decide

end CatalogSync.Diff
