import Mathlib.Algebra.BigOperators.Group.Finset.Basic
import Mathlib.Algebra.Order.BigOperators.Group.Finset
import Mathlib.Tactic

/-!
# Sums over a finite partial map

A partial map `m : α → Option β` with finitely many keys, and the total of a weight `w : β → ℕ`
over its entries. A store that keeps such totals incrementally is right when each of its updates
changes the total the way the lemmas below say.

## Main definitions

* `IsDomain S m` — `S` is the set of keys of `m`
* `total S m w` — the sum of `w` over the entries of `m` with keys in `S`
* `without R m` — `m` with the keys in `R` removed

## Main results

* `total_insert`, `total_without_add` — what adding an entry and removing a set of entries do
* `mem_of_total_eq` — a set of keys that reaches the full total has every key that weighs anything
-/

namespace KeyedSum

variable {α β : Type}

/-- `S` is the set of keys of `m`. -/
def IsDomain (S : Finset α) (m : α → Option β) : Prop := ∀ k, k ∈ S ↔ (m k).isSome

/-- The weight of the entry at `k`, zero when there is none. -/
def weightAt (m : α → Option β) (w : β → ℕ) (k : α) : ℕ := (m k).elim 0 w

/-- The sum of `w` over the entries of `m` with keys in `S`. -/
def total (S : Finset α) (m : α → Option β) (w : β → ℕ) : ℕ := ∑ k ∈ S, weightAt m w k

variable {S R : Finset α} {m : α → Option β} {w : β → ℕ} {k : α} {v : β}

theorem weightAt_of_some (h : m k = some v) : weightAt m w k = w v := by simp [weightAt, h]

@[simp] theorem total_empty : total ∅ m w = 0 := Finset.sum_empty

theorem total_singleton (h : m k = some v) : total {k} m w = w v := by
  rw [total, Finset.sum_singleton, weightAt_of_some h]

theorem IsDomain.mem_of_some (h : IsDomain S m) (hk : m k = some v) : k ∈ S :=
  (h k).mpr (by simp [hk])

theorem total_le (hR : R ⊆ S) : total R m w ≤ total S m w := Finset.sum_le_sum_of_subset hR

theorem le_total (h : IsDomain S m) (hk : m k = some v) : w v ≤ total S m w := by
  rw [← total_singleton (w := w) hk]
  exact total_le (Finset.singleton_subset_iff.mpr (h.mem_of_some hk))

/-- Keys that weigh nothing can be left out. -/
theorem total_of_subset (hR : R ⊆ S) (h : ∀ k ∈ S, k ∉ R → weightAt m w k = 0) :
    total R m w = total S m w := Finset.sum_subset hR h

/-- Totals compare like the weights they are made of. -/
theorem total_mul_le {a b : ℕ} {u : β → ℕ}
    (h : ∀ k ∈ R, ∀ v, m k = some v → a * w v ≤ b * u v) : a * total R m w ≤ b * total R m u := by
  rw [total, total, Finset.mul_sum, Finset.mul_sum]
  refine Finset.sum_le_sum fun k hk => ?_
  rcases hm : m k with _ | v
  · simp [weightAt, hm]
  · rw [weightAt_of_some hm, weightAt_of_some hm]
    exact h k hk v hm

/-- A total of ones counts the keys. -/
theorem total_eq_card (h : ∀ k ∈ R, ∃ v, m k = some v ∧ w v = 1) : total R m w = R.card := by
  rw [Finset.card_eq_sum_ones]
  refine Finset.sum_congr rfl fun k hk => ?_
  obtain ⟨v, hv, hw⟩ := h k hk
  rw [weightAt_of_some hv, hw]

/-- A weight that is at most one counts the keys it is present at. -/
theorem total_eq_card_filter (h : ∀ v, w v ≤ 1) :
    total S m w = (S.filter fun k => 0 < weightAt m w k).card := by
  rw [total, Finset.card_filter]
  refine Finset.sum_congr rfl fun k _ => ?_
  have hle : weightAt m w k ≤ 1 := by
    rcases hm : m k with _ | v
    · simp [weightAt, hm]
    · rw [weightAt_of_some hm]
      exact h v
  split <;> omega

theorem weightAt_pos_iff : 0 < weightAt m w k ↔ ∃ v, m k = some v ∧ 0 < w v := by
  rcases hm : m k with _ | v
  · simp [weightAt, hm]
  · simp [weightAt, hm]

/-- A weight is present exactly when the total is positive. -/
theorem total_pos_iff (h : IsDomain S m) :
    0 < total S m w ↔ ∃ k v, m k = some v ∧ 0 < w v := by
  constructor
  · intro hpos
    obtain ⟨k, -, hk⟩ := Finset.exists_ne_zero_of_sum_ne_zero (Nat.pos_iff_ne_zero.mp hpos)
    rcases hm : m k with _ | v
    · simp [weightAt, hm] at hk
    · exact ⟨k, v, hm, Nat.pos_of_ne_zero (by rwa [weightAt_of_some hm] at hk)⟩
  · rintro ⟨k, v, hk, hw⟩
    exact hw.trans_le (le_total h hk)

/-! ### Updates -/

variable [DecidableEq α]

/-- `m` with the keys in `R` removed. -/
def without (R : Finset α) (m : α → Option β) : α → Option β := fun k => if k ∈ R then none else m k

theorem without_eq_some : without R m k = some v ↔ k ∉ R ∧ m k = some v := by
  rw [without]
  split <;> simp [*]

theorem IsDomain.update (h : IsDomain S m) (k : α) (v : β) :
    IsDomain (insert k S) (Function.update m k (some v)) := by
  intro j
  by_cases hj : j = k
  · simp [hj]
  · simp [hj, h j]

theorem IsDomain.without (h : IsDomain S m) (R : Finset α) : IsDomain (S \ R) (without R m) := by
  intro j
  by_cases hj : j ∈ R
  · simp [KeyedSum.without, hj]
  · simp [KeyedSum.without, hj, h j]

theorem total_cons (hk : k ∉ R) (h : m k = some v) :
    total (insert k R) m w = total R m w + w v := by
  rw [total, Finset.sum_insert hk, weightAt_of_some h, Nat.add_comm, ← total]

/-- **Adding an entry adds its weight.** -/
theorem total_insert (h : IsDomain S m) (hk : m k = none) (v : β) (w : β → ℕ) :
    total (insert k S) (Function.update m k (some v)) w = total S m w + w v := by
  have hkS : k ∉ S := fun hmem => by simpa [hk] using (h k).mp hmem
  have hrest : ∀ j ∈ S, weightAt (Function.update m k (some v)) w j = weightAt m w j := by
    intro j hj
    have hne : j ≠ k := fun hjk => hkS (hjk ▸ hj)
    simp [weightAt, Function.update_of_ne hne]
  rw [total_cons hkS (Function.update_self ..), total, Finset.sum_congr rfl hrest, ← total]

/-- **Removing entries removes their weights.** -/
theorem total_without_add (hR : R ⊆ S) :
    total (S \ R) (without R m) w + total R m w = total S m w := by
  have hrest : ∀ j ∈ S \ R, weightAt (without R m) w j = weightAt m w j := by
    intro j hj
    simp [weightAt, without, (Finset.mem_sdiff.mp hj).2]
  rw [total, Finset.sum_congr rfl hrest]
  exact Finset.sum_sdiff hR

/-- **A set of keys that reaches the full total has every key of positive weight.** -/
theorem mem_of_total_eq (h : IsDomain S m) (hR : R ⊆ S) (htotal : total R m w = total S m w)
    (hk : m k = some v) (hw : 0 < w v) : k ∈ R := by
  by_contra hkR
  have hle : total (insert k R) m w ≤ total S m w :=
    total_le (Finset.insert_subset (h.mem_of_some hk) hR)
  rw [total_cons hkR hk] at hle
  omega

end KeyedSum
