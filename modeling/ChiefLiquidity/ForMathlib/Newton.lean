import Mathlib.Data.Nat.Sqrt
import Mathlib.Logic.Relation
import Mathlib.Tactic.Linarith
import Mathlib.Tactic.Ring

/-!
# Newton's iteration for the integer square root

From a guess `x` the iteration goes to `(x + n / x) / 2`, and ends at the first guess it does not
lower. A guess that is not below the root never goes below it, by the inequality of the means, and
where the iteration ends it is not above the root either. So a guess that starts high enough ends at
the root, and no guess on the way is more than the first or less than the root.

## Main definitions

* `Newton.next n x`
* `Newton.Round n x y` — a round that goes on

## Main results

* `Newton.sqrt_le_next` — a guess is never below the root
* `Newton.le_sqrt_of_stop` — and not above it where the iteration ends
* `Newton.eq_sqrt_of_stop` — so it ends at the root, from a guess that is not below it
-/

namespace Newton

variable {n x y : ℕ}

/-- The guess after `x`. -/
def next (n x : ℕ) : ℕ := (x + n / x) / 2

/-- A round that lowers the guess, so that there is another one. -/
def Round (n x y : ℕ) : Prop := y = next n x ∧ y < x

/-- **A guess is never below the root**: the arithmetic mean of `x` and `n / x` is not below the
geometric one, also when both are rounded down. -/
theorem sqrt_le_next (hx : 0 < x) : n.sqrt ≤ next n x := by
  refine Nat.le_of_lt_succ (Nat.sqrt_lt.mpr ?_)
  have hq : n < x * (n / x + 1) := Nat.lt_mul_div_succ n hx
  have hsum : x + n / x + 1 ≤ 2 * (next n x + 1) := by
    rw [next]
    omega
  generalize n / x = q at hq hsum
  have hmeans : 4 * (x * (q + 1)) ≤ (x + q + 1) * (x + q + 1) := by
    zify
    nlinarith [sq_nonneg ((x : ℤ) - (q + 1))]
  have hsq : (x + q + 1) * (x + q + 1) ≤ (2 * (next n x + 1)) * (2 * (next n x + 1)) :=
    Nat.mul_le_mul hsum hsum
  have hexp : (2 * (next n x + 1)) * (2 * (next n x + 1)) =
      4 * ((next n x).succ * (next n x).succ) := by
    rw [Nat.succ_eq_add_one]
    ring
  omega

/-- **Where the iteration ends, the guess is not above the root.** -/
theorem le_sqrt_of_stop (hstop : x ≤ next n x) : x ≤ n.sqrt := by
  refine Nat.le_sqrt.mpr ?_
  have hle : x ≤ n / x := by
    rw [next] at hstop
    omega
  exact (Nat.mul_le_mul_left x hle).trans (Nat.mul_div_le n x)

/-- Every guess of a run is between the root and the first guess. -/
theorem run_between (hn : 0 < n) (hx : n.sqrt ≤ x) (hrun : Relation.ReflTransGen (Round n) x y) :
    n.sqrt ≤ y ∧ y ≤ x := by
  have hroot : 0 < n.sqrt := Nat.sqrt_pos.mpr hn
  induction hrun with
  | refl => exact ⟨hx, le_rfl⟩
  | tail _ hround ih =>
    obtain ⟨rfl, hlt⟩ := hround
    exact ⟨sqrt_le_next (hroot.trans_le ih.1), hlt.le.trans ih.2⟩

/-- **It ends at the root**, from a guess that is not below it. -/
theorem eq_sqrt_of_stop (hn : 0 < n) (hx : n.sqrt ≤ x)
    (hrun : Relation.ReflTransGen (Round n) x y) (hstop : y ≤ next n y) : y = n.sqrt :=
  le_antisymm (le_sqrt_of_stop hstop) (run_between hn hx hrun).1

end Newton
