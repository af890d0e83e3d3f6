import Mathlib.Tactic

/-!
# Rounded division

Division rounded up, and the comparison of two rounded quotients by cross-multiplication. Both
are stated for naturals, where every bound is an inequality between products.

## Cross-multiplication

A comparison of two floors says something about the products, and a comparison of products something
about the floors, but not the same in both directions: a strict inequality of floors gives a strict
one of products, and a weak one of products a weak one of floors. The lemmas below are named after
the direction they go in.

## Main results

* `Rounding.le_up_mul`, `Rounding.up_mul_lt` — `up n d` is within one unit above `n / d`
* `Rounding.div_le_div_of_cross` — `a / b ≤ c / d` from `a * d ≤ c * b`
* `Rounding.cross_lt_of_div_lt` — and back, strictly, from a strict inequality of floors
* `Rounding.div_lt_div_add_one` — what ordered floors say about the ratios
* `Rounding.share_le`, `Rounding.le_share_succ` — a rounded-up contribution is worth itself, or one
  less
-/

namespace Rounding

variable {a b c d n k : ℕ}

/-- `n / d` rounded up: the floor, and one more unless the division is exact. -/
def up (n d : ℕ) : ℕ := if n % d = 0 then n / d else n / d + 1

theorem le_up_mul (hd : 0 < d) (n : ℕ) : n ≤ up n d * d := by
  have hdm := Nat.div_add_mod n d
  have hlt := Nat.mod_lt n hd
  rw [Nat.mul_comm] at hdm
  rw [up]
  split
  · omega
  · rw [Nat.add_mul]; omega

theorem up_mul_lt (hd : 0 < d) (n : ℕ) : up n d * d < n + d := by
  have hdm := Nat.div_add_mod n d
  rw [Nat.mul_comm] at hdm
  rw [up]
  split
  · omega
  · rw [Nat.add_mul]; omega

/-- `up n d` is the least `k` with `n ≤ k * d`. -/
theorem up_le (hd : 0 < d) (h : n ≤ k * d) : up n d ≤ k := by
  have : up n d * d < (k + 1) * d := by
    have := up_mul_lt hd n
    rw [Nat.add_mul]; omega
  exact Nat.lt_succ_iff.mp (Nat.lt_of_mul_lt_mul_right this)

/-- Rounding up is monotone. -/
theorem up_mono (hd : 0 < d) (h : n ≤ k) : up n d ≤ up k d :=
  up_le hd (h.trans (le_up_mul hd k))

/-- A multiple is not rounded. -/
theorem up_mul_self (hd : 0 < d) (k : ℕ) : up (k * d) d = k := by
  rw [up, if_pos (Nat.mul_mod_left k d), Nat.mul_div_cancel k hd]

/-- **Floors of ordered ratios are ordered.** -/
theorem div_le_div_of_cross (hb : 0 < b) (hd : 0 < d) (h : a * d ≤ c * b) : a / b ≤ c / d := by
  rw [Nat.le_div_iff_mul_le hd]
  have hab : a / b * b ≤ a := Nat.div_mul_le_self a b
  have : a / b * d * b ≤ c * b := by
    calc a / b * d * b = a / b * b * d := by ring
      _ ≤ a * d := Nat.mul_le_mul_right d hab
      _ ≤ c * b := h
  exact Nat.le_of_mul_le_mul_right this hb

/-- A strict inequality between floors is a strict inequality between the ratios. -/
theorem cross_lt_of_div_lt (hb : 0 < b) (hd : 0 < d) (h : a / b < c / d) : a * d < c * b := by
  by_contra hle
  exact absurd (div_le_div_of_cross hd hb (Nat.not_lt.mp hle)) (Nat.not_le.mpr h)

/-- **Ratios with ordered floors are ordered up to one.** -/
theorem div_lt_div_add_one (hb : 0 < b) (h : a / b ≤ c / d) : (a / b : ℚ) < c / d + 1 := by
  have hlt : (a / b : ℚ) < ((a / b : ℕ) : ℚ) + 1 := by
    rw [div_lt_iff₀ (by exact_mod_cast hb)]
    exact_mod_cast Nat.mul_comm b _ ▸ Nat.lt_mul_div_succ a hb
  have hle : ((c / d : ℕ) : ℚ) ≤ c / d := Nat.cast_div_le
  have hfloor : ((a / b : ℕ) : ℚ) ≤ ((c / d : ℕ) : ℚ) := Nat.cast_le.mpr h
  linarith

/-! ### Shares

`k` new units are paid for with `up (k * n) d`, when there are `d` units of a total `n`. -/

/-- The new units are worth no more than was paid for them. -/
theorem share_le (hd : 0 < d) (k n : ℕ) :
    k * (n + up (k * n) d) / (d + k) ≤ up (k * n) d := by
  have hup := le_up_mul hd (k * n)
  refine Nat.div_le_of_le_mul ?_
  calc k * (n + up (k * n) d) = k * n + k * up (k * n) d := Nat.mul_add ..
    _ ≤ up (k * n) d * d + k * up (k * n) d := Nat.add_le_add_right hup _
    _ = (d + k) * up (k * n) d := by ring

/-- And no less, but for one. -/
theorem le_share_succ (hd : 0 < d) (k n : ℕ) :
    up (k * n) d ≤ k * (n + up (k * n) d) / (d + k) + 1 := by
  have hlt := up_mul_lt hd (k * n)
  rcases Nat.eq_zero_or_pos (up (k * n) d) with h0 | hpos
  · rw [h0]
    exact Nat.zero_le _
  · obtain ⟨u, hu⟩ := Nat.exists_eq_add_of_le' hpos
    rw [hu] at hlt ⊢
    refine Nat.succ_le_succ ((Nat.le_div_iff_mul_le (by omega)).mpr ?_)
    nlinarith

end Rounding
