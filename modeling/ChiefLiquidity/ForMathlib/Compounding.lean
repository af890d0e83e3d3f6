import Mathlib.Data.List.Basic
import Mathlib.Algebra.BigOperators.Group.List.Basic
import Mathlib.Tactic.Linarith
import Mathlib.Tactic.GCongr

/-!
# Capped compounding

A quantity `i` grows by `i * w / d`, rounded down, and stops at a cap. Growing in several steps
compounds, so it can only gain on growing once, but for the roundings: every step that is made in
addition loses less than one unit. Where the cap is met does not matter, as a quantity that meets it
stays there.

## Main definitions

* `Compounding.step d cap w i`
* `Compounding.steps d cap ws i` — one step for each weight

## Main results

* `Compounding.step_mono` — in the weight and in the quantity
* `Compounding.step_add_le` — a step cut in two loses at most one unit
* `Compounding.step_sum_le` — and a step cut in `n` at most `n - 1`
-/

namespace Compounding

variable {d cap v w i j : ℕ} {ws : List ℕ}

/-- The quantity `i` once it has grown by `w / d` of itself, up to the cap. -/
def step (d cap w i : ℕ) : ℕ := min (i + i * w / d) cap

/-- The quantity once it has grown by one weight after the other. -/
def steps (d cap : ℕ) (ws : List ℕ) (i : ℕ) : ℕ := ws.foldl (fun i w => step d cap w i) i

@[simp] theorem steps_nil : steps d cap [] i = i := rfl

@[simp] theorem steps_cons : steps d cap (w :: ws) i = steps d cap ws (step d cap w i) := rfl

theorem step_le_cap : step d cap w i ≤ cap := min_le_right _ _

theorem le_step (hi : i ≤ cap) : i ≤ step d cap w i := le_min (Nat.le_add_right _ _) hi

/-- **A step is monotone**, in the weight and in the quantity. -/
theorem step_mono (hij : i ≤ j) (hvw : v ≤ w) : step d cap v i ≤ step d cap w j := by
  refine min_le_min_right cap (Nat.add_le_add hij (Nat.div_le_div_right ?_))
  exact Nat.mul_le_mul hij hvw

/-- A floor of a sum is at most one more than the floors of its parts. -/
theorem add_div_le_add_one (hd : 0 < d) (a b : ℕ) : (a + b) / d ≤ a / d + b / d + 1 := by
  rw [Nat.add_div hd]
  split <;> omega

/-- **A step cut in two** loses at most one unit: the second part grows from more, and at the cap
there is nothing to lose. -/
theorem step_add_le (hd : 0 < d) (hi : i ≤ cap) :
    step d cap (v + w) i ≤ step d cap w (step d cap v i) + 1 := by
  have hle : i ≤ step d cap v i := le_step hi
  have hsum : i * (v + w) / d ≤ i * v / d + i * w / d + 1 := by
    rw [Nat.mul_add]
    exact add_div_le_add_one hd _ _
  have hgrown : i * w / d ≤ step d cap v i * w / d := by gcongr
  by_cases hcap : i + i * v / d ≤ cap
  · have hfirst : step d cap v i = i + i * v / d := min_eq_left hcap
    rw [hfirst] at hgrown ⊢
    show min (i + i * (v + w) / d) cap ≤ min (i + i * v / d + (i + i * v / d) * w / d) cap + 1
    omega
  · have hfirst : step d cap v i = cap := min_eq_right (Nat.le_of_not_le hcap)
    have hstay : cap ≤ step d cap w cap := le_step le_rfl
    rw [hfirst]
    exact step_le_cap.trans (hstay.trans (Nat.le_succ _))

theorem steps_le (hi : i ≤ cap) : steps d cap ws i ≤ cap := by
  induction ws generalizing i with
  | nil => exact hi
  | cons w ws ih => exact ih step_le_cap

/-- **A step cut in `n`** loses at most `n - 1` units. Induction on the weights: the step is cut
after the first of them, and the rest of it into the others. -/
theorem step_sum_le (hd : 0 < d) (hi : i ≤ cap) :
    step d cap ws.sum i ≤ steps d cap ws i + (ws.length - 1) := by
  induction ws generalizing i with
  | nil =>
    show step d cap 0 i ≤ i + 0
    simp [step]
  | cons w ws ih =>
    rcases ws with _ | ⟨w', ws⟩
    · show step d cap (w + 0) i ≤ step d cap w i + 0
      simp
    · have hcut : step d cap (w + (w' :: ws).sum) i ≤
          step d cap (w' :: ws).sum (step d cap w i) + 1 := step_add_le hd hi
      have hrest := @ih (step d cap w i) step_le_cap
      rw [List.sum_cons, steps_cons]
      simp only [List.length_cons, Nat.add_sub_cancel] at hrest ⊢
      omega

end Compounding
