import Mathlib.Data.Nat.Basic
import Mathlib.Tactic.Linarith
import Mathlib.Tactic.Ring

/-!
# Integer moving averages

An average follows a value: after a time `elapsed` it has closed `elapsed / window` of the gap,
rounded toward where it was. Whatever it observes and however often, it stays between the values it
has seen, and in a time `t` it cannot move by more than `t / window` of the gap to the furthest of
them.

## Rounding towards the past

A step closes a part of the gap, and the part is rounded down, so an average moves at most as far as
it should and may not move at all. Both bounds, from below and from above, are kept by a step of any
length, and lengths add up. They are stated for an average that is observed at arbitrary moments, as
the moments at which a program samples are not known in advance.

## Main definitions

* `MovingAverage.step`
* `MovingAverage.Follows` — what an average keeps, whenever it observes an acceptable value
* `MovingAverage.Below`, `MovingAverage.Above` — where an average can be after some time

## Main results

* `MovingAverage.follows_below`, `MovingAverage.follows_above`
-/

namespace MovingAverage

/-- The average `avg` once it has followed `value` for `elapsed` of the `window`. -/
def step (window avg value elapsed : ℕ) : ℕ :=
  if avg ≤ value then avg + (value - avg) * elapsed / window
  else avg - (avg - value) * elapsed / window

variable {window avg value elapsed start bound t : ℕ}

theorem gap_le (hw : elapsed ≤ window) (n : ℕ) : n * elapsed / window ≤ n := by
  refine Nat.div_le_of_le_mul ?_
  rw [Nat.mul_comm window]
  exact Nat.mul_le_mul_left n hw

/-- The average stays below what bounds it and the value. -/
theorem step_le (hw : elapsed ≤ window) (havg : avg ≤ bound) (hvalue : value ≤ bound) :
    step window avg value elapsed ≤ bound := by
  rw [step]
  split
  · have hgap := gap_le hw (value - avg)
    omega
  · exact (Nat.sub_le _ _).trans havg

/-- The average stays above what bounds it and the value. -/
theorem le_step (hw : elapsed ≤ window) (havg : bound ≤ avg) (hvalue : bound ≤ value) :
    bound ≤ step window avg value elapsed := by
  rw [step]
  split
  · exact havg.trans (Nat.le_add_right _ _)
  · have hgap := gap_le hw (avg - value)
    omega

/-- Before the window is over an average does not reach a value below it. -/
theorem step_pos (hw : elapsed < window) (havg : 0 < avg) : 0 < step window avg value elapsed := by
  rw [step]
  split
  · exact havg.trans_le (Nat.le_add_right _ _)
  · have hgap : (avg - value) * elapsed / window < avg := by
      refine (Nat.div_lt_iff_lt_mul (by omega)).mpr ?_
      calc (avg - value) * elapsed ≤ avg * elapsed := Nat.mul_le_mul_right _ (Nat.sub_le _ _)
        _ < avg * window := Nat.mul_lt_mul_of_pos_left hw havg
    omega

/-- The average moves up by no more than its part of the gap to the bound. -/
theorem mul_step_le (hw : elapsed ≤ window) (havg : avg ≤ bound) (hvalue : value ≤ bound) :
    window * step window avg value elapsed ≤ (window - elapsed) * avg + elapsed * bound := by
  obtain ⟨rest, rfl⟩ := Nat.exists_eq_add_of_le hw
  rw [Nat.add_sub_cancel_left]
  rw [step]
  split
  · rename_i hle
    obtain ⟨gap, rfl⟩ := Nat.exists_eq_add_of_le hle
    have hdiv := Nat.mul_div_le (gap * elapsed) (elapsed + rest)
    rw [Nat.add_sub_cancel_left]
    nlinarith [Nat.mul_le_mul_left elapsed hvalue]
  · have hdown := Nat.mul_le_mul_left (elapsed + rest)
      (Nat.sub_le avg ((avg - value) * elapsed / (elapsed + rest)))
    nlinarith [Nat.mul_le_mul_left elapsed havg]

/-- The average moves down by no more than its part of the gap to the bound. -/
theorem le_mul_step (hw : elapsed ≤ window) (havg : bound ≤ avg) (hvalue : bound ≤ value) :
    (window - elapsed) * avg + elapsed * bound ≤ window * step window avg value elapsed := by
  obtain ⟨rest, rfl⟩ := Nat.exists_eq_add_of_le hw
  rw [Nat.add_sub_cancel_left]
  rw [step]
  split
  · have hup := Nat.mul_le_mul_left (elapsed + rest)
      (Nat.le_add_right avg ((value - avg) * elapsed / (elapsed + rest)))
    nlinarith [Nat.mul_le_mul_left elapsed havg]
  · rename_i hlt
    obtain ⟨gap, rfl⟩ := Nat.exists_eq_add_of_le (Nat.le_of_not_le hlt)
    rw [Nat.add_sub_cancel_left]
    have hgap := gap_le hw gap
    have hdiv := Nat.mul_div_le (gap * elapsed) (elapsed + rest)
    have hsub : (elapsed + rest) * (value + gap - gap * elapsed / (elapsed + rest)) +
        (elapsed + rest) * (gap * elapsed / (elapsed + rest)) =
          (elapsed + rest) * (value + gap) := by
      rw [← Nat.mul_add, Nat.sub_add_cancel (by omega)]
    nlinarith [Nat.mul_le_mul_left elapsed hvalue]

/-! ### Any number of observations -/

/-- `I t avg` is kept by an average `avg` that has been watched for a time `t`, whenever it follows
a value that is `ok`. -/
def Follows (window : ℕ) (ok : ℕ → Prop) (I : ℕ → ℕ → Prop) : Prop :=
  ∀ t avg value elapsed, I t avg → ok value → elapsed ≤ window →
    I (t + elapsed) (step window avg value elapsed)

theorem Follows.and {ok ok' : ℕ → Prop} {I I' : ℕ → ℕ → Prop} (h : Follows window ok I)
    (h' : Follows window ok' I') :
    Follows window (fun value => ok value ∧ ok' value) fun t avg => I t avg ∧ I' t avg :=
  fun t avg value elapsed ⟨hI, hI'⟩ ⟨hok, hok'⟩ hw =>
    ⟨h t avg value elapsed hI hok hw, h' t avg value elapsed hI' hok' hw⟩

/-- Where an average that was `start` can be at most, a time `t` later, if it observed no value
above `bound`. -/
structure Below (window start bound t avg : ℕ) : Prop where
  le_bound : avg ≤ bound
  moved : window * avg ≤ window * start + (bound - start) * t

/-- Where it can be at least, if it observed no value below `bound`. -/
structure Above (window start bound t avg : ℕ) : Prop where
  bound_le : bound ≤ avg
  moved : window * start ≤ window * avg + (start - bound) * t

theorem Below.mono {t' : ℕ} (h : Below window start bound t avg) (ht : t ≤ t') :
    Below window start bound t' avg :=
  ⟨h.le_bound, h.moved.trans (Nat.add_le_add_left (Nat.mul_le_mul_left _ ht) _)⟩

theorem Above.mono {t' : ℕ} (h : Above window start bound t avg) (ht : t ≤ t') :
    Above window start bound t' avg :=
  ⟨h.bound_le, h.moved.trans (Nat.add_le_add_left (Nat.mul_le_mul_left _ ht) _)⟩

/-- **Observing from below the bound**, an average keeps below its line. -/
theorem follows_below (hpos : 0 < window) (hstart : start ≤ bound) :
    Follows window (· ≤ bound) (Below window start bound) := by
  intro t avg value elapsed h hvalue hw
  refine ⟨step_le hw h.le_bound hvalue, ?_⟩
  have hstep := mul_step_le hw h.le_bound hvalue
  have hmoved := h.moved
  obtain ⟨rest, rfl⟩ := Nat.exists_eq_add_of_le hw
  obtain ⟨gap, rfl⟩ := Nat.exists_eq_add_of_le hstart
  rw [Nat.add_sub_cancel_left] at hstep hmoved ⊢
  refine Nat.le_of_mul_le_mul_left ?_ hpos
  nlinarith [Nat.mul_le_mul_left (elapsed + rest) hstep, Nat.mul_le_mul_left rest hmoved,
    Nat.zero_le (elapsed * (gap * t))]

/-- **Observing from above the bound**, an average keeps above its line. -/
theorem follows_above (hpos : 0 < window) (hstart : bound ≤ start) :
    Follows window (bound ≤ ·) (Above window start bound) := by
  intro t avg value elapsed h hvalue hw
  refine ⟨le_step hw h.bound_le hvalue, ?_⟩
  have hstep := le_mul_step hw h.bound_le hvalue
  have hmoved := h.moved
  obtain ⟨rest, rfl⟩ := Nat.exists_eq_add_of_le hw
  obtain ⟨gap, rfl⟩ := Nat.exists_eq_add_of_le hstart
  rw [Nat.add_sub_cancel_left] at hstep hmoved ⊢
  refine Nat.le_of_mul_le_mul_left ?_ hpos
  nlinarith [Nat.mul_le_mul_left (elapsed + rest) hstep, Nat.mul_le_mul_left rest hmoved,
    Nat.zero_le (elapsed * (gap * t))]

/-- At the start an average is on both lines. -/
theorem Below.refl (hstart : start ≤ bound) : Below window start bound 0 start :=
  ⟨hstart, Nat.le_add_right _ _⟩

theorem Above.refl (hstart : bound ≤ start) : Above window start bound 0 start :=
  ⟨hstart, Nat.le_add_right _ _⟩

end MovingAverage
