import ChiefLiquidity.ForMathlib.Newton
import ChiefLiquidity.Instructions.AddLiquidity

/-!
# The first deposit

The first deposit of a pool mints the square root of the product of its amounts. The root is taken
by Newton's method in a machine word, from a power of two that the bit length of the argument puts
above the root.

## Overflow

The loop of the source adds the guess and the quotient and halves the sum, in the word it works in.
The first guess is a power of two above the root, so the sum of a guess and its quotient is at most
twice the first guess, and for arguments below `2 ^ 128` that is far within the word. The loop goes
on only while the guess falls, which bounds the number of its rounds.

## The amounts

Each amount of a first deposit is a 64-bit word, so the product fits 128 bits and the root 64, and
neither conversion can fail. A first deposit that offers the minimum of both tokens mints at least
the minimum supply.

## Main definitions

* `isqrtSeed` — the first guess
* `IsqrtRuns` — the loop runs without overflow and returns

## Main results

* `isqrt_runs`, `isqrt_eq_sqrt` — the loop returns the root
* `first_deposit_mints` — what the first deposit mints
-/

namespace ChiefLiquidity

variable {n x r fuel : ℕ}

/-- The first guess of the loop: a one shifted by half the bit length of `n`, rounded up. -/
def isqrtSeed (n : ℕ) : ℕ := 2 ^ ((Nat.log2 n + 1 + 1) / 2)

theorem isqrt_of_ne (hn : n ≠ 0) : isqrt n = isqrtLoop n (isqrtSeed n) (isqrtSeed n) := if_neg hn

/-- The loop of `isqrt` on a 128-bit word: the shift of the seed is in range, no round divides by
zero or adds up to more than a word, and the loop returns `r`. -/
structure IsqrtRuns (n r : ℕ) : Prop where
  shift : (Nat.log2 n + 1 + 1) / 2 < 128
  rounds : ∀ x, Relation.ReflTransGen (Newton.Round n) (isqrtSeed n) x →
    x ≠ 0 ∧ x + n / x < 2 ^ 128
  returns : Relation.ReflTransGen (Newton.Round n) (isqrtSeed n) r ∧ r ≤ (r + n / r) / 2

/-- The seed is above the root, and half a word at the most. -/
theorem isqrtSeed_between (hn : n < 2 ^ 128) : n.sqrt ≤ isqrtSeed n ∧ isqrtSeed n ≤ 2 ^ 64 := by
  constructor
  · refine (Nat.sqrt_lt.mpr ?_).le
    calc n < 2 ^ (n.log2 + 1) := Nat.lt_log2_self
      _ ≤ 2 ^ ((n.log2 + 1 + 1) / 2 + (n.log2 + 1 + 1) / 2) :=
          Nat.pow_le_pow_right (by decide) (by omega)
      _ = isqrtSeed n * isqrtSeed n := Nat.pow_add 2 _ _
  · have hlog : n.log2 < 128 := by
      rcases Nat.eq_zero_or_pos n with rfl | hpos
      · decide
      · exact (Nat.log2_lt hpos.ne').mpr hn
    exact Nat.pow_le_pow_right (by decide) (by omega)

/-- **The loop ends where it returns**: the fuel is never used up. Induction on the fuel, which is
never less than the guess. -/
theorem isqrtLoop_run (hx : x ≤ fuel) :
    Relation.ReflTransGen (Newton.Round n) x (isqrtLoop n fuel x) ∧
      isqrtLoop n fuel x ≤ Newton.next n (isqrtLoop n fuel x) := by
  induction fuel generalizing x with
  | zero =>
    obtain rfl : x = 0 := Nat.le_zero.mp hx
    exact ⟨.refl, Nat.zero_le _⟩
  | succ fuel ih =>
    by_cases hstop : x ≤ Newton.next n x
    · have hret : isqrtLoop n (fuel + 1) x = x := if_pos hstop
      rw [hret]
      exact ⟨.refl, hstop⟩
    · have hnext : isqrtLoop n (fuel + 1) x = isqrtLoop n fuel (Newton.next n x) := if_neg hstop
      have hlt : Newton.next n x < x := Nat.lt_of_not_le hstop
      obtain ⟨hrun, hend⟩ := @ih (Newton.next n x) (by omega)
      rw [hnext]
      exact ⟨.head ⟨rfl, hlt⟩ hrun, hend⟩

/-- **The loop runs** without overflow, and returns. -/
theorem isqrt_runs (h0 : n ≠ 0) (hn : n < 2 ^ 128) : IsqrtRuns n (isqrt n) := by
  obtain ⟨hroot, hseed⟩ := isqrtSeed_between hn
  have hpos : 0 < n := Nat.pos_of_ne_zero h0
  refine ⟨?_, fun x hrun => ?_, ?_⟩
  · exact (Nat.pow_le_pow_iff_right (by decide)).mp hseed |>.trans_lt (by decide)
  · obtain ⟨hlow, hhigh⟩ := Newton.run_between hpos hroot hrun
    have hx : 0 < x := (Nat.sqrt_pos.mpr hpos).trans_le hlow
    -- the guess is not below the root, so the quotient is hardly above the guess
    have hquot : n / x ≤ x + 2 := by
      have hlt : n < (x + 1) * (x + 1) := Nat.sqrt_lt.mp (Nat.lt_succ_of_le hlow)
      refine Nat.div_le_of_le_mul ?_
      nlinarith
    refine ⟨hx.ne', ?_⟩
    have hword : 2 ^ 64 + (2 ^ 64 + 2) < 2 ^ 128 := by norm_num
    omega
  · rw [isqrt_of_ne h0]
    exact isqrtLoop_run le_rfl

/-- **And what it returns is the root.** -/
theorem isqrt_eq_sqrt (hn : n < 2 ^ 128) : isqrt n = n.sqrt := by
  rcases eq_or_ne n 0 with rfl | h0
  · rfl
  · have hruns := isqrt_runs h0 hn
    exact Newton.eq_sqrt_of_stop (Nat.pos_of_ne_zero h0) (isqrtSeed_between hn).1
      hruns.returns.1 hruns.returns.2

/-- **The square root is exact, and so the first deposit fits.** On every 128-bit word the loop
returns, without overflow, the floor of the root. Any two 64-bit amounts that are enough for a first
deposit mint an LP amount that is a 64-bit word, and as much as the minimum of either. -/
theorem first_deposit_mints :
    (∀ n < 2 ^ 128, (n ≠ 0 → IsqrtRuns n (isqrt n)) ∧ isqrt n * isqrt n ≤ n ∧
      n < (isqrt n + 1) * (isqrt n + 1)) ∧
    ∀ amountA amountB accountedA accountedB, amountA < 2 ^ 64 → amountB < 2 ^ 64 →
      minFirstDeposit ≤ amountA → minFirstDeposit ≤ amountB →
      ∃ lp, deriveDeposit amountA amountB accountedA accountedB 0 = .ok (amountA, amountB, lp) ∧
        lp < 2 ^ 64 ∧ minFirstDeposit ≤ lp := by
  constructor
  · intro n hn
    rw [isqrt_eq_sqrt hn]
    exact ⟨fun h0 => isqrt_eq_sqrt hn ▸ isqrt_runs h0 hn, Nat.sqrt_le n, Nat.lt_succ_sqrt n⟩
  · intro amountA amountB accountedA accountedB hA hB hminA hminB
    have hprod : amountA * amountB < 2 ^ 128 := mul_lt_of_words hA hB
    have hfits : isqrt (amountA * amountB) < 2 ^ 64 := by
      rw [isqrt_eq_sqrt hprod]
      exact Nat.sqrt_lt.mpr (hprod.trans_eq (by norm_num))
    have hmin : minFirstDeposit ≤ isqrt (amountA * amountB) := by
      rw [isqrt_eq_sqrt hprod]
      exact Nat.le_sqrt.mpr (Nat.mul_le_mul hminA hminB)
    have hfloor : minimumLiquidity ≤ isqrt (amountA * amountB) := le_trans (by decide) hmin
    refine ⟨_, ?_, hfits, hmin⟩
    rw [deriveDeposit, if_pos rfl, require_of (by omega), Checked.ok_bind, fits_of_lt hprod,
      Checked.ok_bind]
    exact Checked.bind_eq_ok.mpr ⟨(), require_of hfloor, rfl⟩

end ChiefLiquidity
