import ChiefLiquidity.Instructions.RemoveLiquidity

/-!
# What a deposit pays and gets

A later deposit is charged, rounded up, for exactly the LP it mints, and an immediate withdrawal
returns it but for one base unit. The LP it mints is what the whole offer pays for, as long as the
charge in the other token for what the scarce one pays for is worth no more than the scarce one:
the matched amount of the other token is floored, and may not cover that charge.

## Main definitions

* `offeredLp` — the LP that both maxes pay for
* `ScarcePays` — the charge for the LP of the scarce token is worth no more than that token
* `MintsOffer` — a deposit mints all the LP the offer pays for

## Main results

* `deposit_charged_exactly`
* `le_offeredLp_iff` — `offeredLp` is the largest amount of LP whose charges fit both maxes
* `deposit_mints_offer_iff`
-/

namespace ChiefLiquidity

variable {maxA maxB accA accB supply a b lp : ℕ}

/-! ### The charge -/

/-- The matched amounts fit the maxes. -/
theorem matchedAmounts_le (h : matchedAmounts maxA maxB accA accB = .ok (a, b)) :
    a ≤ maxA ∧ b ≤ maxB := by
  simp only [matchedAmounts, Checked.bind_eq_ok, mulDiv_eq_ok] at h
  obtain ⟨ideal, ⟨hA, -, -, rfl⟩, h⟩ := h
  split at h
  · rename_i hle
    cases h
    exact ⟨le_rfl, hle⟩
  · rename_i hlt
    simp only [Checked.bind_eq_ok, mulDiv_eq_ok, Checked.pure_eq_ok, Prod.mk.injEq] at h
    obtain ⟨_, ⟨hB, -, -, rfl⟩, rfl, rfl⟩ := h
    refine ⟨?_, le_rfl⟩
    -- the other token was short, so `maxB` matches less than `maxA`
    have hmul := (Nat.lt_div_iff_mul_lt (Nat.pos_of_ne_zero hA)).mp (Nat.not_le.mp hlt)
    refine Nat.div_le_of_le_mul ?_
    have : maxB * accA ≤ maxA * accB := by omega
    rwa [Nat.mul_comm accB]

theorem deriveDeposit_le (hS : supply ≠ 0)
    (h : deriveDeposit maxA maxB accA accB supply = .ok (a, b, lp)) : a ≤ maxA ∧ b ≤ maxB := by
  rw [deriveDeposit, if_neg hS] at h
  simp only [Checked.bind_eq_ok, Checked.pure_eq_ok, Prod.mk.injEq, Prod.exists] at h
  obtain ⟨_, -, aIn, bIn, hmatched, _, -, _, -, _, -, _, -, chargeA, -, chargeB, -, rfl, rfl, -⟩ :=
    h
  obtain ⟨ha, hb⟩ := matchedAmounts_le hmatched
  exact ⟨(min_le_right _ _).trans ha, (min_le_right _ _).trans hb⟩

/-- **A deposit is charged exactly for the LP it mints**, and what it could withdraw right after is
that charge or one base unit less, on each side. -/
theorem deposit_charged_exactly (hS : 0 < supply)
    (h : deriveDeposit maxA maxB accA accB supply = .ok (a, b, lp)) :
    1 ≤ lp ∧ a ≤ maxA ∧ b ≤ maxB ∧
      a = Rounding.up (lp * accA) supply ∧ b = Rounding.up (lp * accB) supply ∧
      (lp * (accA + a) / (supply + lp) = a ∨ lp * (accA + a) / (supply + lp) + 1 = a) ∧
      (lp * (accB + b) / (supply + lp) = b ∨ lp * (accB + b) / (supply + lp) + 1 = b) := by
  obtain ⟨ha, hb⟩ := deriveDeposit_le hS.ne' h
  obtain ⟨-, -, hlp, rfl, rfl⟩ := deriveDeposit_later hS.ne' h
  have hleA := Rounding.share_le hS lp accA
  have hgeA := Rounding.le_share_succ hS lp accA
  have hleB := Rounding.share_le hS lp accB
  have hgeB := Rounding.le_share_succ hS lp accB
  exact ⟨hlp, ha, hb, rfl, rfl, by omega, by omega⟩

theorem deposit_charged_exactly_skewed :
    ∃ a b lp, deriveDeposit 123_456_789 987_654_321 333_333_333 777_777_777 1_234_567 =
        .ok (a, b, lp) ∧ a = Rounding.up (lp * 333_333_333) 1_234_567 ∧
      (lp * (333_333_333 + a) / (1_234_567 + lp) = a ∨
        lp * (333_333_333 + a) / (1_234_567 + lp) + 1 = a) := by
  obtain ⟨⟨a, b, lp⟩, h⟩ := Checked.exists_of_isOk
    (x := deriveDeposit 123_456_789 987_654_321 333_333_333 777_777_777 1_234_567)
    (by decide +kernel)
  obtain ⟨-, -, -, ha, -, hshare, -⟩ := deposit_charged_exactly (by norm_num) h
  exact ⟨a, b, lp, h, ha, hshare⟩

/-! ### The LP -/

/-- The LP that both maxes pay for at the reserves. -/
def offeredLp (maxA maxB accA accB supply : ℕ) : ℕ :=
  min (maxA * supply / accA) (maxB * supply / accB)

/-- **The offer pays for just that much LP**: its charges, rounded up, fit both maxes, and those of
more LP do not. -/
theorem le_offeredLp_iff (hS : 0 < supply) (hA : 0 < accA) (hB : 0 < accB) (n : ℕ) :
    n ≤ offeredLp maxA maxB accA accB supply ↔
      Rounding.up (n * accA) supply ≤ maxA ∧ Rounding.up (n * accB) supply ≤ maxB := by
  have hside : ∀ {m acc : ℕ}, 0 < acc → (n ≤ m * supply / acc ↔
      Rounding.up (n * acc) supply ≤ m) := by
    intro m acc hacc
    rw [Nat.le_div_iff_mul_le hacc]
    constructor
    · exact Rounding.up_le hS
    · intro hup
      exact (Rounding.le_up_mul hS _).trans (Nat.mul_le_mul_right _ hup)
  rw [offeredLp, le_min_iff, hside hA, hside hB]

section Minted

/-- The LP that the matched part of the offer pays for. -/
def matchedLp (maxA maxB accA accB supply : ℕ) : ℕ :=
  if maxA * accB / accA ≤ maxB then offeredLp maxA (maxA * accB / accA) accA accB supply
  else offeredLp (maxB * accA / accB) maxB accA accB supply

theorem matchedAmounts_ok (supply : ℕ) (hA : 0 < accA) (hB : 0 < accB) (hmA : maxA < 2 ^ 64)
    (hmB : maxB < 2 ^ 64) (hA' : accA < 2 ^ 64) (hB' : accB < 2 ^ 64) :
    ∃ x y, matchedAmounts maxA maxB accA accB = .ok (x, y) ∧
      matchedLp maxA maxB accA accB supply = offeredLp x y accA accB supply := by
  have hmatchB : mulDiv maxA accB accA = .ok (maxA * accB / accA) :=
    mulDiv_of_lt hA.ne' (mul_lt_of_words hmA hB')
  have hmatchA : mulDiv maxB accA accB = .ok (maxB * accA / accB) :=
    mulDiv_of_lt hB.ne' (mul_lt_of_words hmB hA')
  rw [matchedAmounts, matchedLp, hmatchB, hmatchA]
  simp only [Checked.ok_bind]
  split
  · exact ⟨_, _, rfl, rfl⟩
  · exact ⟨_, _, rfl, rfl⟩

/-- **What a later deposit mints**: the LP that the matched amounts pay for, unless that is none. -/
theorem deriveDeposit_matched (hS : 0 < supply) (hA : 0 < accA) (hB : 0 < accB)
    (hmA : maxA < 2 ^ 64) (hmB : maxB < 2 ^ 64) (hA' : accA < 2 ^ 64) (hB' : accB < 2 ^ 64)
    (hS' : supply < 2 ^ 64) :
    (matchedLp maxA maxB accA accB supply = 0 →
      deriveDeposit maxA maxB accA accB supply = .error (.custom .zeroAmount)) ∧
    (0 < matchedLp maxA maxB accA accB supply →
      ∃ a b, deriveDeposit maxA maxB accA accB supply =
        .ok (a, b, matchedLp maxA maxB accA accB supply)) := by
  obtain ⟨x, y, hmatched, hlp⟩ := matchedAmounts_ok supply hA hB hmA hmB hA' hB'
  obtain ⟨hx, hy⟩ := matchedAmounts_le hmatched
  have hxS : x * supply < 2 ^ 128 := mul_lt_of_words (hx.trans_lt hmA) hS'
  have hyS : y * supply < 2 ^ 128 := mul_lt_of_words (hy.trans_lt hmB) hS'
  have hlpA : min (x * supply / accA) (y * supply / accB) * accA < 2 ^ 128 :=
    ((Nat.mul_le_mul_right _ (min_le_left _ _)).trans (Nat.div_mul_le_self _ _)).trans_lt hxS
  have hlpB : min (x * supply / accA) (y * supply / accB) * accB < 2 ^ 128 :=
    ((Nat.mul_le_mul_right _ (min_le_right _ _)).trans (Nat.div_mul_le_self _ _)).trans_lt hyS
  rw [hlp, offeredLp, deriveDeposit, if_neg hS.ne', require_of ⟨hA.ne', hB.ne'⟩, hmatched]
  simp only [Checked.ok_bind, mulDiv_of_lt hA.ne' hxS, mulDiv_of_lt hB.ne' hyS]
  by_cases hzero : x = 0 ∨ y = 0
  · rw [require_of_not (by tauto)]
    refine ⟨fun _ => rfl, fun hpos => absurd hpos ?_⟩
    rcases hzero with rfl | rfl <;> simp
  · rw [require_of (by tauto)]
    simp only [Checked.ok_bind]
    by_cases hmin : min (x * supply / accA) (y * supply / accB) = 0
    · rw [require_of_not (by simp [hmin])]
      exact ⟨fun _ => rfl, fun hpos => absurd hmin hpos.ne'⟩
    · rw [require_of hmin, mulDivCeil_of_lt hS.ne' hlpA, mulDivCeil_of_lt hS.ne' hlpB]
      exact ⟨fun h0 => absurd h0 hmin, fun _ => ⟨_, _, rfl⟩⟩

/-- The charge in the other token, for the LP that `max` of one token pays for, is worth no more at
the reserves than `max` is. -/
def ChargePays (max acc other supply : ℕ) : Prop :=
  Rounding.up (max * supply / acc * other) supply * acc ≤ max * other

/-- The charge for the LP that the scarce token of the offer pays for is worth no more than what is
offered of that token. Between the two cases both tokens pay for the same LP. -/
def ScarcePays (maxA maxB accA accB supply : ℕ) : Prop :=
  (maxA * accB ≤ maxB * accA → ChargePays maxA accA accB supply) ∧
    ((maxB + 1) * accA ≤ maxA * accB → ChargePays maxB accB accA supply)

/-- The scarce token decides what the offer pays for. -/
theorem offeredLp_of_scarce (hA : 0 < accA) (hB : 0 < accB) (h : maxA * accB ≤ maxB * accA) :
    offeredLp maxA maxB accA accB supply = maxA * supply / accA := by
  refine min_eq_left (Rounding.div_le_div_of_cross hA hB ?_)
  calc maxA * supply * accB = maxA * accB * supply := by ring
    _ ≤ maxB * accA * supply := Nat.mul_le_mul_right _ h
    _ = maxB * supply * accA := by ring

theorem offeredLp_comm (maxA maxB accA accB supply : ℕ) :
    offeredLp maxA maxB accA accB supply = offeredLp maxB maxA accB accA supply := min_comm _ _

/-- Matching `max` of one token, no more of the other than its own max, loses no LP exactly when the
charge in the other token pays. -/
theorem offeredLp_matched_iff (hS : 0 < supply) (hA : 0 < accA) (hB : 0 < accB)
    (h : maxA * accB ≤ maxB * accA) :
    offeredLp maxA (maxA * accB / accA) accA accB supply = offeredLp maxA maxB accA accB supply ↔
      ChargePays maxA accA accB supply := by
  rw [offeredLp_of_scarce hA hB h, offeredLp, min_eq_left_iff, Nat.le_div_iff_mul_le hB, ChargePays,
    ← Nat.le_div_iff_mul_le hA]
  constructor
  · exact Rounding.up_le hS
  · intro hup
    exact (Rounding.le_up_mul hS _).trans (Nat.mul_le_mul_right _ hup)

/-- **No LP is lost to matching** exactly when the charge for what the scarce token pays for is
worth no more than that token. -/
theorem matchedLp_eq_iff (hS : 0 < supply) (hA : 0 < accA) (hB : 0 < accB) :
    matchedLp maxA maxB accA accB supply = offeredLp maxA maxB accA accB supply ↔
      ScarcePays maxA maxB accA accB supply := by
  have hmatch : maxA * accB / accA ≤ maxB ↔ maxA * accB < (maxB + 1) * accA := by
    rw [← Nat.lt_succ_iff, Nat.div_lt_iff_lt_mul hA]
  rw [matchedLp, ScarcePays]
  split
  · rename_i hle
    have hlt := hmatch.mp hle
    rw [and_iff_left fun hge => absurd hge (Nat.not_le.mpr hlt)]
    by_cases hscarce : maxA * accB ≤ maxB * accA
    · rw [offeredLp_matched_iff hS hA hB hscarce]
      exact ⟨fun h _ => h, fun h => h hscarce⟩
    · -- the floor of the matched amount is all of `maxB`
      have heq : maxA * accB / accA = maxB := by
        refine le_antisymm hle ((Nat.le_div_iff_mul_le hA).mpr ?_)
        omega
      rw [heq]
      exact iff_of_true rfl fun h => absurd h hscarce
  · rename_i hnot
    have hge := Nat.not_lt.mp (mt hmatch.mpr hnot)
    have hscarce : maxB * accA ≤ maxA * accB :=
      (Nat.mul_le_mul_right _ (Nat.le_succ _)).trans hge
    have hlt : ¬ maxA * accB ≤ maxB * accA := by
      rw [Nat.succ_mul] at hge
      omega
    rw [offeredLp_comm _ maxB, offeredLp_comm maxA, offeredLp_matched_iff hS hB hA hscarce]
    exact ⟨fun h => ⟨fun h' => absurd h' hlt, fun _ => h⟩, fun h => h.2 hge⟩

/-- A deposit mints what `deriveDeposit` promises: all the LP the offer pays for, and `ZeroAmount`
exactly when that is none. -/
def MintsOffer (maxA maxB accA accB supply : ℕ) : Prop :=
  (1 ≤ offeredLp maxA maxB accA accB supply →
    ∃ a b, deriveDeposit maxA maxB accA accB supply =
      .ok (a, b, offeredLp maxA maxB accA accB supply)) ∧
  (deriveDeposit maxA maxB accA accB supply = .error (.custom .zeroAmount) ↔
    offeredLp maxA maxB accA accB supply = 0)

/-- **A deposit mints all the LP the offer pays for** exactly when the charge for the LP that the
scarce token pays for is worth no more than what is offered of that token. -/
theorem deposit_mints_offer_iff (hS : 0 < supply) (hA : 1 ≤ accA) (hB : 1 ≤ accB)
    (hmA : maxA < 2 ^ 64) (hmB : maxB < 2 ^ 64) (hA' : accA < 2 ^ 64) (hB' : accB < 2 ^ 64)
    (hS' : supply < 2 ^ 64) :
    MintsOffer maxA maxB accA accB supply ↔ ScarcePays maxA maxB accA accB supply := by
  obtain ⟨hzero, hpos⟩ := deriveDeposit_matched hS hA hB hmA hmB hA' hB' hS'
  rw [← matchedLp_eq_iff hS hA hB, MintsOffer]
  constructor
  · rintro ⟨hmints, hfails⟩
    rcases Nat.eq_zero_or_pos (matchedLp maxA maxB accA accB supply) with h0 | hlp
    · rw [h0, hfails.mp (hzero h0)]
    · obtain ⟨a, b, hok⟩ := hpos hlp
      rcases Nat.eq_zero_or_pos (offeredLp maxA maxB accA accB supply) with h0 | hlp'
      · rw [hfails.mpr h0] at hok
        cases hok
      · obtain ⟨a', b', hok'⟩ := hmints hlp'
        rw [hok] at hok'
        injection hok' with heq
        exact congrArg (fun r => r.2.2) heq
  · intro heq
    rw [heq] at hzero hpos
    refine ⟨hpos, fun herr => ?_, hzero⟩
    by_contra hne
    obtain ⟨a, b, hok⟩ := hpos (Nat.pos_of_ne_zero hne)
    rw [hok] at herr
    cases herr

theorem deposit_mints_offer_iff_even :
    MintsOffer 5_000_000 7_000_000 2_000_000 2_000_000 1_000_000 :=
  (deposit_mints_offer_iff (by norm_num) (by norm_num) (by norm_num) (by norm_num) (by norm_num)
    (by norm_num) (by norm_num) (by norm_num)).mpr (by unfold ScarcePays ChargePays; decide)

/-- **A coarse reserve costs LP.** An offer that pays for 1500 units is minted 1000, because the
matched amount of the other token is floored to a single base unit. -/
theorem deposit_mints_less :
    ¬ ∀ maxA maxB accA accB supply : ℕ, 0 < maxA → 0 < maxB → 0 < supply → 1 ≤ accA → 1 ≤ accB →
      maxA < 2 ^ 64 → maxB < 2 ^ 64 → accA < 2 ^ 64 → accB < 2 ^ 64 → supply < 2 ^ 64 →
      1 ≤ offeredLp maxA maxB accA accB supply →
      ∃ a b, deriveDeposit maxA maxB accA accB supply =
        .ok (a, b, offeredLp maxA maxB accA accB supply) := by
  intro hclaim
  obtain ⟨a, b, h⟩ := hclaim 1_500_000 10 1_000_000_000 1_000 1_000_000 (by norm_num)
    (by norm_num) (by norm_num) (by norm_num) (by norm_num) (by norm_num) (by norm_num)
    (by norm_num) (by norm_num) (by norm_num) (by decide)
  have hcode : deriveDeposit 1_500_000 10 1_000_000_000 1_000 1_000_000 =
    .ok (1_000_000, 1, 1_000) := by decide +kernel
  rw [hcode] at h
  injection h with heq
  have hlp : 1_000 = offeredLp 1_500_000 10 1_000_000_000 1_000 1_000_000 :=
    congrArg (fun r => r.2.2) heq
  exact absurd hlp (by decide)

end Minted

end ChiefLiquidity
