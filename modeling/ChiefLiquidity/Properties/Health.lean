import ChiefLiquidity.Properties.Reference
import ChiefLiquidity.Market.Neutrality

/-!
# Healthy loans

The trigger of a loan is a floor, and so is the price it is compared with. In both directions that
misses no unhealthy loan, and takes no healthy one that is more than one WAD unit away. A loan that
has just been opened is well within the limit at both prices it is checked at.

## Floors on both sides

A loan is compared by two floors, of its trigger and of the price. For collateral A the exact test
asks for a price at or below the exact trigger; a price whose floor is above the floor of the
trigger is above it, and one whose floor is at most that is below the trigger or within a unit of
it. For collateral B the comparison goes the other way. So the test is right but for one WAD unit,
and errs on the side of liquidating.

## Opened healthy

The loan-to-value test has a smaller limit than the liquidation ratio, and is made at the exact
ratio of the reserves. A loan that passes it has more collateral than the liquidation ratio asks
for, at the spot price and at the reference price.

## Main definitions

* `LoanSides.collateralValue`, `LoanSides.exactTrigger` — value and trigger without rounding
* `LoanSides.Healthy` — the liquidation ratio holds at a price `den / num`

## Main results

* `trigger_test_faithful`
* `loan_opens_healthy`
-/

namespace ChiefLiquidity

open Ledger Market

variable {rt : Runtime} {led led' : Ledger} {s : LoanSides} {c d a b price num den : ℕ}
  {events : List Event}

/-! ### The trigger test -/

/-- What the collateral `c` is worth in debt tokens at the exact price `b / a`. -/
def LoanSides.collateralValue (s : LoanSides) (c a b : ℕ) : ℚ :=
  match s with
  | .collateralA => c * (b / a)
  | .collateralB => c * (a / b)

/-- The trigger price without rounding, WAD-scaled. -/
def LoanSides.exactTrigger (s : LoanSides) (c d : ℕ) : ℚ :=
  match s with
  | .collateralA => (d * defaultLiqRatioBps * wad : ℕ) / (c * bpsDenom : ℕ)
  | .collateralB => (c * bpsDenom * wad : ℕ) / (d * defaultLiqRatioBps : ℕ)

/-- The spot price without rounding, WAD-scaled. -/
def exactSpot (a b : ℕ) : ℚ := (b * wad : ℕ) / a

/-- The price has reached the trigger, coming from the healthy side. -/
def TriggerDirection.Reached (dir : TriggerDirection) (price trigger : ℚ) : Prop :=
  match dir with
  | .onFall => price ≤ trigger
  | .onRise => trigger ≤ price

/-- A quotient of two scaled words, and everything on the way to it, fits its width. -/
theorem scaled_div_lt {x y k r w : ℕ} (hx : x < 2 ^ 64) (hy : y < 2 ^ 64) (hk : k ≤ 2 ^ 14)
    (hr : r ≤ 2 ^ 14) (hw : w ≤ 2 ^ 60) (hkr : k ≤ 2 * r) (hpos : 0 < y * r) :
    x * k < 2 ^ 256 ∧ x * k * w < 2 ^ 256 ∧ y * r < 2 ^ 256 ∧ x * k * w / (y * r) < 2 ^ 128 := by
  have hxk : x * k < 2 ^ 64 * 2 ^ 14 := Nat.mul_lt_mul_of_lt_of_le hx hk (Nat.two_pow_pos 14)
  have hyr : y * r < 2 ^ 64 * 2 ^ 14 := Nat.mul_lt_mul_of_lt_of_le hy hr (Nat.two_pow_pos 14)
  have hxkw : x * k * w < 2 ^ 64 * 2 ^ 14 * 2 ^ 60 :=
    Nat.mul_lt_mul_of_lt_of_le hxk hw (Nat.two_pow_pos 60)
  have hy1 : 1 ≤ y := Nat.pos_of_mul_pos_right hpos
  have hxw : x * w < 2 ^ 64 * 2 ^ 60 := Nat.mul_lt_mul_of_lt_of_le hx hw (Nat.two_pow_pos 60)
  have hquot : x * k * w < 2 ^ 128 * (y * r) := by
    calc x * k * w = x * w * k := Nat.mul_right_comm ..
      _ ≤ x * w * (2 * r) := Nat.mul_le_mul_left _ hkr
      _ = 2 * (x * w) * r := by ring
      _ ≤ 2 * (x * w) * (y * r) := Nat.mul_le_mul_left _ (Nat.le_mul_of_pos_left _ hy1)
      _ < 2 ^ 128 * (y * r) := Nat.mul_lt_mul_of_pos_right
        ((Nat.mul_lt_mul_of_pos_left hxw (by norm_num)).trans (by norm_num)) hpos
  exact ⟨hxk.trans (by norm_num), hxkw.trans (by norm_num), hyr.trans (by norm_num),
    (Nat.div_lt_iff_lt_mul hpos).mpr hquot⟩

/-- Every loan has a trigger. -/
theorem recomputeTrigger_ok (s : LoanSides) (hc : 0 < c) (hd : 0 < d) (hc' : c < 2 ^ 64)
    (hd' : d < 2 ^ 64) : recomputeTrigger s c d defaultLiqRatioBps =
      .ok (triggerWad s c d defaultLiqRatioBps, s.direction) := by
  have hratio : defaultLiqRatioBps ≤ 2 ^ 14 ∧ bpsDenom ≤ 2 ^ 14 ∧ wad ≤ 2 ^ 60 ∧
      defaultLiqRatioBps ≤ 2 * bpsDenom ∧ bpsDenom ≤ 2 * defaultLiqRatioBps := by decide
  obtain ⟨hl, hb, hw, hlb, hbl⟩ := hratio
  refine Checked.bind_eq_ok.mpr ⟨(), require_of hc.ne', ?_⟩
  refine Checked.bind_eq_ok.mpr ⟨(), require_of hd.ne', ?_⟩
  cases s with
  | collateralA =>
    obtain ⟨h₁, h₂, h₃, h₄⟩ := scaled_div_lt hd' hc' hl hb hw hlb (Nat.mul_pos hc (by decide))
    refine Checked.bind_eq_ok.mpr ⟨_, fits_of_lt h₁, ?_⟩
    refine Checked.bind_eq_ok.mpr ⟨_, fits_of_lt h₂, ?_⟩
    refine Checked.bind_eq_ok.mpr ⟨_, fits_of_lt h₃, ?_⟩
    exact Checked.bind_eq_ok.mpr ⟨_, fits_of_lt h₄, rfl⟩
  | collateralB =>
    obtain ⟨h₁, h₂, h₃, h₄⟩ := scaled_div_lt hc' hd' hb hl hw hbl (Nat.mul_pos hd (by decide))
    refine Checked.bind_eq_ok.mpr ⟨_, fits_of_lt h₁, ?_⟩
    refine Checked.bind_eq_ok.mpr ⟨_, fits_of_lt h₂, ?_⟩
    refine Checked.bind_eq_ok.mpr ⟨_, fits_of_lt h₃, ?_⟩
    exact Checked.bind_eq_ok.mpr ⟨_, fits_of_lt h₄, rfl⟩

/-- **No unhealthy loan is missed.** -/
theorem isLiquidatable_of_value_le (hc : 0 < c) (hd : 0 < d) (ha : 0 < a) (hb : 0 < b)
    (h : s.collateralValue c a b ≤ 11 / 10 * d) :
    isLiquidatable (triggerWad s c d defaultLiqRatioBps) s.direction (spotWad a b) = true := by
  have ha' : (0 : ℚ) < a := by exact_mod_cast ha
  have hb' : (0 : ℚ) < b := by exact_mod_cast hb
  cases s with
  | collateralA =>
    have hcross : c * b * 10 ≤ 11 * d * a := by
      rw [LoanSides.collateralValue, ← mul_div_assoc, div_le_iff₀ ha'] at h
      have : (c * b * 10 : ℚ) ≤ 11 * d * a := by linarith
      exact_mod_cast this
    have hpos : 0 < c * bpsDenom := Nat.mul_pos hc (by decide)
    refine isLiquidatable_onFall.mpr (Rounding.div_le_div_of_cross ha hpos ?_)
    norm_num [bpsDenom, defaultLiqRatioBps]
    nlinarith [wad_pos]
  | collateralB =>
    have hcross : c * a * 10 ≤ 11 * d * b := by
      rw [LoanSides.collateralValue, ← mul_div_assoc, div_le_iff₀ hb'] at h
      have : (c * a * 10 : ℚ) ≤ 11 * d * b := by linarith
      exact_mod_cast this
    have hpos : 0 < d * defaultLiqRatioBps := Nat.mul_pos hd (by decide)
    refine isLiquidatable_onRise.mpr (Rounding.div_le_div_of_cross hpos ha ?_)
    norm_num [bpsDenom, defaultLiqRatioBps]
    nlinarith [wad_pos]

/-- **No healthy loan is taken early**, but for one unit of the price scale. -/
theorem reached_of_isLiquidatable (hd : 0 < d) (ha : 0 < a)
    (h : isLiquidatable (triggerWad s c d defaultLiqRatioBps) s.direction (spotWad a b) = true) :
    s.direction.Reached (exactSpot a b) (s.exactTrigger c d) ∨
      |exactSpot a b - s.exactTrigger c d| < 1 := by
  by_cases hreached : s.direction.Reached (exactSpot a b) (s.exactTrigger c d)
  · exact Or.inl hreached
  · refine Or.inr ?_
    cases s with
    | collateralA =>
      have hlt : exactSpot a b < LoanSides.exactTrigger .collateralA c d + 1 :=
        Rounding.div_lt_div_add_one ha (isLiquidatable_onFall.mp h)
      have hgt := not_le.mp hreached
      rw [abs_of_pos (sub_pos.mpr hgt)]
      linarith
    | collateralB =>
      have hlt : LoanSides.exactTrigger .collateralB c d < exactSpot a b + 1 :=
        Rounding.div_lt_div_add_one (Nat.mul_pos hd (by decide)) (isLiquidatable_onRise.mp h)
      have hgt := not_le.mp hreached
      rw [abs_sub_comm, abs_of_pos (sub_pos.mpr hgt)]
      linarith

/-- **The trigger test is faithful to the health of the loan.** There is a trigger. Whenever the
collateral is worth at most 110% of the debt at the exact price, the loan is liquidatable at the
rounded one. And when it is liquidatable, the exact price has reached the exact trigger or is less
than one unit away. -/
theorem trigger_test_faithful (s : LoanSides) (hc : 0 < c) (hd : 0 < d) (hc' : c < 2 ^ 64)
    (hd' : d < 2 ^ 64) (ha : 0 < a) (hb : 0 < b) (hprice : priceBPerAWad a b = .ok price) :
    ∃ trigger dir, recomputeTrigger s c d defaultLiqRatioBps = .ok (trigger, dir) ∧
      (s.collateralValue c a b ≤ 11 / 10 * d → isLiquidatable trigger dir price = true) ∧
      (isLiquidatable trigger dir price = true →
        dir.Reached (exactSpot a b) (s.exactTrigger c d) ∨
          |exactSpot a b - s.exactTrigger c d| < 1) := by
  obtain ⟨-, -, -, rfl⟩ := priceBPerAWad_eq_ok.mp hprice
  exact ⟨_, _, recomputeTrigger_ok s hc hd hc' hd', isLiquidatable_of_value_le hc hd ha hb,
    reached_of_isLiquidatable hd ha⟩

theorem trigger_test_faithful_halves :
    ∃ trigger dir, recomputeTrigger .collateralA 1_000 500 11_000 = .ok (trigger, dir) ∧
      (LoanSides.collateralValue .collateralA 1_000 2_000 1_000 ≤ 11 / 10 * 500 →
        isLiquidatable trigger dir 500_000_000_000_000_000 = true) := by
  obtain ⟨trigger, dir, h, hmissed, -⟩ := trigger_test_faithful .collateralA (c := 1_000)
    (d := 500) (by norm_num) (by norm_num) (by norm_num) (by norm_num) (by norm_num)
    (by norm_num) (show priceBPerAWad 2_000 1_000 = .ok 500_000_000_000_000_000 by decide)
  exact ⟨trigger, dir, h, hmissed⟩

/-! ### Loans at their opening -/

/-- The collateral covers the debt with the margin of the liquidation ratio, `price` being the
numerator and the denominator of a debt token in collateral tokens. -/
def Healthy (c d : ℕ) (price : ℕ × ℕ) : Prop :=
  defaultLiqRatioBps * d * price.1 < bpsDenom * c * price.2

/-- The spot price of a debt token, from the accounted reserves. -/
def LoanSides.spotPair (s : LoanSides) (a b : ℕ) : ℕ × ℕ :=
  match s with
  | .collateralA => (a, b)
  | .collateralB => (b, a)

/-- The reference price of a debt token. -/
def LoanSides.refPair (s : LoanSides) (ref : ℕ) : ℕ × ℕ :=
  match s with
  | .collateralA => (wad, ref)
  | .collateralB => (ref, wad)

/-- **The margin below the liquidation ratio absorbs the rounding** of the loan-to-value ratio. -/
theorem healthy_of_ltv {q num den : ℕ} (h : ltvBps d c num den = .ok q)
    (hq : q ≤ defaultMaxLtvBps) : Healthy c d (num, den) := by
  obtain ⟨hpos, rfl⟩ := ltvBps_eq_ok h
  have hlt : d * bpsDenom * num < (defaultMaxLtvBps + 1) * (c * den) :=
    (Nat.div_lt_iff_lt_mul hpos).mp (Nat.lt_succ_of_le hq)
  have hdn : d * bpsDenom * num = bpsDenom * (d * num) := by ring
  have hl : defaultLiqRatioBps * d * num = defaultLiqRatioBps * (d * num) := Nat.mul_assoc ..
  have hr : bpsDenom * c * den = bpsDenom * (c * den) := Nat.mul_assoc ..
  simp only [Healthy, hl, hr]
  rw [hdn] at hlt
  simp only [bpsDenom, defaultMaxLtvBps, defaultLiqRatioBps] at *
  omega

/-- What the loan-to-value test establishes. -/
theorem healthy_of_checkLtv {p : Pool} {slot trigger : ℕ} {dir : TriggerDirection} {u : Unit}
    (hmax : p.maxLtvBps = defaultMaxLtvBps)
    (h : checkLtv p s c d a b slot trigger dir = .ok u) :
    ∃ ref, priceBPerAWad a b = .ok (spotWad a b) ∧ p.refPriceAt (spotWad a b) slot = .ok ref ∧
      Healthy c d (s.spotPair a b) ∧ Healthy c d (s.refPair ref) ∧
      isLiquidatable trigger dir (spotWad a b) = false := by
  simp only [checkLtv, Checked.bind_eq_ok, require_eq_ok, hmax] at h
  obtain ⟨spot, hspot, ref, href, spotLtv, hspotLtv, refLtv, hrefLtv, _, hle, hsafe⟩ := h
  obtain ⟨-, -, -, rfl⟩ := priceBPerAWad_eq_ok.mp hspot
  have hle₁ : spotLtv ≤ defaultMaxLtvBps := (le_max_left _ _).trans hle
  have hle₂ : refLtv ≤ defaultMaxLtvBps := (le_max_right _ _).trans hle
  refine ⟨ref, hspot, href, ?_, ?_, Bool.eq_false_of_not_eq_true hsafe⟩
  · cases s <;> exact healthy_of_ltv hspotLtv hle₁
  · cases s <;> exact healthy_of_ltv hrefLtv hle₂

/-- A loan is not liquidatable once it is open, wherever its tokens went. -/
theorem Market.Borrow.safe_after {m m' : Market} {S : Finset Pubkey} {p : Pool} {k : Pubkey}
    {l : Loan} {paid : ℕ} (hv : m.Valid S) (h : Borrow m p k l s paid m')
    (hsafe : isLiquidatable l.triggerPriceWad s.direction m.spot = false) :
    isLiquidatable l.triggerPriceWad s.direction m'.spot = false := by
  have hpos : 0 < m.reserve s.debtSide := by
    obtain ⟨ha, hb⟩ := h.reserves
    cases s
    · exact Nat.pos_of_ne_zero hb
    · exact Nat.pos_of_ne_zero ha
  have hbefore : l.SafeAt (m.reserve .a) (m.reserve .b) := by
    intro e he
    obtain rfl : s.direction = e := TriggerDirection.toU8_injective (h.direction.symm.trans he)
    exact hsafe
  have hcoll : m'.reserve s.collateralSide = m.reserve s.collateralSide := by
    rw [h.reserve hv, if_neg (debtSide_ne_collateralSide s).symm, Nat.add_zero]
  have hdebt : m.reserve s.debtSide ≤ m'.reserve s.debtSide := by
    rw [h.reserve hv]
    exact Nat.le_add_right _ _
  exact safeAt_of_debt_le h.direction hcoll hdebt hpos hbefore _ h.direction

/-- **Every loan opens healthy.** Its collateral covers the debt with the margin of the liquidation
ratio, exactly, both at the accounted reserves before it and at the reference price, and it is not
liquidatable at the spot price it leaves. The destination of the debt is of no account. -/
theorem loan_opens_healthy {accs : LoanAccounts} {sidesByte nonce : ℕ} (h : Reachable rt led)
    (hsig : ¬ rt.IsPda accs.user)
    (hi : processOpenLoan rt accs sidesByte c d nonce led = .ok (led', events)) :
    ∃ p p' s a b ref l a' b', led.HasPool rt accs.pool p ∧ led'.HasPool rt accs.pool p' ∧
      LoanSides.fromU8 sidesByte = .ok s ∧ led.accounted p = .ok (a, b) ∧
      p.refPriceAt (spotWad a b) led.slot = .ok ref ∧
      Healthy c d (s.spotPair a b) ∧ Healthy c d (s.refPair ref) ∧
      led'.openLoan rt accs.pool accs.loan = some l ∧ l.collateralAmount = c ∧
      l.debtPrincipal = d ∧ l.triggerDirection = s.direction.toU8 ∧
      led'.accounted p' = .ok (a', b') ∧ 0 < a' ∧
      isLiquidatable l.triggerPriceWad s.direction (spotWad a' b') = false := by
  obtain ⟨p, p', q, l, s, ho⟩ := processOpenLoan_opened h.sound.filed hsig hi
  have hp := ho.step.before
  obtain ⟨S, hv⟩ := h.sound.valid _ _ hp
  have hstep : Step rt led led' :=
    .instruction (.openLoan accs sidesByte c d nonce) (fun k hk => Option.mem_some.mp hk ▸ hsig) hi
  obtain ⟨_, _, _, hq⟩ := ho.borrow.accrued.frame
  have hmax : q.maxLtvBps = defaultMaxLtvBps :=
    (hv.terms.of_terms ho.borrow.accrued.terms).maxLtv
  obtain ⟨index, trigger, band, rfl⟩ := ho.loan
  obtain ⟨ref, hspot, href, hhealthy, hhealthyRef, hsafe⟩ := healthy_of_checkLtv hmax ho.borrow.ltv
  have hafter := ho.borrow.safe_after hv hsafe
  refine ⟨p, p', s, _, _, ref, _, _, _, hp, ho.step.after, ?_, h.sound.accounted hp, ?_, hhealthy,
    hhealthyRef, ?_, rfl, rfl, rfl, (h.step hstep).sound.accounted ho.step.after, ?_, hafter⟩
  · rw [ho.sides, LoanSides.fromU8_toU8]
  · rw [hq] at href
    exact href
  · have hloans := congrFun (ho.borrow.borrowed hv).loans accs.loan
    rwa [Function.update_self] at hloans
  · have hpos := Nat.pos_of_ne_zero ho.borrow.reserves.1
    rw [ho.borrow.reserve hv]
    exact Nat.add_pos_left hpos _

theorem loan_opens_healthy_lent :
    ∃ (led' : Ledger) (p p' : Pool) (a b : ℕ) (l : Loan) (a' b' : ℕ),
      (Sandbox.after Sandbox.lent).accounted p = .ok (a, b) ∧
      Healthy 1_000_000 800_000 (LoanSides.spotPair .collateralB a b) ∧
      led'.openLoan sandbox Sandbox.pool (Sandbox.loan 1) = some l ∧
      led'.accounted p' = .ok (a', b') ∧
      isLiquidatable l.triggerPriceWad .onRise (spotWad a' b') = false := by
  obtain ⟨⟨led', events⟩, hi⟩ := Checked.exists_of_isOk (x := processOpenLoan sandbox
    (Sandbox.loanAccs 1 1 64) 1 1_000_000 800_000 1 (Sandbox.after Sandbox.lent))
    (by decide +kernel)
  obtain ⟨p, p', s, a, b, ref, l, a', b', -, -, hs, hacc, -, hhealthy, -, hl, -, -, -, hacc', -,
    hsafe⟩ := loan_opens_healthy (Sandbox.after_reachable Sandbox.lent)
      (Sandbox.loanAccs_user 1 1 64) hi
  obtain rfl : s = .collateralB := (Except.ok.inj hs).symm
  exact ⟨led', p, p', a, b, l, a', b', hacc, hhealthy, hl, hacc', hsafe⟩

end ChiefLiquidity
