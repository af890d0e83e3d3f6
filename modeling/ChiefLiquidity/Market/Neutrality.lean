import ChiefLiquidity.Market.Interest
import ChiefLiquidity.Market.Value

/-!
# What moves the price

Only a trade is meant to move the accounted spot price. The other moves keep both reserves, or move
them in a way that can be told: a repayment adds the interest to the side that was lent, and
liquidity comes and goes in proportion, up to less than one token on each side.

## Reserves that stay

A new loan moves its principal from the vault into the debt, and both are counted. Claims take what
was never counted. So these moves keep each reserve, if what they pay leaves the vault.

## Reserves that move

A repayment brings the principal back, which changes nothing, and interest, which is new: the
reserve of the side that was lent grows. Loans with their debt on that side have their collateral
become cheaper, the others have theirs become dearer.

A deposit and a withdrawal scale both reserves by the same factor, up to rounding, and the rounding
is less than a token on each side. A loan that is safe with a token to spare on each side stays
safe.

## Main definitions

* `Loan.SafeAt` — a loan is not liquidatable at these reserves
* `Market.Scaled` — a reserve in proportion to the supply, rounded up

## Main results

* `Borrow.reserve_eq`, `Repay.reserve_eq`, `Deposit.scaled`, `Withdraw.scaled`
* `Loan.SafeAt.of_debt_le`, `Loan.SafeAt.of_scaled` — loans that stay safe
-/

namespace ChiefLiquidity

/-- The loan is not liquidatable at the spot price of these accounted reserves. -/
def Loan.SafeAt (l : Loan) (a b : ℕ) : Prop :=
  ∀ d : TriggerDirection, l.triggerDirection = d.toU8 →
    isLiquidatable l.triggerPriceWad d (spotWad a b) = false

theorem not_isLiquidatable_onFall {t price : ℕ} :
    isLiquidatable t .onFall price = false ↔ t < price := by
  simp [isLiquidatable]

theorem not_isLiquidatable_onRise {t price : ℕ} :
    isLiquidatable t .onRise price = false ↔ price < t := by
  simp [isLiquidatable]

/-- The price is ordered like the ratio of the reserves. -/
theorem spotWad_le_of_cross {a b a' b' : ℕ} (ha : 0 < a) (ha' : 0 < a') (h : b * a' ≤ b' * a) :
    spotWad a b ≤ spotWad a' b' := by
  refine Rounding.div_le_div_of_cross ha ha' ?_
  calc b * wad * a' = b * a' * wad := by ring
    _ ≤ b' * a * wad := Nat.mul_le_mul_right _ h
    _ = b' * wad * a := by ring

namespace Market

variable {m m' : Market} {S : Finset Pubkey} {p : Pool} {k : Pubkey} {l : Loan}
  {s : LoanSides} {lp owed : ℕ} {share paidOut amount : Side → ℕ} {x : Side}

/-! ### Loans -/

/-- A borrow whose principal leaves the vault keeps both reserves. -/
theorem Borrow.reserve_eq (hv : m.Valid S) (h : Borrow m p k l s l.debtPrincipal m') (x : Side) :
    m'.reserve x = m.reserve x := by
  rw [h.reserve hv, Nat.sub_self, ite_self, Nat.add_zero]

/-- A repayment whose collateral leaves the vault adds the interest to the side that was lent. -/
theorem Repay.reserve_eq (hv : m.Valid S) (h : Repay m p k l s owed l.collateralAmount m')
    (x : Side) :
    m'.reserve x = m.reserve x + if x = s.debtSide then owed - l.debtPrincipal else 0 := by
  rw [h.reserve hv, Nat.sub_self, ite_self, Nat.add_zero]

/-- What is owed is told by the index the repayment leaves. -/
theorem Repay.owed_eq {paid : ℕ} (h : Repay m p k l s owed paid m') :
    l.owed (m'.pool.index s.debtSide) = .ok owed := by
  obtain ⟨index, hindex, howed⟩ := h.interest
  rw [Pool.index_of_meters h.meters]
  rw [h.sides] at hindex
  cases s <;>
  · obtain rfl := Except.ok.inj hindex
    exact howed

/-- Loans stay safe while the side they owe grows. -/
theorem safeAt_of_debt_le (hl : l.triggerDirection = s.direction.toU8)
    (hcollateral : m'.reserve s.collateralSide = m.reserve s.collateralSide)
    (hdebt : m.reserve s.debtSide ≤ m'.reserve s.debtSide) (hpos : 0 < m.reserve s.debtSide)
    (hsafe : l.SafeAt (m.reserve .a) (m.reserve .b)) :
    l.SafeAt (m'.reserve .a) (m'.reserve .b) := by
  intro d hd
  obtain rfl : s.direction = d := TriggerDirection.toU8_injective (hl.symm.trans hd)
  have hbefore := hsafe _ hd
  cases s with
  | collateralA =>
    have hpos : 0 < m.reserve .a := by
      refine Nat.pos_of_ne_zero fun h0 => ?_
      rw [h0, spotWad, Nat.div_zero] at hbefore
      exact Nat.not_lt_zero _ (not_isLiquidatable_onFall.mp hbefore)
    have hle : spotWad (m.reserve .a) (m.reserve .b) ≤ spotWad (m'.reserve .a) (m'.reserve .b) := by
      rw [show m'.reserve .a = m.reserve .a from hcollateral]
      exact spotWad_le_of_cross hpos hpos (Nat.mul_le_mul_right _ hdebt)
    exact not_isLiquidatable_onFall.mpr ((not_isLiquidatable_onFall.mp hbefore).trans_le hle)
  | collateralB =>
    have hle : spotWad (m'.reserve .a) (m'.reserve .b) ≤ spotWad (m.reserve .a) (m.reserve .b) := by
      rw [show m'.reserve .b = m.reserve .b from hcollateral]
      exact spotWad_le_of_cross (hpos.trans_le hdebt) hpos (Nat.mul_le_mul_left _ hdebt)
    exact not_isLiquidatable_onRise.mpr (hle.trans_lt (not_isLiquidatable_onRise.mp hbefore))

/-- The side an open loan owes is not empty. -/
theorem Valid.debtSide_pos (hv : m.Valid S) (hl : m.loans k = some l) (hs : l.sides = s.toU8) :
    0 < m.reserve s.debtSide := by
  obtain ⟨t, d, -, -, htrigger, -⟩ := hv.indexed.sound k l hl
  obtain ⟨-, hpos, -⟩ := recomputeTrigger_eq_ok htrigger
  have hle := KeyedSum.le_total (w := Loan.principalFor s) hv.booked.domain hl
  rw [← hv.booked.debt, principalFor_eq hs, if_pos rfl] at hle
  exact (hpos.trans_le hle).trans_le (Nat.le_add_left _ _)

/-- The direction of an open loan is that of its sides. -/
theorem Valid.direction_eq (hv : m.Valid S) (hl : m.loans k = some l) (hs : l.sides = s.toU8) :
    l.triggerDirection = s.direction.toU8 := by
  obtain ⟨t, d, ht, hd, htrigger, -⟩ := hv.indexed.sound k l hl
  obtain ⟨-, -, rfl, -⟩ := recomputeTrigger_eq_ok htrigger
  obtain rfl : s = t := LoanSides.toU8_injective (hs.symm.trans ht)
  exact hd

/-! ### Liquidity -/

/-- `r'` is the reserve `r` in proportion as the supply goes from `S` to `S'`, rounded up. -/
structure Scaled (S S' r r' : ℕ) : Prop where
  le : r * S' ≤ r' * S
  lt : r' * S < r * S' + S

/-- **A deposit into a live pool scales the reserves up.** -/
theorem Deposit.scaled (hv : m.Valid S) (h : Deposit m p amount lp m') (hS : 0 < m.supply)
    (x : Side) : Scaled m.supply m'.supply (m.reserve x) (m'.reserve x) := by
  have hsupply : m'.supply = m.supply + lp := by rw [h.after]
  have hle : lp * m.reserve x ≤ amount x * m.supply :=
    h.charge hS x ▸ Rounding.le_up_mul hS _
  have hlt : amount x * m.supply < lp * m.reserve x + m.supply :=
    h.charge hS x ▸ Rounding.up_mul_lt hS _
  rw [h.reserve hv, hsupply]
  constructor
  · rw [Nat.mul_add, Nat.add_mul, Nat.mul_comm (m.reserve x) lp]
    omega
  · rw [Nat.mul_add, Nat.add_mul, Nat.mul_comm (m.reserve x) lp]
    omega

/-- **A withdrawal scales the reserves down.** -/
theorem Withdraw.scaled (h : Withdraw m p lp share share m') (x : Side) :
    Scaled m.supply m'.supply (m.reserve x) (m'.reserve x) := by
  have hsupply : m'.supply = m.supply - lp := by rw [h.after]
  have hpos := h.lp_pos.trans_le h.lp_le
  have hshare : share x = lp * m.reserve x / m.supply := by
    obtain ⟨-, ha, hb⟩ := withdrawalAmounts_eq_ok h.shares
    cases x
    · exact ha
    · exact hb
  have hfloor := Nat.div_mul_le_self (lp * m.reserve x) m.supply
  have hrest := Nat.lt_div_mul_add (a := lp * m.reserve x) hpos
  have hreserve := congrArg (· * m.supply) (h.reserve x)
  simp only [Nat.add_mul] at hreserve
  obtain ⟨rest, hrest'⟩ := Nat.exists_eq_add_of_le h.lp_le
  rw [← hshare] at hfloor hrest
  rw [hsupply, hrest', Nat.add_sub_cancel_left]
  rw [hrest', Nat.mul_comm (m.reserve x) (lp + rest), Nat.add_mul] at hreserve
  rw [hrest'] at hfloor hrest
  constructor
  · rw [Nat.mul_comm (m.reserve x)]
    omega
  · rw [Nat.mul_comm (m.reserve x)]
    omega

end Market

/-- **Loans stay safe while the reserves are scaled**, if they are safe with one token of rounding
counted against them. -/
theorem Loan.SafeAt.of_scaled {l : Loan} {S S' a b a' b' : ℕ} (hS : 0 < S) (ha₀ : 0 < a)
    (ha : Market.Scaled S S' a a') (hb : Market.Scaled S S' b b') (hlive : 0 < S' → 0 < a')
    (hfall : l.SafeAt (a * S' + S) (b * S')) (hrise : l.SafeAt (a * S') (b * S' + S)) :
    l.SafeAt a' b' := by
  intro d hd
  rcases Nat.eq_zero_or_pos S' with rfl | hS'
  · -- nothing is left, and the price is zero on both sides of the comparison
    have ha' : a' = 0 := by
      have hlt := ha.lt
      rw [Nat.mul_zero, Nat.zero_add] at hlt
      exact Nat.eq_zero_of_not_pos fun hpos =>
        absurd hlt (Nat.not_lt.mpr (Nat.le_mul_of_pos_left S hpos))
    have hzero : spotWad a' b' = spotWad (a * 0) (b * 0 + S) := by
      rw [ha', Nat.mul_zero, spotWad, spotWad, Nat.div_zero, Nat.div_zero]
    rw [hzero]
    exact hrise d hd
  have ha' := hlive hS'
  cases d with
  | onFall =>
    refine not_isLiquidatable_onFall.mpr
      ((not_isLiquidatable_onFall.mp (hfall _ hd)).trans_le ?_)
    refine spotWad_le_of_cross (Nat.add_pos_right _ hS) ha' (Nat.le_of_mul_le_mul_right ?_ hS)
    calc b * S' * a' * S = b * S' * (a' * S) := by ring
      _ ≤ b' * S * (a * S' + S) := Nat.mul_le_mul hb.le ha.lt.le
      _ = b' * (a * S' + S) * S := by ring
  | onRise =>
    refine not_isLiquidatable_onRise.mpr
      (LE.le.trans_lt ?_ (not_isLiquidatable_onRise.mp (hrise _ hd)))
    refine spotWad_le_of_cross ha' (Nat.mul_pos ha₀ hS') (Nat.le_of_mul_le_mul_right ?_ hS)
    calc b' * (a * S') * S = b' * S * (a * S') := by ring
      _ ≤ (b * S' + S) * (a' * S) := Nat.mul_le_mul hb.lt.le ha.le
      _ = (b * S' + S) * a' * S := by ring

end ChiefLiquidity
