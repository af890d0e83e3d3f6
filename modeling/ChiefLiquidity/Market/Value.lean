import ChiefLiquidity.Market.Completeness

/-!
# What the LPs own

Two measures of it. Per LP token, the product of the reserves over the square of the supply: no
move that liquidates nothing lowers it, whichever way it rounds. And the value of the reserves at
the spot price: a swap does not lower it at the price before it, loans it liquidates included, as
long as none of them could have been liquidated before.

## Why two measures

The first is the one LPs are paid by: what a token stands for grows with the product of the
reserves. It needs no price, and it is exact, stated by cross-multiplication. It says nothing about
swaps that liquidate, since a liquidation swaps a debt for a collateral, which is a trade with the
borrower.

The second compares both reserves at one price, and covers liquidations. A loan that was healthy
before the swap is worth at least its debt at the price before, so what the pool keeps is worth at
least what it forgives. A loan that was past its trigger already may be worth less, and is excluded
by hypothesis.

## Main results

* `Move.share_le` — no calm move dilutes the LPs
* `Trade.output_le`, `Trade.seizure_ge` — the trade alone, and the liquidations alone
* `Trade.value_ge` — a swap at the price before it
-/

namespace ChiefLiquidity.Market

variable {m m' : Market} {S : Finset Pubkey} {p p₁ : Pool} {k : Pubkey} {l : Loan}
  {s : LoanSides} {lp paid owed : ℕ} {share paidOut amount : Side → ℕ} {f : SwapFigures}
  {supplied R : Finset Pubkey} {ks : List Pubkey} {x : Side}

/-! ### The product per LP token -/

/-- The LPs of `m'` own at least as much per token as those of `m`: the product of the reserves
over the square of the supply has not fallen. -/
def ShareLe (m m' : Market) : Prop :=
  m.reserve .a * m.reserve .b * m'.supply ^ 2 ≤ m'.reserve .a * m'.reserve .b * m.supply ^ 2

theorem ShareLe.trans {m'' : Market} (h : ShareLe m m') (h' : ShareLe m' m'')
    (hS : 0 < m'.supply) : ShareLe m m'' := by
  unfold ShareLe at *
  have hpos : 0 < m'.supply ^ 2 := by positivity
  refine Nat.le_of_mul_le_mul_right ?_ hpos
  calc m.reserve .a * m.reserve .b * m''.supply ^ 2 * m'.supply ^ 2
      = m.reserve .a * m.reserve .b * m'.supply ^ 2 * m''.supply ^ 2 := by ring
    _ ≤ m'.reserve .a * m'.reserve .b * m.supply ^ 2 * m''.supply ^ 2 :=
        Nat.mul_le_mul_right _ h
    _ = m'.reserve .a * m'.reserve .b * m''.supply ^ 2 * m.supply ^ 2 := by ring
    _ ≤ m''.reserve .a * m''.reserve .b * m'.supply ^ 2 * m.supply ^ 2 :=
        Nat.mul_le_mul_right _ h'
    _ = m''.reserve .a * m''.reserve .b * m.supply ^ 2 * m'.supply ^ 2 := by ring

/-- It is enough that no LP token loses on either side. -/
theorem ShareLe.of_sides (h : ∀ x, m.reserve x * m'.supply ≤ m'.reserve x * m.supply) :
    ShareLe m m' := by
  calc m.reserve .a * m.reserve .b * m'.supply ^ 2
      = m.reserve .a * m'.supply * (m.reserve .b * m'.supply) := by ring
    _ ≤ m'.reserve .a * m.supply * (m'.reserve .b * m.supply) := Nat.mul_le_mul (h .a) (h .b)
    _ = m'.reserve .a * m'.reserve .b * m.supply ^ 2 := by ring

/-- Reserves that do not fall while the supply does not grow. -/
theorem ShareLe.of_le (hreserve : ∀ x, m.reserve x ≤ m'.reserve x)
    (hsupply : m'.supply ≤ m.supply) : ShareLe m m' :=
  .of_sides fun x => Nat.mul_le_mul (hreserve x) hsupply

/-- What a deposit is charged for its LP. -/
theorem Deposit.charge (h : Deposit m p amount lp m') (hS : 0 < m.supply) (x : Side) :
    amount x = Rounding.up (lp * m.reserve x) m.supply := by
  obtain ⟨maxA, maxB, hcharged⟩ := h.charged
  obtain ⟨-, -, -, ha, hb⟩ := deriveDeposit_later (by omega) hcharged
  cases x
  · exact ha
  · exact hb

theorem Deposit.share_le (hv : m.Valid S) (h : Deposit m p amount lp m') (hS : 0 < m.supply) :
    ShareLe m m' := by
  refine .of_sides fun x => ?_
  have hsupply : m'.supply = m.supply + lp := by rw [h.after]
  have hcharge : lp * m.reserve x ≤ amount x * m.supply :=
    h.charge hS x ▸ Rounding.le_up_mul hS _
  rw [h.reserve hv, hsupply, Nat.mul_add, Nat.add_mul, Nat.mul_comm (m.reserve x) lp]
  omega

/-- A withdrawal pays at most the floor of its share. -/
theorem Withdraw.paid_le (h : Withdraw m p lp share paidOut m') (x : Side) :
    paidOut x ≤ lp * m.reserve x / m.supply := by
  obtain ⟨-, ha, hb⟩ := withdrawalAmounts_eq_ok h.shares
  have hpaid := h.paid_eq x
  cases x <;> omega

theorem Withdraw.share_le (h : Withdraw m p lp share paidOut m') : ShareLe m m' := by
  refine .of_sides fun x => ?_
  have hsupply : m'.supply = m.supply - lp := by rw [h.after]
  have hle := h.lp_le
  have hreserve := h.reserve x
  have hpaid : paidOut x * m.supply ≤ lp * m.reserve x :=
    (Nat.mul_le_mul_right _ (h.paid_le x)).trans (Nat.div_mul_le_self _ _)
  rw [hsupply, Nat.mul_sub, ← hreserve, Nat.mul_comm (m'.reserve x + paidOut x) lp, hreserve,
    ← hreserve, Nat.add_mul, hreserve]
  omega

/-- The fee leaves the pool at least what the quote trades on. -/
theorem afterFee_le_growth {p : Pool} {x portion : ℕ} (hp : StandardTerms p)
    (hportion : p.protocolPortion x = .ok portion) :
    inAfterFee x p.swapFeeBps ≤ x - portion := by
  rw [Pool.protocolPortion, hp.swapFee, hp.protocolFee, if_neg (by decide)] at hportion
  obtain ⟨-, rfl⟩ := fits_eq_ok.mp hportion
  rw [hp.swapFee, inAfterFee, defaultSwapFeeBps, defaultProtocolFeeBps, bpsDenom]
  omega

theorem Trade.afterFee_le (hv : m.Valid S) (h : Trade m p p₁ f supplied ks m') :
    (f.push p.swapFeeBps).afterFee ≤ f.amountIn - f.portion := by
  obtain ⟨_, _, hp₁⟩ := sampleRefPrice_frame h.sample
  have hterms : p₁.terms = p.terms := by rw [hp₁, Pool.withRefPrice_terms]
  have hportion : p.protocolPortion f.amountIn = .ok f.portion := by
    rw [← protocolPortion_of_terms hterms]
    exact h.portion
  exact afterFee_le_growth (hv.terms.of_terms h.accrued.terms) hportion

/-- **A swap that liquidates nothing does not lower the product.** -/
theorem Trade.share_le (hv : m.Valid S) (h : Trade m p p₁ f supplied [] m') : ShareLe m m' := by
  have hin := h.reserve_in hv
  have hout := h.reserve_out hv
  have hafter := h.afterFee_le hv
  have hlt := h.amountOut_lt
  have hamount := h.amountOut_eq
  have hpaid := h.paid_eq
  have hpush : (f.push p.swapFeeBps).aToB = f.aToB := rfl
  simp only [inReserve, outReserve, seized, forgiven, provisionalOut, List.toFinset_nil,
    KeyedSum.total_empty, Nat.add_zero, Nat.sub_zero, hpush] at hin hout hamount hlt
  have hproduct := ConstantProduct.product_le (f.push p.swapFeeBps).afterFee
    (m.reserve (inSide f.aToB)) (m.reserve (outSide f.aToB))
  have hle : m.reserve (inSide f.aToB) * m.reserve (outSide f.aToB) ≤
      m'.reserve (inSide f.aToB) * m'.reserve (outSide f.aToB) := by
    refine hproduct.trans (Nat.mul_le_mul ?_ ?_)
    · omega
    · rw [ConstantProduct.rest, ← hamount, hout]
      omega
  have hsides : m.reserve .a * m.reserve .b ≤ m'.reserve .a * m'.reserve .b := by
    generalize f.aToB = aToB at hle
    cases aToB
    · rwa [inSide, outSide, if_neg (by simp), if_neg (by simp), Nat.mul_comm,
        Nat.mul_comm (m'.reserve .b)] at hle
    · rwa [inSide, outSide, if_pos rfl, if_pos rfl] at hle
  rw [ShareLe, h.supply_eq]
  exact Nat.mul_le_mul_right _ hsides

/-- **No move that liquidates nothing dilutes the LPs.** One case per move: deposits are rounded up
and withdrawals down, and whatever else happens only adds to the reserves. -/
theorem Move.share_le (hv : m.Valid S) (h : Move m [] m') (hS : 0 < m.supply) : ShareLe m m' := by
  cases h with
  | deposit h => exact h.share_le hv hS
  | withdraw h => exact h.share_le
  | borrow h =>
    refine .of_le (fun x => ?_) ?_
    · rw [h.reserve hv]
      exact Nat.le_add_right _ _
    · obtain ⟨_, _, -, -, -, hafter⟩ := h.after
      rw [hafter]
  | repay h =>
    refine .of_le (fun x => ?_) ?_
    · rw [h.reserve hv]
      omega
    · obtain ⟨_, _, -, -, hafter⟩ := h.after
      rw [hafter]
  | claimFees h =>
    refine .of_le (fun x => (h.reserve x).ge) ?_
    rw [h.after]
  | trade h => exact h.share_le hv
  | drift h => exact .of_le h.reserve_le h.supply

/-! ### The value at the spot price -/

/-- A loan that cannot be liquidated has collateral worth more than its principal: the trigger
stands at 110% of it. -/
theorem debt_le_collateral {aToB : Bool} (hratio : m.pool.liqRatioBps = defaultLiqRatioBps)
    (hsound : l.Sound m.pool.liqRatioBps) (hdir : l.triggerDirection = (swapDirection aToB).toU8)
    (hpos : ∀ x, 0 < m.reserve x)
    (hsafe : isLiquidatable l.triggerPriceWad (swapDirection aToB) m.spot = false) :
    m.reserve (inSide aToB) * l.debtPrincipal ≤ m.reserve (outSide aToB) * l.collateralAmount := by
  obtain ⟨s, d, hs, hd, htrig, -⟩ := hsound
  obtain ⟨hc, hdebt, rfl, htrigger⟩ := recomputeTrigger_eq_ok htrig
  rw [hratio, defaultLiqRatioBps] at htrigger
  have hdir' : s.direction = swapDirection aToB :=
    TriggerDirection.toU8_injective (hd.symm.trans hdir)
  have hwad := wad_pos
  have hin := hpos (inSide aToB)
  have hout := hpos (outSide aToB)
  rw [spot_eq_priceOf m aToB, Bool.eq_false_iff] at hsafe
  generalize m.reserve (inSide aToB) = i at *
  generalize m.reserve (outSide aToB) = o at *
  generalize l.collateralAmount = c at *
  generalize l.debtPrincipal = g at *
  have hcross : g * 11000 * i < c * bpsDenom * o := by
    refine Nat.lt_of_mul_lt_mul_right (a := wad) ?_
    cases aToB
    · obtain rfl : s = .collateralB := by cases s <;> simp_all [LoanSides.direction, swapDirection]
      rw [swapDirection, if_neg (by simp), Ne, isLiquidatable_onRise, Nat.not_le, htrigger] at hsafe
      have := Rounding.cross_lt_of_div_lt hout (by omega) hsafe
      linarith
    · obtain rfl : s = .collateralA := by cases s <;> simp_all [LoanSides.direction, swapDirection]
      rw [swapDirection, if_pos rfl, Ne, isLiquidatable_onFall, Nat.not_le, htrigger] at hsafe
      have := Rounding.cross_lt_of_div_lt (by unfold bpsDenom; omega) hin hsafe
      linarith
  rw [bpsDenom] at hcross
  nlinarith

/-- **The liquidations alone**: what is seized is worth what is forgiven. -/
theorem Trade.seizure_ge (hv : m.Valid S) (h : Trade m p p₁ f supplied ks m')
    (hsafe : ∀ k l, m.loans k = some l → l.triggerDirection = (swapDirection f.aToB).toU8 →
      isLiquidatable l.triggerPriceWad (swapDirection f.aToB) m.spot = false) :
    m.reserve (inSide f.aToB) * m.forgiven ks.toFinset ≤
      m.reserve (outSide f.aToB) * m.seized ks.toFinset := by
  refine KeyedSum.total_mul_le fun k hk l hl => ?_
  obtain ⟨l', hl', hdir, -⟩ := h.liquidated_open hv hk
  obtain rfl : l = l' := Option.some.inj (hl.symm.trans hl')
  exact debt_le_collateral hv.terms.liqRatio (hv.indexed.sound k l hl) hdir h.reserve_pos
    (hsafe k l hl hdir)

/-- **The trade alone**: what is paid out is worth at most what stays of the input. The reserves the
quote is taken on are only worse for the user than those before the liquidations. -/
theorem Trade.output_le (hv : m.Valid S) (h : Trade m p p₁ f supplied ks m') :
    f.amountOut * m.reserve (inSide f.aToB) ≤
      (f.amountIn - f.portion) * m.reserve (outSide f.aToB) := by
  have hpush : (f.push p.swapFeeBps).aToB = f.aToB := rfl
  rw [h.amountOut_eq, provisionalOut, inReserve, outReserve, hpush]
  generalize m.seized ks.toFinset = c
  generalize m.forgiven ks.toFinset = d
  calc ConstantProduct.quote _ (m.reserve (inSide f.aToB) + c) (m.reserve (outSide f.aToB) - d) *
        m.reserve (inSide f.aToB)
      ≤ ConstantProduct.quote (f.push p.swapFeeBps).afterFee
          (m.reserve (inSide f.aToB) + c) (m.reserve (outSide f.aToB) - d) *
          (m.reserve (inSide f.aToB) + c) := Nat.mul_le_mul_left _ (Nat.le_add_right _ _)
    _ ≤ (f.push p.swapFeeBps).afterFee * (m.reserve (outSide f.aToB) - d) :=
        ConstantProduct.quote_mul_in_le _ _ _
    _ ≤ (f.amountIn - f.portion) * m.reserve (outSide f.aToB) :=
        Nat.mul_le_mul (h.afterFee_le hv) (Nat.sub_le _ _)

/-- **A swap does not cost the LPs anything at the price before it**, as long as it liquidates no
loan that could have been liquidated before. -/
theorem Trade.value_ge (hv : m.Valid S) (h : Trade m p p₁ f supplied ks m')
    (hsafe : ∀ k l, m.loans k = some l → l.triggerDirection = (swapDirection f.aToB).toU8 →
      isLiquidatable l.triggerPriceWad (swapDirection f.aToB) m.spot = false) :
    2 * m.reserve .a * m.reserve .b ≤
      m'.reserve .a * m.reserve .b + m'.reserve .b * m.reserve .a := by
  have hin := h.reserve_in hv
  have hout := h.reserve_out hv
  have hseized := h.seizure_ge hv hsafe
  have houtput := h.output_le hv
  have hlt := h.amountOut_lt
  have hpaid := h.paid_eq
  have hpush : (f.push p.swapFeeBps).aToB = f.aToB := rfl
  rw [inReserve, hpush] at hin
  rw [outReserve, hpush] at hout hlt
  have hsides : 2 * m.reserve (inSide f.aToB) * m.reserve (outSide f.aToB) ≤
      m'.reserve (inSide f.aToB) * m.reserve (outSide f.aToB) +
        m'.reserve (outSide f.aToB) * m.reserve (inSide f.aToB) := by
    generalize m.reserve (inSide f.aToB) = i at *
    generalize m.reserve (outSide f.aToB) = o at *
    rw [hin]
    have hsplit : m'.reserve (outSide f.aToB) + m.forgiven ks.toFinset + f.paid = o := by omega
    have hpay : f.paid * i ≤ (f.amountIn - f.portion) * o :=
      (Nat.mul_le_mul_right i (by omega)).trans houtput
    generalize f.amountIn - f.portion = g at *
    nlinarith
  generalize f.aToB = aToB at hsides
  cases aToB
  · simp only [inSide, outSide, Bool.false_eq_true, if_false] at hsides
    linarith
  · simpa only [inSide, outSide, if_true] using hsides

end ChiefLiquidity.Market
