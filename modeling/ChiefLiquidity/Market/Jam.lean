import ChiefLiquidity.Market.Order
import ChiefLiquidity.Market.Value

/-!
# Loans that block the price

A swap liquidates eight loans at the most. When more open loans than that share a trigger, no swap
can take the price past it: a swap that triggers one of them triggers all of them, and whatever it
liquidates leaves one that is still triggered. This holds of small swaps because liquidations push
the price on, and of large ones because what they pay in takes the price past the trigger by itself.

## Why the loans need not be large

What blocks the price is the number of loans, not their size: nine loans of dust that share a
trigger are enough. They are liquidated by no accepted swap, because a swap that came past their
trigger would have to liquidate all nine.

## In reach

That no swap can come past the trigger unseen is clear for small swaps, of which a triggered loan
stays triggered. A swap that adds more than half of the input reserve could in principle trigger a
loan at first and have it spared at last, since liquidations can bring the price back. `in_reach`
excludes this: such a swap passes the trigger by what it pays in alone.

## Main definitions

* `Jammed` — more loans than a swap may liquidate share a trigger in reach

## Main results

* `Trade.spares` — a trade liquidates none of them, and is small
* `Jammed.trade` — and they block the market it leaves
-/

namespace ChiefLiquidity.Market

variable {m m' : Market} {S D : Finset Pubkey} {p p₁ : Pool} {f : SwapFigures} {t : Push}
  {supplied R : Finset Pubkey} {ks : List Pubkey} {aToB : Bool} {trigger h : ℕ} {k : Pubkey}

/-- The open loans in `D` are of the direction and share a trigger, and they are more than a swap
may liquidate. The trigger is in reach: the price passes it when the input reserve has grown by half
with nothing paid out. -/
structure Jammed (m : Market) (aToB : Bool) (D : Finset Pubkey) (trigger : ℕ) : Prop where
  card_gt : maxLiqPerSwap < D.card
  isOpen : ∀ k ∈ D, ∃ l, m.loans k = some l ∧
    l.triggerDirection = (swapDirection aToB).toU8 ∧ l.triggerPriceWad = trigger
  in_reach : isLiquidatable trigger (swapDirection aToB)
    (priceOf aToB (m.reserve (inSide aToB) + m.reserve (inSide aToB) / 2)
      (m.reserve (outSide aToB))) = true

/-- What a push pays in moves the price at least as far as if nothing were paid out and nothing
liquidated. -/
theorem further_of_growth (hin : 0 < m.reserve (inSide t.aToB))
    (hout : m.provisionalOut t R < m.outReserve t R) (hh : h ≤ t.growth) :
    Further t.aToB (priceOf t.aToB (m.reserve (inSide t.aToB) + h) (m.reserve (outSide t.aToB)))
      (m.provisionalPrice t R) := by
  refine further_of_le (by omega) (Nat.sub_pos_of_lt hout) ?_ ?_
  · rw [inReserve]
    omega
  · exact (Nat.sub_le _ _).trans (Nat.sub_le _ _)

/-- One of the loans is left, and is not triggered at the price the trade ends with. -/
theorem Trade.not_past (hv : m.Valid S) (hj : m.Jammed f.aToB D trigger)
    (h : Trade m p p₁ f supplied ks m') :
    isLiquidatable trigger (swapDirection f.aToB) f.price = false := by
  have hcard : ks.toFinset.card < D.card :=
    ((List.toFinset_card_le ks).trans h.ks_length).trans_lt hj.card_gt
  obtain ⟨k, hk, hks⟩ := Finset.exists_mem_notMem_of_card_lt_card hcard
  obtain ⟨l, hl, hdir, rfl⟩ := hj.isOpen k hk
  by_contra hliq
  refine h.closed hv k hks ⟨l, hl, hdir, ?_⟩
  rw [← h.price_eq]
  exact Bool.not_eq_false _ ▸ hliq

/-- **A trade liquidates none of the loans that block the price**, and pays in too little to pass
their trigger. -/
theorem Trade.spares (hv : m.Valid S) (hj : m.Jammed f.aToB D trigger)
    (h : Trade m p p₁ f supplied ks m') :
    (∀ k ∈ D, k ∉ ks) ∧ 2 * (f.amountIn - f.portion) ≤ m.reserve (inSide f.aToB) := by
  have hnot := h.not_past hv hj
  have hpast : ∀ {price}, Further f.aToB price f.price →
      isLiquidatable trigger (swapDirection f.aToB) price ≠ true := by
    intro price hfurther hliq
    rw [isLiquidatable_of_further hfurther hliq] at hnot
    cases hnot
  have hin := h.reserve_pos (inSide f.aToB)
  have hsmall : 2 * (f.amountIn - f.portion) ≤ m.reserve (inSide f.aToB) := by
    by_contra hlarge
    refine hpast ?_ hj.in_reach
    rw [h.price_eq]
    refine further_of_growth (t := f.push p.swapFeeBps) hin ?_ ?_
    · rw [← h.amountOut_eq]
      exact h.amountOut_lt
    · show m.reserve (inSide f.aToB) / 2 ≤ f.amountIn - f.portion
      omega
  refine ⟨fun k hk hks => ?_, hsmall⟩
  -- it was triggered once, and in a small swap it stays so
  obtain ⟨R, hR, -, l, hl, -, hliq⟩ := h.cascade.fires_before hks
  obtain ⟨l', hl', -, htrig⟩ := hj.isOpen k hk
  obtain rfl := Option.some.inj (hl.symm.trans hl')
  rw [htrig] at hliq
  refine hpast ?_ hliq
  rw [h.price_eq]
  have hsized : Sized m (f.push p.swapFeeBps) ks.toFinset :=
    sized_of_half hv (fun j hj => h.open_of_mem hj) (h.afterFee_le hv) hsmall
  exact provisionalPrice_further hv hsized hin (h.amountOut_pos.trans_le h.amountOut_le) hR
    subset_rfl

/-- What a trade pays in stays in its input reserve, half of it at least, and nothing is added to
its output reserve. -/
theorem Trade.reserves_moved (hv : m.Valid S) (h : Trade m p p₁ f supplied ks m') :
    2 * m.reserve (inSide f.aToB) + f.amountIn ≤ 2 * m'.reserve (inSide f.aToB) ∧
      m'.reserve (outSide f.aToB) ≤ m.reserve (outSide f.aToB) := by
  have hhalf := h.portion_half hv
  rw [h.reserve_in hv, h.reserve_out hv, inReserve]
  refine ⟨?_, (Nat.sub_le _ _).trans (Nat.sub_le _ _)⟩
  show 2 * m.reserve (inSide f.aToB) + f.amountIn ≤
    2 * (m.reserve (inSide f.aToB) + m.seized ks.toFinset + (f.amountIn - f.portion))
  omega

/-- A trade leaves something of both reserves. -/
theorem Trade.leaves_reserves (hv : m.Valid S) (h : Trade m p p₁ f supplied ks m') (x : Side) :
    0 < m'.reserve x := by
  have hlt := h.amountOut_lt
  have hpaid := h.paid_eq
  have hin := h.reserve_pos (inSide f.aToB)
  have hmoved := (h.reserves_moved hv).1
  have hout := h.reserve_out hv
  have hside : x = inSide f.aToB ∨ x = outSide f.aToB := by
    cases f.aToB <;> cases x <;> simp [inSide, outSide]
  obtain rfl | rfl := hside <;> omega

/-- **They block the market it leaves.** -/
theorem Jammed.trade (hv : m.Valid S) (hj : m.Jammed f.aToB D trigger)
    (h : Trade m p p₁ f supplied ks m') : m'.Jammed f.aToB D trigger where
  card_gt := hj.card_gt
  isOpen k hk := by
    obtain ⟨l, hl, hrest⟩ := hj.isOpen k hk
    refine ⟨l, ?_, hrest⟩
    rw [h.loans_eq]
    exact KeyedSum.without_eq_some.mpr
      ⟨fun hmem => (h.spares hv hj).1 k hk (List.mem_toFinset.mp hmem), hl⟩
  in_reach := by
    have hlt := h.amountOut_lt
    have hpaid := h.paid_eq
    have hin := h.reserve_pos (inSide f.aToB)
    refine isLiquidatable_of_further (further_of_le (by omega) ?_ ?_ ?_) hj.in_reach
    · rw [h.reserve_out hv]
      omega
    · have hmoved := (h.reserves_moved hv).1
      omega
    · exact (h.reserves_moved hv).2

/-- The trigger is not passed after the trade. -/
theorem Trade.spot_not_past (hv : m.Valid S) (hj : m.Jammed f.aToB D trigger)
    (h : Trade m p p₁ f supplied ks m') :
    isLiquidatable trigger (swapDirection f.aToB) m'.spot = false := by
  by_contra hliq
  have hpast := isLiquidatable_of_further (h.spot_further hv) (Bool.not_eq_false _ ▸ hliq)
  rw [h.not_past hv hj] at hpast
  cases hpast

end ChiefLiquidity.Market
