import ChiefLiquidity.Market.Order
import ChiefLiquidity.Market.Value

/-!
# Quotes of trades

What a trade pays compared with the quote on the reserves it found, and what trades of one
direction pay in turn.

## The chain of bounds

Along a cascade the input reserve only grows and the output reserve only shrinks. The constant
product quote falls in the first and rises in the second, so every quote of the loop is at most the
one before it, and the last at most the first, which is what the swap would have paid had there been
no loans.

For trades in turn the product of the reserves is what is compared: a quote rounds down, the fee
stays in the pool, and a sum of pieces is worth no more than the whole.

## Main results

* `Trade.amountOut_le_quote` — liquidations never improve a quote
* `Trade.product_ge` — the product does not fall from where the liquidations leave it
-/

namespace ChiefLiquidity.Market

variable {m m' : Market} {S : Finset Pubkey} {p p₁ : Pool} {f : SwapFigures}
  {supplied : Finset Pubkey} {ks : List Pubkey}

/-- **Liquidations never improve a quote.** -/
theorem provisionalOut_le (m : Market) (t : Push) (R : Finset Pubkey)
    (hin : 0 < m.reserve (inSide t.aToB)) :
    m.provisionalOut t R ≤ ConstantProduct.quote t.afterFee (m.reserve (inSide t.aToB))
      (m.reserve (outSide t.aToB)) :=
  ConstantProduct.quote_mono hin (Nat.le_add_right _ _) (Nat.sub_le _ _)

theorem Trade.amountOut_le_quote (h : Trade m p p₁ f supplied ks m') :
    f.amountOut ≤ ConstantProduct.quote (inAfterFee f.amountIn m.pool.swapFeeBps)
      (m.reserve (inSide f.aToB)) (m.reserve (outSide f.aToB)) := by
  rw [h.amountOut_eq, h.portion_eq.2]
  exact provisionalOut_le m _ _ (h.reserve_pos _)

/-- **The product does not fall** from where the liquidations leave it. -/
theorem Trade.product_ge (hv : m.Valid S) (h : Trade m p p₁ f supplied ks m') :
    m.inReserve (f.push p.swapFeeBps) ks.toFinset * m.outReserve (f.push p.swapFeeBps) ks.toFinset ≤
      m'.reserve (inSide f.aToB) * m'.reserve (outSide f.aToB) := by
  have hpaid : f.paid ≤ f.amountOut := by
    rcases h.paid_eq with heq | heq <;> omega
  rw [h.reserve_in hv, h.reserve_out hv]
  generalize hI : m.inReserve (f.push p.swapFeeBps) ks.toFinset = I
  generalize hO : m.outReserve (f.push p.swapFeeBps) ks.toFinset = O
  have hout : f.amountOut = ConstantProduct.quote (f.push p.swapFeeBps).afterFee I O := by
    rw [h.amountOut_eq, provisionalOut, hI, hO]
  calc I * O ≤ (I + (f.push p.swapFeeBps).afterFee) *
        ConstantProduct.rest (f.push p.swapFeeBps).afterFee I O := ConstantProduct.product_le _ _ _
    _ ≤ (I + (f.amountIn - f.portion)) * (O - f.paid) :=
        Nat.mul_le_mul (Nat.add_le_add_left (h.afterFee_le hv) _)
          (by rw [ConstantProduct.rest, ← hout]; omega)

/-- The two sides of a swap are the two sides. -/
theorem mul_inSide_outSide (aToB : Bool) (r : Side → ℕ) :
    r (inSide aToB) * r (outSide aToB) = r .a * r .b := by
  cases aToB
  · exact Nat.mul_comm _ _
  · rfl

/-! ### Trades in turn -/

/-- What a trade that liquidates nothing does to the reserves of its sides. -/
theorem Trade.quoted (hv : m.Valid S) (h : Trade m p p₁ f supplied [] m')
    (hpaid : f.paid = f.amountOut) :
    f.amountOut = ConstantProduct.quote (inAfterFee f.amountIn m.pool.swapFeeBps)
        (m.reserve (inSide f.aToB)) (m.reserve (outSide f.aToB)) ∧
      m'.reserve (inSide f.aToB) = m.reserve (inSide f.aToB) + (f.amountIn - f.portion) ∧
      m'.reserve (outSide f.aToB) = m.reserve (outSide f.aToB) - f.amountOut ∧
      inAfterFee f.amountIn m.pool.swapFeeBps ≤ f.amountIn - f.portion := by
  have hafter := h.afterFee_le hv
  have hout := h.amountOut_eq
  have hin' := h.reserve_in hv
  have hout' := h.reserve_out hv
  rw [h.portion_eq.2] at hafter hout hin' hout'
  simp only [List.toFinset_nil, provisionalOut, inReserve, outReserve, seized, forgiven,
    KeyedSum.total_empty, Nat.add_zero, Nat.sub_zero] at hout hin' hout'
  rw [hpaid] at hout'
  exact ⟨hout, hin', hout', hafter⟩

end ChiefLiquidity.Market
