import ChiefLiquidity.Market.Reserves

/-!
# A trade leaves no loan behind

After a trade no loan it could have liquidated is triggered at the price it leaves, whether it was
supplied or not. Three things work together. The bands of the context are complete: as many of
their loans are supplied as they have. The bands that had to be supplied are those on the claimed
side of the boundary, and the final price is on that side, so a loan of any other band is not
triggered there. And the cascade only stops where nothing supplied is triggered.

Loans of the other direction are safer after the trade than before it.

## What the argument does not need

Nothing is assumed about the order in which the loans are supplied or liquidated, about the size of
the swap, or about the debts. The price may move back and forth while the loop runs. All that counts
is the price of the settlement, where the loop stopped.

## Main definitions

* `Further` — a price lies further in the direction a swap pushes it

## Main results

* `Trade.supplied_of_triggered` — a loan triggered at the final price was supplied
* `Trade.not_liquidatable` — no loan of the swap's direction is left behind
* `Trade.was_liquidatable` — the other direction
-/

namespace ChiefLiquidity.Market

variable {m m' : Market} {S : Finset Pubkey} {p p₁ : Pool} {f : SwapFigures}
  {supplied : Finset Pubkey} {ks : List Pubkey} {k : Pubkey} {l : Loan} {aToB : Bool}
  {price price' t inR inR' outR outR' : ℕ}

/-! ### Prices in the direction of a swap -/

/-- `price'` lies at least as far as `price` in the direction a swap pushes the price. -/
def Further (aToB : Bool) (price price' : ℕ) : Prop :=
  if aToB then price' ≤ price else price ≤ price'

theorem Further.refl (aToB : Bool) (price : ℕ) : Further aToB price price := by
  cases aToB <;> exact le_refl _

theorem Further.trans {price'' : ℕ} (h : Further aToB price price')
    (h' : Further aToB price' price'') : Further aToB price price'' := by
  cases aToB
  · exact le_trans (α := ℕ) h h'
  · exact le_trans (α := ℕ) h' h

/-- Further on, the loans of the swap's direction stay liquidatable. -/
theorem isLiquidatable_of_further (h : Further aToB price price')
    (hliq : isLiquidatable t (swapDirection aToB) price = true) :
    isLiquidatable t (swapDirection aToB) price' = true := by
  cases aToB
  · exact isLiquidatable_onRise.mpr ((isLiquidatable_onRise.mp hliq).trans h)
  · exact isLiquidatable_onFall.mpr (le_trans (α := ℕ) h (isLiquidatable_onFall.mp hliq))

/-- And those of the other direction were liquidatable before. -/
theorem isLiquidatable_of_further_not (h : Further aToB price price')
    (hliq : isLiquidatable t (swapDirection !aToB) price' = true) :
    isLiquidatable t (swapDirection !aToB) price = true := by
  cases aToB
  · exact isLiquidatable_onFall.mpr (le_trans (α := ℕ) h (isLiquidatable_onFall.mp hliq))
  · exact isLiquidatable_onRise.mpr ((isLiquidatable_onRise.mp hliq).trans h)

/-- **A smaller ratio of output to input is further.** -/
theorem further_of_cross (hin : 0 < inR) (hin' : 0 < inR') (hout : 0 < outR) (hout' : 0 < outR')
    (h : outR' * inR ≤ outR * inR') :
    Further aToB (priceOf aToB inR outR) (priceOf aToB inR' outR') := by
  cases aToB
  · refine Rounding.div_le_div_of_cross hout hout' ?_
    calc inR * wad * outR' = outR' * inR * wad := by ring
      _ ≤ outR * inR' * wad := Nat.mul_le_mul_right wad h
      _ = inR' * wad * outR := by ring
  · refine Rounding.div_le_div_of_cross hin' hin ?_
    calc outR' * wad * inR = outR' * inR * wad := by ring
      _ ≤ outR * inR' * wad := Nat.mul_le_mul_right wad h
      _ = outR * wad * inR' := by ring

theorem further_of_le (hin : 0 < inR) (hout : 0 < outR') (hle : inR ≤ inR') (hle' : outR' ≤ outR) :
    Further aToB (priceOf aToB inR outR) (priceOf aToB inR' outR') :=
  further_of_cross hin (by omega) (by omega) hout (Nat.mul_le_mul hle' hle)

/-- The spot price, read in the direction of a swap. -/
theorem spot_eq_priceOf (m : Market) (aToB : Bool) :
    m.spot = priceOf aToB (m.reserve (inSide aToB)) (m.reserve (outSide aToB)) := by
  cases aToB <;> rfl

/-! ### The price a trade leaves -/

theorem Trade.reserve_pos (h : Trade m p p₁ f supplied ks m') (x : Side) : 0 < m.reserve x := by
  have hres := h.reserves
  cases x
  · exact Nat.pos_of_ne_zero hres.1
  · exact Nat.pos_of_ne_zero hres.2

theorem Trade.inReserve_pos (h : Trade m p p₁ f supplied ks m') (R : Finset Pubkey) :
    0 < m.inReserve (f.push p.swapFeeBps) R :=
  Nat.add_pos_left (h.reserve_pos _) _

/-- The output is less than the reserve it is paid from. -/
theorem Trade.amountOut_lt (h : Trade m p p₁ f supplied ks m') :
    f.amountOut < m.outReserve (f.push p.swapFeeBps) ks.toFinset := by
  have hpos := h.amountOut_pos
  rw [h.amountOut_eq, provisionalOut] at hpos ⊢
  refine ConstantProduct.quote_lt (h.inReserve_pos _) ?_
  by_contra hzero
  rw [Nat.eq_zero_of_not_pos hzero] at hpos
  simp [ConstantProduct.quote] at hpos

/-- The price the cascade ends with is the one of the reserves it settles. -/
theorem Trade.price_eq_priceOf (h : Trade m p p₁ f supplied ks m') :
    f.price = priceOf f.aToB
      (m.inReserve (f.push p.swapFeeBps) ks.toFinset + (f.amountIn - f.portion))
      (m.outReserve (f.push p.swapFeeBps) ks.toFinset - f.amountOut) := by
  rw [h.price_eq, h.amountOut_eq]
  rfl

/-- The spot price after the trade. -/
theorem Trade.spot_eq (hv : m.Valid S) (h : Trade m p p₁ f supplied ks m') :
    m'.spot = priceOf f.aToB
      (m.inReserve (f.push p.swapFeeBps) ks.toFinset + (f.amountIn - f.portion))
      (m.outReserve (f.push p.swapFeeBps) ks.toFinset - f.paid) := by
  rw [spot_eq_priceOf m' f.aToB, h.reserve_in hv, h.reserve_out hv]

/-- An output that is paid leaves the price the cascade ends with. -/
theorem Trade.spot_eq_price (hv : m.Valid S) (h : Trade m p p₁ f supplied ks m')
    (hpaid : f.paid = f.amountOut) : m'.spot = f.price := by
  rw [h.spot_eq hv, hpaid, h.price_eq_priceOf]

/-- **The price the cascade ends with is at least as far as the one the trade leaves.** They are the
same unless the output went back to the vault. -/
theorem Trade.spot_further (hv : m.Valid S) (h : Trade m p p₁ f supplied ks m') :
    Further f.aToB m'.spot f.price := by
  have hlt := h.amountOut_lt
  have hpaid := h.paid_eq
  rw [h.spot_eq hv, h.price_eq_priceOf]
  exact further_of_le (Nat.add_pos_left (h.inReserve_pos _) _) (by omega) (le_refl _) (by omega)

/-- **A trade pushes the price in its direction.** -/
theorem Trade.further_spot (hv : m.Valid S) (h : Trade m p p₁ f supplied ks m') :
    Further f.aToB m.spot m'.spot := by
  have hlt := h.amountOut_lt
  have hpaid := h.paid_eq
  rw [h.spot_eq hv, spot_eq_priceOf m f.aToB]
  refine further_of_le (h.reserve_pos _) (by omega) ?_ ?_
  · exact Nat.le_add_right_of_le (Nat.le_add_right _ _)
  · exact (Nat.sub_le _ _).trans (Nat.sub_le _ _)

/-! ### Nothing is left behind -/

/-- A loan of the direction that is triggered at the final price has a band on the claimed side. -/
theorem Trade.band_claimed (hv : m.Valid S) (h : Trade m p p₁ f supplied ks m')
    (ht : m.Triggered f.aToB f.price k l) :
    (requiredRange f.aToB f.bandBoundary).1 ≤ l.bandId ∧
      l.bandId ≤ (requiredRange f.aToB f.bandBoundary).2 := by
  obtain ⟨hl, -, htrig⟩ := ht
  obtain ⟨_, _, -, -, -, hband⟩ := hv.indexed.sound k l hl
  obtain ⟨b, hb, hbound⟩ := h.boundary
  have hle := hv.indexed.bandId_le k l hl
  generalize f.aToB = aToB at *
  cases aToB
  · have hmono := bandIdForTrigger_mono hband hb (isLiquidatable_onRise.mp htrig)
    exact ⟨Nat.zero_le _, hmono.trans hbound⟩
  · have hmono := bandIdForTrigger_mono hb hband (isLiquidatable_onFall.mp htrig)
    exact ⟨le_trans (α := ℕ) hbound hmono, hle.trans (show maxBandId ≤ u32Max by decide)⟩

/-- **A loan of the direction that is triggered at the final price was supplied.** Its band had to
be, and a band is supplied with as many loans as it has. -/
theorem Trade.supplied_of_triggered (hv : m.Valid S) (h : Trade m p p₁ f supplied ks m')
    (ht : m.Triggered f.aToB f.price k l) : k ∈ supplied := by
  obtain ⟨hlo, hhi⟩ := h.band_claimed hv ht
  obtain ⟨hl, hdir, -⟩ := ht
  have hweight : 0 < l.inBand (swapDirection f.aToB).toU8 l.bandId := by
    rw [Loan.inBand, if_pos ⟨hdir, rfl⟩]
    exact Nat.one_pos
  have hpos : 0 < m.members S (swapDirection f.aToB) l.bandId :=
    (KeyedSum.total_pos_iff hv.booked.domain).mpr ⟨k, l, hl, hweight⟩
  have hcov := h.covered l.bandId hlo hhi ((hv.indexed.bit _ _).mpr hpos)
  rw [hv.indexed.bands_of_pos hpos] at hcov
  have hsub : supplied ⊆ S := fun j hj => by
    obtain ⟨lj, hlj, -⟩ := h.supplied_open j hj
    exact hv.booked.domain.mem_of_some hlj
  exact KeyedSum.mem_of_total_eq hv.booked.domain hsub (Option.some.inj hcov).symm hl hweight

/-- **No loan of the swap's direction is liquidatable after it.** -/
theorem Trade.not_liquidatable (hv : m.Valid S) (h : Trade m p p₁ f supplied ks m')
    (hl : m'.loans k = some l) (hdir : l.triggerDirection = (swapDirection f.aToB).toU8) :
    isLiquidatable l.triggerPriceWad (swapDirection f.aToB) m'.spot = false := by
  rw [h.loans_eq, KeyedSum.without_eq_some, List.mem_toFinset] at hl
  obtain ⟨hk, hl⟩ := hl
  rw [Bool.eq_false_iff]
  intro hliq
  have ht : m.Triggered f.aToB f.price k l :=
    ⟨hl, hdir, isLiquidatable_of_further (h.spot_further hv) hliq⟩
  exact h.settled k (h.supplied_of_triggered hv ht) hk l ht

/-- **A loan of the other direction that is liquidatable after a swap was so before it.** -/
theorem Trade.was_liquidatable (hv : m.Valid S) (h : Trade m p p₁ f supplied ks m')
    (hliq : isLiquidatable l.triggerPriceWad (swapDirection !f.aToB) m'.spot = true) :
    isLiquidatable l.triggerPriceWad (swapDirection !f.aToB) m.spot = true :=
  isLiquidatable_of_further_not (h.further_spot hv) hliq

end ChiefLiquidity.Market
