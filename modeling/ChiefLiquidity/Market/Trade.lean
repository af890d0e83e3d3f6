import ChiefLiquidity.Market.Moves

/-!
# What a swap does to a market

The bookkeeping of a `Trade`, and from it that a trade keeps a valid market valid. With that every
move is covered.

## The parts of a trade

A trade accrues, samples the reference price, forgives the debts and keeps the collateral of the
loans it liquidates, sets the protocol's share aside, pays in, pays out, and lowers the counts of
the bands. `Traded` lists what this makes of each part of the market but the index, whose counts and
bits are fields of the move itself: a bit is cleared when its band has lost its last loan.

The trade itself names the price it settles at, the output, and the chain of loans it liquidated.
That these are what the loop of the instruction computes is proved in `Refinement.Cascade`.

## Main definitions

* `Traded` — what a trade does to each part of the market

## Main results

* `Trade.traded` — a trade does just that
* `Trade.valid`, `Move.valid`
-/

namespace ChiefLiquidity.Market

open KeyedSum

variable {m m' : Market} {S : Finset Pubkey} {p p₁ : Pool} {f : SwapFigures}
  {supplied R : Finset Pubkey} {ks : List Pubkey}

/-- What a trade that liquidates the loans in `R` does to each part of the market. -/
structure Traded (m : Market) (f : SwapFigures) (R : Finset Pubkey) (m' : Market) : Prop where
  terms : m'.pool.terms = m.pool.terms
  collateral : ∀ x, m'.pool.collateral x + (if x = inSide f.aToB then m.seized R else 0) =
    m.pool.collateral x
  debt : ∀ x, m'.pool.debt x + (if x = outSide f.aToB then m.forgiven R else 0) = m.pool.debt x
  fees : ∀ x, m'.pool.fees x = m.pool.fees x + if x = inSide f.aToB then f.portion else 0
  openLoans : m'.pool.openLoans = m.pool.openLoans - R.card
  loans : m'.loans = without R m.loans
  real : ∀ x, m'.real x = m.real x + (if x = inSide f.aToB then f.amountIn else 0) -
    if x = outSide f.aToB then f.paid else 0
  supply : m'.supply = m.supply
  slot : m'.slot = m.slot

theorem Trade.traded (h : Trade m p p₁ f supplied ks m') : Traded m f ks.toFinset m' := by
  obtain ⟨fall, rise, hpool⟩ := h.pool_eq
  obtain ⟨_, _, hp₁⟩ := sampleRefPrice_frame h.sample
  have hseized := h.seized_le
  have hforgiven := h.forgiven_le
  refine ⟨?_, fun x => ?_, fun x => ?_, fun x => ?_, ?_, h.loans_eq, h.real_eq, h.supply_eq,
    h.slot_eq⟩
  · simp [hpool, hp₁, h.accrued.terms]
  · simp only [hpool, Pool.stamp_collateral, Pool.withBitmaps_collateral, traded_collateral, hp₁,
      Pool.withRefPrice_collateral, h.accrued.collateral]
    split
    · rename_i hx
      subst hx
      omega
    · omega
  · simp only [hpool, Pool.stamp_debt, Pool.withBitmaps_debt, traded_debt, hp₁,
      Pool.withRefPrice_debt, h.accrued.debt]
    split
    · rename_i hx
      subst hx
      omega
    · omega
  · simp [hpool, traded_fees, hp₁, h.accrued.fees]
  · simp [hpool, hp₁, h.accrued.openLoans, List.toFinset_card_of_nodup h.cascade.nodup]

/-- The loans a cascade liquidates are open and have the sides the swap can trigger. -/
theorem Trade.liquidated_open (hv : m.Valid S) (h : Trade m p p₁ f supplied ks m') {k : Pubkey}
    (hk : k ∈ ks.toFinset) :
    ∃ l, m.loans k = some l ∧ l.triggerDirection = (swapDirection f.aToB).toU8 ∧
      l.sides = (swapSides f.aToB).toU8 := by
  obtain ⟨l, hl, hd⟩ := open_of_cascade h.cascade (List.mem_toFinset.mp hk)
  refine ⟨l, hl, hd, sides_of_sound (hv.indexed.sound k l hl) ?_⟩
  rw [swapSides_direction]
  exact hd

theorem Trade.liquidated_subset (hv : m.Valid S) (h : Trade m p p₁ f supplied ks m') :
    ks.toFinset ⊆ S := by
  intro k hk
  obtain ⟨l, hl, -⟩ := h.liquidated_open hv hk
  exact hv.booked.domain.mem_of_some hl

/-- The loans a swap can trigger weigh on its two sides only. -/
theorem total_of_sides {w : Loan → ℕ} {u : LoanSides → Loan → ℕ} {s : LoanSides}
    (hw : ∀ t l, u t l = if l.sides = t.toU8 then w l else 0)
    (hR : ∀ k ∈ R, ∃ l, m.loans k = some l ∧ l.sides = s.toU8) (t : LoanSides) :
    total R m.loans (u t) = if t = s then total R m.loans w else 0 := by
  have hweight : ∀ k ∈ R, weightAt m.loans (u t) k =
      if t = s then weightAt m.loans w k else 0 := by
    intro k hk
    obtain ⟨l, hl, hs⟩ := hR k hk
    rw [weightAt_of_some hl, weightAt_of_some hl, hw, hs]
    simp only [LoanSides.toU8_injective.eq_iff, eq_comm (a := s)]
  rw [total, Finset.sum_congr rfl hweight]
  split
  · rfl
  · exact Finset.sum_const_zero

/-- **Loans a swap can trigger weigh no more than the totals of its sides.** -/
theorem totals_ge {aToB : Bool} (hv : m.Valid S) (hR : ∀ k ∈ R, ∃ l, m.loans k = some l ∧
    l.triggerDirection = (swapDirection aToB).toU8) :
    m.seized R ≤ m.pool.collateral (inSide aToB) ∧ m.forgiven R ≤ m.pool.debt (outSide aToB) ∧
      R.card ≤ m.pool.openLoans := by
  have hopen : ∀ k ∈ R, ∃ l, m.loans k = some l ∧ l.sides = (swapSides aToB).toU8 := by
    intro k hk
    obtain ⟨l, hl, hdir⟩ := hR k hk
    refine ⟨l, hl, sides_of_sound (hv.indexed.sound k l hl) ?_⟩
    rw [swapSides_direction, hdir]
  have hsub : R ⊆ S := fun k hk => by
    obtain ⟨l, hl, -⟩ := hR k hk
    exact hv.booked.domain.mem_of_some hl
  have hcoll := total_of_sides (w := Loan.collateralAmount) (u := Loan.collateralFor)
    (fun _ _ => rfl) hopen (swapSides aToB)
  have hdebt := total_of_sides (w := Loan.debtPrincipal) (u := Loan.principalFor)
    (fun _ _ => rfl) hopen (swapSides aToB)
  rw [if_pos rfl] at hcoll hdebt
  refine ⟨?_, ?_, ?_⟩
  · rw [seized, ← hcoll, ← swapSides_collateralSide, hv.booked.collateral]
    exact total_le hsub
  · rw [forgiven, ← hdebt, ← swapSides_debtSide, hv.booked.debt]
    exact total_le hsub
  · rw [hv.booked.openLoans]
    exact Finset.card_le_card hsub

theorem inSide_ne_outSide (aToB : Bool) : inSide aToB ≠ outSide aToB := by
  cases aToB <;> simp [inSide, outSide]

/-- The protocol takes at most half of the input. -/
theorem Trade.portion_half (hv : m.Valid S) (h : Trade m p p₁ f supplied ks m') :
    2 * f.portion ≤ f.amountIn := by
  obtain ⟨_, _, hp₁⟩ := sampleRefPrice_frame h.sample
  refine protocolPortion_half (hv.terms.of_terms ?_) h.portion
  rw [hp₁, Pool.withRefPrice_terms, h.accrued.terms]

theorem Trade.portion_le (hv : m.Valid S) (h : Trade m p p₁ f supplied ks m') :
    f.portion ≤ f.amountIn := by
  have hhalf := h.portion_half hv
  omega

theorem Trade.valid (hv : m.Valid S) (h : Trade m p p₁ f supplied ks m') :
    m'.Valid (S \ ks.toFinset) := by
  have ht := h.traded
  have hopen : ∀ k ∈ ks.toFinset, ∃ l, m.loans k = some l ∧ l.sides = (swapSides f.aToB).toU8 :=
    fun k hk => by
      obtain ⟨l, hl, -, hs⟩ := h.liquidated_open hv hk
      exact ⟨l, hl, hs⟩
  have hsub := h.liquidated_subset hv
  refine ⟨hv.terms.of_terms ht.terms, fun x => ?_, hv.booked.remove hsub ht.loans (fun t => ?_)
    (fun t => ?_) ?_, hv.indexed.remove hsub ht.loans (Pool.liqRatioBps_of_terms ht.terms)
    h.bands_eq h.bits_eq⟩
  · have hsolv := hv.solvent x
    have hc := ht.collateral x
    have hout : f.amountOut ≤ m.real (outSide f.aToB) - m.pool.collateral (outSide f.aToB) -
      m.pool.fees (outSide f.aToB) := h.amountOut_le
    have hpaid := h.paid_eq
    have hportion := h.portion_le hv
    rw [ht.fees, ht.real]
    have hne := inSide_ne_outSide f.aToB
    by_cases hin : x = inSide f.aToB
    · subst hin
      rw [if_pos rfl, if_pos rfl, if_neg hne]
      omega
    · rw [if_neg hin] at hc
      rw [if_neg hin, if_neg hin]
      split
      · rename_i hx
        subst hx
        omega
      · omega
  · rw [total_of_sides (u := Loan.collateralFor) (fun _ _ => rfl) hopen]
    simpa only [← collateralSide_inj, swapSides_collateralSide, seized] using
      ht.collateral t.collateralSide
  · rw [total_of_sides (u := Loan.principalFor) (fun _ _ => rfl) hopen]
    simpa only [← debtSide_inj, swapSides_debtSide, forgiven] using ht.debt t.debtSide
  · rw [ht.openLoans]
    have := Finset.card_le_card hsub
    have := hv.booked.openLoans
    omega

/-- **Every move keeps a valid market valid.** -/
theorem Move.valid (hv : m.Valid S) (h : Move m ks m') : ∃ S', m'.Valid S' := by
  cases h with
  | deposit h => exact ⟨_, h.valid hv⟩
  | withdraw h => exact ⟨_, h.valid hv⟩
  | borrow h => exact ⟨_, h.valid hv⟩
  | repay h => exact ⟨_, h.valid hv⟩
  | claimFees h => exact ⟨_, h.valid hv⟩
  | trade h => exact ⟨_, h.valid hv⟩
  | drift h => exact ⟨_, h.valid hv⟩

end ChiefLiquidity.Market
