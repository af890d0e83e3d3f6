import ChiefLiquidity.Market.Value

/-!
# When the order of liquidations does not matter

Every liquidation adds collateral to the reserve a swap pays into and takes debt from the reserve it
is paid from. The first makes the price the swap settles at move on, as long as the swap is not
large against that reserve, and the second makes it move on by more than the rounding, as long as
the debt is not dust. Under these two conditions on the loans that are liquidated (`Sized`) a loan
that is triggered stays triggered, so the cascade is a monotone one: it liquidates no loan that is
not triggered at the final price, and its outcome does not depend on the order of the loans. Of the
loans a swap leaves alone nothing is asked.

## Main definitions

* `Sized` — a push is not too large for any of these loans
* `Gentle` — a swap is not too large for any of these loans

## Main results

* `gentle_of_half` — swaps of at most half the reserve are gentle to all loans
* `provisionalPrice_further`, `fires_persistent` — liquidations push the price on
* `Trade.triggered_of_mem` — every liquidated loan is triggered at the final price
* `Trade.liquidated_eq`, `Trade.outcome_eq` — two trades from one market have one outcome
-/

namespace ChiefLiquidity.Market

variable {m m₁ m₂ : Market} {S D R R' : Finset Pubkey} {t : Push} {p p₁ q q₁ : Pool}
  {f f₁ f₂ : SwapFigures} {supplied supplied₁ supplied₂ : Finset Pubkey} {ks ks₁ ks₂ : List Pubkey}
  {k : Pubkey} {l : Loan}

/-- The swap is not too large for the loans in `D`, loans it can trigger: its input against the
reserve it is paid into, and its rounding against their debt. -/
structure Sized (m : Market) (t : Push) (D : Finset Pubkey) : Prop where
  isOpen : ∀ k ∈ D, ∃ l, m.loans k = some l ∧ l.triggerDirection = (swapDirection t.aToB).toU8
  input : ∀ k ∈ D, ∀ l, m.loans k = some l →
    t.afterFee * t.growth ≤
      m.reserve (inSide t.aToB) * (m.reserve (inSide t.aToB) + l.collateralAmount)
  dust : ∀ k ∈ D, ∀ l, m.loans k = some l →
    t.afterFee * (m.reserve (inSide t.aToB) + t.growth) ≤
      l.debtPrincipal *
        (m.reserve (inSide t.aToB) * (m.reserve (inSide t.aToB) + l.collateralAmount))

/-- A swap of `amountIn` is not too large for the loans in `D`: what it pays in does not outweigh
their collateral, which a swap of at most the input reserve never does, and where the principal is a
single token neither does the rounding. -/
def Gentle (m : Market) (aToB : Bool) (amountIn : ℕ) (D : Set Pubkey) : Prop :=
  ∀ k ∈ D, ∀ (l : Loan) (portion : ℕ), m.loans k = some l →
    m.pool.protocolPortion amountIn = .ok portion →
    inAfterFee amountIn m.pool.swapFeeBps * (amountIn - portion) ≤
        m.reserve (inSide aToB) * (m.reserve (inSide aToB) + l.collateralAmount) ∧
      (l.debtPrincipal = 1 →
        inAfterFee amountIn m.pool.swapFeeBps * (m.reserve (inSide aToB) + (amountIn - portion)) ≤
          m.reserve (inSide aToB) * (m.reserve (inSide aToB) + l.collateralAmount))

theorem Gentle.mono {aToB : Bool} {amountIn : ℕ} {D D' : Set Pubkey} (h : m.Gentle aToB amountIn D)
    (hD : D' ⊆ D) : m.Gentle aToB amountIn D' := fun k hk => h k (hD hk)

theorem Sized.mono (h : Sized m t D) (hR : R ⊆ D) : Sized m t R :=
  ⟨fun k hk => h.isOpen k (hR hk), fun k hk => h.input k (hR hk), fun k hk => h.dust k (hR hk)⟩

/-! ### Liquidations push the price on -/

/-- What the LPs own of the output vault is left, whatever is liquidated. -/
theorem Sized.swappable_le (hv : m.Valid S) (h : Sized m t D) :
    m.swappable (outSide t.aToB) ≤ m.outReserve t D := by
  obtain ⟨-, hle, -⟩ := totals_ge hv h.isOpen
  rw [outReserve, reserve]
  omega

/-- **One more liquidation** pushes the price on. -/
theorem provisionalPrice_insert (hv : m.Valid S) (h : Sized m t (insert k R)) (hk : k ∉ R)
    (hl : m.loans k = some l) (hin : 0 < m.reserve (inSide t.aToB))
    (hout : 0 < m.swappable (outSide t.aToB)) :
    Further t.aToB (m.provisionalPrice t R) (m.provisionalPrice t (insert k R)) := by
  have hR := h.mono (Finset.subset_insert k R)
  have hseized : m.seized (insert k R) = m.seized R + l.collateralAmount :=
    KeyedSum.total_cons hk hl
  have hforgiven : m.forgiven (insert k R) = m.forgiven R + l.debtPrincipal :=
    KeyedSum.total_cons hk hl
  have hinput := h.input k (Finset.mem_insert_self k R) l hl
  have hdust := h.dust k (Finset.mem_insert_self k R) l hl
  have hout₁ := hR.swappable_le hv
  have hout₂ := h.swappable_le hv
  have hin' : m.inReserve t (insert k R) = m.inReserve t R + l.collateralAmount := by
    rw [inReserve, hseized, inReserve]
    omega
  have hout' : m.outReserve t (insert k R) = m.outReserve t R - l.debtPrincipal := by
    rw [outReserve, hforgiven, outReserve]
    omega
  have hle : m.reserve (inSide t.aToB) ≤ m.inReserve t R := Nat.le_add_right _ _
  unfold provisionalPrice provisionalOut
  rw [hin', hout']
  rw [hout'] at hout₂
  generalize m.inReserve t R = r at *
  generalize m.outReserve t R = o at *
  generalize m.reserve (inSide t.aToB) = r₀ at *
  generalize l.collateralAmount = c at *
  generalize l.debtPrincipal = d at *
  refine further_of_cross (by omega) (by omega) (ConstantProduct.rest_pos (by omega) (by omega))
    (ConstantProduct.rest_pos (by omega) (by omega)) ?_
  refine ConstantProduct.rest_cross_le (by omega) (by omega) ?_ ?_
  · exact hinput.trans (Nat.mul_le_mul hle (Nat.add_le_add_right hle c))
  · exact ConstantProduct.dust_mono hin hle hdust

/-- **Liquidations push the price on.** Induction on the loans that are liquidated in addition. -/
theorem provisionalPrice_further (hv : m.Valid S) (h : Sized m t D)
    (hin : 0 < m.reserve (inSide t.aToB)) (hout : 0 < m.swappable (outSide t.aToB))
    (hR : R ⊆ R') (hR' : R' ⊆ D) :
    Further t.aToB (m.provisionalPrice t R) (m.provisionalPrice t R') := by
  rw [← Finset.union_sdiff_of_subset hR] at hR' ⊢
  have hnew : ∀ k ∈ R' \ R, k ∉ R := fun k hk => (Finset.mem_sdiff.mp hk).2
  generalize R' \ R = T at hR' hnew
  induction T using Finset.induction_on with
  | empty =>
    rw [Finset.union_empty]
    exact .refl _ _
  | @insert k T hk ih =>
    rw [Finset.union_insert] at hR' ⊢
    have hT : R ∪ T ⊆ D := (Finset.subset_insert _ _).trans hR'
    obtain ⟨l, hl, -⟩ := h.isOpen k (hR' (Finset.mem_insert_self _ _))
    have hkRT : k ∉ R ∪ T := by
      rw [Finset.mem_union, not_or]
      exact ⟨hnew k (Finset.mem_insert_self _ _), hk⟩
    refine (ih hT fun j hj => hnew j (Finset.mem_insert_of_mem hj)).trans ?_
    exact provisionalPrice_insert hv (h.mono hR') hkRT hl hin hout

/-- **A triggered loan stays triggered.** -/
theorem fires_persistent (hv : m.Valid S) (h : Sized m t D)
    (hin : 0 < m.reserve (inSide t.aToB)) (hout : 0 < m.swappable (outSide t.aToB)) :
    Firing.Persistent (m.Fires t) D := by
  rintro R R' k hR hR' ⟨l, hl, hdir, hliq⟩
  exact ⟨l, hl, hdir,
    isLiquidatable_of_further (provisionalPrice_further hv h hin hout hR hR') hliq⟩

/-! ### The cascade of a trade -/

theorem Trade.persistent (hv : m.Valid S) (h : Trade m p p₁ f supplied ks m₁)
    (hsized : Sized m (f.push p.swapFeeBps) D) :
    Firing.Persistent (m.Fires (f.push p.swapFeeBps)) D :=
  fires_persistent hv hsized (h.reserve_pos _) (h.amountOut_pos.trans_le h.amountOut_le)

/-- A swap that grows its input reserve by at most half is not too large for any loan. -/
theorem inputs_of_half {r f g c d : ℕ} (hd : 0 < d) (hf : 2 * f ≤ r) (hg : 2 * g ≤ r) :
    f * g ≤ r * (r + c) ∧ f * (r + g) ≤ d * (r * (r + c)) := by
  have hrr : r * r ≤ r * (r + c) := Nat.mul_le_mul_left r (Nat.le_add_right _ _)
  constructor
  · exact (Nat.mul_le_mul (by omega) (by omega)).trans hrr
  · calc f * (r + g) ≤ r * r := by nlinarith
      _ ≤ r * (r + c) := hrr
      _ ≤ d * (r * (r + c)) := Nat.le_mul_of_pos_left _ hd

/-- An open loan has a principal. -/
theorem Valid.principal_pos (hv : m.Valid S) (hl : m.loans k = some l) : 0 < l.debtPrincipal := by
  obtain ⟨_, _, -, -, htrig, -⟩ := hv.indexed.sound k l hl
  exact (recomputeTrigger_eq_ok htrig).2.1

/-- Where the input does not outweigh the collateral, the rounding does not outweigh a principal of
two tokens or more. -/
theorem dust_of_input {r f g c d : ℕ} (hfg : f ≤ g) (hd : 2 ≤ d) (h : f * g ≤ r * (r + c)) :
    f * (r + g) ≤ d * (r * (r + c)) := by
  have hle : f ≤ r + c := by
    by_contra hlt
    have hsquare : (r + c + 1) * (r + c + 1) ≤ f * g := Nat.mul_le_mul (by omega) (by omega)
    nlinarith
  calc f * (r + g) = r * f + f * g := by ring
    _ ≤ r * (r + c) + r * (r + c) := Nat.add_le_add (Nat.mul_le_mul_left r hle) h
    _ = 2 * (r * (r + c)) := (Nat.two_mul _).symm
    _ ≤ d * (r * (r + c)) := Nat.mul_le_mul_right _ hd

/-- **A swap of at most half the reserve it is paid into is gentle.** -/
theorem gentle_of_half {aToB : Bool} {amountIn : ℕ} {D : Set Pubkey}
    (hhalf : 2 * amountIn ≤ m.reserve (inSide aToB)) : m.Gentle aToB amountIn D := by
  intro k _ l portion hl _
  have hafter : inAfterFee amountIn m.pool.swapFeeBps ≤ amountIn :=
    Nat.div_le_of_le_mul (Nat.mul_comm .. ▸ Nat.mul_le_mul_right _ (Nat.sub_le _ _))
  have hgrowth : amountIn - portion ≤ amountIn := Nat.sub_le _ _
  obtain ⟨hinput, hdust⟩ := inputs_of_half (d := 1) (r := m.reserve (inSide aToB))
    (f := inAfterFee amountIn m.pool.swapFeeBps) (g := amountIn - portion)
    (c := l.collateralAmount) Nat.one_pos (by omega) (by omega)
  exact ⟨hinput, fun _ => Nat.one_mul (m.reserve _ * _) ▸ hdust⟩

/-- A push that grows the input reserve by at most half is not too large for the loans it can
trigger. -/
theorem sized_of_half (hv : m.Valid S) (hD : ∀ k ∈ D, ∃ l, m.loans k = some l ∧
      l.triggerDirection = (swapDirection t.aToB).toU8) (hle : t.afterFee ≤ t.growth)
    (hhalf : 2 * t.growth ≤ m.reserve (inSide t.aToB)) : Sized m t D where
  isOpen := hD
  input _ _ _ hl := (inputs_of_half (hv.principal_pos hl) (by omega) hhalf).1
  dust _ _ _ hl := (inputs_of_half (hv.principal_pos hl) (by omega) hhalf).2

/-- The portion and the push of a trade, from the pool before it. -/
theorem Trade.portion_eq (h : Trade m p p₁ f supplied ks m₁) :
    m.pool.protocolPortion f.amountIn = .ok f.portion ∧ f.push p.swapFeeBps =
      ⟨f.aToB, inAfterFee f.amountIn m.pool.swapFeeBps, f.amountIn - f.portion⟩ := by
  constructor
  · obtain ⟨_, _, hp₁⟩ := sampleRefPrice_frame h.sample
    have hterms : p₁.terms = m.pool.terms := by
      rw [hp₁, Pool.withRefPrice_terms, h.accrued.terms]
    rw [← h.portion, protocolPortion_of_terms hterms]
  · rw [SwapFigures.push, Pool.swapFeeBps_of_terms h.accrued.terms]

/-- The loans a trade liquidates are open loans of its direction. -/
theorem Trade.open_of_mem (h : Trade m p p₁ f supplied ks m₁) (hk : k ∈ ks.toFinset) :
    ∃ l, m.loans k = some l ∧ l.triggerDirection = (swapDirection f.aToB).toU8 :=
  h.supplied_open k (h.ks_subset hk)

/-- The push of a trade that is gentle to the loans it liquidates is not too large for them. -/
theorem Trade.sized (hv : m.Valid S) (h : Trade m p p₁ f supplied ks m₁)
    (hgentle : m.Gentle f.aToB f.amountIn {k | k ∈ ks}) :
    Sized m (f.push p.swapFeeBps) ks.toFinset := by
  have hafter := h.afterFee_le hv
  obtain ⟨hportion, hpush⟩ := h.portion_eq
  rw [hpush] at hafter ⊢
  refine ⟨fun k hk => h.open_of_mem hk, fun k hk l hl => ?_, fun k hk l hl => ?_⟩
  · exact (hgentle k (List.mem_toFinset.mp hk) l f.portion hl hportion).1
  · obtain ⟨hinput, hdust⟩ := hgentle k (List.mem_toFinset.mp hk) l f.portion hl hportion
    have hpos := hv.principal_pos hl
    by_cases hone : l.debtPrincipal = 1
    · rw [hone, Nat.one_mul]
      exact hdust hone
    · exact dust_of_input hafter (by omega) hinput

/-- **Every liquidated loan is triggered at the final price.** -/
theorem Trade.triggered_of_mem (hv : m.Valid S) (h : Trade m p p₁ f supplied ks m₁)
    (hsized : Sized m (f.push p.swapFeeBps) ks.toFinset) (hk : k ∈ ks) :
    ∃ l, m.Triggered f.aToB f.price k l := by
  rw [h.price_eq]
  exact h.cascade.fires_of_mem (h.persistent hv hsized) (Finset.Subset.refl _) hk

/-- Nothing is left to liquidate after a trade. -/
theorem Trade.closed (hv : m.Valid S) (h : Trade m p p₁ f supplied ks m₁) :
    Firing.Closed (m.Fires (f.push p.swapFeeBps)) ks.toFinset := by
  rintro k hk ⟨l, ht⟩
  have ht' : m.Triggered f.aToB f.price k l := h.price_eq ▸ ht
  exact h.settled k (h.supplied_of_triggered hv ht') (fun hmem => hk (List.mem_toFinset.mpr hmem))
    l ht'

/-! ### Two trades from one market -/

/-- Accrual and sampling are functions of the market, and so is the portion. -/
theorem Trade.push_eq (h₁ : Trade m p p₁ f₁ supplied₁ ks₁ m₁)
    (h₂ : Trade m q q₁ f₂ supplied₂ ks₂ m₂) (haToB : f₁.aToB = f₂.aToB)
    (hamount : f₁.amountIn = f₂.amountIn) :
    p = q ∧ p₁ = q₁ ∧ f₁.portion = f₂.portion ∧ f₁.push p.swapFeeBps = f₂.push q.swapFeeBps := by
  obtain rfl : p = q := Except.ok.inj (h₁.accrued.bump.symm.trans h₂.accrued.bump)
  obtain rfl : p₁ = q₁ := Except.ok.inj (h₁.sample.symm.trans h₂.sample)
  have hportion : f₁.portion = f₂.portion := by
    have h := h₁.portion
    rw [hamount, h₂.portion] at h
    exact (Except.ok.inj h).symm
  refine ⟨rfl, rfl, hportion, ?_⟩
  rw [SwapFigures.push, SwapFigures.push, haToB, hamount, hportion]

/-- **Two trades liquidate the same loans**, when one of them is gentle to those it liquidates. -/
theorem Trade.liquidated_eq (hv : m.Valid S) (h₁ : Trade m p p₁ f₁ supplied₁ ks₁ m₁)
    (h₂ : Trade m q q₁ f₂ supplied₂ ks₂ m₂) (haToB : f₁.aToB = f₂.aToB)
    (hamount : f₁.amountIn = f₂.amountIn)
    (hgentle : m.Gentle f₁.aToB f₁.amountIn {k | k ∈ ks₁}) :
    ks₁.toFinset = ks₂.toFinset := by
  obtain ⟨-, -, -, hpush⟩ := h₁.push_eq h₂ haToB hamount
  have hchain := h₂.cascade
  have hclosed := h₂.closed hv
  rw [← hpush] at hchain hclosed
  exact h₁.cascade.toFinset_eq hchain (h₁.persistent hv (h₁.sized hv hgentle)) (h₁.closed hv)
    hclosed

/-- **Two trades that liquidate the same loans** pay the same and leave the same pool, loans and
bands. -/
theorem Trade.outcome_eq (h₁ : Trade m p p₁ f₁ supplied₁ ks₁ m₁)
    (h₂ : Trade m q q₁ f₂ supplied₂ ks₂ m₂) (haToB : f₁.aToB = f₂.aToB)
    (hamount : f₁.amountIn = f₂.amountIn) (hks : ks₁.toFinset = ks₂.toFinset) :
    f₁.amountOut = f₂.amountOut ∧ m₁.pool = m₂.pool ∧ m₁.loans = m₂.loans ∧
      m₁.bands = m₂.bands := by
  obtain ⟨rfl, rfl, hportion, hpush⟩ := h₁.push_eq h₂ haToB hamount
  have hbands : m₁.bands = m₂.bands := by
    funext d b
    rw [h₁.bands_eq, h₂.bands_eq, hks]
  refine ⟨?_, ?_, ?_, hbands⟩
  · rw [h₁.amountOut_eq, h₂.amountOut_eq, hpush, hks]
  · have hbitmaps : ∀ d, m₁.pool.bitmapOf d = m₂.pool.bitmapOf d := by
      intro d
      refine bitmap_ext fun b => ?_
      rw [Bool.eq_iff_iff, h₁.bits_eq, h₂.bits_eq, hks, hbands]
    obtain ⟨fall₁, rise₁, hpool₁⟩ := h₁.pool_eq
    obtain ⟨fall₂, rise₂, hpool₂⟩ := h₂.pool_eq
    have hlength : ks₁.length = ks₂.length := by
      rw [← List.toFinset_card_of_nodup h₁.cascade.nodup,
        ← List.toFinset_card_of_nodup h₂.cascade.nodup, hks]
    have hfall : fall₁ = fall₂ := by
      have := hbitmaps .onFall
      rwa [hpool₁, hpool₂] at this
    have hrise : rise₁ = rise₂ := by
      have := hbitmaps .onRise
      rwa [hpool₁, hpool₂] at this
    rw [hpool₁, hpool₂, hfall, hrise, hks, hlength, haToB, hportion]
  · rw [h₁.loans_eq, h₂.loans_eq, hks]

end ChiefLiquidity.Market
