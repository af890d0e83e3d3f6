import ChiefLiquidity.Market.Interest

/-!
# The reference price

Only a trade writes the reference price of a market, and only its first sample in a slot moves it:
to what the price of the moment, taken as the value a moving average follows, makes of it.

## One sample a slot

The reference price of a slot is made from the price the slot began with, so what is traded within
the slot does not enter it. A pool keeps the slot of its last sample and compares. It takes the
stored price zero to mean that there is none yet; the price zero can also be sampled, and is then
sampled over in the same slot. So one sample a slot is what pools have whose stored price is not
zero.

## As a moving average

Within the window the new reference is the old one moved towards the sample by the fraction of the
window that has passed, and beyond the window it is the sample. That is a moving average in the
general sense of `ForMathlib.MovingAverage`, whose bounds are used by name.

## Main definitions

* `Pool.SamplesAt` — the reference price of a pool would follow the price now
* `Sampled`, `SameReference` — what a move does to the reference price
* `Dated` — no reference price is from the future
* `Fitting` — the reference price is a 128-bit word

## Main results

* `Move.reference` — every move leaves the reference price alone, or samples
* `Pool.follows_of_refPriceAt` — within the window, the reference price is a moving average
* `Fitting.sample` — sampling never overflows
-/

namespace ChiefLiquidity

/-- The reference price of the pool follows the price it meets at this slot: it is unset, or was
last sampled in another slot. -/
def Pool.SamplesAt (p : Pool) (slot : ℕ) : Prop := p.refPriceWad = 0 ∨ slot ≠ p.refPriceSlot

/-- What `Swap` does to the reference price. -/
theorem Pool.sampleRefPrice_eq_ok {p p' : Pool} {a b slot : ℕ} :
    p.sampleRefPrice a b slot = .ok p' ↔
      (¬ p.SamplesAt slot ∧ p' = p) ∨ (p.SamplesAt slot ∧ ∃ spot ref, priceBPerAWad a b = .ok spot ∧
        p.refPriceAt spot slot = .ok ref ∧ p' = p.withRefPrice ref slot) := by
  rw [sampleRefPrice]
  split <;> rename_i hsamples
  · simp only [Checked.bind_eq_ok, Checked.pure_eq_ok]
    constructor
    · rintro ⟨spot, hspot, ref, href, rfl⟩
      exact Or.inr ⟨hsamples, spot, ref, hspot, href, rfl⟩
    · rintro (⟨hnot, -⟩ | ⟨-, spot, ref, hspot, href, rfl⟩)
      · exact absurd hsamples hnot
      · exact ⟨spot, hspot, ref, href, rfl⟩
  · constructor
    · intro h
      cases h
      exact Or.inl ⟨hsamples, rfl⟩
    · rintro (⟨-, rfl⟩ | ⟨hnot, -⟩)
      · rfl
      · exact absurd hnot hsamples

/-- Once sampled in a slot, a reference price that is set is the reference price of that slot. -/
theorem Pool.refPriceAt_of_not_samplesAt {p : Pool} {spot slot : ℕ} (h : ¬ p.SamplesAt slot) :
    p.refPriceAt spot slot = .ok p.refPriceWad := by
  obtain ⟨h0, hs⟩ := not_or.mp h
  exact Pool.refPriceAt_of_sampled h0 (not_not.mp hs)

/-- **Within the window, the reference price is a moving average** of the prices it observes. -/
theorem Pool.follows_of_refPriceAt {p : Pool} {ok : ℕ → Prop} {I : ℕ → ℕ → Prop}
    {spot slot start ref : ℕ} (hI : MovingAverage.Follows refPriceWindowSlots ok I)
    (hset : p.refPriceWad ≠ 0) (hstart : start ≤ p.refPriceSlot) (hdated : p.refPriceSlot ≤ slot)
    (hwindow : slot < start + refPriceWindowSlots) (hp : I (p.refPriceSlot - start) p.refPriceWad)
    (hok : p.SamplesAt slot → ok spot) (h : p.refPriceAt spot slot = .ok ref) :
    ref ≠ 0 ∧ I (slot - start) ref := by
  by_cases hsamples : p.SamplesAt slot
  · have hw : slot - p.refPriceSlot < refPriceWindowSlots := by omega
    have hne : slot ≠ p.refPriceSlot := hsamples.resolve_left hset
    rw [refPriceAt, if_neg (fun hc => hne hc.2)] at h
    obtain rfl := emaRefPriceWad_eq_ok hset hw h
    refine ⟨(MovingAverage.step_pos hw (Nat.pos_of_ne_zero hset)).ne', ?_⟩
    have hstep := hI _ _ spot _ hp (hok hsamples) hw.le
    rwa [show p.refPriceSlot - start + (slot - p.refPriceSlot) = slot - start by omega] at hstep
  · rw [refPriceAt_of_not_samplesAt hsamples] at h
    cases h
    have hsame : slot = p.refPriceSlot := not_not.mp (not_or.mp hsamples).2
    exact ⟨hset, hsame ▸ hp⟩

/-- Between two 128-bit words the average is computed without overflow, and is one. -/
theorem emaRefPriceWad_of_lt {prev spot elapsed : ℕ} (hprev : prev < 2 ^ 128)
    (hspot : spot < 2 ^ 128) : ∃ q, emaRefPriceWad prev spot elapsed = .ok q ∧ q < 2 ^ 128 := by
  by_cases hfar : prev = 0 ∨ refPriceWindowSlots ≤ elapsed
  · exact ⟨spot, if_pos hfar, hspot⟩
  · obtain ⟨h0, hw⟩ := not_or.mp hfar
    rw [not_le] at hw
    have hstep : ∀ n, n < 2 ^ 128 →
        mulDiv n elapsed refPriceWindowSlots = .ok (n * elapsed / refPriceWindowSlots) := by
      intro n hn
      have hprod : n * elapsed < 2 ^ 128 * 2 ^ 8 :=
        Nat.mul_lt_mul'' hn (hw.trans (by decide))
      exact mulDiv_eq_ok.mpr ⟨by decide, hprod.trans (by norm_num),
        (MovingAverage.gap_le hw.le n).trans_lt hn, rfl⟩
    obtain ⟨q, hq⟩ : ∃ q, emaRefPriceWad prev spot elapsed = .ok q := by
      rw [emaRefPriceWad, if_neg hfar]
      split
      · rw [hstep _ (by omega)]
        exact ⟨_, rfl⟩
      · rw [hstep _ (by omega)]
        exact ⟨_, rfl⟩
    refine ⟨q, hq, ?_⟩
    rw [emaRefPriceWad_eq_ok h0 hw hq]
    have hle := MovingAverage.step_le hw.le (Nat.le_sub_one_of_lt hprev)
      (Nat.le_sub_one_of_lt hspot)
    omega

namespace Market

variable {m m' : Market} {S : Finset Pubkey} {p p₁ : Pool} {f : SwapFigures}
  {supplied : Finset Pubkey} {ks : List Pubkey} {spot : ℕ}

/-- The reference price is as it was. -/
structure SameReference (m m' : Market) : Prop where
  price : m'.pool.refPriceWad = m.pool.refPriceWad
  slot : m'.pool.refPriceSlot = m.pool.refPriceSlot

/-- The reference price has followed the accounted spot price before the move. -/
structure Sampled (m m' : Market) (spot : ℕ) : Prop where
  samples : m.pool.SamplesAt m.slot
  observed : priceBPerAWad (m.reserve .a) (m.reserve .b) = .ok spot
  advanced : m.pool.refPriceAt spot m.slot = .ok m'.pool.refPriceWad
  slot : m'.pool.refPriceSlot = m.slot

theorem SameReference.of_meters (h : m'.pool.meters = m.pool.meters) : SameReference m m' :=
  ⟨congrArg Pool.Meters.refPrice h, congrArg Pool.Meters.refSlot h⟩

/-- Accrual leaves the reference price alone. -/
theorem Accrued.sameReference (h : m.Accrued p) (hmeters : m'.pool.meters = p.meters) :
    SameReference m m' := by
  obtain ⟨_, _, _, rfl⟩ := h.frame
  exact ⟨congrArg Pool.Meters.refPrice hmeters, congrArg Pool.Meters.refSlot hmeters⟩

/-- **A trade samples** the price before it, unless the slot has been sampled. -/
theorem Trade.reference (h : Trade m p p₁ f supplied ks m') :
    (¬ m.pool.SamplesAt m.slot ∧ SameReference m m') ∨ ∃ spot, Sampled m m' spot := by
  have hmeters := h.meters
  obtain ⟨_, _, _, rfl⟩ := h.accrued.frame
  rcases Pool.sampleRefPrice_eq_ok.mp h.sample with
    ⟨hnot, rfl⟩ | ⟨hsamples, spot, ref, hspot, href, rfl⟩
  · exact Or.inl ⟨hnot, congrArg Pool.Meters.refPrice hmeters, congrArg Pool.Meters.refSlot hmeters⟩
  · refine Or.inr ⟨spot, hsamples, hspot, href.trans (congrArg Except.ok ?_),
      congrArg Pool.Meters.refSlot hmeters⟩
    exact (congrArg Pool.Meters.refPrice hmeters).symm

/-- **Every move leaves the reference price alone, or samples.** -/
theorem Move.reference (h : Move m ks m') : SameReference m m' ∨ ∃ spot, Sampled m m' spot := by
  cases h with
  | deposit h => exact Or.inl (h.accrued.sameReference h.meters)
  | withdraw h => exact Or.inl (h.accrued.sameReference h.meters)
  | borrow h => exact Or.inl (h.accrued.sameReference h.meters)
  | repay h => exact Or.inl (h.accrued.sameReference h.meters)
  | claimFees h => exact Or.inl (.of_meters h.meters)
  | trade h => exact h.reference.imp And.right id
  | drift h => exact Or.inl (.of_meters h.meters)

/-- A reference price that is set was sampled in a slot that has begun. -/
def Dated (m : Market) : Prop := m.pool.refPriceWad ≠ 0 → m.pool.refPriceSlot ≤ m.slot

theorem New.dated (h : m.New) : m.Dated := fun h0 => absurd h.refPrice h0

theorem Move.dated (hd : m.Dated) (h : Move m ks m') : m'.Dated := by
  intro hset
  rcases h.reference with hsame | ⟨spot, hs⟩
  · rw [hsame.slot]
    exact (hd (hsame.price ▸ hset)).trans h.slot_le
  · rw [hs.slot]
    exact h.slot_le

/-- The reference price is a 128-bit word. -/
def Fitting (m : Market) : Prop := m.pool.refPriceWad < 2 ^ 128

theorem New.fitting (h : m.New) : m.Fitting := by
  rw [Fitting, h.refPrice]
  exact Nat.two_pow_pos 128

/-- What the reference price becomes at a price that is a 128-bit word. -/
theorem Fitting.refPriceAt (hm : m.Fitting) (hp : p.refPriceWad = m.pool.refPriceWad)
    (hspot : spot < 2 ^ 128) (slot : ℕ) :
    ∃ ref, p.refPriceAt spot slot = .ok ref ∧ ref < 2 ^ 128 := by
  rw [Fitting, ← hp] at hm
  by_cases hsamples : p.SamplesAt slot
  · rw [Pool.refPriceAt, if_neg fun h => hsamples.elim h.1 fun hne => hne h.2]
    exact emaRefPriceWad_of_lt hm hspot
  · exact ⟨_, Pool.refPriceAt_of_not_samplesAt hsamples, hm⟩

theorem Move.fitting (hm : m.Fitting) (h : Move m ks m') : m'.Fitting := by
  rcases h.reference with hsame | ⟨spot, hs⟩
  · rw [Fitting, hsame.price]
    exact hm
  · obtain ⟨-, -, hspot, rfl⟩ := priceBPerAWad_eq_ok.mp hs.observed
    obtain ⟨ref, href, hlt⟩ := hm.refPriceAt rfl hspot m.slot
    obtain rfl := Except.ok.inj (hs.advanced.symm.trans href)
    exact hlt

/-- **Sampling never overflows** at a price that does not. -/
theorem Fitting.sample (hm : m.Fitting) (hq : m.Accrued p) {a b : ℕ}
    (hprice : priceBPerAWad a b = .ok spot) (slot : ℕ) :
    ∃ p₁, p.sampleRefPrice a b slot = .ok p₁ := by
  by_cases hsamples : p.SamplesAt slot
  · have hsame : SameReference m { m with pool := p } := hq.sameReference rfl
    obtain ⟨-, -, hspot, rfl⟩ := priceBPerAWad_eq_ok.mp hprice
    obtain ⟨ref, href, -⟩ := hm.refPriceAt hsame.price hspot slot
    exact ⟨_, Pool.sampleRefPrice_eq_ok.mpr (Or.inr ⟨hsamples, _, ref, hprice, href, rfl⟩)⟩
  · exact ⟨p, Pool.sampleRefPrice_eq_ok.mpr (Or.inl ⟨hsamples, rfl⟩)⟩

end Market

end ChiefLiquidity
