import ChiefLiquidity.Market.Reference
import ChiefLiquidity.Properties.Accrual

/-!
# The reference price

What a swap stores as reference price is what a loan opened just before it would have been valued
at, and it stays until the slot is over. Over several slots it moves like an average over the
window: whatever prices are held at the moments it samples, in `n` slots it takes on no more than
`n / 150` of their distance.

## Why there is a reference

The spot price of a moment belongs to whoever trades at that moment. A loan is therefore checked
against a second price as well, which a trade cannot move within the slot it is made in, and can
move only slowly over several.

## The unset marker

A stored reference of zero means that there is none yet. Prices of zero exist, when the reserve of A
is more than `10 ^ 18` times that of B, and a sampled zero is stored like any other: the next swap
of the slot takes it for unset and samples again. The result on one sample a slot has the condition
that the reference is not zero.

## Several slots

The bound over several slots is that of a moving average. It speaks of the prices at the moments of
sampling, which are those at the start of a slot's first swap, and of the projected reference, which
is what an `OpenLoan` would be checked against.

## Main definitions

* `Guarded` — a step whose instruction is of a given kind
* `Observes`, `Evaluates` — the price a state shows to the reference, and the reference itself
* `Shows` — the reference prices of a state, stored and projected

## Main results

* `instruction_reference` — only a swap writes the reference price of its pool
* `reference_fixed_within_slot`
* `reference_moves_slowly`
-/

namespace ChiefLiquidity

open Ledger Market

variable {rt : Runtime} {led led' : Ledger} {P Q : Pubkey} {p p' : Pool} {i : Instruction}
  {events : List Event} {A : Ledger → Instruction → Prop}

/-! ### Instructions that price a pool -/

/-- The instruction is a swap with the pool `P`. -/
def Instruction.SwapsWith (P : Pubkey) : Instruction → Prop
  | .swap accs .. => accs.pool = P
  | _ => False

/-- The instruction prices the pool `P`: it is a swap, which samples the price, or opens a loan,
which projects it. -/
def Instruction.Prices (P : Pubkey) : Instruction → Prop
  | .swap accs .. => accs.pool = P
  | .openLoan accs .. => accs.pool = P
  | _ => False

theorem Instruction.SwapsWith.prices (h : i.SwapsWith P) : i.Prices P := by
  cases i with
  | swap => exact h
  | _ => exact h.elim

/-- A step whose instruction, if it is one, is one that `A` allows in that state. -/
inductive Guarded (rt : Runtime) (A : Ledger → Instruction → Prop) : Ledger → Ledger → Prop where
  | instruction {led led' : Ledger} {events : List Event} (i : Instruction)
      (hsig : ∀ k ∈ i.user, ¬ rt.IsPda k) : A led i →
      processInstruction rt i led = .ok (led', events) → Guarded rt A led led'
  | outside {led led' : Ledger} : Outside rt led led' → Guarded rt A led led'

theorem Guarded.step (h : Guarded rt A led led') : Step rt led led' := by
  cases h with
  | instruction i hsig _ hi => exact .instruction i hsig hi
  | outside hout => exact .outside hout

theorem Guarded.steps (h : Relation.ReflTransGen (Guarded rt A) led led') :
    Relation.ReflTransGen (Step rt) led led' :=
  Relation.ReflTransGen.mono (fun _ _ hs => hs.step) _ _ h

/-- No reference price is from the future. -/
theorem Reachable.dated (h : Reachable rt led) (hp : led.HasPool rt P p) :
    (led.market rt P p).Dated := by
  obtain ⟨genesis, hgen, hrun⟩ := h
  induction hrun generalizing P p with
  | refl => exact absurd hp (hgen.no_pool P p)
  | tail hrun hstep ih =>
    exact hstep.markets (hgen.sound.run hrun) (fun _ hm => hm.dated)
      (fun _ _ _ _ hq hm => hm.dated (ih hq)) _ _ hp

/-- Every reference price is a 128-bit word. -/
theorem Reachable.fitting (h : Reachable rt led) (hp : led.HasPool rt P p) :
    (led.market rt P p).Fitting := by
  obtain ⟨genesis, hgen, hrun⟩ := h
  induction hrun generalizing P p with
  | refl => exact absurd hp (hgen.no_pool P p)
  | tail hrun hstep ih =>
    exact hstep.markets (hgen.sound.run hrun) (fun _ hm => hm.fitting)
      (fun _ _ _ _ hq hm => hm.fitting (ih hq)) _ _ hp

/-- **Only a swap writes the reference price of its pool**, and only to sample. -/
theorem instruction_reference (h : Sound rt led) (hsig : ∀ k ∈ i.user, ¬ rt.IsPda k)
    (hi : processInstruction rt i led = .ok (led', events)) (hp : led.HasPool rt P p)
    (hp' : led'.HasPool rt P p') :
    SameReference (led.market rt P p) (led'.market rt P p') ∨
      i.SwapsWith P ∧ ∃ spot, Sampled (led.market rt P p) (led'.market rt P p') spot := by
  obtain ⟨Q, hmade⟩ := processInstruction_made h hsig hi
  by_cases hQ : P = Q
  · subst hQ
    cases hmade with
    | initializePool hno => exact absurd hp (hno p)
    | addLiquidity hstep hmove =>
      obtain rfl := hstep.before.unique hp
      obtain rfl := hstep.after.unique hp'
      exact Or.inl (hmove.accrued.sameReference hmove.meters)
    | removeLiquidity hstep hmove =>
      obtain rfl := hstep.before.unique hp
      obtain rfl := hstep.after.unique hp'
      exact Or.inl (hmove.accrued.sameReference hmove.meters)
    | openLoan hstep hmove =>
      obtain rfl := hstep.before.unique hp
      obtain rfl := hstep.after.unique hp'
      exact Or.inl (hmove.accrued.sameReference hmove.meters)
    | repayLoan hstep hmove =>
      obtain rfl := hstep.before.unique hp
      obtain rfl := hstep.after.unique hp'
      exact Or.inl (hmove.accrued.sameReference hmove.meters)
    | claimProtocolFees hstep hmove =>
      obtain rfl := hstep.before.unique hp
      obtain rfl := hstep.after.unique hp'
      refine Or.inl (.of_meters ?_)
      rcases hmove with heq | hmove
      · rw [heq]
      · exact hmove.meters
    | claimLiquidatedRent hstep heq =>
      obtain rfl := hstep.before.unique hp
      obtain rfl := hstep.after.unique hp'
      exact Or.inl (.of_meters (by rw [heq]))
    | swap hswap =>
      obtain rfl := hswap.step.before.unique hp
      obtain rfl := hswap.step.after.unique hp'
      obtain ⟨_, _, _, htrade⟩ := hswap.trade
      exact htrade.reference.imp And.right fun hs => ⟨rfl, hs⟩
  · obtain rfl := (hmade.effect.touched.hasPool hQ hp).unique hp'
    exact Or.inl ⟨rfl, rfl⟩

/-- The same for a step. -/
theorem Guarded.reference (h : Sound rt led) (hstep : Guarded rt A led led')
    (hp : led.HasPool rt P p) (hp' : led'.HasPool rt P p') :
    SameReference (led.market rt P p) (led'.market rt P p') ∨
      ∃ i, A led i ∧ i.SwapsWith P ∧
        ∃ spot, Sampled (led.market rt P p) (led'.market rt P p') spot := by
  cases hstep with
  | instruction i hsig hA hi =>
    exact (instruction_reference h hsig hi hp hp').imp_right fun hs => ⟨i, hA, hs⟩
  | outside hout =>
    obtain rfl := (hout.hasPool h.filed hp).unique hp'
    exact Or.inl ⟨rfl, rfl⟩

/-! ### Observed and evaluated prices -/

/-- The price a swap with the pool `P` samples in this state, and a loan opened in it projects. -/
def Observes (rt : Runtime) (P : Pubkey) (led : Ledger) (spot : ℕ) : Prop :=
  ∃ p a b, led.HasPool rt P p ∧ p.SamplesAt led.slot ∧ led.accounted p = .ok (a, b) ∧
    priceBPerAWad a b = .ok spot

/-- The reference price at which `OpenLoan` values a loan of the pool `P` in this state. -/
def Evaluates (rt : Runtime) (P : Pubkey) (led : Ledger) (ref : ℕ) : Prop :=
  ∃ p a b spot, led.HasPool rt P p ∧ led.accounted p = .ok (a, b) ∧
    priceBPerAWad a b = .ok spot ∧ p.refPriceAt spot led.slot = .ok ref

/-- What a move samples is what its state shows. -/
theorem Sound.observes (h : Sound rt led) (hp : led.HasPool rt P p) {m' : Market} {spot : ℕ}
    (hs : Sampled (led.market rt P p) m' spot) : Observes rt P led spot :=
  ⟨p, _, _, hp, hs.samples, h.accounted hp, hs.observed⟩

/-! ### Within a slot -/

/-- As long as no swap is made the reference price stays. -/
theorem refPrice_eq_of_run (h : Reachable rt led) (hp : led.HasPool rt P p)
    (hrun : Relation.ReflTransGen (Guarded rt fun _ i => ¬ i.SwapsWith P) led led')
    (hp' : led'.HasPool rt P p') :
    p'.refPriceWad = p.refPriceWad ∧ p'.refPriceSlot = p.refPriceSlot := by
  induction hrun generalizing p' with
  | refl => exact hp.unique hp' ▸ ⟨rfl, rfl⟩
  | tail hrun hstep ih =>
    obtain ⟨q, hq⟩ := h.hasPool hp (Guarded.steps hrun)
    have hsame := (hstep.reference (h.run (Guarded.steps hrun)).sound hq hp').resolve_right
      fun ⟨i, hnot, hswap, _⟩ => hnot hswap
    exact ⟨hsame.price.trans (ih hq).1, hsame.slot.trans (ih hq).2⟩

/-- A reference price that is set stays until its slot is over, whatever happens. -/
theorem refPrice_eq_within_slot (h : Reachable rt led) (hp : led.HasPool rt P p)
    (hset : ¬ p.SamplesAt led.slot) (hrun : Relation.ReflTransGen (Step rt) led led')
    (hslot : led'.slot = led.slot) (hp' : led'.HasPool rt P p') :
    p'.refPriceWad = p.refPriceWad ∧ p'.refPriceSlot = p.refPriceSlot := by
  induction hrun generalizing p' with
  | refl => exact hp.unique hp' ▸ ⟨rfl, rfl⟩
  | @tail mid last hrun hstep ih =>
    have hreach := h.run hrun
    obtain ⟨q, hq⟩ := h.hasPool hp hrun
    have hmid : mid.slot = led.slot :=
      le_antisymm (hslot ▸ hstep.slot_le hreach.sound) (h.slot_le hrun)
    obtain ⟨hprice, hdate⟩ := ih hmid hq
    obtain ⟨q', _, hq', hmove, -⟩ := hstep.move hreach.sound hq
    obtain rfl := hq'.unique hp'
    rcases hmove.reference with hsame | ⟨spot, hs⟩
    · exact ⟨hsame.price.trans hprice, hsame.slot.trans hdate⟩
    · have hsamples : q.SamplesAt mid.slot := hs.samples
      rw [Pool.SamplesAt, hprice, hdate, hmid] at hsamples
      exact absurd hsamples hset

/-- The first swap of a slot samples: what is stored before it is unset, or from an earlier slot. -/
theorem samplesAt_of_first {led₀ : Ledger} (h : Reachable rt led₀)
    (hbegin : led₀.slot < led.slot ∨ ∀ q, ¬ led₀.HasPool rt P q)
    (hrun : Relation.ReflTransGen (Guarded rt fun _ i => ¬ i.SwapsWith P) led₀ led)
    (hp : led.HasPool rt P p) : p.SamplesAt led.slot := by
  by_cases hold : ∃ p₀, led₀.HasPool rt P p₀
  · obtain ⟨p₀, hp₀⟩ := hold
    have hslot := hbegin.resolve_right fun hno => hno p₀ hp₀
    obtain ⟨hprice, hdate⟩ := refPrice_eq_of_run h hp₀ hrun hp
    by_cases hset : p₀.refPriceWad = 0
    · exact Or.inl (hprice.trans hset)
    · have hdated : p₀.refPriceSlot ≤ led₀.slot := h.dated hp₀ hset
      refine Or.inr ?_
      omega
  · -- a new pool has no reference price yet
    refine Or.inl ?_
    clear hbegin
    induction hrun generalizing p with
    | refl => exact absurd ⟨p, hp⟩ hold
    | @tail mid last hrun hstep ih =>
      have hsound := (h.run (Guarded.steps hrun)).sound
      by_cases hmid : ∃ q, mid.HasPool rt P q
      · obtain ⟨q, hq⟩ := hmid
        have hsame := (hstep.reference hsound hq hp).resolve_right
          fun ⟨i, hnot, hswap, _⟩ => hnot hswap
        exact hsame.price.trans (ih hq)
      · exact (hstep.step.new hsound hp fun q hq => hmid ⟨q, hq⟩).refPrice

/-- The loan-to-value ratio of a loan with these sides at a reference price. -/
def LoanSides.refLtv (s : LoanSides) (debt collateral ref : ℕ) : Result ℕ :=
  match s with
  | .collateralA => ltvBps debt collateral wad ref
  | .collateralB => ltvBps debt collateral ref wad

/-- **A loan is opened only within the limit at the reference price.** -/
theorem processOpenLoan_refLtv {accs : LoanAccounts} {sidesByte c d nonce : ℕ}
    (hi : processOpenLoan rt accs sidesByte c d nonce led = .ok (led', events)) :
    ∃ p s ref ltv, led.HasPool rt accs.pool p ∧ LoanSides.fromU8 sidesByte = .ok s ∧
      Evaluates rt accs.pool led ref ∧ s.refLtv d c ref = .ok ltv ∧ ltv ≤ p.maxLtvBps := by
  simp only [processOpenLoan, Checked.bind_eq_ok, require_eq_ok, exists_const, Prod.exists] at hi
  obtain ⟨-, _, hvalid, -, p, hload, s, hsides, realA, realB, hreads, q, hbump, trigger, dir, -,
    accA, accB, haccounted, _, _, -, -, _, hltv, -⟩ := hi
  obtain ⟨hp, hacc⟩ := hasPool_of_load hvalid hload
  obtain ⟨rfl, rfl⟩ := real_of_read rt accs.pool hacc hreads
  have haccrued : (led.market rt accs.pool p).Accrued q := ⟨hbump⟩
  obtain ⟨_, _, _, rfl⟩ := haccrued.frame
  simp only [checkLtv, Checked.bind_eq_ok, require_eq_ok, exists_const] at hltv
  obtain ⟨spot, hspot, ref, href, spotLtv, -, refLtv, hrefLtv, hmax, -⟩ := hltv
  refine ⟨p, s, ref, refLtv, hp, hsides, ⟨p, accA, accB, spot, hp, haccounted, hspot, href⟩, ?_,
    (le_max_right _ _).trans hmax⟩
  cases s <;> exact hrefLtv

section Swap

variable {accs : SwapAccounts} {f : SwapFigures} {ks : List Pubkey}

/-- A swap samples, unless its slot has been sampled. -/
theorem Swapped.reference (hswap : Swapped rt accs f ks p p' led led') :
    (¬ p.SamplesAt led.slot ∧ p'.refPriceWad = p.refPriceWad ∧
      p'.refPriceSlot = p.refPriceSlot) ∨
      ∃ spot, Sampled (led.market rt accs.pool p) (led'.market rt accs.pool p') spot := by
  obtain ⟨_, _, _, htrade⟩ := hswap.trade
  exact htrade.reference.imp_left fun ⟨hnot, hsame⟩ => ⟨hnot, hsame.price, hsame.slot⟩

/-- **A swap stores what a loan opened just before it would have been valued at.** -/
theorem Swapped.evaluates_eq {ref : ℕ} (h : Sound rt led)
    (hswap : Swapped rt accs f ks p p' led led') (href : Evaluates rt accs.pool led ref) :
    ref = p'.refPriceWad := by
  obtain ⟨q, a, b, spot, hq, hacc, hspot, href⟩ := href
  obtain rfl := hq.unique hswap.step.before
  rcases hswap.reference with ⟨hnot, hprice, -⟩ | ⟨spot', hs⟩
  · rw [Pool.refPriceAt_of_not_samplesAt hnot] at href
    exact (Except.ok.inj href).symm.trans hprice.symm
  · rw [h.accounted hq] at hacc
    obtain ⟨rfl, rfl⟩ := Prod.mk.inj (Except.ok.inj hacc)
    obtain rfl := Except.ok.inj (hspot.symm.trans hs.observed)
    exact Except.ok.inj (href.symm.trans hs.advanced)

/-- A swap leaves a price sampled in its slot, if it leaves one. -/
theorem Swapped.not_samplesAt (hswap : Swapped rt accs f ks p p' led led')
    (hset : p'.refPriceWad ≠ 0) : ¬ p'.SamplesAt led'.slot := by
  have hslot : led'.slot = led.slot := hswap.step.touched.slot
  rcases hswap.reference with ⟨hnot, hprice, hdate⟩ | ⟨spot, hs⟩
  · rwa [Pool.SamplesAt, hslot, hprice, hdate]
  · have hdate : p'.refPriceSlot = led.slot := hs.slot
    rw [Pool.SamplesAt, hslot, hdate]
    exact not_or.mpr ⟨hset, not_not.mpr rfl⟩

end Swap

/-- Within a slot, loans are valued at the price that is stored, once one is. -/
theorem evaluates_eq_within_slot {ref : ℕ} (h : Reachable rt led) (hp : led.HasPool rt P p)
    (hset : ¬ p.SamplesAt led.slot) (hrun : Relation.ReflTransGen (Step rt) led led')
    (hslot : led'.slot = led.slot) (href : Evaluates rt P led' ref) : ref = p.refPriceWad := by
  obtain ⟨q, a, b, spot, hq, -, -, href⟩ := href
  obtain ⟨hprice, hdate⟩ := refPrice_eq_within_slot h hp hset hrun hslot hq
  rw [Pool.refPriceAt_of_not_samplesAt] at href
  · exact (Except.ok.inj href).symm.trans hprice
  · rwa [Pool.SamplesAt, hprice, hdate, hslot]

/-- **Prices pumped within a slot never reach the reference price.** What an accepted swap stores is
what `OpenLoan` would have evaluated just before it; for the first swap of a slot that is a price.
As long as the slot lasts a stored price stays, whatever happens, and every loan is opened within
the limit at just that price. -/
theorem reference_fixed_within_slot {accs : SwapAccounts} {amountIn minOut bandBoundary : ℕ}
    {aToB : Bool} {counts : List ℕ} (h : Reachable rt led) (hsig : ¬ rt.IsPda accs.user)
    (hi : processSwap rt accs amountIn minOut aToB bandBoundary counts led = .ok (led', events)) :
    ∃ p', led'.HasPool rt accs.pool p' ∧
      (∀ ref, Evaluates rt accs.pool led ref → ref = p'.refPriceWad) ∧
      (∀ led₀, Reachable rt led₀ →
        (led₀.slot < led.slot ∨ ∀ q, ¬ led₀.HasPool rt accs.pool q) →
        Relation.ReflTransGen (Guarded rt fun _ i => ¬ i.SwapsWith accs.pool) led₀ led →
          Evaluates rt accs.pool led p'.refPriceWad) ∧
      (p'.refPriceWad ≠ 0 → ∀ led₂, Relation.ReflTransGen (Step rt) led' led₂ →
        led₂.slot = led.slot →
          (∃ p₂, led₂.HasPool rt accs.pool p₂ ∧ p₂.refPriceWad = p'.refPriceWad) ∧
          (∀ ref, Evaluates rt accs.pool led₂ ref → ref = p'.refPriceWad) ∧
          ∀ (accs₂ : LoanAccounts) (sidesByte c d nonce : ℕ) (led₃ : Ledger) (events₂ : List Event),
            accs₂.pool = accs.pool →
            processOpenLoan rt accs₂ sidesByte c d nonce led₂ = .ok (led₃, events₂) →
              ∃ p₂ s ltv, led₂.HasPool rt accs.pool p₂ ∧ LoanSides.fromU8 sidesByte = .ok s ∧
                s.refLtv d c p'.refPriceWad = .ok ltv ∧ ltv ≤ p₂.maxLtvBps) := by
  have hsound := h.sound
  obtain ⟨p, p', f, ks, hswap, -⟩ :=
    processSwap_refines hsound.filed hsig (fun p => hsound.valid _ p) hi
  have hp := hswap.step.before
  have hp' := hswap.step.after
  have hreach' := h.swap hsig hi
  have hslot : led'.slot = led.slot := hswap.step.touched.slot
  refine ⟨p', hp', fun ref => hswap.evaluates_eq hsound, fun led₀ h₀ hbegin hrun => ?_,
    fun hset led₂ hrun hslot₂ => ?_⟩
  · rcases hswap.reference with ⟨hnot, -⟩ | ⟨spot, hs⟩
    · exact absurd (samplesAt_of_first h₀ hbegin hrun hp) hnot
    · exact ⟨p, _, _, spot, hp, hsound.accounted hp, hs.observed, hs.advanced⟩
  · have hdone := hswap.not_samplesAt hset
    have hslot' := hslot₂.trans hslot.symm
    have hfixed : ∀ ref, Evaluates rt accs.pool led₂ ref → ref = p'.refPriceWad := fun ref =>
      evaluates_eq_within_slot hreach' hp' hdone hrun hslot'
    obtain ⟨p₂, hp₂⟩ := hreach'.hasPool hp' hrun
    refine ⟨⟨p₂, hp₂, (refPrice_eq_within_slot hreach' hp' hdone hrun hslot' hp₂).1⟩, hfixed,
      fun accs₂ sidesByte c d nonce led₃ events₂ hpool hopen => ?_⟩
    obtain ⟨q, s, ref, ltv, hq, hsides, href, hltv, hmax⟩ := processOpenLoan_refLtv hopen
    rw [hpool] at hq href
    exact ⟨q, s, ltv, hq, hsides, hfixed ref href ▸ hltv, hmax⟩

/-- A swap sets the reference price, another one pumps the price, and a loan is opened at the
reference price of the first. -/
theorem reference_fixed_within_slot_lent :
    ∃ (led' led₂ led₃ : Ledger) (events₃ : List Event) (p' p₂ : Pool) (s : LoanSides) (ltv : ℕ),
      led'.HasPool sandbox Sandbox.pool p' ∧ led₂.HasPool sandbox Sandbox.pool p₂ ∧
      p₂.refPriceWad = p'.refPriceWad ∧
      processOpenLoan sandbox (Sandbox.loanAccs 5 0 63) 0 10000 5000 5 led₂ = .ok (led₃, events₃) ∧
      LoanSides.fromU8 0 = .ok s ∧ s.refLtv 5000 10000 p'.refPriceWad = .ok ltv := by
  obtain ⟨⟨led', events⟩, hi, htest⟩ := Checked.exists_of_any
    (x := processSwap sandbox (Sandbox.swapAccs []) 1000 0 true 63 [] (Sandbox.after Sandbox.lent))
    (fun o => Sandbox.isLive o.1 && decide ((Sandbox.poolState o.1).refPriceWad ≠ 0) &&
      (processSwap sandbox (Sandbox.swapAccs []) 50000 0 false 127 [] o.1).toOption.any fun o₂ =>
        decide (o₂.1.slot = (Sandbox.after Sandbox.lent).slot) &&
          (processOpenLoan sandbox (Sandbox.loanAccs 5 0 63) 0 10000 5000 5 o₂.1).isOk)
    (by decide +kernel)
  simp only [Bool.and_eq_true, decide_eq_true_eq] at htest
  obtain ⟨⟨hlive, hset⟩, hnext⟩ := htest
  obtain ⟨⟨led₂, events₂⟩, hi₂, htest₂⟩ := Checked.exists_of_any _ hnext
  simp only [Bool.and_eq_true, decide_eq_true_eq] at htest₂
  obtain ⟨hslot, hopen⟩ := htest₂
  obtain ⟨⟨led₃, events₃⟩, hi₃⟩ := Checked.exists_of_isOk hopen
  have hstep : Step sandbox led' led₂ := .instruction
    (.swap (Sandbox.swapAccs []) 50000 0 false 127 [])
    (by rintro _ ⟨⟩; exact Sandbox.swapAccs_user _) hi₂
  obtain ⟨p', hp', -, -, hfixed⟩ := reference_fixed_within_slot
    (Sandbox.after_reachable Sandbox.lent) (Sandbox.swapAccs_user _) hi
  obtain rfl := hp'.unique (Sandbox.hasPool hlive)
  obtain ⟨⟨p₂, hp₂, hprice⟩, -, hloans⟩ := hfixed hset led₂ (.single hstep) hslot
  obtain ⟨_, s, ltv, -, hsides, hltv, -⟩ := hloans _ _ _ _ _ _ _ rfl hi₃
  exact ⟨led', led₂, led₃, events₃, _, p₂, s, ltv, hp', hp₂, hprice, hi₃, hsides, hltv⟩

namespace Sandbox

/-- A pool that a large swap has left with one token of `mintB`, some time later. -/
def drained : List Act :=
  create ++ [add 1000000 1000000, swap 900000000000000000 true 0 [] [], .wait 150]

/-- The same pool once so much of `mintA` has been sent to it that its price rounds down to zero. -/
def worthless : Ledger := donated 1000000000000000000 (after drained)

theorem worthless_reachable : Reachable sandbox worthless :=
  (after_reachable drained).step (donated_step (after_reachable drained))

end Sandbox

/-- **A price that rounds down to zero does not stay**: zero stands for a reference price that is
not set, so the next swap of the slot samples again. -/
theorem zero_reference_moves_within_slot :
    ¬ ∀ (rt : Runtime) (led led' led₂ : Ledger) (accs : SwapAccounts)
      (amountIn minOut bound : ℕ) (aToB : Bool) (counts : List ℕ) (events : List Event)
      (p' p₂ : Pool), Reachable rt led → ¬ rt.IsPda accs.user →
      processSwap rt accs amountIn minOut aToB bound counts led = .ok (led', events) →
      led'.HasPool rt accs.pool p' → Relation.ReflTransGen (Step rt) led' led₂ →
      led₂.slot = led.slot → led₂.HasPool rt accs.pool p₂ → p₂.refPriceWad = p'.refPriceWad := by
  intro hclaim
  obtain ⟨⟨led', events⟩, hi, htest⟩ := Checked.exists_of_any
    (x := processSwap sandbox (Sandbox.swapAccs []) 2 0 false 127 [] Sandbox.worthless)
    (fun o => Sandbox.isLive o.1 &&
      (processSwap sandbox (Sandbox.swapAccs []) 2 0 false 127 [] o.1).toOption.any fun o₂ =>
        Sandbox.isLive o₂.1 && decide (o₂.1.slot = Sandbox.worthless.slot) &&
          decide ((Sandbox.poolState o₂.1).refPriceWad ≠ (Sandbox.poolState o.1).refPriceWad))
    (by decide +kernel)
  rw [Bool.and_eq_true] at htest
  obtain ⟨hlive, hnext⟩ := htest
  obtain ⟨⟨led₂, events₂⟩, hi₂, htest₂⟩ := Checked.exists_of_any _ hnext
  simp only [Bool.and_eq_true, decide_eq_true_eq] at htest₂
  obtain ⟨⟨hlive₂, hslot⟩, hne⟩ := htest₂
  have hstep : Step sandbox led' led₂ := .instruction
    (.swap (Sandbox.swapAccs []) 2 0 false 127 []) (by rintro _ ⟨⟩; exact Sandbox.swapAccs_user _)
    hi₂
  exact hne (hclaim sandbox _ led' led₂ (Sandbox.swapAccs []) 2 0 127 false [] events _ _
    Sandbox.worthless_reachable (Sandbox.swapAccs_user _) hi (Sandbox.hasPool hlive)
    (.single hstep) hslot (Sandbox.hasPool hlive₂))

/-! ### Over several slots -/

/-- A step in which every price the reference of the pool `P` meets is `ok`: whenever a swap samples
it or a loan is valued at it. -/
abbrev Watched (rt : Runtime) (P : Pubkey) (ok : ℕ → Prop) : Ledger → Ledger → Prop :=
  Guarded rt fun led i => i.Prices P → ∀ spot, Observes rt P led spot → ok spot

/-- The reference prices of a state: the one that is stored, and the one a loan is valued at, if the
price it projects is `ok`. -/
inductive Shows (rt : Runtime) (P : Pubkey) (ok : ℕ → Prop) (led : Ledger) (ref : ℕ) : Prop where
  | stored {p : Pool} : led.HasPool rt P p → p.refPriceWad = ref → Shows rt P ok led ref
  | projected : (∀ spot, Observes rt P led spot → ok spot) → Evaluates rt P led ref →
      Shows rt P ok led ref

section Run

variable {led₀ : Ledger} {p₀ : Pool} {ok : ℕ → Prop} {I : ℕ → ℕ → Prop} {n ref : ℕ}

/-- **Along a run the stored reference price is a moving average** of the prices it has sampled. -/
theorem follows_of_run (hI : MovingAverage.Follows refPriceWindowSlots ok I)
    (h : Reachable rt led₀) (hp₀ : led₀.HasPool rt P p₀) (hset : p₀.refPriceWad ≠ 0)
    (hstart : I 0 p₀.refPriceWad) (hrun : Relation.ReflTransGen (Watched rt P ok) led₀ led)
    (hwindow : led.slot < p₀.refPriceSlot + refPriceWindowSlots) (hp : led.HasPool rt P p) :
    p.refPriceWad ≠ 0 ∧ p₀.refPriceSlot ≤ p.refPriceSlot ∧
      I (p.refPriceSlot - p₀.refPriceSlot) p.refPriceWad := by
  induction hrun generalizing p with
  | refl =>
    obtain rfl := hp₀.unique hp
    exact ⟨hset, le_refl _, by rwa [Nat.sub_self]⟩
  | @tail mid last hrun hstep ih =>
    have hreach := h.run (Guarded.steps hrun)
    have hle := hstep.step.slot_le hreach.sound
    obtain ⟨q, hq⟩ := h.hasPool hp₀ (Guarded.steps hrun)
    obtain ⟨hset', hslot', hq'⟩ := ih (by omega) hq
    have hdated : q.refPriceSlot ≤ mid.slot := hreach.dated hq hset'
    rcases hstep.reference hreach.sound hq hp with hsame | ⟨i, hA, hswap, spot, hs⟩
    · have hprice : p.refPriceWad = q.refPriceWad := hsame.price
      have hdate : p.refPriceSlot = q.refPriceSlot := hsame.slot
      rw [hprice, hdate]
      exact ⟨hset', hslot', hq'⟩
    · have hok := hA hswap.prices spot (hreach.sound.observes hq hs)
      have hdate : p.refPriceSlot = mid.slot := hs.slot
      obtain ⟨hne, hfollows⟩ := Pool.follows_of_refPriceAt hI hset' hslot' hdated (by omega) hq'
        (fun _ => hok) hs.advanced
      rw [hdate]
      exact ⟨hne, hslot'.trans hdated, hfollows⟩

/-- **So is every reference price a state shows.** -/
theorem follows_of_shows (hI : MovingAverage.Follows refPriceWindowSlots ok I)
    (h : Reachable rt led₀) (hp₀ : led₀.HasPool rt P p₀) (hset : p₀.refPriceWad ≠ 0)
    (hn : n < refPriceWindowSlots) (hstart : I 0 p₀.refPriceWad)
    (hrun : Relation.ReflTransGen (Watched rt P ok) led₀ led)
    (hslot : led.slot ≤ p₀.refPriceSlot + n) (hshows : Shows rt P ok led ref) :
    ∃ t ≤ n, I t ref := by
  have hwindow : led.slot < p₀.refPriceSlot + refPriceWindowSlots := by omega
  have hdated : ∀ {q}, led.HasPool rt P q → q.refPriceWad ≠ 0 → q.refPriceSlot ≤ led.slot :=
    (h.run (Guarded.steps hrun)).dated
  cases hshows with
  | stored hp href =>
    obtain ⟨hne, hle, hfollows⟩ := follows_of_run hI h hp₀ hset hstart hrun hwindow hp
    have hdate := hdated hp hne
    exact ⟨_, by omega, href ▸ hfollows⟩
  | projected hok heval =>
    obtain ⟨p, a, b, spot, hp, hacc, hspot, href⟩ := heval
    obtain ⟨hne, hle, hfollows⟩ := follows_of_run hI h hp₀ hset hstart hrun hwindow hp
    obtain ⟨-, hfollows'⟩ := Pool.follows_of_refPriceAt hI hne hle (hdated hp hne) hwindow hfollows
      (fun hsamples => hok spot ⟨p, a, b, hp, hsamples, hacc, hspot⟩) href
    exact ⟨_, by omega, hfollows'⟩

/-- **Over several slots the reference price moves slowly.** Take a reference price that is set, and
any run that stays fewer than 150 slots from its sample. If no price it observes is above `M`, no
reference price in the run has risen by more than `n / 150` of the way to `M`. If none is below `m`,
none has fallen by more than that of the way to `m`. And all stay between the lowest and the highest
price observed. -/
theorem reference_moves_slowly (h : Reachable rt led₀) (hp₀ : led₀.HasPool rt P p₀)
    (hset : 0 < p₀.refPriceWad) (hn : n < 150) :
    (∀ M led ref, p₀.refPriceWad ≤ M → Relation.ReflTransGen (Watched rt P (· ≤ M)) led₀ led →
      led.slot ≤ p₀.refPriceSlot + n → Shows rt P (· ≤ M) led ref →
        (ref - p₀.refPriceWad) * 150 ≤ (M - p₀.refPriceWad) * n) ∧
    (∀ m led ref, m ≤ p₀.refPriceWad → Relation.ReflTransGen (Watched rt P (m ≤ ·)) led₀ led →
      led.slot ≤ p₀.refPriceSlot + n → Shows rt P (m ≤ ·) led ref →
        (p₀.refPriceWad - ref) * 150 ≤ (p₀.refPriceWad - m) * n) ∧
    ∀ m M led ref, m ≤ p₀.refPriceWad → p₀.refPriceWad ≤ M →
      Relation.ReflTransGen (Watched rt P fun spot => m ≤ spot ∧ spot ≤ M) led₀ led →
      led.slot ≤ p₀.refPriceSlot + n → Shows rt P (fun spot => m ≤ spot ∧ spot ≤ M) led ref →
        m ≤ ref ∧ ref ≤ M := by
  have hwindow : 0 < refPriceWindowSlots := by decide
  have hset := hset.ne'
  refine ⟨fun M led ref hM hrun hslot hshows => ?_, fun m led ref hm hrun hslot hshows => ?_,
    fun m M led ref hm hM hrun hslot hshows => ?_⟩
  · obtain ⟨t, ht, hbelow⟩ := follows_of_shows (MovingAverage.follows_below hwindow hM) h hp₀ hset
      hn (.refl hM) hrun hslot hshows
    have hmoved := (hbelow.mono ht).moved
    rw [refPriceWindowSlots] at hmoved
    omega
  · obtain ⟨t, ht, habove⟩ := follows_of_shows (MovingAverage.follows_above hwindow hm) h hp₀ hset
      hn (.refl hm) hrun hslot hshows
    have hmoved := (habove.mono ht).moved
    rw [refPriceWindowSlots] at hmoved
    omega
  · obtain ⟨t, -, hbetween⟩ := follows_of_shows
      (MovingAverage.Follows.and (MovingAverage.follows_above hwindow hm)
        (MovingAverage.follows_below hwindow hM)) h hp₀ hset hn ⟨.refl hm, .refl hM⟩ hrun hslot
      hshows
    exact ⟨hbetween.1.bound_le, hbetween.2.le_bound⟩

end Run

/-- A pool whose reference price is set. -/
def Sandbox.traded : List Act := create ++ [add 1000000 1000000, swap 1000 true 0 [] []]

/-- Five slots after a swap at price 1, a loan is valued 5/150 of the way down to the price
since. -/
theorem reference_moves_slowly_traded : ∃ ref,
    Shows sandbox Sandbox.pool (998_005_994_005_994_005 ≤ ·)
      (Sandbox.waited 5 (Sandbox.after Sandbox.traded)) ref ∧
    ref < wad ∧ (wad - ref) * 150 ≤ (wad - 998_005_994_005_994_005) * 5 := by
  have hreach := Sandbox.after_reachable Sandbox.traded
  have hlive := @Sandbox.hasPool (Sandbox.after Sandbox.traded) (by decide +kernel)
  have hprice : (Sandbox.poolState (Sandbox.after Sandbox.traded)).refPriceWad = wad := by
    decide +kernel
  have hslot : (Sandbox.waited 5 (Sandbox.after Sandbox.traded)).slot ≤
      (Sandbox.poolState (Sandbox.after Sandbox.traded)).refPriceSlot + 5 := by decide +kernel
  have hacc : (Sandbox.waited 5 (Sandbox.after Sandbox.traded)).accounted
      (Sandbox.poolState (Sandbox.after Sandbox.traded)) = .ok (1_001_000, 999_004) :=
    @Sandbox.accounted_eq (Sandbox.waited 5 (Sandbox.after Sandbox.traded)) _ _ (by decide +kernel)
  have hspot : priceBPerAWad 1_001_000 999_004 = .ok 998_005_994_005_994_005 := by decide +kernel
  have hshows : Shows sandbox Sandbox.pool (998_005_994_005_994_005 ≤ ·)
      (Sandbox.waited 5 (Sandbox.after Sandbox.traded)) 999_933_533_133_533_134 := by
    refine .projected (fun spot hobs => ?_) ⟨_, _, _, _, Sandbox.waited_hasPool.mpr hlive, hacc,
      hspot, by decide +kernel⟩
    obtain ⟨p, a, b, hp, -, hacc', hspot'⟩ := hobs
    obtain rfl := (Sandbox.waited_hasPool.mp hp).unique hlive
    rw [hacc] at hacc'
    obtain ⟨rfl, rfl⟩ := Prod.mk.inj (Except.ok.inj hacc')
    exact (Except.ok.inj (hspot.symm.trans hspot')).le
  obtain ⟨-, hfall, -⟩ := reference_moves_slowly hreach hlive (by rw [hprice]; exact wad_pos)
    (show 5 < 150 by decide)
  have hbound := hfall _ _ _ (by rw [hprice]; decide)
    (.single (.outside (Sandbox.waited_outside hreach))) hslot hshows
  rw [hprice] at hbound
  exact ⟨_, hshows, by decide, hbound⟩

end ChiefLiquidity
