import ChiefLiquidity.Market.Order
import ChiefLiquidity.Properties.BandIndex

/-!
# Liquidations

A swap leaves no loan behind that its price liquidates, and makes no loan of the other direction
liquidatable. Which loans it liquidates on the way is decided one by one, each at the price the swap
would settle at just then. That price can come back, when the swap is large against the reserve it
is paid into, so a loan may be gone although it would have survived the final price, and the order
of the context decides which. Swaps that are gentle to the loans they liquidate do neither.

## A price that comes back

The loop liquidates a loan if it is triggered at the price the swap would settle at given what has
been liquidated so far. Liquidating it takes debt from the output side, which pushes the price on,
and adds collateral to the input side. If the swap is small against that side, this pushes the price
on as well; if it is large, the price comes back, because a deeper reserve makes the same swap move
it less.

## What is asked

The results on gentle swaps ask for two inequalities for each liquidated loan: its debt is not dust
against the reserves, and the swap is not too large against them. Nothing is asked of loans that the
swap leaves alone, since they enter no sum. Where the inequalities fail, the two closed results show
what can go wrong: the order of the context decides, and a loan goes that the final price would have
spared.

## Main results

* `swap_leaves_none_liquidatable` — completeness
* `gentle_swap_has_one_outcome`, `context_order_matters` — who is liquidated
* `liquidated_at_settled_price`, `liquidated_beyond_settled_price` — at which price
-/

namespace ChiefLiquidity

open Ledger Market

variable {rt : Runtime} {led led' led₁ led₂ : Ledger} {P k : Pubkey} {p p' : Pool}
  {accs accs₁ accs₂ : SwapAccounts} {amountIn minOut min₁ min₂ bandBoundary bound₁ bound₂ : ℕ}
  {aToB : Bool} {counts counts₁ counts₂ : List ℕ} {events events₁ events₂ : List Event}

namespace Sandbox

/-- A large loan and a small one of the same direction, and one of the other. -/
def tangled : List Act :=
  create ++ [add 1000000 1000000, lend 0 0 1000000 60000 60, lend 1 1 200000 100000 65,
    .wait 10000, lend 2 0 500000 50000 61]

/-- Two loans of one direction, in two bands. -/
def pair : List Act :=
  create ++ [add 1000000 1000000, lend 0 0 10000 6000 64, lend 1 0 10000 5000 63]

/-- The liquidation context of the two bands. -/
def pairTail : List Pubkey := [band 0 64, loan 0, band 0 63, loan 1]

/-- A loan with so much collateral that a swap which seizes it settles before its trigger. -/
def overshot : List Act := create ++ [add 1000000 1000000, lend 0 0 1000000 60000 60]

end Sandbox

/-! ### Completeness -/

/-- **A swap leaves no loan behind.** At the reserves after it no open loan of its direction is
liquidatable, supplied or not, and those of the other direction that are were so before it. -/
theorem swap_leaves_none_liquidatable (h : Reachable rt led) (hsig : ¬ rt.IsPda accs.user)
    (hi : processSwap rt accs amountIn minOut aToB bandBoundary counts led = .ok (led', events)) :
    ∃ p p' a b a' b', led.HasPool rt accs.pool p ∧ led'.HasPool rt accs.pool p' ∧
      led.accounted p = .ok (a, b) ∧ led'.accounted p' = .ok (a', b') ∧ 0 < a ∧ 0 < a' ∧
      (∀ k l, led'.openLoan rt accs.pool k = some l →
        l.triggerDirection = (swapDirection aToB).toU8 →
          isLiquidatable l.triggerPriceWad (swapDirection aToB) (spotWad a' b') = false) ∧
      ∀ k l, led'.openLoan rt accs.pool k = some l →
        l.triggerDirection = (swapDirection !aToB).toU8 →
          isLiquidatable l.triggerPriceWad (swapDirection !aToB) (spotWad a' b') = true →
            isLiquidatable l.triggerPriceWad (swapDirection !aToB) (spotWad a b) = true := by
  have hsound := h.sound
  have hsound' := (h.swap hsig hi).sound
  obtain ⟨p, p', f, ks, hswap, rfl, -, -, -, -⟩ :=
    processSwap_refines hsound.filed hsig (fun p => hsound.valid _ p) hi
  obtain ⟨S, hv⟩ := hsound.valid _ p hswap.step.before
  obtain ⟨q, q₁, supplied, htrade⟩ := hswap.trade
  refine ⟨p, p', _, _, _, _, hswap.step.before, hswap.step.after,
    hsound.accounted hswap.step.before, hsound'.accounted hswap.step.after,
    htrade.reserve_pos .a, htrade.live hv .a, fun k l hl hdir => ?_, fun k l _ _ hliq => ?_⟩
  · exact htrade.not_liquidatable hv hl hdir
  · exact htrade.was_liquidatable hv hliq

theorem swap_leaves_none_liquidatable_lent :
    ∃ (led' : Ledger) (p' : Pool) (a' b' : ℕ),
      led'.HasPool sandbox Sandbox.pool p' ∧ led'.accounted p' = .ok (a', b') ∧
      ∀ k l, led'.openLoan sandbox Sandbox.pool k = some l →
        l.triggerDirection = TriggerDirection.onFall.toU8 →
          isLiquidatable l.triggerPriceWad .onFall (spotWad a' b') = false := by
  obtain ⟨⟨led', events⟩, hi⟩ := Checked.exists_of_isOk (x := processSwap sandbox
    (Sandbox.swapAccs [Sandbox.band 0 61, Sandbox.loan 0]) 3000000 0 true 60 [1]
      (Sandbox.after Sandbox.lent)) (by decide +kernel)
  obtain ⟨p, p', a, b, a', b', -, hp', -, hacc, -, -, hnone, -⟩ := swap_leaves_none_liquidatable
    (Sandbox.after_reachable Sandbox.lent) (Sandbox.swapAccs_user _) hi
  exact ⟨led', p', a', b', hp', hacc, hnone⟩

/-! ### Who is liquidated -/

/-- The tombstones a swap leaves are those of the loans it liquidates. -/
theorem Swapped.liquidates_iff {f : SwapFigures} {ks : List Pubkey}
    (h : Swapped rt accs f ks p p' led led') :
    Liquidates rt accs.pool led led' k ↔ k ∈ ks := by
  refine ⟨?_, h.liquidates⟩
  rintro ⟨⟨l, hl⟩, l', hk', hstatus⟩
  by_contra hk
  obtain ⟨led₁, hliq, hrest⟩ := h.records
  obtain ⟨hloan, -, hopen, -⟩ := openLoan_eq_some.mp hl
  have hk₁ : led₁.accts k = ⟨rt.programId, .loan l⟩ := by
    rw [hliq.accts, hloan]
    exact if_neg (fun hmem => hk (List.mem_toFinset.mp hmem))
  have hne : k ≠ accs.pool := by
    rintro rfl
    rw [h.step.before.1] at hloan
    cases hloan
  rw [hrest k hne (by rw [hk₁]; trivial), hk₁] at hk'
  cases hk'
  simp [Loan.isOpen, hstatus, Loan.statusLiquidated, Loan.statusOpen] at hopen

/-- Swaps that liquidate the same loans leave the same records. -/
theorem Swapped.records_eq {f₁ f₂ : SwapFigures} {ks₁ ks₂ : List Pubkey} {p₁ p₂ : Pool}
    (h₁ : Swapped rt accs₁ f₁ ks₁ p p₁ led led₁) (h₂ : Swapped rt accs₂ f₂ ks₂ p p₂ led led₂)
    (hP : accs₂.pool = accs₁.pool) (hks : ks₁.toFinset = ks₂.toFinset) (hpool : p₁ = p₂)
    (hplain : (led.accts k).data.Plain) : led₁.accts k = led₂.accts k := by
  obtain ⟨led₁', hliq₁, hrest₁⟩ := h₁.records
  obtain ⟨led₂', hliq₂, hrest₂⟩ := h₂.records
  rw [hP] at hliq₂ hrest₂
  have heq : led₁'.accts k = led₂'.accts k := by rw [hliq₁.accts, hliq₂.accts, hks]
  have hplain₁ : (led₁'.accts k).data.Plain := by
    rw [hliq₁.accts]
    exact Account.liquidate_plain hplain
  by_cases hk : k = accs₁.pool
  · subst hk
    rw [h₁.step.after.1, hpool, ← hP, h₂.step.after.1]
  · rw [hrest₁ k hk hplain₁, hrest₂ k hk (heq ▸ hplain₁), heq]

/-- **Gentle swaps have one outcome.** Two calls from the same state that swap the same amount in
the same direction liquidate the same loans, pay the same output and leave the same records,
whatever boundary, bands, order and user they come with, if the amount is not too large for the
loans that one of them liquidates. -/
theorem gentle_swap_has_one_outcome (h : Reachable rt led) (hp : led.HasPool rt accs₁.pool p)
    (hP : accs₂.pool = accs₁.pool) (hsig₁ : ¬ rt.IsPda accs₁.user) (hsig₂ : ¬ rt.IsPda accs₂.user)
    (h₁ : processSwap rt accs₁ amountIn min₁ aToB bound₁ counts₁ led = .ok (led₁, events₁))
    (h₂ : processSwap rt accs₂ amountIn min₂ aToB bound₂ counts₂ led = .ok (led₂, events₂))
    (hgentle : (led.market rt accs₁.pool p).Gentle aToB amountIn
        {k | Liquidates rt accs₁.pool led led₁ k} ∨
      (led.market rt accs₁.pool p).Gentle aToB amountIn {k | Liquidates rt accs₁.pool led led₂ k}) :
    (∀ k, Liquidates rt accs₁.pool led led₁ k ↔ Liquidates rt accs₁.pool led led₂ k) ∧
      (∃ log₁ log₂ amountOut n fee,
        events₁ = log₁ ++ [.swapExecuted accs₁.pool accs₁.user aToB amountIn amountOut n fee] ∧
        events₂ = log₂ ++ [.swapExecuted accs₁.pool accs₂.user aToB amountIn amountOut n fee]) ∧
      ∀ k, (led.accts k).data.Plain → led₁.accts k = led₂.accts k := by
  have hsound := h.sound
  obtain ⟨p₁, p₁', f₁, ks₁, hswap₁, rfl, rfl, -, -, log₁, hlog₁⟩ :=
    processSwap_refines hsound.filed hsig₁ (fun p => hsound.valid _ p) h₁
  obtain ⟨p₂, p₂', f₂, ks₂, hswap₂, haToB, hamount, -, -, log₂, hlog₂⟩ :=
    processSwap_refines hsound.filed hsig₂ (fun p => hsound.valid _ p) h₂
  obtain rfl := hswap₁.step.before.unique hp
  obtain rfl := hswap₂.step.before.unique (hP ▸ hp)
  obtain ⟨S, hv⟩ := hsound.valid _ _ hp
  obtain ⟨q₁, r₁, supplied₁, htrade₁⟩ := hswap₁.trade
  obtain ⟨q₂, r₂, supplied₂, htrade₂⟩ := hswap₂.trade
  rw [hP] at htrade₂ hlog₂
  have hliq₂ : ∀ k, Liquidates rt accs₁.pool led led₂ k ↔ k ∈ ks₂ := fun k =>
    hP ▸ hswap₂.liquidates_iff
  have hks : ks₁.toFinset = ks₂.toFinset := by
    rcases hgentle with hgentle | hgentle
    · exact htrade₁.liquidated_eq hv htrade₂ haToB.symm hamount.symm
        (hgentle.mono fun k hk => hswap₁.liquidates_iff.mpr hk)
    · rw [← haToB, ← hamount] at hgentle
      exact (htrade₂.liquidated_eq hv htrade₁ haToB hamount
        (hgentle.mono fun k hk => (hliq₂ k).mpr hk)).symm
  obtain ⟨-, -, hportion, -⟩ := htrade₁.push_eq htrade₂ haToB.symm hamount.symm
  obtain ⟨hout, hpool, -, -⟩ := htrade₁.outcome_eq htrade₂ haToB.symm hamount.symm hks
  have hlength : ks₁.length = ks₂.length := by
    rw [← List.toFinset_card_of_nodup htrade₁.cascade.nodup,
      ← List.toFinset_card_of_nodup htrade₂.cascade.nodup, hks]
  refine ⟨fun k => ?_, ⟨log₁, log₂, f₁.amountOut, ks₁.length, f₁.portion, hlog₁, ?_⟩,
    fun k hplain => hswap₁.records_eq hswap₂ hP hks hpool hplain⟩
  · rw [hswap₁.liquidates_iff, hliq₂, ← List.mem_toFinset, hks, List.mem_toFinset]
  · rw [hlog₂, hout, hlength, hportion]

/-- Two contexts in opposite order, and both liquidate the two loans. -/
theorem gentle_swap_has_one_outcome_pair :
    ∃ led₁ led₂ : Ledger,
      Liquidates sandbox Sandbox.pool (Sandbox.after Sandbox.pair) led₁ (Sandbox.loan 0) ∧
      (∀ k, Liquidates sandbox Sandbox.pool (Sandbox.after Sandbox.pair) led₁ k ↔
        Liquidates sandbox Sandbox.pool (Sandbox.after Sandbox.pair) led₂ k) ∧
      ∀ k, ((Sandbox.after Sandbox.pair).accts k).data.Plain → led₁.accts k = led₂.accts k := by
  obtain ⟨⟨led₁, events₁⟩, h₁, htomb⟩ := Checked.exists_of_any (x := processSwap sandbox
    (Sandbox.swapAccs Sandbox.pairTail) 400000 0 true 0 [1, 1] (Sandbox.after Sandbox.pair))
    (fun o => Sandbox.isTombstone o.1 (Sandbox.loan 0)) (by decide +kernel)
  obtain ⟨⟨led₂, events₂⟩, h₂⟩ := Checked.exists_of_isOk (x := processSwap sandbox
    (Sandbox.swapAccs [Sandbox.band 0 63, Sandbox.loan 1, Sandbox.band 0 64, Sandbox.loan 0])
      400000 0 true 0 [1, 1] (Sandbox.after Sandbox.pair)) (by decide +kernel)
  have hp : (Sandbox.after Sandbox.pair).HasPool sandbox
    (Sandbox.swapAccs Sandbox.pairTail).pool _ := Sandbox.hasPool (by decide +kernel)
  obtain ⟨hliq, -, hplain⟩ := gentle_swap_has_one_outcome (Sandbox.after_reachable Sandbox.pair) hp
    (Sandbox.swapAccs_pool _ _) (Sandbox.swapAccs_user _) (Sandbox.swapAccs_user _) h₁ h₂
    (.inl (gentle_of_half (by decide +kernel)))
  exact ⟨led₁, led₂, Sandbox.liquidates (by decide +kernel) htomb, hliq, hplain⟩

/-- **A large swap is not gentle, and the order of its context matters.** Both calls are accepted
from one state. With the large loan's band first, both loans are triggered in turn. With the small
loan's band first, seizing its collateral brings the price back before the large loan is
reached. -/
theorem context_order_matters :
    ¬ ∀ (rt : Runtime) (led led₁ led₂ : Ledger) (accs₁ accs₂ : SwapAccounts)
      (amountIn min₁ min₂ bound₁ bound₂ : ℕ) (aToB : Bool) (counts₁ counts₂ : List ℕ)
      (events₁ events₂ : List Event), Reachable rt led → accs₂.pool = accs₁.pool →
      ¬ rt.IsPda accs₁.user → ¬ rt.IsPda accs₂.user →
      processSwap rt accs₁ amountIn min₁ aToB bound₁ counts₁ led = .ok (led₁, events₁) →
      processSwap rt accs₂ amountIn min₂ aToB bound₂ counts₂ led = .ok (led₂, events₂) →
      ∀ k, Liquidates rt accs₁.pool led led₁ k ↔ Liquidates rt accs₁.pool led led₂ k := by
  intro hclaim
  obtain ⟨⟨led₁, events₁⟩, h₁, htomb⟩ := Checked.exists_of_any
    (x := processSwap sandbox
      (Sandbox.swapAccs [Sandbox.band 0 60, Sandbox.loan 0, Sandbox.band 0 61, Sandbox.loan 2])
      3000000 0 true 60 [1, 1] (Sandbox.after Sandbox.tangled))
    (fun o => Sandbox.isTombstone o.1 (Sandbox.loan 0)) (by decide +kernel)
  obtain ⟨⟨led₂, events₂⟩, h₂, hopen⟩ := Checked.exists_of_any
    (x := processSwap sandbox
      (Sandbox.swapAccs [Sandbox.band 0 61, Sandbox.loan 2, Sandbox.band 0 60, Sandbox.loan 0])
      3000000 0 true 60 [1, 1] (Sandbox.after Sandbox.tangled))
    (fun o => Sandbox.isOpen o.1 (Sandbox.loan 0)) (by decide +kernel)
  have hiff := hclaim sandbox _ led₁ led₂
    (Sandbox.swapAccs [Sandbox.band 0 60, Sandbox.loan 0, Sandbox.band 0 61, Sandbox.loan 2])
    (Sandbox.swapAccs [Sandbox.band 0 61, Sandbox.loan 2, Sandbox.band 0 60, Sandbox.loan 0])
    3000000 0 0 60 60 true [1, 1] [1, 1] events₁ events₂
    (Sandbox.after_reachable Sandbox.tangled) (Sandbox.swapAccs_pool _ _)
    (Sandbox.swapAccs_user _) (Sandbox.swapAccs_user _) h₁ h₂ (Sandbox.loan 0)
  refine Sandbox.not_liquidates hopen (hiff.mp (Sandbox.liquidates ?_ htomb))
  decide +kernel

/-! ### At which price -/

/-- **A swap liquidates a loan at the price it would settle at just then**, when some of its other
liquidations have been made. If it is gentle to the loans it liquidates, and its output leaves the
vault, the loan is liquidatable at the price it settles at in the end as well. -/
theorem liquidated_at_settled_price (h : Reachable rt led) (hsig : ¬ rt.IsPda accs.user)
    (hi : processSwap rt accs amountIn minOut aToB bandBoundary counts led = .ok (led', events)) :
    ∃ p p' a' b' portion, led.HasPool rt accs.pool p ∧ led'.HasPool rt accs.pool p' ∧
      led'.accounted p' = .ok (a', b') ∧ p.protocolPortion amountIn = .ok portion ∧
      ∀ k, Liquidates rt accs.pool led led' k → ∃ l, led.openLoan rt accs.pool k = some l ∧
        l.triggerDirection = (swapDirection aToB).toU8 ∧
        (∃ R : Finset Pubkey, (∀ j ∈ R, j ≠ k ∧ Liquidates rt accs.pool led led' j) ∧
          isLiquidatable l.triggerPriceWad (swapDirection aToB)
            ((led.market rt accs.pool p).provisionalPrice
              ⟨aToB, inAfterFee amountIn p.swapFeeBps, amountIn - portion⟩ R) = true) ∧
        ((led.market rt accs.pool p).Gentle aToB amountIn {j | Liquidates rt accs.pool led led' j} →
          accs.userToken (outSide aToB) ≠ accs.vault (outSide aToB) →
          isLiquidatable l.triggerPriceWad (swapDirection aToB) (spotWad a' b') = true) := by
  have hsound := h.sound
  have hsound' := (h.swap hsig hi).sound
  obtain ⟨p, p', f, ks, hswap, rfl, rfl, -, hpaid, -⟩ :=
    processSwap_refines hsound.filed hsig (fun p => hsound.valid _ p) hi
  obtain ⟨S, hv⟩ := hsound.valid _ p hswap.step.before
  obtain ⟨q, q₁, supplied, htrade⟩ := hswap.trade
  obtain ⟨hportion, hfee⟩ := htrade.portion_eq
  refine ⟨p, p', _, _, f.portion, hswap.step.before, hswap.step.after,
    hsound'.accounted hswap.step.after, hportion, fun k hk => ?_⟩
  have hmem := hswap.liquidates_iff.mp hk
  obtain ⟨R, hR, hkR, l, hl, hdir, hliq⟩ := htrade.cascade.fires_before hmem
  refine ⟨l, hl, hdir, ⟨R, fun j hj => ⟨fun hjk => hkR (hjk ▸ hj), ?_⟩, hfee ▸ hliq⟩,
    fun hgentle hne => ?_⟩
  · exact hswap.liquidates_iff.mpr (List.mem_toFinset.mp (hR hj))
  · have hsized := htrade.sized hv (hgentle.mono fun j hj => hswap.liquidates_iff.mpr hj)
    obtain ⟨l', hl', -, hliq'⟩ := htrade.triggered_of_mem hv hsized hmem
    obtain rfl := Option.some.inj (hl.symm.trans hl')
    have hspot := htrade.spot_eq_price hv (hpaid.trans (accs.paidOut_of_ne hne))
    exact (congrArg _ hspot).trans hliq'

theorem liquidated_at_settled_price_pair :
    ∃ (led' : Ledger) (l : Loan) (p' : Pool) (a' b' : ℕ),
      (Sandbox.after Sandbox.pair).openLoan sandbox Sandbox.pool (Sandbox.loan 0) = some l ∧
      Liquidates sandbox Sandbox.pool (Sandbox.after Sandbox.pair) led' (Sandbox.loan 0) ∧
      led'.accounted p' = .ok (a', b') ∧
      isLiquidatable l.triggerPriceWad .onFall (spotWad a' b') = true := by
  obtain ⟨⟨led', events⟩, hi, htomb⟩ := Checked.exists_of_any (x := processSwap sandbox
    (Sandbox.swapAccs Sandbox.pairTail) 400000 0 true 0 [1, 1] (Sandbox.after Sandbox.pair))
    (fun o => Sandbox.isTombstone o.1 (Sandbox.loan 0)) (by decide +kernel)
  have hliq : Liquidates sandbox Sandbox.pool (Sandbox.after Sandbox.pair) led' (Sandbox.loan 0) :=
    Sandbox.liquidates (by decide +kernel) htomb
  have hp₀ : (Sandbox.after Sandbox.pair).HasPool sandbox
    (Sandbox.swapAccs Sandbox.pairTail).pool _ := Sandbox.hasPool (by decide +kernel)
  obtain ⟨p, p', a', b', _, hp, -, hacc, -, hall⟩ := liquidated_at_settled_price
    (Sandbox.after_reachable Sandbox.pair) (Sandbox.swapAccs_user _) hi
  obtain rfl := hp.unique hp₀
  obtain ⟨l, hl, -, -, hsettled⟩ := hall _ hliq
  exact ⟨led', l, p', a', b', hl, hliq, hacc,
    hsettled (gentle_of_half (by decide +kernel)) (by decide +kernel)⟩

/-- **A large swap liquidates a loan its final price would not have.** The collateral it seizes
brings the price back above the trigger. -/
theorem liquidated_beyond_settled_price :
    ¬ ∀ (rt : Runtime) (led led' : Ledger) (accs : SwapAccounts) (amountIn minOut bound : ℕ)
      (aToB : Bool) (counts : List ℕ) (events : List Event) (p' : Pool) (a' b' k : ℕ) (l : Loan),
      Reachable rt led → ¬ rt.IsPda accs.user →
      processSwap rt accs amountIn minOut aToB bound counts led = .ok (led', events) →
      led'.HasPool rt accs.pool p' → led'.accounted p' = .ok (a', b') →
      led.openLoan rt accs.pool k = some l → Liquidates rt accs.pool led led' k →
      isLiquidatable l.triggerPriceWad (swapDirection aToB) (spotWad a' b') = true := by
  intro hclaim
  obtain ⟨⟨led', events⟩, hi, htest⟩ := Checked.exists_of_any
    (x := processSwap sandbox (Sandbox.swapAccs [Sandbox.band 0 60, Sandbox.loan 0]) 3000000 0 true
      60 [1] (Sandbox.after Sandbox.overshot))
    (fun o => Sandbox.isLive o.1 && Sandbox.isTombstone o.1 (Sandbox.loan 0) &&
      Sandbox.survives (Sandbox.after Sandbox.overshot) (Sandbox.loan 0) .onFall o.1)
    (by decide +kernel)
  simp only [Bool.and_eq_true] at htest
  obtain ⟨⟨hlive, htomb⟩, hsurvives⟩ := htest
  have hliq : Liquidates sandbox Sandbox.pool (Sandbox.after Sandbox.overshot) led'
    (Sandbox.loan 0) := Sandbox.liquidates (by decide +kernel) htomb
  obtain ⟨l, a', b', hl, hacc, hsafe⟩ := Sandbox.survives_iff.mp hsurvives
  have hbad := hclaim sandbox _ led' (Sandbox.swapAccs [Sandbox.band 0 60, Sandbox.loan 0])
    3000000 0 60 true [1] events _ a' b' _ l (Sandbox.after_reachable Sandbox.overshot)
    (Sandbox.swapAccs_user _) hi (Sandbox.hasPool hlive) hacc hl hliq
  exact Bool.false_ne_true (hsafe.symm.trans hbad)

end ChiefLiquidity
