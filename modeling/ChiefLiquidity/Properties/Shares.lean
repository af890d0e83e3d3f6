import ChiefLiquidity.Properties.Liquidation
import ChiefLiquidity.Refinement.Lifecycle

/-!
# What the LPs own

Neither the trades of others nor their deposits and withdrawals cost an LP anything: along a run
that liquidates nothing the product of the reserves per squared LP token never falls, and a swap
never lowers the value of the reserves at the price before it, its liquidations included.

## The measure

Per LP token the pool holds reserves of two kinds, and which of them is worth more is a question of
price. The product of the reserves over the square of the supply needs no price. It is compared by
multiplying out, without a division: the comparison is exact, roundings and all.

## Calm runs

A liquidation is a trade at the trigger of the loan, and can lower the product. So runs are calm: no
step liquidates, and no step burns the last LP tokens. Tokens sent to the vaults, and LP tokens
burned past the program, only raise the measure.

## Main definitions

* `Calm` — a step that liquidates nothing and leaves LP tokens

## Main results

* `swap_keeps_value` — a swap at the price before it
* `shares_never_diluted` — calm runs
-/

namespace ChiefLiquidity

open Ledger Market

variable {rt : Runtime} {led led' : Ledger} {P : Pubkey} {p : Pool} {accs : SwapAccounts}
  {amountIn minOut bandBoundary a b : ℕ} {aToB : Bool} {counts : List ℕ} {events : List Event}

/-! ### The value at the price before a swap -/

/-- **A swap never lowers the value of the reserves** at the price before it, if no loan of its
direction is liquidatable there. -/
theorem swap_keeps_value (h : Reachable rt led) (hsig : ¬ rt.IsPda accs.user)
    (hp : led.HasPool rt accs.pool p) (hacc : led.accounted p = .ok (a, b))
    (hsafe : ∀ k l, led.openLoan rt accs.pool k = some l →
      l.triggerDirection = (swapDirection aToB).toU8 →
        isLiquidatable l.triggerPriceWad (swapDirection aToB) (spotWad a b) = false)
    (hi : processSwap rt accs amountIn minOut aToB bandBoundary counts led = .ok (led', events)) :
    ∃ p' a' b', led'.HasPool rt accs.pool p' ∧ led'.accounted p' = .ok (a', b') ∧
      2 * a * b ≤ a' * b + b' * a := by
  have hsound := h.sound
  obtain ⟨q, p', f, ks, hswap, rfl, -, -, -, -⟩ :=
    processSwap_refines hsound.filed hsig (fun p => hsound.valid _ p) hi
  obtain rfl := hswap.step.before.unique hp
  obtain ⟨S, hv⟩ := hsound.valid _ _ hp
  obtain ⟨_, _, supplied, htrade⟩ := hswap.trade
  obtain ⟨rfl, rfl⟩ := Prod.mk.inj (Except.ok.inj (hacc.symm.trans (hsound.accounted hp)))
  exact ⟨p', _, _, hswap.step.after, (h.swap hsig hi).sound.accounted hswap.step.after,
    htrade.value_ge hv hsafe⟩

theorem swap_keeps_value_lent :
    ∃ (led' : Ledger) (p' : Pool) (a' b' : ℕ), led'.HasPool sandbox Sandbox.pool p' ∧
      led'.accounted p' = .ok (a', b') ∧ 2 * 1000000 * 1000000 ≤ a' * 1000000 + b' * 1000000 := by
  obtain ⟨⟨led', events⟩, hi⟩ := Checked.exists_of_isOk (x := processSwap sandbox
    (Sandbox.swapAccs [Sandbox.band 0 61, Sandbox.loan 0]) 3000000 0 true 60 [1]
      (Sandbox.after Sandbox.lent)) (by decide +kernel)
  have hreach := Sandbox.after_reachable Sandbox.lent
  have hp : (Sandbox.after Sandbox.lent).HasPool sandbox
      (Sandbox.swapAccs [Sandbox.band 0 61, Sandbox.loan 0]).pool _ :=
    Sandbox.hasPool (by decide +kernel)
  have hacc : (Sandbox.after Sandbox.lent).accounted
      (Sandbox.poolState (Sandbox.after Sandbox.lent)) = .ok (1000000, 1000000) :=
    Sandbox.accounted_eq (by decide +kernel)
  have hsafe : ∀ k l, (Sandbox.after Sandbox.lent).openLoan sandbox Sandbox.pool k = some l →
      l.triggerDirection = (swapDirection true).toU8 →
        isLiquidatable l.triggerPriceWad (swapDirection true) (spotWad 1000000 1000000) =
          false := by
    intro k l hl _
    -- the one open loan is the one the script opened
    obtain ⟨S, hv⟩ := hreach.sound.valid _ _ hp
    have hone : S.card = 1 := by
      rw [← hv.booked.openLoans]
      decide +kernel
    obtain ⟨j, rfl⟩ := Finset.card_eq_one.mp hone
    have hj : Sandbox.loan 0 = j := Finset.mem_singleton.mp
      ((hv.booked.domain (Sandbox.loan 0)).mpr (by decide +kernel))
    have hk : k = j := Finset.mem_singleton.mp (hv.booked.domain.mem_of_some hl)
    obtain rfl := hk.trans hj.symm
    obtain ⟨l', a, b, hl', hacc', hsafe⟩ := Sandbox.survives_iff.mp
      (show Sandbox.survives (Sandbox.after Sandbox.lent) (Sandbox.loan 0) .onFall
        (Sandbox.after Sandbox.lent) = true by decide +kernel)
    obtain ⟨rfl, rfl⟩ := Prod.mk.inj (Except.ok.inj (hacc.symm.trans hacc'))
    obtain rfl := Option.some.inj (hl.symm.trans hl')
    exact hsafe
  obtain ⟨p', a', b', hp', hacc', hvalue⟩ :=
    swap_keeps_value hreach (Sandbox.swapAccs_user _) hp hacc hsafe hi
  exact ⟨led', p', a', b', hp', hacc', hvalue⟩

/-! ### Calm runs -/

/-- A step that liquidates no loan of the pool `P` and leaves it LP tokens. -/
structure Calm (rt : Runtime) (P : Pubkey) (led led' : Ledger) : Prop where
  step : Step rt led led'
  keeps : ∀ k, ¬ Liquidates rt P led led' k
  live : ∀ p, led'.HasPool rt P p → 0 < led'.mintSupply p.lpMint

/-- **LP tokens are never diluted**: the product of the reserves over the square of the supply does
not fall along a calm run, and in particular not from one step to the next. -/
theorem shares_never_diluted (h : Reachable rt led) (hp : led.HasPool rt P p)
    (hS : 0 < led.mintSupply p.lpMint) (hrun : Relation.ReflTransGen (Calm rt P) led led') :
    ∃ p' a b a' b', led'.HasPool rt P p' ∧ led.accounted p = .ok (a, b) ∧
      led'.accounted p' = .ok (a', b') ∧
      a * b * led'.mintSupply p'.lpMint ^ 2 ≤ a' * b' * led.mintSupply p.lpMint ^ 2 := by
  have hshare : ∃ p', Reachable rt led' ∧ led'.HasPool rt P p' ∧ 0 < led'.mintSupply p'.lpMint ∧
      ShareLe (led.market rt P p) (led'.market rt P p') := by
    induction hrun with
    | refl => exact ⟨p, h, hp, hS, le_refl _⟩
    | tail _ hcalm ih =>
      obtain ⟨q, hreach, hq, hSq, hle⟩ := ih
      obtain ⟨S, hv⟩ := hreach.sound.valid _ _ hq
      obtain ⟨q', ks, hq', hmove, hliq⟩ := hcalm.step.move hreach.sound hq
      obtain rfl : ks = [] := List.eq_nil_iff_forall_not_mem.mpr fun k hk =>
        hcalm.keeps k (hliq k hk)
      exact ⟨q', hreach.step hcalm.step, hq', hcalm.live q' hq',
        hle.trans (hmove.share_le hv hSq) hSq⟩
  obtain ⟨p', hreach', hp', -, hle⟩ := hshare
  exact ⟨p', _, _, _, _, hp', h.sound.accounted hp, hreach'.sound.accounted hp', hle⟩

namespace Sandbox

/-- The liquidation context of a call. -/
def context : Instruction → List Pubkey
  | .swap accs .. => accs.tail
  | _ => []

/-- The ledger after these calls, if each of them is accepted, leaves LP tokens, and has nothing in
its liquidation context. -/
def calmly (led : Ledger) : List Instruction → Option Ledger
  | [] => some led
  | i :: is =>
    match processInstruction sandbox i led with
    | .ok (led', _) =>
      if i.user.all isUser ∧ context i = [] ∧ isLive led' ∧
          0 < led'.mintSupply (poolState led').lpMint then calmly led' is
      else none
    | .error _ => none

/-- Such calls make a calm run. -/
theorem calmly_run {led led' : Ledger} {is : List Instruction} (hrun : calmly led is = some led') :
    Relation.ReflTransGen (Calm sandbox pool) led led' := by
  induction is generalizing led with
  | nil =>
    cases hrun
    exact .refl
  | cons i is ih =>
    rw [calmly] at hrun
    split at hrun
    · rename_i led₁ events hi
      split at hrun
      · rename_i hcalm
        obtain ⟨huser, htail, hlive, hsupply⟩ := hcalm
        have hsig : ∀ k ∈ i.user, ¬ sandbox.IsPda k := fun k hk => by
          rw [Option.mem_def.mp hk, Option.all_some] at huser
          exact not_isPda huser
        refine .head ⟨.instruction i hsig hi, fun k hk => ?_, fun p hp => ?_⟩ (ih hrun)
        · obtain ⟨accs, _, _, _, _, _, rfl, hmem⟩ := processInstruction_liquidates hk hi
          rw [show accs.tail = [] from htail] at hmem
          cases hmem
        · obtain rfl := hp.unique (hasPool hlive)
          exact hsupply
      · cases hrun
    · cases hrun

/-- A deposit, a trade in each direction, a withdrawal and a repayment. -/
def rounds : List Instruction :=
  [.addLiquidity { Sandbox.accs with lpMint, userLp } 30_001 20_000 0,
    .swap (swapAccs []) 10_000 0 true 63 [],
    .swap (swapAccs []) 4_000 0 false 127 [],
    .removeLiquidity { Sandbox.accs with lpMint, userLp } 7_777 0 0,
    .repayLoan (loanAccs 0 0 61)]

end Sandbox

theorem shares_never_diluted_rounds :
    ∃ (led' : Ledger) (p' : Pool) (a b a' b' : ℕ),
      Sandbox.calmly (Sandbox.after Sandbox.lent) Sandbox.rounds = some led' ∧
      led'.HasPool sandbox Sandbox.pool p' ∧
      (Sandbox.after Sandbox.lent).accounted
        (Sandbox.poolState (Sandbox.after Sandbox.lent)) = .ok (a, b) ∧
      led'.accounted p' = .ok (a', b') ∧
      a * b * led'.mintSupply p'.lpMint ^ 2 ≤
        a' * b' * (Sandbox.after Sandbox.lent).mintSupply
          (Sandbox.poolState (Sandbox.after Sandbox.lent)).lpMint ^ 2 := by
  obtain ⟨led', hrun⟩ := Option.isSome_iff_exists.mp
    (show (Sandbox.calmly (Sandbox.after Sandbox.lent) Sandbox.rounds).isSome = true by
      decide +kernel)
  obtain ⟨p', a, b, a', b', hp', hacc, hacc', hle⟩ := shares_never_diluted
    (Sandbox.after_reachable Sandbox.lent) (Sandbox.hasPool (by decide +kernel))
    (by decide +kernel) (Sandbox.calmly_run hrun)
  exact ⟨led', p', a, b, a', b', hrun, hp', hacc, hacc', hle⟩

end ChiefLiquidity
