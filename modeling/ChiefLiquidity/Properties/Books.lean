import ChiefLiquidity.Replay

/-!
# The books of a pool

What a pool owes is in its vaults, and its totals are the totals of its open loans. So no
settlement of an open loan can run out of the totals it is taken from, neither in a repayment nor
anywhere in the liquidation loop of a swap.

## Sums, not bounds

It would be enough for solvency to know that the totals are large enough. The books say more: the
total of a side is the sum over the open loans with that side, the number of open loans is the
number of keys, and nothing else is in them. So a settlement subtracts a summand from a sum, which
cannot fail, and the order in which loans are settled makes no difference.

The loop of a swap settles loans without writing them, one after the other, against totals that it
carries along. `InLoop` is the invariant of that state, and the settlement of any supplied loan that
is still unmarked succeeds in it.

## Main definitions

* `InLoop` — the states the liquidation loop of a swap passes through

## Main results

* `vaults_cover_obligations` — the vaults hold collateral and fees
* `totals_are_sums` — the totals are sums over the open loans, and settling them cannot underflow
-/

namespace ChiefLiquidity

open Ledger Market

variable {rt : Runtime} {led : Ledger} {P k : Pubkey} {p q : Pool} {t : SwapTerms}
  {st : CascadeState} {S : Finset Pubkey}

namespace Sandbox

/-- A pool with loans in both directions, one of which a swap has liquidated. -/
def busy : List Act :=
  create ++ [add 1000000 1000000, lend 0 0 500000 50000 61, lend 1 1 200000 100000 65, .wait 10,
    swap 3000000 true 60 [1] [band 0 61, loan 0]]

end Sandbox

/-! ### Solvency -/

/-- **The vaults hold what they owe**, on each side: the collateral of the open loans and the fees
of the protocol. -/
theorem vaults_cover_obligations (h : Reachable rt led) (hp : led.HasPool rt P p) (x : Side) :
    p.collateral x + p.fees x ≤ led.balance (p.vault x) := by
  obtain ⟨S, hv⟩ := h.sound.valid P p hp
  exact hv.solvent x

theorem vaults_cover_obligations_busy :
    0 < (Sandbox.poolState (Sandbox.after Sandbox.busy)).fees .a ∧
      (Sandbox.poolState (Sandbox.after Sandbox.busy)).collateral .a +
        (Sandbox.poolState (Sandbox.after Sandbox.busy)).fees .a ≤
          (Sandbox.after Sandbox.busy).balance
            ((Sandbox.poolState (Sandbox.after Sandbox.busy)).vault .a) :=
  ⟨by decide +kernel, vaults_cover_obligations (Sandbox.after_reachable Sandbox.busy)
    (Sandbox.hasPool (by decide +kernel)) .a⟩

/-! ### The loan ledger -/

/-- A state the liquidation loop of a swap passes through: the swap has been accepted as far as its
loop, and the loop has made some rounds. -/
structure InLoop (rt : Runtime) (led : Ledger) (P : Pubkey) (p : Pool) (t : SwapTerms)
    (st : CascadeState) : Prop where
  realA : t.realA = led.balance p.vaultA
  realB : t.realB = led.balance p.vaultB
  rounds : ∃ bandBoundary counts tail context q a b q₁,
    checkContext rt led P p t.aToB bandBoundary counts tail = .ok context ∧
      p.bumpIndexes t.realA t.realB led.slot = .ok q ∧ q.accounted t.realA t.realB = .ok (a, b) ∧
      q.sampleRefPrice a b led.slot = .ok q₁ ∧
      Relation.ReflTransGen (Round t) ⟨q₁, a, b, context.loans⟩ st

/-- A loan of the market can be settled by the pool that has accrued. -/
theorem Market.Accrued.can_settle {m : Market} {l : Loan} {s : LoanSides} (hv : m.Valid S)
    (hq : m.Accrued q) (hl : m.loans k = some l) (hs : l.sides = s.toU8) :
    ∃ q', q.settleLoan s l.collateralAmount l.debtPrincipal = .ok q' := by
  refine ⟨_, Pool.settleLoan_eq_ok.mpr ⟨?_, ?_, ?_, rfl⟩⟩
  · have hle := KeyedSum.le_total (w := Loan.collateralFor s) hv.booked.domain hl
    rw [← hv.booked.collateral, collateralFor_eq hs, if_pos rfl] at hle
    rwa [hq.collateral]
  · have hle := KeyedSum.le_total (w := Loan.principalFor s) hv.booked.domain hl
    rw [← hv.booked.debt, principalFor_eq hs, if_pos rfl] at hle
    rwa [hq.debt]
  · rw [hq.openLoans, hv.booked.openLoans]
    exact Finset.card_pos.mpr ⟨k, hv.booked.domain.mem_of_some hl⟩

/-- The loop of a swap can settle every loan it finds. -/
theorem InLoop.can_settle (h : Sound rt led) (hp : led.HasPool rt P p)
    (hloop : InLoop rt led P p t st) {price : ℕ} {hit : LoanCtx} {ls : List LoanCtx}
    (hscan : markNextTriggered price st.loans = some (hit, ls)) :
    ∃ q a b, st.pool.settleLoan hit.sides hit.collateral hit.debtPrincipal = .ok q ∧
      q.swappable t.realA t.realB = .ok (a, b) := by
  obtain ⟨S, hv⟩ := h.valid P p hp
  obtain ⟨hA, hB, bound, counts, tail, context, q, a, b, q₁, hctx, hbump, hacc, hsample, hrun⟩ :=
    hloop
  obtain ⟨gs, hgs, -, rfl⟩ := (checkContext_eq_ok h.filed).mp hctx
  have hq : (led.market rt P p).Accrued q := ⟨by rw [hA, hB] at hbump; exact hbump⟩
  have hsetup := hgs.cascadeSetup (t := t) hv hq hsample hA hB
  rw [hA, hB] at hacc
  obtain ⟨rfl, rfl⟩ := hq.reserve_eq hacc
  obtain ⟨ks, hat⟩ := (hsetup.start rfl rfl).rounds hsetup hrun
  refine hat.can_settle hsetup ?_ hscan
  obtain ⟨_, _, rfl⟩ := sampleRefPrice_frame hsample
  exact hq.openLoans

/-- **The totals of a pool are sums over its open loans**, side by side. So settling an open loan
never underflows: not in `RepayLoan`, whatever the indexes have become, and not in any round of the
liquidation loop of a swap, where the LP-owned parts are then recomputed from the smaller totals. -/
theorem totals_are_sums (h : Reachable rt led) (hp : led.HasPool rt P p) :
    (∃ S : Finset Pubkey, (∀ k, k ∈ S ↔ ∃ l, led.openLoan rt P k = some l) ∧
      p.totalCollateralA = KeyedSum.total S (led.openLoan rt P) (Loan.collateralFor .collateralA) ∧
      p.totalDebtB = KeyedSum.total S (led.openLoan rt P) (Loan.principalFor .collateralA) ∧
      p.totalCollateralB = KeyedSum.total S (led.openLoan rt P) (Loan.collateralFor .collateralB) ∧
      p.totalDebtA = KeyedSum.total S (led.openLoan rt P) (Loan.principalFor .collateralB) ∧
      p.openLoans = S.card) ∧
    (∀ k l s q, led.openLoan rt P k = some l → l.sides = s.toU8 →
      p.bumpIndexes (led.balance p.vaultA) (led.balance p.vaultB) led.slot = .ok q →
      ∃ q', q.settleLoan s l.collateralAmount l.debtPrincipal = .ok q') ∧
    ∀ t st, InLoop rt led P p t st → ∀ price hit ls,
      markNextTriggered price st.loans = some (hit, ls) →
      ∃ q a b, st.pool.settleLoan hit.sides hit.collateral hit.debtPrincipal = .ok q ∧
        q.swappable t.realA t.realB = .ok (a, b) := by
  have hsound := h.sound
  obtain ⟨S, hv⟩ := hsound.valid P p hp
  refine ⟨⟨S, fun k => ?_, hv.booked.collateral .collateralA, hv.booked.debt .collateralA,
    hv.booked.collateral .collateralB, hv.booked.debt .collateralB, hv.booked.openLoans⟩,
    fun k l s q hl hs hbump => ?_, fun t st hloop price hit ls hscan => ?_⟩
  · rw [hv.booked.domain k, Option.isSome_iff_exists]
    rfl
  · exact Market.Accrued.can_settle hv ⟨hbump⟩ hl hs
  · exact hloop.can_settle hsound hp hscan

theorem totals_are_sums_busy :
    (Sandbox.poolState (Sandbox.after Sandbox.busy)).openLoans = 1 ∧
      ∃ S : Finset Pubkey, (∀ k, k ∈ S ↔
        ∃ l, (Sandbox.after Sandbox.busy).openLoan sandbox Sandbox.pool k = some l) ∧
        (Sandbox.poolState (Sandbox.after Sandbox.busy)).openLoans = S.card := by
  obtain ⟨⟨S, hS, -, -, -, -, hcard⟩, -⟩ := totals_are_sums
    (Sandbox.after_reachable Sandbox.busy) (Sandbox.hasPool (by decide +kernel))
  exact ⟨by decide +kernel, S, hS, hcard⟩

end ChiefLiquidity
