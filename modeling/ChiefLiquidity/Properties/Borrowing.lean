import ChiefLiquidity.Market.Loans
import ChiefLiquidity.Properties.Neutrality

/-!
# Opening a loan, and repaying it at once

Borrowing leaves the accounted reserves alone because what leaves the vault enters the books as
debt. The instruction does not look where the tokens go: a principal sent to the vault it came from
is booked, and never left.

## When it is neutral

The accounted reserve counts a debt as if it were in the vault. That keeps borrowing from moving the
price as long as what is booked as lent has left the vault, and the instruction books it whether or
not it has. If the account the borrower names for the principal is the vault itself, the token
program moves nothing, and the reserve of the debt side grows by the debt.

## An inverse

A loan that is opened and repaid within a slot leaves the pool as the accrual left it, but for the
stamp and the nonce. The interest of no slots is nothing, so the borrower pays back what was
received.

## Main results

* `borrowing_keeps_pricing_iff` — when borrowing does not move pricing, and
  `borrowing_moves_pricing`, where it does
* `open_then_repay_is_identity`
-/

namespace ChiefLiquidity

open Ledger Market

variable {rt : Runtime} {led led' led₁ led₂ : Ledger} {events events₁ events₂ : List Event}
  {sidesByte c d nonce : ℕ}

/-! ### The price of borrowing -/

/-- **When borrowing does not move pricing**: exactly when the debt goes anywhere but to the vault
it comes from. -/
theorem borrowing_keeps_pricing_iff {accs : LoanAccounts} (h : Reachable rt led)
    (hsig : ¬ rt.IsPda accs.user)
    (hi : processOpenLoan rt accs sidesByte c d nonce led = .ok (led', events)) :
    ∃ p p' s r r', led.HasPool rt accs.pool p ∧ led'.HasPool rt accs.pool p' ∧
      LoanSides.fromU8 sidesByte = .ok s ∧ led.accounted p = .ok r ∧ led'.accounted p' = .ok r' ∧
      (r' = r ↔ accs.userToken s.debtSide ≠ accs.vault s.debtSide) := by
  obtain ⟨p, p', q, l, s, ho⟩ := processOpenLoan_opened h.sound.filed hsig hi
  have hp := ho.step.before
  obtain ⟨S, hv⟩ := h.sound.valid _ _ hp
  have hstep : Step rt led led' :=
    .instruction (.openLoan accs sidesByte c d nonce) (fun k hk => Option.mem_some.mp hk ▸ hsig) hi
  refine ⟨p, p', s, _, _, hp, ho.step.after, by rw [ho.sides, LoanSides.fromU8_toU8],
    h.sound.accounted hp, (h.step hstep).sound.accounted ho.step.after, ?_⟩
  obtain ⟨-, hpos, -⟩ := recomputeTrigger_eq_ok ho.borrow.trigger
  have hreserve := ho.borrow.reserve hv
  by_cases hself : accs.userToken s.debtSide = accs.vault s.debtSide
  · -- nothing was paid, so the debt stays on top of the vault
    have hgrown := hreserve s.debtSide
    rw [if_pos rfl, PoolAccounts.paidOut, if_pos hself, Nat.sub_zero] at hgrown
    refine ⟨fun heq => ?_, fun hne => absurd hself hne⟩
    obtain ⟨ha, hb⟩ := Prod.mk.inj heq
    have hkept : (led'.market rt accs.pool p').reserve s.debtSide =
        (led.market rt accs.pool p).reserve s.debtSide := by
      cases s
      · exact hb
      · exact ha
    omega
  · refine ⟨fun _ => hself, fun _ => ?_⟩
    have hkept : ∀ x, (led'.market rt accs.pool p').reserve x =
        (led.market rt accs.pool p).reserve x := by
      intro x
      rw [hreserve, PoolAccounts.paidOut_of_ne hself, Nat.sub_self, ite_self, Nat.add_zero]
    rw [hkept, hkept]

theorem borrowing_keeps_pricing_iff_lent :
    ∃ (led' : Ledger) (p p' : Pool) (r : ℕ × ℕ),
      (Sandbox.after Sandbox.lent).accounted p = .ok r ∧ led'.accounted p' = .ok r := by
  obtain ⟨⟨led', events⟩, hi⟩ := Checked.exists_of_isOk (x := processOpenLoan sandbox
    (Sandbox.loanAccs 1 1 64) 1 1_000_000 800_000 1 (Sandbox.after Sandbox.lent))
    (by decide +kernel)
  obtain ⟨p, p', s, r, r', -, -, hs, hr, hr', hiff⟩ := borrowing_keeps_pricing_iff
    (Sandbox.after_reachable Sandbox.lent) (Sandbox.loanAccs_user 1 1 64) hi
  obtain rfl : s = .collateralB := (Except.ok.inj hs).symm
  have hne : (Sandbox.loanAccs 1 1 64).userToken .a ≠ (Sandbox.loanAccs 1 1 64).vault .a := by
    decide
  exact ⟨led', p, p', r, hr, hiff.mpr hne ▸ hr'⟩

/-- The accounts of a loan of `mintB`, to be paid to the vault of `mintB`. -/
def Sandbox.selfPaid : LoanAccounts :=
  { toPoolAccounts := { Sandbox.accs with userB := Sandbox.vaultB }
    loan := Sandbox.loan 0
    band := Sandbox.band 0 64 }

/-- **A principal that stays in its vault moves the price**: it is booked, and was never lent. -/
theorem borrowing_moves_pricing :
    ¬ ∀ (rt : Runtime) (led led' : Ledger) (accs : LoanAccounts) (sidesByte c d nonce : ℕ)
      (events : List Event) (p p' : Pool), Reachable rt led → ¬ rt.IsPda accs.user →
      processOpenLoan rt accs sidesByte c d nonce led = .ok (led', events) →
      led.HasPool rt accs.pool p → led'.HasPool rt accs.pool p' →
      led'.accounted p' = led.accounted p := by
  intro hclaim
  obtain ⟨⟨led', events⟩, hi, htest⟩ := Checked.exists_of_any (x := processOpenLoan sandbox
    Sandbox.selfPaid 0 1_000_000 700_000 0 (Sandbox.after Sandbox.borrowed))
    (fun o => Sandbox.isLive o.1 && Sandbox.isAccounted o.1 1_000_000 1_700_000) (by decide +kernel)
  obtain ⟨hlive', hacc'⟩ := Bool.and_eq_true_iff.mp htest
  have hkept := hclaim _ _ _ _ _ _ _ _ _ _ _ (Sandbox.after_reachable Sandbox.borrowed)
    (Sandbox.not_isPda (show Sandbox.isUser Sandbox.user = true by decide)) hi
    (Sandbox.hasPool (by decide +kernel)) (Sandbox.hasPool hlive')
  rw [Sandbox.accounted_eq hacc', Sandbox.accounted_eq (a := 1_000_000) (b := 1_000_000)
    (by decide +kernel)] at hkept
  cases hkept

/-! ### There and back -/

/-- **Opening a loan and repaying it in the same slot is the identity.** The pool is what accrual
alone would have made of it, but for the nonce that was handed out; the debt repaid is the debt
borrowed; the vaults, the other loans and the counts of the bands that were there are as before,
and so is every token balance when both instructions use the same accounts of the borrower. -/
theorem open_then_repay_is_identity {accs accs' : LoanAccounts} (h : Reachable rt led)
    (hsig : ¬ rt.IsPda accs.user) (hout : accs.PaysOut)
    (hi : processOpenLoan rt accs sidesByte c d nonce led = .ok (led₁, events₁))
    (hpool : accs'.pool = accs.pool) (hloan : accs'.loan = accs.loan)
    (huser : accs'.user = accs.user) (hout' : accs'.PaysOut)
    (hr : processRepayLoan rt accs' led₁ = .ok (led₂, events₂)) :
    ∃ p q p₂, led.HasPool rt accs.pool p ∧ led₂.HasPool rt accs.pool p₂ ∧
      p.bumpIndexes (led.balance p.vaultA) (led.balance p.vaultB) led.slot = .ok q ∧
      p₂ = (q.stamp led.slot).nonceTaken ∧
      events₂ = [.loanRepaid accs.pool accs.loan accs.user d d] ∧
      led₂.openLoan rt accs.pool = led.openLoan rt accs.pool ∧
      (∀ dir b n, led.bandCount rt accs.pool dir b = some n →
        led₂.bandCount rt accs.pool dir b = some n) ∧
      (∀ x, led₂.balance (p.vault x) = led.balance (p.vault x)) ∧
      ((∀ x, accs'.userToken x = accs.userToken x) → led₂.balance = led.balance) := by
  obtain ⟨p, p₁, q, l, s, ho⟩ := processOpenLoan_opened h.sound.filed hsig hi
  have hstep : Step rt led led₁ :=
    .instruction (.openLoan accs sidesByte c d nonce) (fun k hk => Option.mem_some.mp hk ▸ hsig) hi
  have hsound₁ := (h.step hstep).sound
  obtain ⟨p₁', p₂, q', l', s', owed, hrep⟩ :=
    processRepayLoan_repaid hsound₁.filed (by rwa [huser]) hr
  have hp := ho.step.before
  obtain ⟨S, hv⟩ := h.sound.valid _ _ hp
  have hrepay := hrep.repay
  have hstep₂ := hrep.step
  rw [hpool] at hrepay hstep₂
  obtain rfl := hstep₂.before.unique ho.step.after
  rw [hloan] at hrepay
  obtain ⟨rfl, rfl, rfl, hpool₂, hloans, hbands⟩ :=
    ho.borrow.repay_undoes hv (h.sound.metered _ _ hp) hrepay
  have hdebt : l'.debtPrincipal = d := by
    obtain ⟨_, _, _, rfl⟩ := ho.loan
    rfl
  have hcoll : l'.collateralAmount = c := by
    obtain ⟨_, _, _, rfl⟩ := ho.loan
    rfl
  have hborrowed := (ho.borrow.borrowed hv).real
  have hrepaid := (hrepay.repaid (ho.borrow.valid hv)).real
  have hcov := ho.borrow.principal_le
  simp only [hout.paidOut, hout'.paidOut] at hborrowed hrepaid
  refine ⟨p, q, p₂, hp, hstep₂.after, ho.borrow.accrued.bump, hpool₂, ?_, hloans, hbands,
    fun x => ?_, fun hsame => ?_⟩
  · rw [hrep.logged, hpool, hloan, huser, hdebt]
  · have hafter := hrepaid x
    rw [hborrowed x] at hafter
    have hvaults : p₂.vault x = p.vault x :=
      Pool.vault_of_terms (hstep₂.terms.trans ho.step.terms) x
    rw [market_real, market_real, hvaults] at hafter
    rw [market_real] at hcov
    rw [hafter]
    by_cases hx : x = s'.debtSide
    · rw [if_neg (hx ▸ debtSide_ne_collateralSide s'), if_pos hx, hx]
      omega
    · rw [if_neg hx]
      omega
  · funext k
    have hvault : ∀ x, accs'.vault x = accs.vault x := fun x => by
      rw [← (Pool.matchesAccounts_iff.mp hrep.accounts).1 x, Pool.vault_of_terms ho.step.terms,
        (Pool.matchesAccounts_iff.mp ho.accounts).1 x]
    have hopened := ho.transfers.balance_cast k
    have hclosed := hrep.transfers.balance_cast k
    rw [hdebt, hcoll, hsame, hsame, hvault, hvault] at hclosed
    zify
    rw [hclosed, hopened]
    ring

theorem open_then_repay_is_identity_lent :
    ∃ led₂ : Ledger, led₂.balance = (Sandbox.after Sandbox.lent).balance := by
  obtain ⟨⟨led₂, events₂⟩, hboth⟩ := Checked.exists_of_isOk (x := (processOpenLoan sandbox
    (Sandbox.loanAccs 1 1 64) 1 1_000_000 800_000 1 (Sandbox.after Sandbox.lent) >>= fun o =>
      processRepayLoan sandbox (Sandbox.loanAccs 1 1 64) o.1)) (by decide +kernel)
  obtain ⟨⟨led₁, events₁⟩, hi, hr⟩ := Checked.bind_eq_ok.mp hboth
  have hout : (Sandbox.loanAccs 1 1 64).PaysOut := fun x => by cases x <;> decide
  obtain ⟨p, q, p₂, -, -, -, -, -, -, -, -, hbalance⟩ := open_then_repay_is_identity
    (Sandbox.after_reachable Sandbox.lent) (Sandbox.loanAccs_user 1 1 64) hout hi rfl rfl rfl hout
    hr
  exact ⟨led₂, hbalance fun _ => rfl⟩

end ChiefLiquidity
