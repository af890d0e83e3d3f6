import ChiefLiquidity.Market.Loans
import ChiefLiquidity.Properties.BandIndex

/-!
# Borrowers do not interfere

Two loan instructions of one slot share the totals of their pool, and perhaps a band and its bit.
What each of them does is fixed by the terms of the pool, by its indexes and by its own loan, none
of which the other one changes; and what they do to what they share adds up.

## Three things to compare

Two orders of two instructions end in the same ledger if three things agree: that both instructions
are accepted in either order is assumed, what each of them does is the same wherever it stands, and
what they do adds up. The second is where the work is. An opening reads the terms and the indexes,
and both are the same after another loan instruction of the slot; a repayment reads its own loan
besides.

Adding up is shown on the ledger, account by account. Balances and allowances of token accounts are
sums of movements; loans are different accounts; a band counts both; and the pool is determined by
the parts of its record.

## Main definitions

* `LoanEffect`, `Instruction.LoanEffect.Of` — what a loan instruction does, and what this depends on
* `LoanMade` — an accepted loan instruction

## Main results

* `LoanMade.again` — it does the same after another one
* `loans_commute` — two of them end in the same ledger, whichever comes first
-/

namespace ChiefLiquidity

open Ledger Market

variable {rt : Runtime} {led led' led₁ led₂ led₁₂ led₂₁ : Ledger} {P k : Pubkey}
  {accs accs₁ accs₂ : LoanAccounts} {i i₁ i₂ : Instruction} {p p' q q' p₁ p₂ p₁₂ p₂₁ : Pool}
  {events events₁ events₂ events₁₂ events₂₁ : List Event}

/-- The accounts of an `OpenLoan` or a `RepayLoan`. -/
def Instruction.loanAccounts : Instruction → Option LoanAccounts
  | .openLoan accs .. => some accs
  | .repayLoan accs => some accs
  | _ => none

theorem Instruction.reachable_of_loan (h : Reachable rt led) (hi : i.loanAccounts = some accs)
    (hsig : ¬ rt.IsPda accs.user) (hrun : processInstruction rt i led = .ok (led', events)) :
    Reachable rt led' := by
  refine h.step (.instruction i (fun k hk => ?_) hrun)
  cases i with
  | openLoan => cases hi; cases hk; exact hsig
  | repayLoan => cases hi; cases hk; exact hsig
  | _ => cases hi

/-- What a loan instruction does: it enters or removes a loan, and moves tokens. -/
structure LoanEffect where
  opens : Bool
  loan : Loan
  sides : LoanSides
  into : Side
  amountIn : ℕ
  out : Side
  amountOut : ℕ

/-- What a loan instruction does in a slot, given the pool with its indexes bumped and the loans. -/
inductive LoanEffect.Of (rt : Runtime) (slot : ℕ) (q : Pool) (loans : Pubkey → Option Loan) :
    Instruction → LoanEffect → Prop where
  | openLoan {accs : LoanAccounts} {s : LoanSides} {sidesByte c d nonce index trigger b : ℕ} :
      sidesByte = s.toU8 → recomputeTrigger s c d q.liqRatioBps = .ok (trigger, s.direction) →
      bandIdForTrigger trigger = .ok b → q.borrowIndexForDebtSide sidesByte = .ok index →
      LoanEffect.Of rt slot q loans (.openLoan accs sidesByte c d nonce)
        { opens := true
          loan := newLoan accs.pool accs.user nonce
            (rt.findProgramAddress (.loan accs.pool accs.user nonce)).2 sidesByte c d index trigger
            s.direction.toU8 b slot
          sides := s
          into := s.collateralSide
          amountIn := c
          out := s.debtSide
          amountOut := d }
  | repayLoan {accs : LoanAccounts} {l : Loan} {s : LoanSides} {index owed : ℕ} :
      loans accs.loan = some l → l.sides = s.toU8 →
      q.borrowIndexForDebtSide l.sides = .ok index → l.owed index = .ok owed →
      LoanEffect.Of rt slot q loans (.repayLoan accs)
        { opens := false
          loan := l
          sides := s
          into := s.debtSide
          amountIn := owed
          out := s.collateralSide
          amountOut := l.collateralAmount }

/-- An accepted loan instruction. -/
structure LoanMade (rt : Runtime) (i : Instruction) (accs : LoanAccounts) (e : LoanEffect)
    (led led' : Ledger) (p p' q : Pool) : Prop where
  step : PoolStep rt accs.pool led led' p p'
  effect : LoanEffect.Of rt led.slot q (led.openLoan rt accs.pool) i e
  lends : Lends (led.market rt accs.pool p) q accs.loan e.loan e.sides e.opens
    (led'.market rt accs.pool p')
  band : bandKey rt accs.pool e.loan.triggerDirection e.loan.bandId = accs.band
  account : led'.accts accs.loan = ⟨rt.programId, .loan (if e.opens then e.loan else .zeroed)⟩
  notLoan : ∀ l, led.accts accs.band ≠ ⟨rt.programId, .loan l⟩
  transfers : LoanTransfers accs e.into e.amountIn e.out e.amountOut led led'

/-- **Every accepted loan instruction is one.** -/
theorem processInstruction_loanMade (h : Reachable rt led) (hi : i.loanAccounts = some accs)
    (hsig : ¬ rt.IsPda accs.user) (hrun : processInstruction rt i led = .ok (led', events)) :
    ∃ e p p' q, LoanMade rt i accs e led led' p p' q := by
  have hfiled := h.sound.filed
  cases i with
  | openLoan accs' sidesByte c d nonce =>
    cases hi
    obtain ⟨p, p', q, l, s, ho⟩ := processOpenLoan_opened hfiled hsig hrun
    obtain ⟨S, hv⟩ := h.sound.valid _ _ ho.step.before
    have hb := ho.borrow.borrowed hv
    have hloan : led'.openLoan rt accs.pool accs.loan = some l :=
      (congrFun hb.loans _).trans (Function.update_self ..)
    obtain ⟨index, trigger, b, rfl⟩ := ho.loan
    obtain rfl := ho.sides
    exact ⟨_, p, p', q, ho.step, .openLoan rfl ho.borrow.trigger ho.borrow.band ho.borrow.snapshot,
      ho.borrow.lends hv, ho.band, (openLoan_eq_some.mp hloan).1, ho.notLoan, ho.transfers⟩
  | repayLoan accs' =>
    cases hi
    obtain ⟨p, p', q, l, s, owed, hr⟩ := processRepayLoan_repaid hfiled hsig hrun
    obtain ⟨S, hv⟩ := h.sound.valid _ _ hr.step.before
    obtain ⟨index, hindex, howed⟩ := hr.repay.interest
    obtain ⟨n, _, hn, -⟩ := hr.repay.after
    obtain ⟨x, hx, -⟩ := bandCount_eq_some.mp hn
    rw [hr.band] at hx
    exact ⟨_, p, p', q, hr.step, .repayLoan hr.repay.loan hr.repay.sides hindex howed,
      hr.repay.lends hv, hr.band, hr.closed, fun l₀ => by simp [hx], hr.transfers⟩
  | _ => cases hi

/-! ### What an instruction does after another -/

/-- What a loan instruction does is fixed by the terms and the meters of the pool and by its own
loan. -/
theorem LoanEffect.Of.unique {slot : ℕ} {loans loans' : Pubkey → Option Loan} {e e' : LoanEffect}
    (hi : i.loanAccounts = some accs) (hterms : q'.terms = q.terms)
    (hmeters : q'.meters = q.meters) (hloan : loans' accs.loan = loans accs.loan)
    (h : LoanEffect.Of rt slot q loans i e) (h' : LoanEffect.Of rt slot q' loans' i e') :
    e' = e := by
  have hratio : q'.liqRatioBps = q.liqRatioBps := by
    show q'.terms.liqRatioBps = q.terms.liqRatioBps
    rw [hterms]
  have hindex : ∀ s : LoanSides,
      q'.borrowIndexForDebtSide s.toU8 = q.borrowIndexForDebtSide s.toU8 := by
    intro s
    have hside := Pool.index_of_meters hmeters s.debtSide
    cases s <;> exact congrArg Except.ok hside
  cases h with
  | @openLoan _ s _ c d nonce index trigger b hs htrigger hb hindex₁ =>
    cases h' with
    | @openLoan _ s' _ _ _ _ index' trigger' b' hs' htrigger' hb' hindex₂ =>
      obtain rfl := LoanSides.toU8_injective (hs.symm.trans hs')
      subst hs
      rw [hratio, htrigger] at htrigger'
      obtain ⟨rfl, -⟩ := Prod.mk.inj (Except.ok.inj htrigger')
      rw [hb] at hb'
      obtain rfl := Except.ok.inj hb'
      rw [hindex, hindex₁] at hindex₂
      obtain rfl := Except.ok.inj hindex₂
      rfl
  | @repayLoan _ l s index owed hl hs hindex₁ howed =>
    cases h' with
    | @repayLoan _ l' s' index' owed' hl' hs' hindex₂ howed' =>
      cases hi
      rw [hloan, hl] at hl'
      obtain rfl := Option.some.inj hl'
      obtain rfl := LoanSides.toU8_injective (hs.symm.trans hs')
      rw [hs, hindex, ← hs, hindex₁] at hindex₂
      obtain rfl := Except.ok.inj hindex₂
      rw [howed] at howed'
      obtain rfl := Except.ok.inj howed'
      rfl

/-- **After another loan instruction of the slot** an instruction does what it would have done
before it: it accrues nothing more, and finds its own loan as it was. -/
theorem LoanMade.again {e₁ e₂ e₁₂ : LoanEffect} (h : Reachable rt led)
    (hi : i₂.loanAccounts = some accs₂) (hpool : accs₁.pool = accs₂.pool)
    (hloan : accs₁.loan ≠ accs₂.loan) (h₁ : LoanMade rt i₁ accs₁ e₁ led led₁ p p₁ q)
    (h₂ : LoanMade rt i₂ accs₂ e₂ led led₂ p p₂ q')
    (h₁₂ : LoanMade rt i₂ accs₂ e₁₂ led₁ led₁₂ p₁ p₁₂ q₁) :
    e₁₂ = e₂ ∧ q₁.meters = q.meters ∧ q' = q := by
  have hmetered := h.sound.metered _ _ h₁.step.before
  have hclock := clock_of_meters h₁.lends.meters
  rw [h₁.lends.accrued.clock_eq hmetered] at hclock
  obtain rfl : q' = q :=
    Except.ok.inj (h₂.lends.accrued.bump.symm.trans (hpool ▸ h₁.lends.accrued.bump))
  -- the second accrual of the slot is none
  obtain rfl : q₁ = p₁ := h₁₂.lends.accrued.eq_of_clock (by
    show led₁.slot ≤ p₁.lastIndexUpdateSlot
    rw [h₁.transfers.slot]
    exact hclock.ge)
  have hterms : q₁.terms = q'.terms := h₁.lends.terms.trans h₁.lends.accrued.terms.symm
  refine ⟨?_, h₁.lends.meters, rfl⟩
  refine LoanEffect.Of.unique hi hterms h₁.lends.meters ?_ h₂.effect
    (h₁.transfers.slot ▸ h₁₂.effect)
  have hloans : led₁.openLoan rt accs₁.pool = _ := h₁.lends.loans
  rw [← hpool, hloans, Function.update_of_ne hloan.symm]
  rfl

/-! ### Either order -/

/-- A band account is determined by what the pool sees of it. -/
theorem Filed.band_unique {d b n : ℕ} (h : Filed rt led) (h' : Filed rt led')
    (hn : led.bandCount rt P d b = some n) (hn' : led'.bandCount rt P d b = some n) :
    led.accts (bandKey rt P d b) = led'.accts (bandKey rt P d b) := by
  obtain ⟨x, hx, hinit, rfl, rfl, rfl, rfl⟩ := bandCount_eq_some.mp hn
  obtain ⟨x', hx', hinit', hpool, hdir, hid, hcount⟩ := bandCount_eq_some.mp hn'
  have hbump := (h.band _ _ hx hinit).1
  have hbump' := (h'.band _ _ hx' hinit').1
  rw [hx, hx']
  rw [hpool, hdir, hid, hbump] at hbump'
  have hb : x.bump = x'.bump := congrArg Prod.snd hbump'
  have hd : x.discriminator = x'.discriminator :=
    (of_decide_eq_true hinit).trans (of_decide_eq_true hinit').symm
  cases x
  cases x'
  simp_all

/-- Token accounts that were the same one are equal once they hold as much, with the same allowance
for the same delegate. -/
theorem TokenShape.eq_of_balance {o : Pubkey} {t : TokenAccount}
    (h₁ : TokenShape ⟨o, .token t⟩ (led₁.accts k)) (h₂ : TokenShape ⟨o, .token t⟩ (led₂.accts k))
    (hbal : led₁.balance k = led₂.balance k) (hallow : led₁.allowance k = led₂.allowance k) :
    led₁.accts k = led₂.accts k := by
  obtain ⟨t₁, hk₁, hkeep₁⟩ := h₁.token_inv
  obtain ⟨t₂, hk₂, hkeep₂⟩ := h₂.token_inv
  rw [balance_of_data (t := t₁) (by rw [hk₁]), balance_of_data (t := t₂) (by rw [hk₂])] at hbal
  rw [allowance_of_data (t := t₁) (by rw [hk₁]),
    allowance_of_data (t := t₂) (by rw [hk₂])] at hallow
  obtain ⟨hdelegate, hdelegated⟩ := Prod.mk.inj hallow
  obtain rfl : t₁ = t₂ := TokenAccount.ext (hkeep₁.mint.trans hkeep₂.mint.symm)
    (hkeep₁.owner.trans hkeep₂.owner.symm) hdelegate hdelegated
    (hkeep₁.isFrozen.trans hkeep₂.isFrozen.symm) hbal
  rw [hk₁, hk₂]

/-- The account of a loan is left alone by the instructions about other loans. -/
theorem LoanMade.keeps {e₁ e₂ : LoanEffect} (hpool : accs₁.pool = accs₂.pool)
    (hloan : accs₁.loan ≠ accs₂.loan) (h₁ : LoanMade rt i₁ accs₁ e₁ led led₁ p p₁ q)
    (h₁₂ : LoanMade rt i₂ accs₂ e₂ led₁ led₁₂ p₁ p₁₂ q₁) :
    led₁₂.accts accs₁.loan = ⟨rt.programId, .loan (if e₁.opens then e₁.loan else .zeroed)⟩ := by
  rw [← h₁.account]
  refine h₁₂.transfers.fixed _ ?_ hloan (fun hband => ?_) fun t => ?_
  · rw [← hpool]
    exact ne_pool_of_account h₁.step.after h₁.account (by simp)
  · exact h₁₂.notLoan _ (hband ▸ h₁.account)
  · simp [h₁.account]

/-- What is at none of the accounts that two loan instructions write is moved by them or fixed. -/
theorem LoanMade.elsewhere {e₁ e₂ : LoanEffect} (h₁ : LoanMade rt i₁ accs₁ e₁ led led₁ p p₁ q)
    (h₁₂ : LoanMade rt i₂ accs₂ e₂ led₁ led₁₂ p₁ p₁₂ q₁) (hpool₁ : k ≠ accs₁.pool)
    (hpool₂ : k ≠ accs₂.pool) (hloan₁ : k ≠ accs₁.loan) (hloan₂ : k ≠ accs₂.loan)
    (hband₁ : k ≠ accs₁.band) (hband₂ : k ≠ accs₂.band) :
    TokenShape (led.accts k) (led₁₂.accts k) ∧
      ((∀ t, (led.accts k).data ≠ .token t) → led₁₂.accts k = led.accts k) := by
  have hfixed := h₁.transfers.fixed k hpool₁ hloan₁ hband₁
  refine ⟨(h₁.transfers.others k hpool₁ hloan₁ hband₁).trans
    (h₁₂.transfers.others k hpool₂ hloan₂ hband₂), fun hk => ?_⟩
  rw [h₁₂.transfers.fixed k hpool₂ hloan₂ hband₂ (hfixed hk ▸ hk), hfixed hk]

/-- Four draws on an allowance, in the order of two instructions or the other one. -/
theorem LoanMade.allowance_comm {e₁ e₂ : LoanEffect} (h₁ : LoanMade rt i₁ accs₁ e₁ led led₁ p p₁ q)
    (h₁₂ : LoanMade rt i₂ accs₂ e₂ led₁ led₁₂ p₁ p₁₂ q₁)
    (h₂ : LoanMade rt i₂ accs₂ e₂ led led₂ p' p₂ q')
    (h₂₁ : LoanMade rt i₁ accs₁ e₁ led₂ led₂₁ p₂ p₂₁ q₂) (hpool₁ : k ≠ accs₁.pool)
    (hpool₂ : k ≠ accs₂.pool) (hloan₁ : k ≠ accs₁.loan) (hloan₂ : k ≠ accs₂.loan)
    (hband₁ : k ≠ accs₁.band) (hband₂ : k ≠ accs₂.band) :
    led₁₂.allowance k = led₂₁.allowance k := by
  rw [h₁₂.transfers.allowance k hpool₂ hloan₂ hband₂, h₁.transfers.allowance k hpool₁ hloan₁ hband₁,
    h₂₁.transfers.allowance k hpool₁ hloan₁ hband₁, h₂.transfers.allowance k hpool₂ hloan₂ hband₂]
  -- both draws of one instruction move past both of the other
  exact ((drawn_commute.comp_left drawn_commute).comp_right
    (drawn_commute.comp_left drawn_commute) _).symm

theorem Ledger.eq_of_accts (hslot : led.slot = led'.slot) (h : ∀ k, led.accts k = led'.accts k) :
    led = led' := by
  cases led
  cases led'
  obtain rfl := hslot
  obtain rfl := funext h
  rfl

/-- **Borrowers do not interfere.** Loans of one pool can be opened and repaid in either order: if
both orders are accepted in a slot, they end in the same ledger. The borrowers need not differ, but
the loans have to. -/
theorem loans_commute (h : Reachable rt led) (hi₁ : i₁.loanAccounts = some accs₁)
    (hi₂ : i₂.loanAccounts = some accs₂) (hsig₁ : ¬ rt.IsPda accs₁.user)
    (hsig₂ : ¬ rt.IsPda accs₂.user) (hpool : accs₁.pool = accs₂.pool)
    (hloan : accs₁.loan ≠ accs₂.loan)
    (hrun₁ : processInstruction rt i₁ led = .ok (led₁, events₁))
    (hrun₁₂ : processInstruction rt i₂ led₁ = .ok (led₁₂, events₁₂))
    (hrun₂ : processInstruction rt i₂ led = .ok (led₂, events₂))
    (hrun₂₁ : processInstruction rt i₁ led₂ = .ok (led₂₁, events₂₁)) : led₁₂ = led₂₁ := by
  have hr₁ := Instruction.reachable_of_loan h hi₁ hsig₁ hrun₁
  have hr₂ := Instruction.reachable_of_loan h hi₂ hsig₂ hrun₂
  have hr₁₂ := Instruction.reachable_of_loan hr₁ hi₂ hsig₂ hrun₁₂
  have hr₂₁ := Instruction.reachable_of_loan hr₂ hi₁ hsig₁ hrun₂₁
  obtain ⟨e₁, p, p₁, q, h₁⟩ := processInstruction_loanMade h hi₁ hsig₁ hrun₁
  obtain ⟨e₂, p', p₂, q', h₂⟩ := processInstruction_loanMade h hi₂ hsig₂ hrun₂
  obtain ⟨e₁₂, p₁', p₁₂, q₁, h₁₂⟩ := processInstruction_loanMade hr₁ hi₂ hsig₂ hrun₁₂
  obtain ⟨e₂₁, p₂', p₂₁, q₂, h₂₁⟩ := processInstruction_loanMade hr₂ hi₁ hsig₁ hrun₂₁
  obtain rfl := h₁.step.before.unique (hpool ▸ h₂.step.before)
  obtain rfl := h₁.step.after.unique (hpool ▸ h₁₂.step.before)
  obtain rfl := h₂.step.after.unique (hpool ▸ h₂₁.step.before)
  -- in either order both do the same
  obtain ⟨rfl, hmeters₁, rfl⟩ := LoanMade.again h hi₂ hpool hloan h₁ h₂ h₁₂
  obtain ⟨rfl, hmeters₂, -⟩ := LoanMade.again h hi₁ hpool.symm hloan.symm h₂ h₁ h₂₁
  obtain ⟨S₁₂, hv₁₂⟩ := hr₁₂.sound.valid _ _ h₁₂.step.after
  obtain ⟨S₂₁, hv₂₁⟩ := hr₂₁.sound.valid _ _ h₂₁.step.after
  have hlends₁₂ := h₁₂.lends
  have hlends₂ := h₂.lends
  rw [← hpool] at hlends₁₂ hlends₂ hv₁₂
  obtain ⟨hsame, -, hbands⟩ := Lends.commute h₁.lends hlends₁₂ hlends₂ h₂₁.lends hmeters₁ hmeters₂
    hloan hv₁₂ hv₂₁
  have hslot₁₂ : led₁₂.slot = led.slot := h₁₂.transfers.slot.trans h₁.transfers.slot
  have hslot₂₁ : led₂₁.slot = led.slot := h₂₁.transfers.slot.trans h₂.transfers.slot
  refine Ledger.eq_of_accts (hslot₁₂.trans hslot₂₁.symm) fun k => ?_
  by_cases hP : k = accs₁.pool
  · have hp₁₂ := h₁₂.step.after.1
    rw [← hpool] at hp₁₂
    rw [hP, hp₁₂, h₂₁.step.after.1, show p₁₂ = p₂₁ from hsame]
  by_cases hk₁ : k = accs₁.loan
  · rw [hk₁, LoanMade.keeps hpool hloan h₁ h₁₂, h₂₁.account]
  by_cases hk₂ : k = accs₂.loan
  · rw [hk₂, LoanMade.keeps hpool.symm hloan.symm h₂ h₂₁, h₁₂.account]
  obtain ⟨n₁, hcount₁, -⟩ := h₁.lends.band
  obtain ⟨n₂, hcount₁₂, -⟩ := hlends₁₂.band
  have hcount : led₁₂.bandCount rt accs₁.pool = setBandCount (setBandCount
      (led.bandCount rt accs₁.pool) e₂₁.loan.triggerDirection e₂₁.loan.bandId n₁)
      e₁₂.loan.triggerDirection e₁₂.loan.bandId n₂ :=
    hcount₁₂.trans (congrArg (setBandCount · _ _ n₂) hcount₁)
  have hband : ∀ d b n, led₁₂.bandCount rt accs₁.pool d b = some n →
      led₁₂.accts (bandKey rt accs₁.pool d b) = led₂₁.accts (bandKey rt accs₁.pool d b) :=
    fun d b n hn => hr₁₂.sound.filed.band_unique hr₂₁.sound.filed hn
      ((congrFun (congrFun hbands d) b).symm.trans hn)
  by_cases hb₁ : k = accs₁.band
  · rw [hb₁, ← h₁.band]
    by_cases hshared : e₂₁.loan.triggerDirection = e₁₂.loan.triggerDirection ∧
        e₂₁.loan.bandId = e₁₂.loan.bandId
    · exact hband _ _ n₂ (by rw [hcount, setBandCount, if_pos hshared])
    · exact hband _ _ n₁ (by simp only [hcount, setBandCount, if_neg hshared, and_self, if_true])
  by_cases hb₂ : k = accs₂.band
  · rw [hb₂, ← h₁₂.band, ← hpool]
    exact hband _ _ n₂ (by simp only [hcount, setBandCount, and_self, if_true])
  obtain ⟨hshape₁₂, hfixed₁₂⟩ := h₁.elsewhere h₁₂ hP (hpool ▸ hP) hk₁ hk₂ hb₁ hb₂
  obtain ⟨hshape₂₁, hfixed₂₁⟩ := h₂.elsewhere h₂₁ (hpool ▸ hP) hP hk₂ hk₁ hb₂ hb₁
  by_cases htoken : ∃ t, (led.accts k).data = .token t
  · obtain ⟨t, ht⟩ := htoken
    have hk : led.accts k = ⟨(led.accts k).owner, .token t⟩ := by rw [← ht]
    rw [hk] at hshape₁₂ hshape₂₁
    refine hshape₁₂.eq_of_balance hshape₂₁ ?_ ?_
    · zify
      rw [h₁₂.transfers.balance_cast, h₁.transfers.balance_cast, h₂₁.transfers.balance_cast,
        h₂.transfers.balance_cast]
      ring
    · exact LoanMade.allowance_comm h₁ h₁₂ h₂ h₂₁ hP (hpool ▸ hP) hk₁ hk₂ hb₁ hb₂
  · rw [not_exists] at htoken
    rw [hfixed₁₂ htoken, hfixed₂₁ htoken]

namespace Sandbox

/-- A second loan in the band of the first, and the repayment of the first. -/
def second : Instruction := .openLoan (loanAccs 1 0 61) 0 500000 50000 1

/-- The repayment of the first loan. -/
def first : Instruction := .repayLoan (loanAccs 0 0 61)

end Sandbox

/-- The band is emptied and filled again in one order, and not in the other. -/
theorem loans_commute_lent : ∃ (led₁ led₂ led' : Ledger) (es₁ es₁₂ es₂ es₂₁ : List Event),
    processInstruction sandbox Sandbox.second (Sandbox.after Sandbox.lent) = .ok (led₁, es₁) ∧
      processInstruction sandbox Sandbox.first led₁ = .ok (led', es₁₂) ∧
      processInstruction sandbox Sandbox.first (Sandbox.after Sandbox.lent) = .ok (led₂, es₂) ∧
      processInstruction sandbox Sandbox.second led₂ = .ok (led', es₂₁) := by
  obtain ⟨⟨led₁₂, es₁₂⟩, hboth₁₂⟩ := Checked.exists_of_isOk (x := (processInstruction sandbox
    Sandbox.second (Sandbox.after Sandbox.lent) >>= fun o =>
      processInstruction sandbox Sandbox.first o.1)) (by decide +kernel)
  obtain ⟨⟨led₂₁, es₂₁⟩, hboth₂₁⟩ := Checked.exists_of_isOk (x := (processInstruction sandbox
    Sandbox.first (Sandbox.after Sandbox.lent) >>= fun o =>
      processInstruction sandbox Sandbox.second o.1)) (by decide +kernel)
  obtain ⟨⟨led₁, es₁⟩, hrun₁, hrun₁₂⟩ := Checked.bind_eq_ok.mp hboth₁₂
  obtain ⟨⟨led₂, es₂⟩, hrun₂, hrun₂₁⟩ := Checked.bind_eq_ok.mp hboth₂₁
  obtain rfl : led₁₂ = led₂₁ := loans_commute (Sandbox.after_reachable Sandbox.lent) rfl rfl
    (Sandbox.loanAccs_user 1 0 61) (Sandbox.loanAccs_user 0 0 61) rfl (by decide)
    hrun₁ hrun₁₂ hrun₂ hrun₂₁
  exact ⟨led₁, led₂, led₁₂, es₁, es₁₂, es₂, es₂₁, hrun₁, hrun₁₂, hrun₂, hrun₂₁⟩

end ChiefLiquidity
