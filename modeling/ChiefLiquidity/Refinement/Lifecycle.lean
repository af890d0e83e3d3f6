import ChiefLiquidity.Refinement.Postings

/-!
# The lives of records

A pool is never closed and its terms are never changed; a band is never closed and never moved; a
loan is opened once, stays as it is while it is open, and leaves through its borrower or through a
swap. All of it is read off what a write may do to an account.

## Fates

After an instruction a live loan account is as it was, or repaid by its borrower, or liquidated by a
swap of its pool, or, if it was liquidated before, claimed by its borrower. These are the
constructors of `LoanFate`. A repaid loan leaves a zeroed account and a liquidated one a tombstone
with its identity and no amounts, so the two can be told apart by anybody.

A blank account at an address of the program may become a loan again, with another life. The nonce
in the address lets a borrower have several loans, and is free again once the account is gone.

## Main definitions

* `LoanFate` — what an instruction may leave of a live loan

## Main results

* `processInstruction_loan` — what becomes of a live loan
* `processInstruction_loan_inv` — where a live loan comes from
* `processInstruction_liquidates` — which loans an instruction can liquidate
* `processInstruction_pool`, `processInstruction_band` — what stays of pools and bands
-/

namespace ChiefLiquidity

open Relation

/-- What an instruction may leave of the account of a live loan. -/
inductive LoanFate (i : Instruction) (slot : ℕ) (k o : Pubkey) (l : Loan) : Account → Prop where
  | kept : LoanFate i slot k o l ⟨o, .loan l⟩
  | repaid {accs} : i = .repayLoan accs → k = accs.loan → l.isOpen → l.pool = accs.pool →
      l.borrower = accs.user → LoanFate i slot k o l ⟨o, .loan Loan.zeroed⟩
  | liquidated {accs amountIn minOut aToB bandBoundary counts} :
      i = .swap accs amountIn minOut aToB bandBoundary counts → k ∈ accs.tail → l.isOpen →
      l.pool = accs.pool → LoanFate i slot k o l ⟨o, .loan (l.tombstone slot)⟩
  | claimed {accs} : i = .claimLiquidatedRent accs → k = accs.loan →
      l.status = Loan.statusLiquidated → l.borrower = accs.borrower →
      LoanFate i slot k o l ⟨o, .loan Loan.zeroed⟩

section Steps

variable {rt : Runtime} {i : Instruction} {slot : ℕ} {k o : Pubkey} {a b : Account} {l l' : Loan}
  {p : Pool} {x : LoanIndexBand} {d : AccountData}

/-- The account of a record keeps its kind, and changes by a rewrite or not at all. -/
theorem AccountStep.of_record (h : AccountStep rt i slot k ⟨o, d⟩ b) (hplain : d.Plain)
    (hne : d ≠ .empty) : b = ⟨o, d⟩ ∨ ∃ d', b = ⟨o, d'⟩ ∧ i.Rewrites slot k d d' := by
  generalize ha : (⟨o, d⟩ : Account) = a at h
  cases h with
  | token hshape =>
    cases hshape with
    | same => exact .inl rfl
    | token => cases ha; exact hplain.elim
    | mint => cases ha; exact hplain.elim
  | create => cases ha; exact absurd rfl hne
  | record hrewrites => cases ha; exact .inr ⟨_, rfl, hrewrites⟩

/-- A zeroed loan account stays zeroed, but for an `OpenLoan`. -/
theorem AccountStep.zeroed (h : AccountStep rt i slot k ⟨o, .loan Loan.zeroed⟩ b)
    (hi : ∀ accs s c d n, i ≠ .openLoan accs s c d n) : b = ⟨o, .loan Loan.zeroed⟩ := by
  rcases h.of_record trivial (by simp) with h | ⟨d', rfl, hrewrites⟩
  · exact h
  · generalize hd : AccountData.loan Loan.zeroed = d at hrewrites
    cases hrewrites with
    | newLoan => exact absurd rfl (hi _ _ _ _ _)
    | repay hinit =>
      cases hd
      exact absurd hinit (by decide)
    | liquidate _ hinit _ _ hcase =>
      cases hd
      rcases hcase with rfl | heq
      · exact absurd hinit (by decide)
      · have hdisc := congrArg Loan.isInitialized heq
        exact absurd (hdisc.trans hinit) (by decide)
    | claimRent hinit =>
      cases hd
      exact absurd hinit (by decide)
    | _ => cases hd

/-- One more write of the same instruction leaves a loan to the same fates. -/
theorem LoanFate.step (hl : l.isInitialized) (h : LoanFate i slot k o l a)
    (hstep : AccountStep rt i slot k a b) : LoanFate i slot k o l b := by
  cases h with
  | kept =>
    rcases hstep.of_record trivial (by simp) with rfl | ⟨d', rfl, hrewrites⟩
    · exact .kept
    · generalize hd : AccountData.loan l = d at hrewrites
      cases hrewrites with
      | newLoan =>
        cases hd
        exact absurd hl (by decide)
      | repay _ hopen hpool hborrower =>
        cases hd
        exact .repaid rfl rfl hopen hpool hborrower
      | liquidate hmem _ hopen hpool hcase =>
        cases hd
        rcases hcase with rfl | rfl
        · exact .liquidated rfl hmem hopen hpool
        · exact .kept
      | claimRent _ hstatus hborrower =>
        cases hd
        exact .claimed rfl rfl hstatus hborrower
      | _ => cases hd
  | repaid hi hk hopen hpool hborrower =>
    rw [hstep.zeroed (by simp [hi])]
    exact .repaid hi hk hopen hpool hborrower
  | claimed hi hk hstatus hborrower =>
    rw [hstep.zeroed (by simp [hi])]
    exact .claimed hi hk hstatus hborrower
  | liquidated hi hk hopen hpool =>
    subst hi
    rcases hstep.of_record trivial (by simp) with rfl | ⟨d', rfl, hrewrites⟩
    · exact .liquidated rfl hk hopen hpool
    · generalize hd : AccountData.loan (l.tombstone slot) = d at hrewrites
      cases hrewrites with
      | liquidate _ _ hopen' _ hcase =>
        cases hd
        rcases hcase with rfl | heq
        · cases hopen'
        · rw [← heq]
          exact .liquidated rfl hk hopen hpool
      | _ => cases hd

end Steps

section Instructions

variable {rt : Runtime} {i : Instruction} {led led' : Ledger} {events : List Event}
  {k o : Pubkey} {l : Loan} {p : Pool} {x : LoanIndexBand}

/-- **What becomes of a live loan.** -/
theorem processInstruction_loan (hk : led.accts k = ⟨o, .loan l⟩) (hl : l.isInitialized)
    (h : processInstruction rt i led = .ok (led', events)) :
    LoanFate i led.slot k o l (led'.accts k) := by
  have hsteps := processInstruction_account h k
  rw [hk] at hsteps
  clear h
  generalize led'.accts k = b at hsteps
  induction hsteps with
  | refl => exact .kept
  | tail _ hstep ih => exact ih.step hl hstep

/-- **Only swaps liquidate**, and only what they are supplied with. -/
theorem processInstruction_liquidates {P : Pubkey} (hk : Liquidates rt P led led' k)
    (h : processInstruction rt i led = .ok (led', events)) :
    ∃ accs amountIn minOut aToB bandBoundary counts,
      i = .swap accs amountIn minOut aToB bandBoundary counts ∧ k ∈ accs.tail := by
  obtain ⟨⟨l, hl⟩, l', hk', hstatus⟩ := hk
  obtain ⟨hloan, hinit, hopen, -⟩ := Ledger.openLoan_eq_some.mp hl
  have hfate := processInstruction_loan hloan hinit h
  generalize led'.accts k = b at hfate hk'
  cases hfate with
  | kept =>
    obtain rfl : l = l' := by simpa using hk'
    simp [Loan.isOpen, hstatus, Loan.statusLiquidated, Loan.statusOpen] at hopen
  | liquidated hi hmem => exact ⟨_, _, _, _, _, _, hi, hmem⟩
  | repaid | claimed =>
    obtain rfl : Loan.zeroed = l' := by simpa using hk'
    cases hstatus

/-- Loans are opened at unused addresses: an account that carries data, be it a live loan, a
tombstone or zeros, is not opened again. -/
theorem processOpenLoan_unused {accs : LoanAccounts} {sidesByte c d nonce : ℕ}
    (h : processOpenLoan rt accs sidesByte c d nonce led = .ok (led', events)) :
    led.accts accs.loan = .unused := by
  simp only [processOpenLoan, Checked.bind_eq_ok, Prod.exists] at h
  obtain ⟨_, -, _, -, _, -, _, -, _, -, _, _, -, _, -, _, _, -, _, _, -, _, _, -, _, -, _, -, _, -,
    _, -, _, -, _, -, _, -, l₁, hcreate, -⟩ := h
  exact (createPdaAccount_eq_ok.mp hcreate).1

/-- **Where a live loan comes from.** -/
theorem processInstruction_loan_inv (hk : led'.accts k = ⟨o, .loan l⟩) (hl : l.isInitialized)
    (h : processInstruction rt i led = .ok (led', events)) :
    (∃ l₀, led.accts k = ⟨o, .loan l₀⟩ ∧ l₀.isInitialized ∧
        (l = l₀ ∨ l = l₀.tombstone led.slot)) ∨
      ∃ accs s c d n bump index trigger direction bandId, i = .openLoan accs s c d n ∧
        k = accs.loan ∧ led.accts k = .unused ∧
        l = newLoan accs.pool accs.user n bump s c d index trigger direction bandId led.slot := by
  have hsteps := processInstruction_account h k
  have hcases : (∃ l₀, led.accts k = ⟨o, .loan l₀⟩ ∧ l₀.isInitialized ∧
        (l = l₀ ∨ l = l₀.tombstone led.slot)) ∨
      ∃ accs s c d n bump index trigger direction bandId, i = .openLoan accs s c d n ∧
        k = accs.loan ∧
        l = newLoan accs.pool accs.user n bump s c d index trigger direction bandId led.slot := by
    clear h
    generalize led.accts k = a at hsteps ⊢
    generalize led'.accts k = b at hsteps hk
    induction hsteps generalizing l with
    | refl => exact .inl ⟨l, hk, hl, .inl rfl⟩
    | tail _ hstep ih =>
      subst hk
      generalize hc : (⟨o, .loan l⟩ : Account) = c at hstep
      cases hstep with
      | token hshape =>
        cases hshape with
        | same => exact ih hl hc.symm
        | token => cases hc
        | mint => cases hc
      | create hcreates =>
        have hblank := hcreates.blank
        rw [← hc] at hblank
        exact absurd hblank (not_blank_loan hl)
      | record hrewrites =>
        cases hc
        cases hrewrites with
        | newLoan => exact .inr ⟨_, _, _, _, _, _, _, _, _, _, rfl, rfl, rfl⟩
        | repay => exact absurd hl (by decide)
        | claimRent => exact absurd hl (by decide)
        | @liquidate _ _ _ _ _ _ _ l₀ l' _ hinit _ _ hcase =>
          rcases hcase with rfl | rfl
          · rcases ih hinit rfl with ⟨l₁, ha, hl₁, heq⟩ | ⟨_, _, _, _, _, _, _, _, _, _, hi, -⟩
            · refine .inl ⟨l₁, ha, hl₁, .inr ?_⟩
              rcases heq with rfl | rfl
              · rfl
              · rfl
            · cases hi
          · exact ih hl rfl
  refine hcases.imp_right ?_
  rintro ⟨accs, s, c, d, n, bump, index, trigger, direction, bandId, rfl, rfl, rfl⟩
  exact ⟨accs, s, c, d, n, bump, index, trigger, direction, bandId, rfl, rfl,
    processOpenLoan_unused h, rfl⟩

/-- **Pools stay**, on the terms they were made with. -/
theorem processInstruction_pool (hp : led.HasPool rt k p)
    (h : processInstruction rt i led = .ok (led', events)) :
    ∃ p', led'.HasPool rt k p' ∧ p'.terms = p.terms := by
  obtain ⟨hk, hinit⟩ := hp
  have hsteps := processInstruction_account h k
  rw [hk] at hsteps
  clear h
  unfold Ledger.HasPool
  generalize led'.accts k = b at hsteps ⊢
  induction hsteps with
  | refl => exact ⟨p, ⟨rfl, hinit⟩, rfl⟩
  | tail _ hstep ih =>
    obtain ⟨q, ⟨rfl, hq⟩, hterms⟩ := ih
    rcases hstep.of_record trivial (by simp) with rfl | ⟨d', rfl, hrewrites⟩
    · exact ⟨q, ⟨rfl, hq⟩, hterms⟩
    · generalize hd : AccountData.pool q = d at hrewrites
      cases hrewrites with
      | newPool =>
        cases hd
        exact absurd hq (by decide)
      | pool _ hterms' =>
        cases hd
        exact ⟨_, ⟨rfl, (Pool.isInitialized_of_terms hterms').trans hq⟩, hterms'.trans hterms⟩
      | _ => cases hd

/-- **Bands stay**: only their counts change. -/
theorem processInstruction_band (hk : led.accts k = ⟨o, .band x⟩) (hx : x.isInitialized)
    (h : processInstruction rt i led = .ok (led', events)) :
    ∃ n, led'.accts k = ⟨o, .band (x.withCount n)⟩ := by
  have hsteps := processInstruction_account h k
  rw [hk] at hsteps
  clear h
  generalize led'.accts k = b at hsteps
  induction hsteps with
  | refl => exact ⟨x.count, rfl⟩
  | tail _ hstep ih =>
    obtain ⟨n, rfl⟩ := ih
    rcases hstep.of_record trivial (by simp) with rfl | ⟨d', rfl, hrewrites⟩
    · exact ⟨n, rfl⟩
    · generalize hd : AccountData.band (x.withCount n) = d at hrewrites
      cases hrewrites with
      | newBand =>
        have hdisc := congrArg LoanIndexBand.isInitialized (AccountData.band.inj hd)
        exact absurd (hdisc.symm.trans hx) (by decide)
      | band =>
        cases hd
        exact ⟨_, rfl⟩
      | _ => cases hd

end Instructions

end ChiefLiquidity
