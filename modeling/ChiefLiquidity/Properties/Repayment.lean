import ChiefLiquidity.Properties.Books
import ChiefLiquidity.Properties.Interest
import ChiefLiquidity.Refinement.Acceptance

/-!
# Borrowers get their collateral back

A borrower who holds what is owed on a loan can repay it at any time, whatever has happened to the
pool since: the totals, the count of the band and the number of open loans all contain the loan,
and the vault contains its collateral.

## What others can do

Between opening and repaying, others can trade, borrow, repay, add and remove liquidity, claim fees
and send tokens. Nobody can remove the loan from the totals or its band from under it, take the
collateral out of the vault, or move the record. All of this is in the invariants, and each check of
the instruction is one of their consequences.

What the borrower has to bring is theirs to bring: a signature, token accounts that the token
program will move tokens into and out of, and what is owed. That an owed amount fits 64 bits is a
condition, as interest can grow past it.

## Main definitions

* `Ledger.owedNow` — what is owed on a loan in the present slot
* `GivesBack` — what a repayment has to do

## Main results

* `processRepayLoan_accepted` — the repayment is accepted
* `collateral_always_returned` — and what it does
-/

namespace ChiefLiquidity

open Ledger Market

variable {rt : Runtime} {led led' : Ledger} {P k : Pubkey} {p q : Pool} {l : Loan}
  {S : Finset Pubkey} {accs : LoanAccounts} {decimals : Side → ℕ} {owed : ℕ}

/-- What is owed on a loan in the present slot, as `RepayLoan` computes it. -/
def Ledger.owedNow (led : Ledger) (p : Pool) (l : Loan) : Result ℕ := do
  let pool ← p.bumpIndexes (led.balance p.vaultA) (led.balance p.vaultB) led.slot
  let curIndex ← pool.borrowIndexForDebtSide l.sides
  l.owed curIndex

theorem Ledger.owedNow_eq_ok : led.owedNow p l = .ok owed ↔
    ∃ q, p.bumpIndexes (led.balance p.vaultA) (led.balance p.vaultB) led.slot = .ok q ∧
      ∃ index, q.borrowIndexForDebtSide l.sides = .ok index ∧ l.owed index = .ok owed := by
  simp only [owedNow, Checked.bind_eq_ok]

/-- Accrual never fails, so what is owed is always defined. -/
theorem owedNow_ok (h : Reachable rt led) (hp : led.HasPool rt P p)
    (hl : led.openLoan rt P k = some l) : ∃ owed, led.owedNow p l = .ok owed := by
  obtain ⟨S, hv⟩ := h.sound.valid P p hp
  have hmetered := h.sound.metered P p hp
  have hw := h.sound.filed.wired P p hp
  obtain ⟨-, -, q, hbump⟩ := hmetered.accrues hv hw.real_lt led.slot
  obtain ⟨s, _, hs, -⟩ := hv.indexed.sound k l hl
  have haccrued : (led.market rt P p).Accrued q := ⟨hbump⟩
  have hle := haccrued.le_index hmetered s.debtSide
  have hcap := haccrued.index_le hmetered s.debtSide
  refine ⟨_, owedNow_eq_ok.mpr ⟨q, hbump, q.index s.debtSide, ?_, hmetered.owed_ok hl hs hle hcap⟩⟩
  rw [hs]
  cases s <;> rfl

/-! ### Acceptance -/

/-- The bit of a band on the scale can be cleared. -/
theorem Pool.unmarkBand_ok {d : TriggerDirection} {n b : ℕ} (hb : b ≤ maxBandId) :
    ∃ p', p.unmarkBand n d.toU8 b = .ok p' := by
  rw [unmarkBand]
  split
  · rw [clearBand, bandBitmap_toU8, Checked.ok_bind, bitmapClear, dif_neg (not_lt.mpr hb)]
    exact ⟨_, rfl⟩
  · exact ⟨_, rfl⟩

/-- An open loan is counted by its band. -/
theorem Market.Valid.band_of_open {m : Market} (hv : m.Valid S) (hl : m.loans k = some l) :
    ∃ d : TriggerDirection, l.triggerDirection = d.toU8 ∧ l.bandId ≤ maxBandId ∧
      ∃ n, m.bands d.toU8 l.bandId = some (n + 1) := by
  obtain ⟨_, d, -, hd, -⟩ := hv.indexed.sound k l hl
  have hpos : 0 < m.members S d l.bandId :=
    (KeyedSum.total_pos_iff hv.booked.domain).mpr ⟨k, l, hl, Loan.inBand_pos.mpr ⟨hd, rfl⟩⟩
  obtain ⟨n, hn⟩ := Option.isSome_iff_exists.mp (hv.indexed.allocated d _ hpos)
  obtain ⟨heq, -⟩ := hv.indexed.count d _ _ hn
  exact ⟨d, hd, hv.indexed.bandId_le k l hl, n - 1, by rw [hn]; congr 1; omega⟩

/-- **A repayment is accepted** when the borrower holds what is owed. -/
theorem processRepayLoan_accepted (h : Reachable rt led) (hsig : ¬ rt.IsPda accs.user)
    (hsigned : accs.userIsSigner = true) (hp : led.HasPool rt accs.pool p)
    (hacc : p.matchesAccounts accs.toPoolAccounts = true)
    (hF : accs.Funded rt led accs.user decimals)
    (hl : led.openLoan rt accs.pool accs.loan = some l) (hborrower : l.borrower = accs.user)
    (hkey : bandKey rt accs.pool l.triggerDirection l.bandId = accs.band)
    (howed : led.owedNow p l = .ok owed) (hfits : owed < 2 ^ 64)
    (hholds : ∀ s : LoanSides, l.sides = s.toU8 → owed ≤ led.balance (accs.userToken s.debtSide)) :
    ∃ outcome, processRepayLoan rt accs led = .ok outcome := by
  have hfiled := h.sound.filed
  obtain ⟨S, hv⟩ := h.sound.valid _ _ hp
  have hw := hfiled.wired _ _ hp
  obtain ⟨s, _, hsides, -⟩ := hv.indexed.sound _ l hl
  obtain ⟨d, hd, hidle, n, hn⟩ := hv.band_of_open hl
  obtain ⟨hloan, hinit, hopen, hpool⟩ := openLoan_eq_some.mp hl
  obtain ⟨x, hband, hinitb, hpoolb, hdirb, hidb, hcount⟩ := bandCount_eq_some.mp hn
  rw [← hd, hkey] at hband
  obtain ⟨q, hbump, index, hindex, howed⟩ := owedNow_eq_ok.mp howed
  have haccrued : (led.market rt accs.pool p).Accrued q := ⟨hbump⟩
  obtain ⟨q', hsettle⟩ := haccrued.can_settle hv hl hsides
  obtain ⟨hvault, -⟩ := Pool.matchesAccounts_iff.mp hacc
  have hholder : accs.user ≠ accs.pool := fun heq => hsig (heq ▸ hw.pda)
  -- the vault has the collateral, before and after the payment in
  have hcoll : l.collateralAmount ≤ led.balance (accs.vault s.collateralSide) := by
    have hle := KeyedSum.le_total (w := Loan.collateralFor s) hv.booked.domain hl
    rw [← hv.booked.collateral, Loan.collateralFor, if_pos hsides] at hle
    rw [← hvault]
    exact hle.trans ((Nat.le_add_right _ _).trans (hv.solvent s.collateralSide))
  have hcollfits : l.collateralAmount < 2 ^ 64 := by
    rw [← hvault] at hcoll
    exact hcoll.trans_lt (hw.real_lt s.collateralSide)
  obtain ⟨led₁, hin⟩ := payIn_accepted hF hw hacc rfl hsigned (hholds s hsides)
  obtain ⟨hmove, hbal, -⟩ := payIn_eq_ok hw hacc hsig hin
  have hcoll₁ : l.collateralAmount ≤ led₁.balance (accs.vault s.collateralSide) := by
    refine hcoll.trans ?_
    have := hbal s.collateralSide
    rw [hvault] at this
    omega
  obtain ⟨led₂, hout⟩ := payOut_accepted (q := q) (hF.payIn hw hacc hholder hin)
    (hw.touched hmove.touched rfl) hacc (signsFor_accepted hw haccrued.terms) hcoll₁
  obtain ⟨q'', hunmark⟩ := (q'.stamp led₂.slot).unmarkBand_ok (d := d) (n := n) hidle
  simp only [processRepayLoan, require_of hsigned, validate_accepted hF hp,
    require_of (And.intro (congrArg Account.owner hloan) (congrArg Account.owner hband)),
    loadPool_accepted hacc hp, loadLoan_eq_ok.mpr (congrArg Account.data hloan), require_of hinit,
    require_of hopen, require_of (And.intro hpool hborrower),
    loadBand_eq_ok.mpr (congrArg Account.data hband), Checked.ok_bind]
  rw [require_of ⟨hinitb, hpoolb, hidb, hdirb.trans hd.symm⟩, Checked.ok_bind,
    require_of (show (rt.findProgramAddress (.band accs.pool l.triggerDirection l.bandId)).1 =
      accs.band from hkey)]
  simp only [readVaults_accepted hw hacc, hbump, hindex, howed, fits_of_lt hfits,
    LoanSides.fromU8_eq_ok.mpr hsides, fits_of_lt hcollfits, readDecimals_accepted hF, hin, hout,
    hsettle, Checked.ok_bind]
  rw [hcount, hdirb, hidb, checkedSub_of_le (Nat.le_add_left 1 n), Checked.ok_bind,
    Nat.add_sub_cancel, hunmark]
  exact ⟨_, rfl⟩

/-! ### What it does -/

/-- A repayment moves what is owed into the debt vault and the collateral out of its vault, and
takes exactly the loan out of the totals, out of its band, and out of the open loans. -/
structure GivesBack (rt : Runtime) (accs : LoanAccounts) (led led' : Ledger) (p p' : Pool)
    (l : Loan) (s : LoanSides) (owed : ℕ) : Prop where
  debtVault : led'.balance (p.vault s.debtSide) = led.balance (p.vault s.debtSide) + owed
  debtUser : led'.balance (accs.userToken s.debtSide) + owed =
    led.balance (accs.userToken s.debtSide)
  collateralVault : led'.balance (p.vault s.collateralSide) + l.collateralAmount =
    led.balance (p.vault s.collateralSide)
  collateralUser : led'.balance (accs.userToken s.collateralSide) =
    led.balance (accs.userToken s.collateralSide) + l.collateralAmount
  collateral : ∀ x, p'.collateral x + (if x = s.collateralSide then l.collateralAmount else 0) =
    p.collateral x
  debt : ∀ x, p'.debt x + (if x = s.debtSide then l.debtPrincipal else 0) = p.debt x
  openLoans : p'.openLoans + 1 = p.openLoans
  band : ∃ n, led.bandCount rt accs.pool l.triggerDirection l.bandId = some (n + 1) ∧
    led'.bandCount rt accs.pool =
      setBandCount (led.bandCount rt accs.pool) l.triggerDirection l.bandId n
  loans : led'.openLoan rt accs.pool = KeyedSum.without {accs.loan} (led.openLoan rt accs.pool)

/-- A repayment to the borrower's own accounts gives back. -/
theorem LoanRepaid.givesBack {events : List Event} {p' : Pool} {s : LoanSides}
    (hsound : Sound rt led) (hsig : ¬ rt.IsPda accs.user)
    (hF : accs.Funded rt led accs.user decimals)
    (hr : LoanRepaid rt accs led led' events p p' q l s owed) :
    GivesBack rt accs led led' p p' l s owed := by
  have hp := hr.step.before
  obtain ⟨S, hv⟩ := hsound.valid _ _ hp
  have hw := hsound.filed.wired _ _ hp
  have hrepaid := hr.repay.repaid hv
  obtain ⟨hvault, -⟩ := Pool.matchesAccounts_iff.mp hr.accounts
  have hholder : accs.user ≠ accs.pool := fun heq => hsig (heq ▸ hw.pda)
  have huser := hF.userToken_ne hw hr.accounts hholder
  have hsides := debtSide_ne_collateralSide s
  have husers := hF.userToken_side_ne hw hr.accounts hsides
  have hvaults : accs.vault s.debtSide ≠ accs.vault s.collateralSide := by
    rw [← hvault, ← hvault]
    exact hw.vault_ne hsides
  have hbal := hr.transfers.balance_cast
  obtain ⟨n, _, hn, -, hafter⟩ := hr.repay.after
  refine ⟨?_, ?_, ?_, ?_, hrepaid.collateral, hrepaid.debt, hrepaid.openLoans,
    ⟨n, hn, congrArg Market.bands hafter⟩, hrepaid.loans⟩
  · have := hbal (accs.vault s.debtSide)
    simp only [(huser _ _).symm, hvaults, if_true, if_false] at this
    rw [hvault]
    omega
  · have := hbal (accs.userToken s.debtSide)
    simp only [huser, husers, if_true, if_false] at this
    omega
  · have := hbal (accs.vault s.collateralSide)
    simp only [(huser _ _).symm, hvaults.symm, if_true, if_false] at this
    rw [hvault]
    omega
  · have := hbal (accs.userToken s.collateralSide)
    simp only [huser, husers.symm, if_true, if_false] at this
    omega

/-- **Borrowers get their collateral back.** On every open loan what is owed is defined, and while
it is a 64-bit word a borrower who holds it can repay, into accounts that are in order. The
repayment gives the collateral of the loan back, and that is what was posted when it was opened. -/
theorem collateral_always_returned (h : Reachable rt led) (hsig : ¬ rt.IsPda accs.user)
    (hsigned : accs.userIsSigner = true) (hp : led.HasPool rt accs.pool p)
    (hacc : p.matchesAccounts accs.toPoolAccounts = true)
    (hF : accs.Funded rt led accs.user decimals)
    (hl : led.openLoan rt accs.pool accs.loan = some l) (hborrower : l.borrower = accs.user)
    (hkey : bandKey rt accs.pool l.triggerDirection l.bandId = accs.band) :
    (∃ (s : LoanSides) (owed : ℕ), l.sides = s.toU8 ∧ led.owedNow p l = .ok owed ∧
      (owed < 2 ^ 64 → owed ≤ led.balance (accs.userToken s.debtSide) →
        ∃ led' events p', processRepayLoan rt accs led = .ok (led', events) ∧
          led'.HasPool rt accs.pool p' ∧ GivesBack rt accs led led' p p' l s owed)) ∧
    ∀ (led₀ led₁ : Ledger) (accs₀ : LoanAccounts) (sidesByte c d nonce : ℕ) (events₀ : List Event),
      Reachable rt led₀ → ¬ rt.IsPda accs₀.user → accs₀.pool = accs.pool →
      accs₀.loan = accs.loan →
      processOpenLoan rt accs₀ sidesByte c d nonce led₀ = .ok (led₁, events₀) →
      Relation.ReflTransGen (WhileOpen rt accs.pool accs.loan) led₁ led →
        l.collateralAmount = c := by
  refine ⟨?_, fun led₀ led₁ accs₀ sidesByte c d nonce events₀ h₀ hsig₀ hpool hloan hi hrun => ?_⟩
  · obtain ⟨S, hv⟩ := h.sound.valid _ _ hp
    obtain ⟨s, _, hsides, -⟩ := hv.indexed.sound _ l hl
    obtain ⟨owed, howed⟩ := owedNow_ok h hp hl
    refine ⟨s, owed, hsides, howed, fun hfits hholds => ?_⟩
    have hholds' : ∀ t : LoanSides, l.sides = t.toU8 →
        owed ≤ led.balance (accs.userToken t.debtSide) := by
      intro t ht
      obtain rfl := LoanSides.toU8_injective (hsides.symm.trans ht)
      exact hholds
    obtain ⟨⟨led', events⟩, hi⟩ := processRepayLoan_accepted h hsig hsigned hp hacc hF hl hborrower
      hkey howed hfits hholds'
    obtain ⟨_, p', q, l', t, owed', hr⟩ := processRepayLoan_repaid h.sound.filed hsig hi
    obtain rfl := hr.step.before.unique hp
    obtain rfl := Option.some.inj (hl.symm.trans hr.repay.loan)
    obtain rfl := LoanSides.toU8_injective (hsides.symm.trans hr.repay.sides)
    obtain rfl : owed = owed' := Except.ok.inj
      (howed.symm.trans (owedNow_eq_ok.mpr ⟨q, hr.repay.accrued.bump, hr.repay.interest⟩))
    exact ⟨led', events, p', hi, hr.step.after, hr.givesBack h.sound hsig hF⟩
  · obtain ⟨p₀, p₁, q, l₀, s, ho⟩ := processOpenLoan_opened h₀.sound.filed hsig₀ hi
    obtain ⟨S, hv⟩ := h₀.sound.valid _ _ ho.step.before
    have h₁ : Reachable rt led₁ := h₀.step (.instruction (.openLoan accs₀ sidesByte c d nonce)
      (fun k hk => Option.mem_some.mp hk ▸ hsig₀) hi)
    have hl₁ : led₁.openLoan rt accs.pool accs.loan = some l₀ := by
      have hloans := congrFun (ho.borrow.borrowed hv).loans accs₀.loan
      rw [Function.update_self, hpool, hloan] at hloans
      exact hloans
    have hp₁ := ho.step.after
    rw [hpool] at hp₁
    obtain rfl := Option.some.inj (hl.symm.trans (openLoan_eq_of_run h₁ hp₁ hl₁ hrun))
    obtain ⟨_, _, _, rfl⟩ := ho.loan
    rfl

namespace Sandbox

/-- Whether the token accounts of an instruction are in order. -/
def isFunded (led : Ledger) (accs : PoolAccounts) (holder : Pubkey) : Bool :=
  [Side.a, Side.b].all fun x =>
    sandbox.isValidTokenProgram (accs.tokenProgram x) &&
    (match led.accts (accs.mint x) with
      | ⟨o, .mint m⟩ => o = accs.tokenProgram x ∧ m.decimals = 6
      | _ => false) &&
    (match led.accts (accs.vault x) with
      | ⟨o, .token t⟩ => o = accs.tokenProgram x ∧ t.isFrozen = false
      | _ => false) &&
    (match led.accts (accs.userToken x) with
      | ⟨o, .token t⟩ => o = accs.tokenProgram x ∧ t.mint = accs.mint x ∧ t.owner = holder ∧
          t.delegate ≠ some holder ∧ t.isFrozen = false
      | _ => false) &&
    led.balance (accs.vault x) + led.balance (accs.userToken x) < 2 ^ 64

theorem funded {led : Ledger} {accs : PoolAccounts} {holder : Pubkey}
    (h : isFunded led accs holder = true) : accs.Funded sandbox led holder fun _ => 6 := by
  have hside : ∀ x, sandbox.isValidTokenProgram (accs.tokenProgram x) = true ∧
      (∃ m, led.accts (accs.mint x) = ⟨accs.tokenProgram x, .mint m⟩ ∧ m.decimals = 6) ∧
      (∃ t, led.accts (accs.vault x) = ⟨accs.tokenProgram x, .token t⟩ ∧ t.isFrozen = false) ∧
      (∃ t, led.accts (accs.userToken x) = ⟨accs.tokenProgram x, .token t⟩ ∧
        t.mint = accs.mint x ∧ t.owner = holder ∧ t.delegate ≠ some holder ∧
        t.isFrozen = false) ∧
      led.balance (accs.vault x) + led.balance (accs.userToken x) < 2 ^ 64 := by
    intro x
    have hx := List.all_eq_true.mp h x (by cases x <;> simp)
    simp only [Bool.and_eq_true, decide_eq_true_eq] at hx
    obtain ⟨⟨⟨⟨hprogram, hmint⟩, hvault⟩, huser⟩, hroom⟩ := hx
    refine ⟨hprogram, ?_, ?_, ?_, hroom⟩
    · split at hmint
      · rename_i o m hk
        obtain ⟨rfl, hdec⟩ := of_decide_eq_true hmint
        exact ⟨m, hk, hdec⟩
      · cases hmint
    · split at hvault
      · rename_i o t hk
        obtain ⟨rfl, hfrozen⟩ := of_decide_eq_true hvault
        exact ⟨t, hk, hfrozen⟩
      · cases hvault
    · split at huser
      · rename_i o t hk
        obtain ⟨rfl, hm, ho, hdel, hfrozen⟩ := of_decide_eq_true huser
        exact ⟨t, hk, hm, ho, hdel, hfrozen⟩
      · cases huser
  exact ⟨fun x => (hside x).1, fun x => (hside x).2.1, fun x => (hside x).2.2.1,
    fun x => (hside x).2.2.2.1, fun x => (hside x).2.2.2.2⟩

end Sandbox

theorem collateral_always_returned_lent : ∃ (led' : Ledger) (p' : Pool) (l : Loan),
    led'.HasPool sandbox Sandbox.pool p' ∧
      GivesBack sandbox (Sandbox.loanAccs 0 0 61) (Sandbox.after Sandbox.lent) led'
        (Sandbox.poolState (Sandbox.after Sandbox.lent)) p' l .collateralA 50000 := by
  obtain ⟨l, hl, htest⟩ := (Option.any_eq_true _ _).mp
    (show ((Sandbox.after Sandbox.lent).openLoan sandbox Sandbox.pool (Sandbox.loan 0)).any
      (fun l => l.borrower = Sandbox.user ∧
        bandKey sandbox Sandbox.pool l.triggerDirection l.bandId = Sandbox.band 0 61 ∧
          l.sides = 0 ∧ ((Sandbox.after Sandbox.lent).owedNow
            (Sandbox.poolState (Sandbox.after Sandbox.lent)) l).toOption = some 50000) = true by
      decide +kernel)
  obtain ⟨hborrower, hkey, hsides, howed⟩ := of_decide_eq_true htest
  obtain ⟨⟨s, owed, hs, howed', hreturns⟩, -⟩ := collateral_always_returned
    (Sandbox.after_reachable Sandbox.lent) (Sandbox.loanAccs_user 0 0 61) rfl
    (Sandbox.hasPool (by decide +kernel)) (by decide +kernel) (Sandbox.funded (by decide +kernel))
    hl hborrower hkey
  obtain rfl : s = .collateralA := LoanSides.toU8_injective (hs.symm.trans hsides)
  rw [howed'] at howed
  obtain rfl : owed = 50000 := Option.some.inj howed
  obtain ⟨led', _, p', -, hp', hgives⟩ := hreturns (by norm_num) (by decide +kernel)
  exact ⟨led', p', l, hp', hgives⟩

end ChiefLiquidity
