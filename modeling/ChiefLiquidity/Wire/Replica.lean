import ChiefLiquidity.Refinement.Postings
import ChiefLiquidity.Wire.Journal

/-!
# What a consumer of the log knows

A consumer that reads the log, and no account, can keep a replica of the books: the pools with their
terms and the fees nobody has claimed yet, and the open loans with theirs. Whatever an accepted
instruction does to the accounts, its events do to the replica.

## What the log is enough for

Every change of a record that the books show is announced by an event with the data that changes. An
opened loan is logged with its terms, a repaid or liquidated one with its address, a swap with the
protocol's share, and a claim with what was paid. So the books can be kept without looking at an
account, and a consumer that has read every line has them exactly.

Balances, totals, indexes and prices are not in the books: the events of liquidity carry amounts,
but interest and transfers from outside leave no line.

## Main definitions

* `Replica`, `Replica.apply` — the books, and what an event does to them
* `Ledger.replica` — the books of a ledger
* `Replica.ofLines` — what a consumer makes of log lines

## Main results

* `processInstruction_replica` — the events of an instruction take the books to those after it
* `Journal.replica` — a consumer that has read every line has the books
-/

namespace ChiefLiquidity

/-! ### Replicas -/

/-- What the log says of a pool. -/
structure PoolEntry where
  mintA : Pubkey
  mintB : Pubkey
  swapFeeBps : ℕ
  protocolFeeBps : ℕ
  liqRatioBps : ℕ
  maxLtvBps : ℕ
  interestBaseBpsPerYear : ℕ
  interestSlope1BpsPerYear : ℕ
  interestSlope2BpsPerYear : ℕ
  interestKinkBps : ℕ
  protocolFeesA : ℕ
  protocolFeesB : ℕ
  deriving DecidableEq, Repr

/-- What the log says of an open loan. -/
structure LoanEntry where
  pool : Pubkey
  borrower : Pubkey
  nonce : ℕ
  sides : ℕ
  collateralAmount : ℕ
  debtAmount : ℕ
  bandId : ℕ
  triggerDirection : ℕ
  triggerPriceWad : ℕ
  deriving DecidableEq, Repr

/-- A line of the books: a pool or an open loan. -/
inductive Entry where
  | pool (e : PoolEntry)
  | loan (e : LoanEntry)
  deriving DecidableEq, Repr

/-- The books, by address. -/
abbrev Replica := Pubkey → Option Entry

/-- A fee comes in on the input side. -/
def Entry.skim (aToB : Bool) (fee : ℕ) : Entry → Entry
  | .pool e =>
    if aToB then .pool { e with protocolFeesA := e.protocolFeesA + fee }
    else .pool { e with protocolFeesB := e.protocolFeesB + fee }
  | e => e

/-- Fees are paid out. -/
def Entry.claim (amountA amountB : ℕ) : Entry → Entry
  | .pool e => .pool { e with
      protocolFeesA := e.protocolFeesA - amountA, protocolFeesB := e.protocolFeesB - amountB }
  | e => e

namespace Replica

/-- What an event does to the books. -/
def apply (r : Replica) : Event → Replica
  | .poolInitialized pool mintA mintB _ swapFeeBps protocolFeeBps liqRatioBps maxLtvBps
      interestBaseBpsPerYear interestSlope1BpsPerYear interestSlope2BpsPerYear interestKinkBps =>
    Function.update r pool (some (.pool { mintA, mintB, swapFeeBps, protocolFeeBps, liqRatioBps
                                          maxLtvBps, interestBaseBpsPerYear
                                          interestSlope1BpsPerYear, interestSlope2BpsPerYear
                                          interestKinkBps, protocolFeesA := 0
                                          protocolFeesB := 0 }))
  | .loanOpened pool loan borrower nonce sides collateralAmount debtAmount bandId triggerDirection
      triggerPriceWad =>
    Function.update r loan (some (.loan { pool, borrower, nonce, sides, collateralAmount, debtAmount
                                          bandId, triggerDirection, triggerPriceWad }))
  | .loanRepaid _ loan .. | .loanLiquidated _ loan .. => Function.update r loan none
  | .swapExecuted pool _ aToB _ _ _ protocolFee =>
    Function.update r pool ((r pool).map (Entry.skim aToB protocolFee))
  | .protocolFeesClaimed pool _ amountA amountB =>
    Function.update r pool ((r pool).map (Entry.claim amountA amountB))
  | .liquidityAdded .. | .liquidityRemoved .. | .liquidatedRentClaimed .. => r

/-- What a consumer makes of log lines, from the first one on. Lines it cannot read it skips. -/
def ofLines [Borsh] (lines : List (List UInt8)) : Replica :=
  (lines.filterMap Event.ofLine).foldl apply fun _ => none

end Replica

/-! ### The books of a ledger -/

/-- What the books say of a pool. -/
def Pool.entry (p : Pool) : PoolEntry where
  mintA := p.mintA
  mintB := p.mintB
  swapFeeBps := p.swapFeeBps
  protocolFeeBps := p.protocolFeeBps
  liqRatioBps := p.liqRatioBps
  maxLtvBps := p.maxLtvBps
  interestBaseBpsPerYear := p.interestBaseBpsPerYear
  interestSlope1BpsPerYear := p.interestSlope1BpsPerYear
  interestSlope2BpsPerYear := p.interestSlope2BpsPerYear
  interestKinkBps := p.interestKinkBps
  protocolFeesA := p.protocolFeesA
  protocolFeesB := p.protocolFeesB

/-- What the books say of an open loan. -/
def Loan.entry (l : Loan) : LoanEntry where
  pool := l.pool
  borrower := l.borrower
  nonce := l.nonce
  sides := l.sides
  collateralAmount := l.collateralAmount
  debtAmount := l.debtPrincipal
  bandId := l.bandId
  triggerDirection := l.triggerDirection
  triggerPriceWad := l.triggerPriceWad

/-- What an account is in the books: a pool, an open loan, or nothing. -/
def Account.entry (rt : Runtime) : Account → Option Entry
  | ⟨o, .pool p⟩ => if o = rt.programId ∧ p.isInitialized then some (.pool p.entry) else none
  | ⟨o, .loan l⟩ =>
    if o = rt.programId ∧ l.isInitialized ∧ l.isOpen then some (.loan l.entry) else none
  | _ => none

/-- The books of a ledger. -/
def Ledger.replica (rt : Runtime) (led : Ledger) : Replica := fun k => (led.accts k).entry rt

section Books

variable {rt : Runtime} {led led' : Ledger} {k P : Pubkey} {p q : Pool} {l : Loan}
  {d : AccountData} {o : Pubkey}

namespace Account

theorem entry_pool (h : p.isInitialized = true) :
    Account.entry rt ⟨rt.programId, .pool p⟩ = some (.pool p.entry) := if_pos ⟨rfl, h⟩

theorem entry_loan (h : l.isInitialized = true) (hopen : l.isOpen = true) :
    Account.entry rt ⟨rt.programId, .loan l⟩ = some (.loan l.entry) := if_pos ⟨rfl, h, hopen⟩

theorem entry_not_open (h : l.isOpen = false) : Account.entry rt ⟨o, .loan l⟩ = none := by
  refine if_neg ?_
  rintro ⟨-, -, hopen⟩
  exact absurd (hopen.symm.trans h) (by decide)

theorem entry_blank (h : d.Blank) : Account.entry rt ⟨o, d⟩ = none := by
  cases d with
  | pool p =>
    refine if_neg ?_
    rintro ⟨-, hinit⟩
    exact absurd (hinit.symm.trans h) (by decide)
  | loan l =>
    refine if_neg ?_
    rintro ⟨-, hinit, -⟩
    exact absurd (hinit.symm.trans h) (by decide)
  | _ => rfl

theorem entry_zeroed : Account.entry rt ⟨o, .loan Loan.zeroed⟩ = none :=
  entry_blank (show Loan.zeroed.isInitialized = false by decide)

end Account

namespace Ledger

theorem replica_setAccount {a : Account} :
    (led.setAccount k a).replica rt = Function.update (led.replica rt) k (a.entry rt) := by
  funext j
  by_cases hj : j = k
  · subst hj
    rw [Function.update_self]
    exact congrArg (Account.entry rt) setAccount_accts_self
  · rw [Function.update_of_ne hj]
    exact congrArg (Account.entry rt) (setAccount_accts_of_ne hj)

theorem replica_setData : (led.setData k d).replica rt =
    Function.update (led.replica rt) k (Account.entry rt ⟨(led.accts k).owner, d⟩) :=
  replica_setAccount

/-- Writing what is in the books already. -/
theorem replica_setData_of_eq (h : Account.entry rt ⟨(led.accts k).owner, d⟩ = led.replica rt k) :
    (led.setData k d).replica rt = led.replica rt := by
  rw [replica_setData, h, Function.update_eq_self]

theorem replica_tokenOnly (h : TokenOnly led led') : led'.replica rt = led.replica rt := by
  funext j
  show (led'.accts j).entry rt = (led.accts j).entry rt
  have hshape := h.accts j
  generalize led.accts j = a at hshape ⊢
  generalize led'.accts j = a' at hshape ⊢
  cases hshape with
  | same => rfl
  | token => rfl
  | mint => rfl

theorem replica_of_hasPool (h : led.HasPool rt k p) : led.replica rt k = some (.pool p.entry) := by
  show (led.accts k).entry rt = _
  rw [h.1]
  exact Account.entry_pool h.2

end Ledger

theorem Pool.Kept.entry (h : p.Kept q) : q.entry = p.entry := by
  have hterms : ∀ p : Pool, p.entry =
      { p.terms.entry with protocolFeesA := p.fees .a, protocolFeesB := p.fees .b } := fun _ => rfl
  rw [hterms q, hterms p, h.terms, h.fees, h.fees]

namespace Ledger

/-- Only accounts of the program are in the books. -/
theorem owner_of_replica {e : Entry} (h : led.replica rt k = some e) :
    (led.accts k).owner = rt.programId := by
  change (led.accts k).entry rt = some e at h
  generalize led.accts k = a at h ⊢
  obtain ⟨o, d⟩ := a
  cases d <;> simp [Account.entry] at h
  · exact h.1.1
  · exact h.1.1

theorem replica_setPool (hk : led.replica rt k = some (.pool p.entry))
    (hinit : p.isInitialized = true) (hq : p.Kept q) :
    (led.setData k (.pool q)).replica rt = led.replica rt := by
  refine replica_setData_of_eq ?_
  rw [owner_of_replica hk, hk, Account.entry_pool (hq.isInitialized.trans hinit), hq.entry]

theorem replica_setBand {b : LoanIndexBand} (hk : led.replica rt k = none) :
    (led.setData k (.band b)).replica rt = led.replica rt := replica_setData_of_eq hk.symm

theorem replica_of_band {b : LoanIndexBand} (h : led.loadBand k = .ok b) :
    led.replica rt k = none := by
  show Account.entry rt (led.accts k) = none
  have hdata := loadBand_eq_ok.mp h
  generalize led.accts k = a at hdata ⊢
  obtain ⟨o, d⟩ := a
  cases hdata
  rfl

theorem replica_of_unused (h : led.accts k = .unused) : led.replica rt k = none := by
  show (led.accts k).entry rt = none
  rw [h]
  rfl

/-- An account that is created is not in the books. -/
theorem replica_setAccount_of_unused {a : Account} (h : led.accts k = .unused)
    (ha : a.entry rt = none) : (led.setAccount k a).replica rt = led.replica rt := by
  rw [replica_setAccount, ha]
  exact Function.update_eq_self_iff.mpr (replica_of_unused h).symm

/-- The pools in the books are the pools. -/
theorem replica_eq_pool {e : PoolEntry} :
    led.replica rt k = some (.pool e) ↔ ∃ p, led.HasPool rt k p ∧ p.entry = e := by
  constructor
  · intro h
    change (led.accts k).entry rt = _ at h
    rcases hk : led.accts k with ⟨o, d⟩
    rw [hk] at h
    cases d with
    | pool p =>
      obtain ⟨⟨rfl, hinit⟩, heq⟩ := Option.ite_none_right_eq_some.mp h
      exact ⟨p, ⟨hk, hinit⟩, Entry.pool.inj (Option.some.inj heq)⟩
    | loan l =>
      obtain ⟨-, heq⟩ := Option.ite_none_right_eq_some.mp h
      cases heq
    | _ => cases h
  · rintro ⟨p, hp, rfl⟩
    exact replica_of_hasPool hp

/-- The loans in the books are the open loans. -/
theorem replica_eq_loan {e : LoanEntry} :
    led.replica rt k = some (.loan e) ↔ ∃ l, led.openLoan rt e.pool k = some l ∧ l.entry = e := by
  constructor
  · intro h
    change (led.accts k).entry rt = _ at h
    rcases hk : led.accts k with ⟨o, d⟩
    rw [hk] at h
    cases d with
    | pool p =>
      obtain ⟨-, heq⟩ := Option.ite_none_right_eq_some.mp h
      cases heq
    | loan l =>
      obtain ⟨⟨rfl, hinit, hopen⟩, heq⟩ := Option.ite_none_right_eq_some.mp h
      obtain rfl := Entry.loan.inj (Option.some.inj heq)
      exact ⟨l, openLoan_eq_some.mpr ⟨hk, hinit, hopen, rfl⟩, rfl⟩
    | _ => cases h
  · rintro ⟨l, hl, rfl⟩
    obtain ⟨hk, hinit, hopen, -⟩ := openLoan_eq_some.mp hl
    show (led.accts k).entry rt = _
    rw [hk, Account.entry_loan hinit hopen]

theorem replica_of_openLoan (h : led.openLoan rt P k = some l) :
    led.replica rt k = some (.loan l.entry) := by
  obtain ⟨-, -, -, rfl⟩ := openLoan_eq_some.mp h
  exact replica_eq_loan.mpr ⟨l, h, rfl⟩

end Ledger

end Books

/-! ### Instructions -/

section Instructions

variable {rt : Runtime} {led led' : Ledger} {events : List Event} {k : Pubkey}

theorem processAddLiquidity_replica {accs : LiquidityAccounts} {maxA maxB minLp : ℕ}
    (h : processAddLiquidity rt accs maxA maxB minLp led = .ok (led', events)) :
    events.foldl Replica.apply (led.replica rt) = led'.replica rt := by
  simp only [processAddLiquidity, Checked.bind_eq_ok, require_eq_ok, exists_const, Prod.exists,
    Checked.pure_eq_ok, Prod.mk.injEq] at h
  obtain ⟨-, _, hvalid, -, p, hload, hlp, decimals, -, decLp, -, supply, -, realA, realB,
    -, q, hbump, accA, accB, -, _, _, _, -, a, -, b, -, lp, -, -, l₁, hin₁, l₂, hin₂, l₃, hmint,
    rfl, rfl⟩ := h
  obtain ⟨hp, -⟩ := hasPool_of_load hvalid hload
  have hmoves : TokenOnly led l₃ := ((transferChecked_eq_ok hin₁).1.trans
    (transferChecked_eq_ok hin₂).1).trans (mintToChecked_eq_ok hmint).1
  have hbooks : l₃.replica rt = led.replica rt := Ledger.replica_tokenOnly hmoves
  have hk := hbooks ▸ Ledger.replica_of_hasPool hp
  rw [Ledger.replica_setPool hk hp.2 ((Pool.Kept.bumpIndexes hbump).trans .stamp), hbooks]
  rfl

theorem processRemoveLiquidity_replica {accs : LiquidityAccounts} {lpAmount minA minB : ℕ}
    (h : processRemoveLiquidity rt accs lpAmount minA minB led = .ok (led', events)) :
    events.foldl Replica.apply (led.replica rt) = led'.replica rt := by
  simp only [processRemoveLiquidity, Checked.bind_eq_ok, require_eq_ok, exists_const,
    Prod.exists, Checked.pure_eq_ok, Prod.mk.injEq] at h
  obtain ⟨-, _, hvalid, -, p, hload, -, decimals, -, decLp, -, supply, -, realA, realB,
    -, -, -, _, -, q, hbump, accA, accB, -, swA, swB, -, _, _, -, a, -, b, -, -, -, l₁, hburn, l₂,
    hout₁, l₃, hout₂, rfl, rfl⟩ := h
  obtain ⟨hp, -⟩ := hasPool_of_load hvalid hload
  have hmoves : TokenOnly led l₃ := ((burnChecked_eq_ok hburn).1.trans
    (transferChecked_eq_ok hout₁).1).trans (transferChecked_eq_ok hout₂).1
  have hbooks : l₃.replica rt = led.replica rt := Ledger.replica_tokenOnly hmoves
  have hk := hbooks ▸ Ledger.replica_of_hasPool hp
  rw [Ledger.replica_setPool hk hp.2 ((Pool.Kept.bumpIndexes hbump).trans .stamp), hbooks]
  rfl

/-- A band that is allocated is not in the books, and no account changes hands. -/
theorem allocateBand_replica {band pool : Pubkey} {direction bandId bump : ℕ}
    (h : allocateBand rt led band pool direction bandId bump = .ok led') :
    led'.replica rt = led.replica rt ∧
      ((led.accts k).owner = rt.programId → (led'.accts k).owner = rt.programId) := by
  rw [allocateBand] at h
  split at h
  · simp only [Checked.bind_eq_ok, createPdaAccount_eq_ok, Checked.pure_eq_ok] at h
    obtain ⟨_, ⟨hunused, rfl⟩, rfl⟩ := h
    rw [setData_setAccount]
    refine ⟨Ledger.replica_setAccount_of_unused hunused rfl, fun howner => ?_⟩
    by_cases hk : k = band
    · rw [hk, Ledger.setAccount_accts_self]
    · rwa [Ledger.setAccount_accts_of_ne hk]
  · split at h
    · rename_i hzeroed
      cases h
      refine ⟨Ledger.replica_setBand ?_, Ledger.setData_owner.trans⟩
      show (led.accts band).entry rt = none
      rw [isZeroedProgramAccount_iff.mp hzeroed]
      rfl
    · cases h
      exact ⟨rfl, id⟩

/-- A fresh loan account is no band. -/
theorem allocateBand_of_loan {band pool : Pubkey} {direction bandId bump : ℕ} {l : Loan}
    (h : (led.accts band).data = .loan l) :
    allocateBand rt led band pool direction bandId bump = .ok led := by
  rw [allocateBand, if_neg, if_neg]
  · rfl
  · intro hzeroed
    rw [isZeroedProgramAccount_iff.mp hzeroed] at h
    cases h
  · intro hempty
    rw [dataIsEmpty_iff.mp hempty] at h
    cases h

theorem processOpenLoan_replica {accs : LoanAccounts} {sidesByte c d nonce : ℕ}
    (h : processOpenLoan rt accs sidesByte c d nonce led = .ok (led', events)) :
    events.foldl Replica.apply (led.replica rt) = led'.replica rt := by
  simp only [processOpenLoan, Checked.bind_eq_ok, require_eq_ok, exists_const,
    Prod.exists, Checked.pure_eq_ok] at h
  obtain ⟨-, _, hvalid, hpos, p, hload, s, hsides, realA, realB, -, q, hbump, trigger, dir,
    htrigger, accA, accB, -, swA, swB, -, -, _, -, -, hloanKey, b, hbandId, hbandKey, -, l₁,
    hcreate, l₂, halloc, x, hxload, hx, hfull, q', hmark, index, hindex, n, hcount, decimals, -,
    l₃, hin, l₄, hout, q'', hadmit, heq⟩ := h
  obtain ⟨hp, -⟩ := hasPool_of_load hvalid hload
  obtain ⟨rfl, rfl⟩ := Prod.mk.inj heq
  obtain ⟨hunused, rfl⟩ := createPdaAccount_eq_ok.mp hcreate
  have hbooks₁ : (led.setAccount accs.loan ⟨rt.programId, .loan Loan.zeroed⟩).replica rt =
      led.replica rt :=
    Ledger.replica_setAccount_of_unused hunused Account.entry_zeroed
  obtain ⟨hbooks₂, howner⟩ := allocateBand_replica (k := accs.loan) halloc
  have hloan₂ : (l₂.accts accs.loan).owner = rt.programId :=
    howner (by rw [Ledger.setAccount_accts_self])
  have hne : accs.band ≠ accs.loan := by
    intro heq
    rw [heq, allocateBand_of_loan (by rw [Ledger.setAccount_accts_self])] at halloc
    cases halloc
    have hdata := Ledger.loadBand_eq_ok.mp hxload
    rw [heq, Ledger.setAccount_accts_self] at hdata
    cases hdata
  have hnew : led.replica rt accs.loan = none := Ledger.replica_of_unused hunused
  have hk := Ledger.replica_of_hasPool hp
  have hpoolNe : accs.pool ≠ accs.loan := by
    intro heq
    rw [heq, hnew] at hk
    cases hk
  set loan := newLoan accs.pool accs.user nonce
    (rt.findProgramAddress (.loan accs.pool accs.user nonce)).2 sidesByte c d index trigger
    dir.toU8 b l₂.slot with hloan
  have hbooks₃ : (l₂.setData accs.loan (.loan loan)).replica rt =
      Function.update (led.replica rt) accs.loan (some (.loan loan.entry)) := by
    rw [Ledger.replica_setData, hbooks₂, hbooks₁, hloan₂, Account.entry_loan (by rfl) (by rfl)]
  have hband : (l₂.setData accs.loan (.loan loan)).replica rt accs.band = none := by
    rw [hbooks₃, Function.update_of_ne hne, ← hbooks₁, ← hbooks₂]
    exact Ledger.replica_of_band hxload
  have hmoves := (transferChecked_eq_ok hin).1.trans (transferChecked_eq_ok hout).1
  have hbooks₄ : l₄.replica rt =
      Function.update (led.replica rt) accs.loan (some (.loan loan.entry)) := by
    rw [Ledger.replica_tokenOnly hmoves, Ledger.replica_setBand hband, hbooks₃]
  have hk₄ : l₄.replica rt accs.pool = some (.pool p.entry) := by
    rw [hbooks₄, Function.update_of_ne hpoolNe, hk]
  have hkept := ((Pool.Kept.bumpIndexes hbump).trans (.markBand hmark)).trans (.admitLoan hadmit)
  rw [Ledger.replica_setPool hk₄ hp.2 (hkept.trans .stamp), hbooks₄]
  rfl

theorem processRepayLoan_replica {accs : LoanAccounts}
    (h : processRepayLoan rt accs led = .ok (led', events)) :
    events.foldl Replica.apply (led.replica rt) = led'.replica rt := by
  simp only [processRepayLoan, Checked.bind_eq_ok, require_eq_ok, exists_const, fits_eq_ok,
    Prod.exists, Checked.pure_eq_ok, Prod.mk.injEq] at h
  obtain ⟨-, _, hvalid, ⟨hloanOwner, hbandOwner⟩, p, hload, l, hl, hinit, hopen, -, x, hx, hxinit,
    -, realA, realB, -, q, hbump, index, -, owed, howed, _, ⟨howed64, rfl⟩, s, hs, c, ⟨hc, rfl⟩,
    decimals, -, l₁, hin, l₂, hout, q', hsettle, count, hcount, q'', hunmark, rfl, rfl⟩ := h
  obtain ⟨hp, -⟩ := hasPool_of_load hvalid hload
  have hk := Ledger.replica_of_hasPool hp
  have hloan : led.replica rt accs.loan = some (.loan l.entry) := by
    have haccount : led.accts accs.loan = ⟨rt.programId, .loan l⟩ := by
      rw [← hloanOwner, ← Ledger.loadLoan_eq_ok.mp hl]
    show (led.accts accs.loan).entry rt = _
    rw [haccount, Account.entry_loan hinit hopen]
  have hpoolNe : accs.pool ≠ accs.loan := by
    intro heq
    rw [heq, hloan] at hk
    cases hk
  have hbooks₂ : l₂.replica rt = led.replica rt :=
    Ledger.replica_tokenOnly ((transferChecked_eq_ok hin).1.trans (transferChecked_eq_ok hout).1)
  have hband : l₂.replica rt accs.band = none := by
    rw [hbooks₂]
    exact Ledger.replica_of_band hx
  have hbooks₄ : ((l₂.setData accs.band (.band (x.withCount count))).setData accs.loan
      (.loan Loan.zeroed)).replica rt = Function.update (led.replica rt) accs.loan none := by
    rw [Ledger.replica_setData, Ledger.replica_setBand hband, hbooks₂, Account.entry_zeroed]
  have hk₄ : ((l₂.setData accs.band (.band (x.withCount count))).setData accs.loan
      (.loan Loan.zeroed)).replica rt accs.pool = some (.pool p.entry) := by
    rw [hbooks₄, Function.update_of_ne hpoolNe, hk]
  rw [Ledger.replica_setPool hk₄ hp.2 ((((Pool.Kept.bumpIndexes hbump).trans
    (.settleLoan hsettle)).trans .stamp).trans (.unmarkBand hunmark)), hbooks₄]
  rfl

theorem processClaimProtocolFees_replica {accs : ClaimFeesAccounts}
    (h : processClaimProtocolFees rt accs led = .ok (led', events)) :
    events.foldl Replica.apply (led.replica rt) = led'.replica rt := by
  simp only [processClaimProtocolFees, Checked.bind_eq_ok, require_eq_ok, exists_const] at h
  obtain ⟨_, hvalid, _, -, _, -, -, p, hload, h⟩ := h
  obtain ⟨hp, -⟩ := hasPool_of_load hvalid hload
  split at h
  · cases h
    rfl
  · simp only [Checked.bind_eq_ok, Checked.pure_eq_ok, Prod.mk.injEq] at h
    obtain ⟨decimals, -, l₁, hpayA, l₂, hpayB, rfl, rfl⟩ := h
    have hpay : ∀ {x n l l'}, payFee rt accs p l x n = .ok l' → l'.replica rt = l.replica rt := by
      intro x n l l' hrun
      rw [payFee] at hrun
      split at hrun
      · exact Ledger.replica_tokenOnly (transferChecked_eq_ok hrun).1
      · cases hrun
        rfl
    have hk := Ledger.replica_of_hasPool hp
    have hbooks₂ := (hpay hpayB).trans (hpay hpayA)
    have howner : (l₂.accts accs.pool).owner = rt.programId :=
      Ledger.owner_of_replica (hbooks₂ ▸ hk)
    rw [Ledger.replica_setData, hbooks₂, howner, Account.entry_pool (by exact hp.2)]
    show Function.update (led.replica rt) accs.pool ((led.replica rt accs.pool).map _) = _
    rw [hk, Option.map_some]
    congr 3
    simp [Entry.claim, Pool.entry, Pool.stamp, Pool.withFees]

theorem processClaimLiquidatedRent_replica {accs : ClaimRentAccounts}
    (h : processClaimLiquidatedRent rt accs led = .ok (led', events)) :
    events.foldl Replica.apply (led.replica rt) = led'.replica rt := by
  simp only [processClaimLiquidatedRent, Checked.bind_eq_ok, require_eq_ok, exists_const,
    Checked.pure_eq_ok, Prod.mk.injEq] at h
  obtain ⟨-, howner, l, hl, hinit, hstatus, -, rfl, rfl⟩ := h
  have hloan : led.replica rt accs.loan = none := by
    have haccount : led.accts accs.loan = ⟨rt.programId, .loan l⟩ := by
      rw [← howner, ← Ledger.loadLoan_eq_ok.mp hl]
    have hclosed : l.isOpen = false := by
      rw [Loan.isOpen, hstatus]
      decide
    show (led.accts accs.loan).entry rt = none
    rw [haccount, Account.entry_not_open hclosed]
  refine (Ledger.replica_setData_of_eq ?_).symm
  rw [hloan, Account.entry_zeroed]

theorem processInitializePool_replica {accs : InitializeAccounts}
    (h : processInitializePool rt accs led = .ok (led', events)) :
    events.foldl Replica.apply (led.replica rt) = led'.replica rt := by
  simp only [processInitializePool, Checked.bind_eq_ok, require_eq_ok, exists_const,
    Checked.pure_eq_ok, Prod.mk.injEq] at h
  obtain ⟨-, _, -, _, -, -, -, _, -, _, -, hpool, hvaultA, hvaultB, hlpMint, -, l₁, hcreate, l₂,
    hvA, l₃, hvB, l₄, hlp, rfl, rfl⟩ := h
  obtain ⟨hunused, hl₁⟩ := createPdaAccount_eq_ok.mp hcreate
  obtain ⟨hunusedA, -, _, hl₂⟩ := createVault_eq_ok hvA
  obtain ⟨hunusedB, -, _, hl₃⟩ := createVault_eq_ok hvB
  obtain ⟨hunusedLp, hl₄⟩ := createLpMint_eq_ok hlp
  have hbooks₁ : l₁.replica rt = led.replica rt := by
    rw [hl₁]
    exact Ledger.replica_setAccount_of_unused hunused
      (Account.entry_blank (show Pool.zeroed.isInitialized = false by decide))
  have howner₁ : (l₁.accts accs.pool).owner = rt.programId := by
    rw [hl₁, Ledger.setAccount_accts_self]
  have hcreated : ∀ {l l' : Ledger} {k : Pubkey} {a : Account}, l.accts k = .unused →
      l' = l.setAccount k a → a.entry rt = none → l.replica rt = led.replica rt →
      (l.accts accs.pool).owner = rt.programId →
      l'.replica rt = led.replica rt ∧ (l'.accts accs.pool).owner = rt.programId := by
    rintro l _ k a hk rfl ha hbooks howner
    have hne : accs.pool ≠ k := by
      rintro rfl
      rw [hk] at howner
      exact rt.programId_ne_system howner.symm
    rw [Ledger.setAccount_accts_of_ne hne]
    exact ⟨(Ledger.replica_setAccount_of_unused hk ha).trans hbooks, howner⟩
  obtain ⟨hbooks₂, howner₂⟩ := hcreated hunusedA hl₂ rfl hbooks₁ howner₁
  obtain ⟨hbooks₃, howner₃⟩ := hcreated hunusedB hl₃ rfl hbooks₂ howner₂
  obtain ⟨hbooks₄, howner₄⟩ := hcreated hunusedLp hl₄ rfl hbooks₃ howner₃
  rw [Ledger.replica_setData, hbooks₄, howner₄, Account.entry_pool (by rfl)]
  rfl

/-! #### Swaps -/

/-- The tombstones leave the books, and pools and other entries stay. -/
theorem tombstoneLoans_replica {ctxs : List LoanCtx} {keys : List Pubkey} {n : ℕ}
    (h : tombstoneLoans ctxs keys led = .ok (led', n, events)) :
    events.foldl Replica.apply (led.replica rt) = led'.replica rt ∧ events.length = n ∧
      (∀ j, led.replica rt j = none → led'.replica rt j = none) ∧
      ∀ j p, (led.accts j).data = .pool p → led'.accts j = led.accts j := by
  induction keys generalizing led n events with
  | nil =>
    cases h
    exact ⟨rfl, rfl, fun _ => id, fun _ _ _ => rfl⟩
  | cons key keys ih =>
    simp only [tombstoneLoans, Checked.bind_eq_ok] at h
    obtain ⟨c, -, h⟩ := h
    split at h
    · simp only [Checked.bind_eq_ok, Prod.exists, Checked.pure_eq_ok, Prod.mk.injEq] at h
      obtain ⟨l, hl, l₁, m, es, hrest, rfl, rfl, rfl⟩ := h
      obtain ⟨hbooks, hlen, hnone, hpools⟩ := ih hrest
      have hdata := Ledger.loadLoan_eq_ok.mp hl
      have htomb : ∀ o, Account.entry rt ⟨o, .loan (l.tombstone led.slot)⟩ = none :=
        fun o => Account.entry_not_open rfl
      have hbooks₀ : (led.setData key (.loan (l.tombstone led.slot))).replica rt =
          Function.update (led.replica rt) key none := by
        rw [Ledger.replica_setData, htomb]
      change es.foldl _ ((led.setData key (.loan (l.tombstone led.slot))).replica rt) = _ at hbooks
      rw [hbooks₀] at hbooks
      refine ⟨hbooks, congrArg (· + 1) hlen, fun j hj => hnone j ?_, fun j p hj => ?_⟩
      · show (led.setData key (.loan (l.tombstone led.slot))).replica rt j = none
        rw [hbooks₀]
        by_cases hjk : j = key
        · rw [hjk, Function.update_self]
        · rw [Function.update_of_ne hjk, hj]
      · have hjk : j ≠ key := by
          rintro rfl
          rw [hdata] at hj
          cases hj
        have hkeep : (led.setData key (.loan (l.tombstone led.slot))).accts j = led.accts j :=
          Ledger.setData_accts_of_ne hjk
        exact (hpools j p ((congrArg Account.data hkeep).trans hj)).trans hkeep
    · exact ih h

theorem persistLiquidations_replica {ctxs : List LoanCtx} {directionByte : ℕ}
    {bands : List BandCtx} {p p' : Pool}
    (h : persistLiquidations ctxs directionByte bands led p = .ok (led', p', events)) :
    events.foldl Replica.apply (led.replica rt) = led'.replica rt ∧ p.Kept p' ∧
      ∀ j q, (led.accts j).data = .pool q → led'.accts j = led.accts j := by
  induction bands generalizing led p events with
  | nil =>
    cases h
    exact ⟨rfl, ⟨rfl, fun _ => rfl⟩, fun _ _ _ => rfl⟩
  | cons b bands ih =>
    simp only [persistLiquidations, Checked.bind_eq_ok, Prod.exists] at h
    obtain ⟨x, hx, l₁, n, es, htomb, h⟩ := h
    obtain ⟨hbooks₁, hlen, hnone, hpools₁⟩ := tombstoneLoans_replica htomb
    split at h
    · rename_i hzero
      rw [List.eq_nil_of_length_eq_zero (hlen.trans hzero)] at hbooks₁
      obtain ⟨hbooks, hkept, hpools⟩ := ih h
      refine ⟨?_, hkept, fun j q hj => ?_⟩
      · rw [← hbooks, ← hbooks₁]
        rfl
      · exact (hpools j q ((congrArg Account.data (hpools₁ j q hj)).trans hj)).trans
          (hpools₁ j q hj)
    · simp only [Checked.bind_eq_ok, Prod.exists, Checked.pure_eq_ok, Prod.mk.injEq] at h
      obtain ⟨count, -, q, hunmark, l₂, q', es', hrest, rfl, rfl, rfl⟩ := h
      have hband := hnone b.band (Ledger.replica_of_band hx)
      obtain ⟨hbooks, hkept, hpools⟩ := ih hrest
      rw [Ledger.replica_setBand hband] at hbooks
      refine ⟨?_, (Pool.Kept.unmarkBand hunmark).trans hkept, fun j q hj => ?_⟩
      · rw [List.foldl_append, hbooks₁, hbooks]
      · have hjb : j ≠ b.band := by
          rintro rfl
          rw [Ledger.loadBand_eq_ok.mp hx] at hj
          cases hj
        have hkeep : (l₁.setData b.band (.band (x.withCount count))).accts j = led.accts j :=
          (Ledger.setData_accts_of_ne hjb).trans (hpools₁ j q hj)
        exact (hpools j q ((congrArg Account.data hkeep).trans hj)).trans hkeep

theorem accrueFee_entry {p q : Pool} {aToB : Bool} {portion : ℕ}
    (h : p.accrueFee aToB portion = .ok q) :
    Entry.pool q.entry = (Entry.pool p.entry).skim aToB portion := by
  obtain rfl := accrueFee_frame h
  cases aToB with
  | true => rfl
  | false => rfl

theorem processSwap_replica {accs : SwapAccounts} {amountIn minOut bandBoundary : ℕ} {aToB : Bool}
    {counts : List ℕ}
    (h : processSwap rt accs amountIn minOut aToB bandBoundary counts led = .ok (led', events)) :
    events.foldl Replica.apply (led.replica rt) = led'.replica rt := by
  simp only [processSwap, Checked.bind_eq_ok, require_eq_ok, exists_const, Prod.exists,
    Checked.pure_eq_ok, Prod.mk.injEq] at h
  obtain ⟨-, _, hvalid, -, p, hload, context, -, decimals, -, realA, realB, -, q, hbump,
    accA, accB, -, -, q₁, hsample, -, portion, hportion, settled, hcascade, -, out, hout, -,
    swA, swB, -, -, q₂, haccrue, final, -, _, -, l₁, q₃, log, hpersist, l₂, hmoves, rfl, rfl⟩ := h
  obtain ⟨hp, -⟩ := hasPool_of_load hvalid hload
  have hkept := ((Pool.Kept.bumpIndexes hbump).trans (.sampleRefPrice hsample)).trans
    (.cascade hcascade)
  obtain ⟨hbooks, hkept', hpools⟩ := persistLiquidations_replica hpersist
  have hbooks₂ := (Ledger.replica_tokenOnly (swapTransfers_tokenOnly hmoves)).trans
    hbooks.symm
  have hpool : l₁.accts accs.pool = led.accts accs.pool := hpools _ p (by rw [hp.1])
  have hk₂ : l₂.replica rt accs.pool = some (.pool p.entry) := by
    rw [hbooks₂, hbooks]
    exact (congrArg (Account.entry rt) hpool).trans (Ledger.replica_of_hasPool hp)
  have hstamp : q₃.Kept (q₃.stamp l₂.slot) := .stamp
  have hfinal := hkept'.trans hstamp
  have hinit : (q₃.stamp l₂.slot).isInitialized = true := by
    rw [hfinal.isInitialized, Pool.isInitialized_of_terms (accrueFee_terms haccrue),
      hkept.isInitialized]
    exact hp.2
  have hskim : Entry.pool (q₃.stamp l₂.slot).entry = (Entry.pool p.entry).skim aToB portion := by
    rw [hfinal.entry, accrueFee_entry haccrue, hkept.entry]
  rw [Ledger.replica_setData, Ledger.owner_of_replica hk₂, Account.entry_pool hinit, hskim,
    List.foldl_append, ← hbooks₂]
  show Function.update (l₂.replica rt) accs.pool ((l₂.replica rt accs.pool).map _) = _
  rw [hk₂, Option.map_some]

/-- **The events of an accepted instruction take the books to those after it.** -/
theorem processInstruction_replica {i : Instruction}
    (h : processInstruction rt i led = .ok (led', events)) :
    events.foldl Replica.apply (led.replica rt) = led'.replica rt := by
  cases i with
  | initializePool accs => exact processInitializePool_replica h
  | addLiquidity accs maxA maxB minLp => exact processAddLiquidity_replica h
  | removeLiquidity accs lpAmount minA minB => exact processRemoveLiquidity_replica h
  | openLoan accs sides c d nonce => exact processOpenLoan_replica h
  | repayLoan accs => exact processRepayLoan_replica h
  | claimProtocolFees accs => exact processClaimProtocolFees_replica h
  | claimLiquidatedRent accs => exact processClaimLiquidatedRent_replica h
  | swap accs amountIn minOut aToB bandBoundary counts => exact processSwap_replica h

end Instructions

/-! ### Journals -/

section Journals

variable {rt : Runtime} {genesis led led' : Ledger} {lines : List (List UInt8)}

theorem Account.entry_of_not_live {a : Account} (h : a.owner = rt.programId → a.data.Blank) :
    a.entry rt = none := by
  obtain ⟨o, d⟩ := a
  by_cases ho : o = rt.programId
  · exact Account.entry_blank (h ho)
  · cases d with
    | pool p => exact if_neg fun hlive => ho hlive.1
    | loan l => exact if_neg fun hlive => ho hlive.1
    | _ => rfl

/-- Nothing outside the program shows in the books. -/
theorem Ledger.replica_outside (hfiled : Filed rt led) (hout : Outside rt led led') :
    led'.replica rt = led.replica rt := by
  funext k
  show (led'.accts k).entry rt = (led.accts k).entry rt
  by_cases hpda : rt.IsPda k
  · have hdrift := hout.pda k hpda
    generalize led.accts k = a at hdrift
    generalize led'.accts k = a' at hdrift
    cases hdrift with
    | same => rfl
    | deposit => rfl
    | burn => rfl
    | collect hblank => exact (Account.entry_blank hblank).symm
  · rw [Account.entry_of_not_live (hout.fresh k hpda), Account.entry_of_not_live fun howner => ?_]
    by_contra hlive
    exact hpda (hfiled.isPda_of_live howner hlive)

/-- The lines of events that fit read as these events. -/
theorem Event.filterMap_ofLine [Borsh] {events : List Event} (h : ∀ e ∈ events, e.Fits) :
    (events.map Event.line).filterMap Event.ofLine = events := by
  induction events with
  | nil => rfl
  | cons e events ih =>
    obtain ⟨he, hevents⟩ := List.forall_mem_cons.mp h
    have hread : Event.ofLine e.line = some e := Codec.tryFromSlice_enc (Event.codec_valid.mpr he)
    rw [List.map_cons, List.filterMap_cons_some hread, ih hevents]

/-- **A consumer that has read every line has the books**, by induction on the journal: the lines of
a transaction read as its events, and nothing outside shows in the books. -/
theorem Journal.replica [Borsh] (hrt : rt.Words) (hg : Genesis rt genesis)
    (hslot : genesis.slot < 2 ^ 64) (h : Journal rt genesis lines led) :
    Replica.ofLines lines = led.replica rt := by
  induction h with
  | nil =>
    funext k
    exact (Account.entry_of_not_live (hg.fresh k)).symm
  | transaction t hpast ht ih =>
    obtain ⟨i, hfits, -, hi⟩ := t.process_eq_ok ht
    obtain ⟨-, hevents⟩ := processInstruction_wide hrt (hpast.wide hrt hg hslot) hfits hi
    rw [Replica.ofLines, List.filterMap_append, List.foldl_append,
      Event.filterMap_ofLine hevents]
    rw [Replica.ofLines] at ih
    rw [ih, processInstruction_replica hi]
  | outside hpast hout _ ih =>
    rw [ih, Ledger.replica_outside (hpast.reachable hg).sound.filed hout]

end Journals

end ChiefLiquidity
