import ChiefLiquidity.Refinement.Transfers

/-!
# Writing records

What writing a loan or a band account does to the view of its pool: the accounts an instruction
creates or rewrites on the way to its last write, which is the pool's own.

## Two maps

Loans and bands are looked up in different ways. A loan is found by its address, whatever that
address was derived from; a band is found at the address its id and its direction derive. So writing
a loan changes the loan map at one key, while writing a band changes the count map at the one id
whose address it is, and it takes the check of the address to know that there is no other.

`RecordMove` collects what such writes leave alone: pools, vaults, supplies, and the records of
other pools.

## Main definitions

* `RecordMove` — what writing loans and bands leaves alone

## Main results

* `openLoan_setAccount`, `bandCount_setAccount` — one account write in the view
* `bandCount_setBand` — a band account keeps one count and no other
-/

namespace ChiefLiquidity

open Ledger

variable {rt : Runtime} {led led' led'' : Ledger} {P k o : Pubkey} {p : Pool} {l : Loan}
  {b : LoanIndexBand} {d : AccountData} {a : Account}

/-! ### The view of one account -/

theorem Account.openLoan_of_live (hinit : l.isInitialized = true) (hopen : l.isOpen = true)
    (hpool : l.pool = P) : Account.openLoan rt P ⟨rt.programId, .loan l⟩ = some l := by
  simp [Account.openLoan, hinit, hopen, hpool]

theorem Account.openLoan_of_not_open (h : l.isOpen = false) :
    Account.openLoan rt P ⟨o, .loan l⟩ = none := by
  simp [Account.openLoan, h]

theorem Account.openLoan_of_not_init (h : l.isInitialized = false) :
    Account.openLoan rt P ⟨o, .loan l⟩ = none := by
  simp [Account.openLoan, h]

@[simp] theorem Account.openLoan_band : Account.openLoan rt P ⟨o, .band b⟩ = none := rfl

@[simp] theorem Account.openLoan_unused : Account.openLoan rt P .unused = none := rfl

@[simp] theorem Account.bandCount_loan {dir id : ℕ} :
    Account.bandCount rt P dir id ⟨o, .loan l⟩ = none := rfl

@[simp] theorem Account.bandCount_unused {dir id : ℕ} :
    Account.bandCount rt P dir id .unused = none := rfl

/-! ### One write -/

theorem openLoan_setAccount : (led.setAccount k a).openLoan rt P =
    Function.update (led.openLoan rt P) k (a.openLoan rt P) := by
  funext j
  by_cases hj : j = k
  · subst hj
    rw [Function.update_self, Ledger.openLoan, setAccount_accts_self]
  · rw [Function.update_of_ne hj]
    exact openLoan_congr (setAccount_accts_of_ne hj)

/-- A write that shows the same loan, or none before and after, does not show. -/
theorem openLoan_setAccount_of_eq (h : a.openLoan rt P = (led.accts k).openLoan rt P) :
    (led.setAccount k a).openLoan rt P = led.openLoan rt P := by
  rw [openLoan_setAccount, h]
  exact Function.update_eq_self k (led.openLoan rt P)

theorem bandCount_setAccount {dir id : ℕ} : (led.setAccount k a).bandCount rt P dir id =
    if bandKey rt P dir id = k then a.bandCount rt P dir id else led.bandCount rt P dir id := by
  split
  · rename_i hk
    rw [Ledger.bandCount, hk, setAccount_accts_self]
  · rename_i hk
    exact bandCount_congr (setAccount_accts_of_ne hk)

theorem bandCount_setAccount_of_eq
    (h : ∀ dir id, a.bandCount rt P dir id = (led.accts k).bandCount rt P dir id) :
    (led.setAccount k a).bandCount rt P = led.bandCount rt P := by
  funext dir id
  rw [bandCount_setAccount]
  split
  · rename_i hk
    rw [h, Ledger.bandCount, hk]
  · rfl

/-- A band account shows no other band. -/
theorem bandCount_of_ne {dir id : ℕ} (h : (dir, id) ≠ (b.direction, b.bandId)) :
    Account.bandCount rt P dir id ⟨o, .band b⟩ = none := by
  refine if_neg ?_
  rintro ⟨-, -, -, rfl, rfl⟩
  exact h rfl

/-- **A band account keeps the count of its own band.** Whatever was at its address before was not
the account of another band. -/
theorem bandCount_setBand (hkey : bandKey rt P b.direction b.bandId = k)
    (hinit : b.isInitialized = true) (hpool : b.pool = P)
    (hold : ∀ dir id, (dir, id) ≠ (b.direction, b.bandId) →
      (led.accts k).bandCount rt P dir id = none) :
    (led.setAccount k ⟨rt.programId, .band b⟩).bandCount rt P =
      Market.setBandCount (led.bandCount rt P) b.direction b.bandId b.count := by
  funext dir id
  rw [bandCount_setAccount, Market.setBandCount]
  by_cases hband : dir = b.direction ∧ id = b.bandId
  · obtain ⟨rfl, rfl⟩ := hband
    rw [if_pos hkey, if_pos ⟨rfl, rfl⟩]
    simp [Account.bandCount, hinit, hpool]
  · rw [if_neg hband]
    split
    · rename_i hk
      have hnone : led.bandCount rt P dir id = none := by
        rw [Ledger.bandCount, hk]
        exact hold dir id (by simpa using hband)
      rw [hnone]
      exact bandCount_of_ne (by simpa using hband)
    · rfl

/-! ### Record moves -/

/-- What writing loans and bands of the pool `P` leaves alone. -/
structure RecordMove (rt : Runtime) (P : Pubkey) (led led' : Ledger) : Prop where
  touched : Touched rt P led led'
  balance : led'.balance = led.balance
  mintSupply : led'.mintSupply = led.mintSupply
  pool : led'.accts P = led.accts P

namespace RecordMove

theorem refl (led : Ledger) : RecordMove rt P led led := ⟨.refl led, rfl, rfl, rfl⟩

theorem trans (h : RecordMove rt P led led') (h' : RecordMove rt P led' led'') :
    RecordMove rt P led led'' :=
  ⟨h.touched.trans h'.touched, h'.balance.trans h.balance, h'.mintSupply.trans h.mintSupply,
    h'.pool.trans h.pool⟩

theorem hasPool (h : RecordMove rt P led led') (hp : led.HasPool rt P p) : led'.HasPool rt P p :=
  ⟨h.pool.trans hp.1, hp.2⟩

theorem plain_of_recordOf (h : d.RecordOf rt P k) : d.Plain := by
  cases d <;> trivial

/-- Rewriting a loan or a band. -/
theorem setData {d' : AccountData} (hk : led.accts k = ⟨rt.programId, d⟩) (hP : k ≠ P)
    (hd : d.RecordOf rt P k) (hd' : d'.RecordOf rt P k) :
    RecordMove rt P led (led.setData k d') where
  touched := .setData hk hd hd'
  balance := balance_setData (by rw [hk]; exact plain_of_recordOf hd) (plain_of_recordOf hd')
  mintSupply := mintSupply_setData (by rw [hk]; exact plain_of_recordOf hd) (plain_of_recordOf hd')
  pool := setData_accts_of_ne hP.symm

/-- Creating a loan or a band. -/
theorem create (hk : led.accts k = .unused) (hP : k ≠ P) (hpda : rt.IsPda k)
    (hd : d.RecordOf rt P k) : RecordMove rt P led (led.setAccount k ⟨rt.programId, d⟩) where
  touched := by
    refine .setAccount hk hpda ?_
    cases d <;> first | exact hd.elim | exact ⟨rfl, hd⟩
  balance := balance_setAccount (by rw [hk]; trivial) (plain_of_recordOf hd)
  mintSupply := mintSupply_setAccount (by rw [hk]; trivial) (plain_of_recordOf hd)
  pool := setAccount_accts_of_ne hP.symm

end RecordMove

end ChiefLiquidity
