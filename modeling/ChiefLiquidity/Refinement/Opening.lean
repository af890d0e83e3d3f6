import ChiefLiquidity.Refinement.Records

/-!
# How an instruction begins and ends

Every instruction that trades with a pool loads it, checks its accounts, reads both vaults and
bumps the borrow indexes; and its last write is the pool's record.

## Why it is a module

Five instructions begin in the same way, and six end in the same way. What the beginning establishes
is one lemma: the pool is the one at the address handed in, its accounts are those handed in, the
balances read are those of its vaults, and the indexes have been accrued on them. What the end
establishes is another: the market after the last write is that of the record written and of the
accounts as they are then.

`PoolStep` is the interface between the two layers. An instruction that makes one is about one pool,
has touched only what it may, and left a record of that pool.

## Main definitions

* `PoolStep` — an instruction about a pool, seen from its accounts

## Main results

* `opening` — what the beginning establishes
* `PoolStep.of_touched`, `setPool_market` — the ledger and the market the last write leaves
-/

namespace ChiefLiquidity

open Ledger Market

/-- An instruction about the pool `P` took its state from `p` to `p'`. -/
structure PoolStep (rt : Runtime) (P : Pubkey) (led led' : Ledger) (p p' : Pool) : Prop where
  before : led.HasPool rt P p
  after : led'.HasPool rt P p'
  terms : p'.terms = p.terms
  touched : Touched rt P led led'

variable {rt : Runtime} {led led' : Ledger} {P : Pubkey} {p p' q : Pool} {events : List Event}

/-- A market is what its parts are. -/
theorem market_eq {m : Market} (hpool : p' = m.pool)
    (hreal : ∀ x, led'.balance (p'.vault x) = m.real x)
    (hsupply : led'.mintSupply p'.lpMint = m.supply) (hloans : led'.openLoan rt P = m.loans)
    (hbands : led'.bandCount rt P = m.bands) (hslot : led'.slot = m.slot) :
    led'.market rt P p' = m := by
  cases m
  simp only at hpool hreal hsupply hloans hbands hslot
  subst hpool hsupply hloans hbands hslot
  simp only [market, Market.mk.injEq, true_and, and_true]
  exact funext hreal

/-- The pool record an instruction starts from. -/
theorem hasPool_of_load {accs : PoolAccounts} {u : Unit} (hvalid : accs.validate rt led = .ok u)
    (hload : accs.loadPool led = .ok p) :
    led.HasPool rt accs.pool p ∧ p.matchesAccounts accs = true := by
  obtain ⟨hdata, hinit, hacc⟩ := PoolAccounts.loadPool_eq_ok.mp hload
  refine ⟨⟨?_, hinit⟩, hacc⟩
  rw [← PoolAccounts.owner_of_validate hvalid, ← hdata]

/-- The vault balances an instruction reads are those of the market. -/
theorem real_of_read (rt : Runtime) (P : Pubkey) {accs : PoolAccounts} {a b : ℕ}
    (hacc : p.matchesAccounts accs = true) (hread : accs.readVaults led = .ok (a, b)) :
    (led.market rt P p).real .a = a ∧ (led.market rt P p).real .b = b := by
  obtain ⟨hvault, -⟩ := Pool.matchesAccounts_iff.mp hacc
  obtain ⟨hA, hB⟩ := PoolAccounts.readVaults_eq_ok.mp hread
  obtain ⟨tA, htA, rfl⟩ := readTokenAmount_eq_ok.mp hA
  obtain ⟨tB, htB, rfl⟩ := readTokenAmount_eq_ok.mp hB
  constructor
  · change led.balance (p.vault .a) = _
    rw [hvault .a]
    exact balance_of_data htA
  · change led.balance (p.vault .b) = _
    rw [hvault .b]
    exact balance_of_data htB

/-- **What the opening of an instruction establishes** about the pool it loads: its accounts are
wired, the balances read are those of the market, and the bumped pool is the accrued one. -/
theorem opening {accs : PoolAccounts} {u : Unit} {a b : ℕ} (hfiled : Filed rt led)
    (hvalid : accs.validate rt led = .ok u) (hload : accs.loadPool led = .ok p)
    (hreads : accs.readVaults led = .ok (a, b)) (hbump : p.bumpIndexes a b led.slot = .ok q) :
    led.HasPool rt accs.pool p ∧ p.matchesAccounts accs = true ∧ Wired rt led accs.pool p ∧
      (led.market rt accs.pool p).real .a = a ∧ (led.market rt accs.pool p).real .b = b ∧
      (led.market rt accs.pool p).Accrued q := by
  obtain ⟨hp, hacc⟩ := hasPool_of_load hvalid hload
  obtain ⟨rfl, rfl⟩ := real_of_read rt accs.pool hacc hreads
  exact ⟨hp, hacc, hfiled.wired _ _ hp, rfl, rfl, ⟨hbump⟩⟩

/-- The LP supply an instruction reads is that of the market. -/
theorem supply_of_read (rt : Runtime) (P : Pubkey) {lpMint : Pubkey} {n : ℕ}
    (hlp : p.lpMint = lpMint) (hread : led.readMintSupply lpMint = .ok n) :
    (led.market rt P p).supply = n := by
  obtain ⟨m, hm, rfl⟩ := readMintSupply_eq_ok.mp hread
  change led.mintSupply p.lpMint = _
  rw [hlp]
  exact mintSupply_of_data hm

/-! ### The last write -/

section LastWrite

variable {l₁ : Ledger} {m : Market}

theorem PoolStep.of_touched (hp : led.HasPool rt P p) (htouched : Touched rt P led l₁)
    (hp₁ : l₁.HasPool rt P p) (hterms : p'.terms = p.terms) :
    PoolStep rt P led (l₁.setData P (.pool p')) p p' where
  before := hp
  after := setPool_hasPool hp₁ ((Pool.isInitialized_of_terms hterms).trans hp.2)
  terms := hterms
  touched := htouched.trans (setPool_touched hp₁)

theorem setPool_market (hp₁ : l₁.HasPool rt P p) (hpool : p' = m.pool)
    (hreal : ∀ x, l₁.balance (p'.vault x) = m.real x)
    (hsupply : l₁.mintSupply p'.lpMint = m.supply) (hloans : l₁.openLoan rt P = m.loans)
    (hbands : l₁.bandCount rt P = m.bands) (hslot : l₁.slot = m.slot) :
    (l₁.setData P (.pool p')).market rt P p' = m := by
  refine market_eq hpool (fun x => ?_) ?_ ?_ ?_ hslot
  · rw [setPool_balance hp₁]
    exact hreal x
  · rw [setPool_mintSupply hp₁]
    exact hsupply
  · rw [setPool_openLoan hp₁]
    exact hloans
  · rw [setPool_bandCount hp₁]
    exact hbands

/-- The case of an instruction that moves tokens only. -/
theorem PoolStep.of_tokenMove (hp : led.HasPool rt P p) (hmove : TokenMove rt P led l₁)
    (hterms : p'.terms = p.terms) : PoolStep rt P led (l₁.setData P (.pool p')) p p' :=
  .of_touched hp hmove.touched (hmove.tokenOnly.hasPool hp) hterms

theorem of_tokenMove_market (hp : led.HasPool rt P p) (hmove : TokenMove rt P led l₁)
    (hpool : p' = m.pool) (hreal : ∀ x, l₁.balance (p'.vault x) = m.real x)
    (hsupply : l₁.mintSupply p'.lpMint = m.supply) (hloans : led.openLoan rt P = m.loans)
    (hbands : led.bandCount rt P = m.bands) (hslot : led.slot = m.slot) :
    (l₁.setData P (.pool p')).market rt P p' = m :=
  setPool_market (hmove.tokenOnly.hasPool hp) hpool hreal hsupply
    (hmove.tokenOnly.openLoan.trans hloans) (hmove.tokenOnly.bandCount.trans hbands)
    (hmove.tokenOnly.slot.trans hslot)

end LastWrite

end ChiefLiquidity
