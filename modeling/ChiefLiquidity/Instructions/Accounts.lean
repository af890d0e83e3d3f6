import ChiefLiquidity.Runtime

/-!
# Instruction accounts and events

The account lists the instructions take, as records under the names `lib.rs` gives their slots,
and the events they emit (`events.rs`). The fixed slots are always present here: a shorter list is
refused before anything else happens.

## Slots and names

The fields are named after the slots. Instructions that take the same slots in the same order share
a record, and the slots that only some have are added by extension: `PoolAccounts` is what every
instruction on a pool takes, `LiquidityAccounts` adds the LP mint, `LoanAccounts` the loan and its
band, `SwapAccounts` the tail.

## Transfers

A payment in is signed by the user, and a payment out by the pool with its seeds. The seeds are
taken from the record that was loaded, not from the address that was handed in, as in the source;
that they agree is part of the wiring of a pool and proved there.

## Main definitions

* `PoolAccounts`, `LiquidityAccounts`, `LoanAccounts`, `SwapAccounts`, `ClaimFeesAccounts`
* `Pool.matchesAccounts` — the check that the vaults and mints are the pool's own
* `PoolAccounts.payIn`, `PoolAccounts.payOut` — the two token transfers every instruction makes
* `Event`
-/

namespace ChiefLiquidity

/-- The slots shared by all instructions that trade with a pool. -/
structure PoolAccounts where
  pool : Pubkey
  vaultA : Pubkey
  vaultB : Pubkey
  userA : Pubkey
  userB : Pubkey
  mintA : Pubkey
  mintB : Pubkey
  user : Pubkey
  userIsSigner : Bool
  tokenProgramA : Pubkey
  tokenProgramB : Pubkey

namespace PoolAccounts

/-- The slot of the vault of a side. -/
def vault (accs : PoolAccounts) : Side → Pubkey
  | .a => accs.vaultA
  | .b => accs.vaultB

/-- The slot of the user's token account of a side. -/
def userToken (accs : PoolAccounts) : Side → Pubkey
  | .a => accs.userA
  | .b => accs.userB

/-- The slot of the mint of a side. -/
def mint (accs : PoolAccounts) : Side → Pubkey
  | .a => accs.mintA
  | .b => accs.mintB

/-- The slot of the token program of a side. -/
def tokenProgram (accs : PoolAccounts) : Side → Pubkey
  | .a => accs.tokenProgramA
  | .b => accs.tokenProgramB

/-- User account of a side → vault of that side, signed by the user. -/
def payIn (accs : PoolAccounts) (rt : Runtime) (led : Ledger) (side : Side)
    (amount decimals : ℕ) : Result Ledger :=
  transferChecked rt led (accs.tokenProgram side) (accs.userToken side) (accs.mint side)
    (accs.vault side) accs.user accs.userIsSigner amount decimals

end PoolAccounts

/-- Whether the seeds `["pool", mint_a, mint_b, bump]` of this pool sign for `k`. -/
def Pool.signsFor (rt : Runtime) (p : Pool) (k : Pubkey) : Bool :=
  rt.createProgramAddress (.pool p.mintA p.mintB) p.poolBump = some k

/-- Vault of a side → user account of that side, signed by the pool PDA. -/
def PoolAccounts.payOut (accs : PoolAccounts) (rt : Runtime) (p : Pool) (led : Ledger)
    (side : Side) (amount decimals : ℕ) : Result Ledger :=
  transferChecked rt led (accs.tokenProgram side) (accs.vault side) (accs.mint side)
    (accs.userToken side) accs.pool (p.signsFor rt accs.pool) amount decimals

/-- The vaults and mints handed in are the pool's own. -/
def Pool.matchesAccounts (p : Pool) (accs : PoolAccounts) : Bool :=
  p.vaultA = accs.vaultA ∧ p.vaultB = accs.vaultB ∧ p.mintA = accs.mintA ∧ p.mintB = accs.mintB

/-! The opening of every instruction that trades with a pool. -/

/-- Each side's token program owns that side's mint, and the program owns the pool account. -/
def PoolAccounts.validate (accs : PoolAccounts) (rt : Runtime) (led : Ledger) : Result Unit := do
  validateTokenProgramForMint rt led accs.tokenProgramA accs.mintA
  validateTokenProgramForMint rt led accs.tokenProgramB accs.mintB
  require ((led.accts accs.pool).owner = rt.programId) .invalidAccountOwner

/-- Load the pool and check that it is initialized and that the accounts are its own. -/
def PoolAccounts.loadPool (accs : PoolAccounts) (led : Ledger) : Result Pool := do
  let pool ← led.loadPool accs.pool
  require pool.isInitialized .notInitialized
  require (pool.matchesAccounts accs) .invalidPool
  return pool

/-- Read both vault balances. -/
def PoolAccounts.readVaults (accs : PoolAccounts) (led : Ledger) : Result (ℕ × ℕ) := do
  let realA ← led.readTokenAmount accs.vaultA
  let realB ← led.readTokenAmount accs.vaultB
  return (realA, realB)

/-- Read the decimals of both mints. -/
def PoolAccounts.readDecimals (accs : PoolAccounts) (led : Ledger) : Result (Side → ℕ) := do
  let mintADecimals ← led.readMintDecimals accs.mintA
  let mintBDecimals ← led.readMintDecimals accs.mintB
  return fun
    | .a => mintADecimals
    | .b => mintBDecimals

/-- `AddLiquidity` and `RemoveLiquidity`: with the LP mint and the user's LP account. -/
structure LiquidityAccounts extends PoolAccounts where
  lpMint : Pubkey
  userLp : Pubkey

/-- `OpenLoan` and `RepayLoan`, the user being the borrower: with a loan and its band. -/
structure LoanAccounts extends PoolAccounts where
  loan : Pubkey
  band : Pubkey

/-- `Swap`: with the variable tail of bands and loans. -/
structure SwapAccounts extends PoolAccounts where
  tail : List Pubkey

/-- `ClaimProtocolFees`: the destinations in the user slots, and nobody signs. -/
abbrev ClaimFeesAccounts := PoolAccounts

/-- `ClaimLiquidatedRent`. -/
structure ClaimRentAccounts where
  loan : Pubkey
  borrower : Pubkey
  borrowerIsSigner : Bool

/-- `InitializePool`. -/
structure InitializeAccounts where
  pool : Pubkey
  mintA : Pubkey
  mintB : Pubkey
  vaultA : Pubkey
  vaultB : Pubkey
  lpMint : Pubkey
  authority : Pubkey
  authorityIsSigner : Bool
  tokenProgramA : Pubkey
  tokenProgramB : Pubkey

/-- What an instruction logs when it succeeds. -/
inductive Event where
  | poolInitialized (pool mintA mintB authority : Pubkey) (swapFeeBps protocolFeeBps liqRatioBps
      maxLtvBps interestBaseBpsPerYear interestSlope1BpsPerYear interestSlope2BpsPerYear
      interestKinkBps : ℕ)
  | liquidityAdded (pool user : Pubkey) (amountAIn amountBIn lpMinted : ℕ)
  | liquidityRemoved (pool user : Pubkey) (lpBurned amountAOut amountBOut : ℕ)
  | loanOpened (pool loan borrower : Pubkey) (nonce sides collateralAmount debtAmount bandId
      triggerDirection triggerPriceWad : ℕ)
  | loanRepaid (pool loan borrower : Pubkey) (debtPrincipal totalOwed : ℕ)
  | loanLiquidated (pool loan borrower : Pubkey) (sides collateralAmount debtPrincipal
      triggerPriceWad : ℕ)
  | swapExecuted (pool user : Pubkey) (aToB : Bool) (amountIn amountOut liquidations
      protocolFee : ℕ)
  | protocolFeesClaimed (pool recipient : Pubkey) (amountA amountB : ℕ)
  | liquidatedRentClaimed (pool loan borrower : Pubkey)
  deriving DecidableEq, Repr

/-- What an accepted instruction leaves: the accounts, and what it logged. -/
abbrev Outcome := Ledger × List Event

theorem Pool.matchesAccounts_iff {p : Pool} {accs : PoolAccounts} :
    p.matchesAccounts accs = true ↔
      (∀ s, p.vault s = accs.vault s) ∧ ∀ s, p.mint s = accs.mint s := by
  simp only [Pool.matchesAccounts, decide_eq_true_eq]
  constructor
  · rintro ⟨ha, hb, hma, hmb⟩
    exact ⟨fun s => by cases s <;> assumption, fun s => by cases s <;> assumption⟩
  · rintro ⟨hv, hm⟩
    exact ⟨hv .a, hv .b, hm .a, hm .b⟩

section Opening

variable {accs : PoolAccounts} {rt : Runtime} {led : Ledger} {u : Unit} {p : Pool} {a b : ℕ}

theorem PoolAccounts.owner_of_validate (h : accs.validate rt led = .ok u) :
    (led.accts accs.pool).owner = rt.programId := by
  simp only [validate, Checked.bind_eq_ok, require_eq_ok] at h
  obtain ⟨_, -, _, -, howner⟩ := h
  exact howner

theorem PoolAccounts.loadPool_eq_ok :
    accs.loadPool led = .ok p ↔ (led.accts accs.pool).data = .pool p ∧ p.isInitialized = true ∧
      p.matchesAccounts accs = true := by
  simp only [loadPool, Checked.bind_eq_ok, Ledger.loadPool_eq_ok, require_eq_ok,
    Checked.pure_eq_ok, exists_const]
  constructor
  · rintro ⟨_, hload, hinit, hmatch, rfl⟩
    exact ⟨hload, hinit, hmatch⟩
  · rintro ⟨hload, hinit, hmatch⟩
    exact ⟨p, hload, hinit, hmatch, rfl⟩

theorem PoolAccounts.readVaults_eq_ok :
    accs.readVaults led = .ok (a, b) ↔
      led.readTokenAmount accs.vaultA = .ok a ∧ led.readTokenAmount accs.vaultB = .ok b := by
  simp only [readVaults, Checked.bind_eq_ok, Checked.pure_eq_ok, Prod.mk.injEq]
  constructor
  · rintro ⟨_, ha, _, hb, rfl, rfl⟩
    exact ⟨ha, hb⟩
  · rintro ⟨ha, hb⟩
    exact ⟨a, ha, b, hb, rfl, rfl⟩

end Opening

end ChiefLiquidity
