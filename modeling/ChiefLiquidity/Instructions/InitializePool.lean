import ChiefLiquidity.Instructions.Accounts

/-!
# InitializePool

`instructions/initialize_pool.rs`: the fixed economics every pool gets, the mint extension
allowlist, and the creation of the pool, its two vaults and its LP mint.

## Economics are constants

A pool is created with the same terms whoever creates it, and has no authority afterwards: the
`authority` field is the default key from the start. So the terms of a pool are known without
looking at it, and every result about pools may use them (`StandardTerms` says so of a market).

## Mints

The mints are sorted, which gives each pair one pool. A mint of the first token program has no
extensions. A Token-2022 mint is refused when it carries one that could make a vault receive less
than was sent, freeze it, or move tokens out of it; the allowlist names the extensions that cannot.

## Main definitions

* `newPool` — the pool state an initialization writes
* `validateMintExtensions`
* `processInitializePool`
-/

namespace ChiefLiquidity

/-- `LP_MINT_DECIMALS`. -/
def lpMintDecimals : ℕ := 9

/-- `SWAP_FEE_BPS`: 0.3 % of the input of a swap. -/
def defaultSwapFeeBps : ℕ := 30

/-- `PROTOCOL_FEE_BPS`: the part of the swap fee that goes to the protocol. -/
def defaultProtocolFeeBps : ℕ := 5

/-- `LIQ_RATIO_BPS`: collateral over debt, in value, at which a loan is liquidated. -/
def defaultLiqRatioBps : ℕ := 11_000

/-- `MAX_LTV_BPS`: debt over collateral, in value, up to which a loan may be opened. -/
def defaultMaxLtvBps : ℕ := 8_000

/-- `INTEREST_BASE_BPS_PER_YEAR`: the rate of a pool that has lent nothing. -/
def defaultInterestBaseBpsPerYear : ℕ := 0

/-- `INTEREST_SLOPE1_BPS_PER_YEAR`: what the rate gains up to the kink. -/
def defaultInterestSlope1BpsPerYear : ℕ := 400

/-- `INTEREST_SLOPE2_BPS_PER_YEAR`: what it gains beyond. -/
def defaultInterestSlope2BpsPerYear : ℕ := 30_000

/-- `INTEREST_KINK_BPS`: the utilization at which the rate bends. -/
def defaultInterestKinkBps : ℕ := 8_000

/-- `MINT_EXTENSION_ALLOWLIST`. -/
def mintExtensionAllowlist : List ExtensionType :=
  [.mintCloseAuthority, .interestBearingConfig, .metadataPointer, .tokenMetadata, .groupPointer,
    .tokenGroup, .groupMemberPointer, .tokenGroupMember]

/-- An extension a vault can safely hold the tokens of. -/
def extensionAllowed (m : Mint) (ext : ExtensionType) : Bool :=
  ext ∈ mintExtensionAllowlist ∧ (ext ≠ .mintCloseAuthority ∨ m.closeAuthority = none)

/-- Reject Token-2022 mints carrying any extension that is not allowed. -/
def validateMintExtensions (rt : Runtime) (led : Ledger) (mint tokenProgram : Pubkey) :
    Result Unit :=
  if tokenProgram ≠ rt.token2022Id then .ok ()
  else
    match (led.accts mint).data with
    | .mint m => require (∀ ext ∈ m.extensions, extensionAllowed m ext) .unsupportedMintExtension
    | _ => .error .invalidAccountData

/-- The pool state an initialization writes. -/
def newPool (accs : InitializeAccounts) (poolBump vaultABump vaultBBump lpMintBump slot : ℕ) :
    Pool where
  discriminator := poolDiscriminator
  mintA := accs.mintA
  mintB := accs.mintB
  vaultA := accs.vaultA
  vaultB := accs.vaultB
  lpMint := accs.lpMint
  authority := defaultPubkey
  poolBump := poolBump
  vaultABump := vaultABump
  vaultBBump := vaultBBump
  lpMintBump := lpMintBump
  totalDebtA := 0
  totalDebtB := 0
  totalCollateralA := 0
  totalCollateralB := 0
  curveKind := curveKindCpmm
  swapFeeBps := defaultSwapFeeBps
  protocolFeeBps := defaultProtocolFeeBps
  liqRatioBps := defaultLiqRatioBps
  maxLtvBps := defaultMaxLtvBps
  interestBaseBpsPerYear := defaultInterestBaseBpsPerYear
  interestSlope1BpsPerYear := defaultInterestSlope1BpsPerYear
  interestSlope2BpsPerYear := defaultInterestSlope2BpsPerYear
  interestKinkBps := defaultInterestKinkBps
  borrowIndexAWad := wad
  borrowIndexBWad := wad
  lastIndexUpdateSlot := slot
  openLoans := 0
  nextLoanNonce := 0
  lastUpdateSlot := slot
  protocolFeesA := 0
  protocolFeesB := 0
  bandBitmapFall := fun _ => 0
  bandBitmapRise := fun _ => 0
  refPriceWad := 0
  refPriceSlot := 0

/-- `create_vault`: a token account of `mint` that the pool PDA owns. -/
def createVault (rt : Runtime) (led : Ledger) (tokenProgram pool mint vault : Pubkey) :
    Result Ledger := do
  let led ← createPdaAccount led vault .other tokenProgram
  initializeAccount rt led tokenProgram vault mint pool

/-- `create_lp_mint`: a mint only the pool PDA can mint. -/
def createLpMint (rt : Runtime) (led : Ledger) (tokenProgram pool lpMint : Pubkey) :
    Result Ledger := do
  let led ← createPdaAccount led lpMint .other tokenProgram
  initializeMint rt led tokenProgram lpMint pool lpMintDecimals

/-- `InitializePool`: create the pool of two mints with its vaults and its LP mint, all at addresses
derived from the mints. The setup authority signs and keeps no power over the pool. -/
def processInitializePool (rt : Runtime) (accs : InitializeAccounts) (led : Ledger) :
    Result Outcome := do
  require accs.authorityIsSigner .missingRequiredSigner
  validateTokenProgramForMint rt led accs.tokenProgramA accs.mintA
  validateTokenProgramForMint rt led accs.tokenProgramB accs.mintB
  require (accs.mintA ≠ accs.mintB) .mintsMustDiffer
  require (accs.mintA < accs.mintB) .mintsNotSorted
  validateMintExtensions rt led accs.mintA accs.tokenProgramA
  validateMintExtensions rt led accs.mintB accs.tokenProgramB
  let (expectedPool, poolBump) := rt.findProgramAddress (.pool accs.mintA accs.mintB)
  require (accs.pool = expectedPool) .invalidPDA
  let (expectedVaultA, vaultABump) := rt.findProgramAddress (.vaultA accs.pool)
  require (accs.vaultA = expectedVaultA) .invalidPDA
  let (expectedVaultB, vaultBBump) := rt.findProgramAddress (.vaultB accs.pool)
  require (accs.vaultB = expectedVaultB) .invalidPDA
  let (expectedLpMint, lpMintBump) := rt.findProgramAddress (.lpMint accs.pool)
  require (accs.lpMint = expectedLpMint) .invalidPDA
  require (dataIsEmpty led accs.pool) .alreadyInitialized
  let led ← createPdaAccount led accs.pool (.pool Pool.zeroed) rt.programId
  let led ← createVault rt led accs.tokenProgramA accs.pool accs.mintA accs.vaultA
  let led ← createVault rt led accs.tokenProgramB accs.pool accs.mintB accs.vaultB
  let led ← createLpMint rt led accs.tokenProgramA accs.pool accs.lpMint
  let pool := newPool accs poolBump vaultABump vaultBBump lpMintBump led.slot
  return (led.setData accs.pool (.pool pool),
    [.poolInitialized accs.pool accs.mintA accs.mintB defaultPubkey defaultSwapFeeBps
      defaultProtocolFeeBps defaultLiqRatioBps defaultMaxLtvBps defaultInterestBaseBpsPerYear
      defaultInterestSlope1BpsPerYear defaultInterestSlope2BpsPerYear defaultInterestKinkBps])

end ChiefLiquidity
