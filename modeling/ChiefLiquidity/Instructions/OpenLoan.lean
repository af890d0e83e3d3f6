import ChiefLiquidity.Instructions.Accounts

/-!
# OpenLoan

`instructions/open_loan.rs`: post collateral, take debt, and enter the loan into its band.

## The checks

A loan has to be worth its debt at two prices: at the spot price of the moment, which a swap can
move, and at the reference price, which it cannot move within its slot. The first is taken as the
exact ratio of the reserves and the second as a WAD price, which is why `checkLtv` takes fractions.
A loan that would be liquidatable at once is refused too.

## Three kinds of band account

The band of a trigger is an account that may not exist yet, may exist and be in use, or may have
been drained and zeroed by an earlier life of the address. All three end in a live band of the right
id, and what follows does not depend on which of them it was.

## Order of the writes

The loan and its band are written before the tokens move and the pool after. An instruction that
fails leaves no trace, so the order shows in the errors only.

## Main definitions

* `checkLtv` — the loan-to-value test at the spot and at the reference price
* `allocateBand` — the three cases of a band account: unused, zeroed, live
* `processOpenLoan`
-/

namespace ChiefLiquidity

/-- The loan must be within `max_ltv_bps` both at the exact spot ratio and at the reference price,
and off its own trigger. -/
def checkLtv (pool : Pool) (sides : LoanSides) (collateralAmount debtAmount accountedA accountedB
    slot triggerPriceWad : ℕ) (direction : TriggerDirection) : Result Unit := do
  let spotPriceWad ← priceBPerAWad accountedA accountedB
  let refPriceWad ← pool.refPriceAt spotPriceWad slot
  let ((spotNum, spotDen), (refNum, refDen)) := match sides with
    | .collateralA => ((accountedA, accountedB), (wad, refPriceWad))
    | .collateralB => ((accountedB, accountedA), (refPriceWad, wad))
  let spotLtv ← ltvBps debtAmount collateralAmount spotNum spotDen
  let refLtv ← ltvBps debtAmount collateralAmount refNum refDen
  require (max spotLtv refLtv ≤ pool.maxLtvBps) .ltvExceedsMax
  require (¬ isLiquidatable triggerPriceWad direction spotPriceWad) .ltvExceedsMax

/-- A band account at its first use. -/
def newBand (pool : Pubkey) (direction bandId bump : ℕ) : LoanIndexBand where
  discriminator := loanIndexBandDiscriminator
  pool := pool
  bandId := bandId
  direction := direction
  bump := bump
  count := 0

/-- Create the band account, or initialize a zeroed one in place; leave a live one alone. -/
def allocateBand (rt : Runtime) (led : Ledger) (band pool : Pubkey) (direction bandId bump : ℕ) :
    Result Ledger :=
  if dataIsEmpty led band then do
    let led ← createPdaAccount led band (.band LoanIndexBand.zeroed) rt.programId
    return led.setData band (.band (newBand pool direction bandId bump))
  else if isZeroedProgramAccount rt led band then
    return led.setData band (.band (newBand pool direction bandId bump))
  else return led

/-- The record of a loan opened now. -/
def newLoan (pool borrower : Pubkey) (nonce bump sides collateralAmount debtAmount
    borrowIndexSnapshotWad triggerPriceWad triggerDirection bandId slot : ℕ) : Loan where
  discriminator := loanDiscriminator
  pool := pool
  borrower := borrower
  nonce := nonce
  bump := bump
  sides := sides
  collateralAmount := collateralAmount
  debtPrincipal := debtAmount
  borrowIndexSnapshotWad := borrowIndexSnapshotWad
  lastTouchSlot := slot
  triggerPriceWad := triggerPriceWad
  triggerDirection := triggerDirection
  status := Loan.statusOpen
  bandId := bandId
  openedSlot := slot
  closedSlot := 0

/-- `OpenLoan`: accrue, check the loan against the spot and the reference price, post its collateral
into one vault, pay its principal out of the other, and file the loan in its band. -/
def processOpenLoan (rt : Runtime) (accs : LoanAccounts)
    (sidesByte collateralAmount debtAmount nonce : ℕ) (led : Ledger) : Result Outcome := do
  require accs.userIsSigner .missingRequiredSigner
  accs.validate rt led
  require (collateralAmount ≠ 0 ∧ debtAmount ≠ 0) .zeroAmount
  let pool ← accs.loadPool led
  let sides ← LoanSides.fromU8 sidesByte
  let (realA, realB) ← accs.readVaults led
  let pool ← pool.bumpIndexes realA realB led.slot
  let (triggerPriceWad, direction) ←
    recomputeTrigger sides collateralAmount debtAmount pool.liqRatioBps
  let (accountedA, accountedB) ← pool.accounted realA realB
  let (swappableA, swappableB) ← pool.swappable realA realB
  require (accountedA ≠ 0 ∧ accountedB ≠ 0) .zeroReserves
  checkLtv pool sides collateralAmount debtAmount accountedA accountedB led.slot triggerPriceWad
    direction
  let debtSwappable := match sides.debtSide with
    | .a => swappableA
    | .b => swappableB
  require (debtAmount ≤ debtSwappable) .insufficientExecutableLiquidity
  let (expectedLoan, loanBump) := rt.findProgramAddress (.loan accs.pool accs.user nonce)
  require (accs.loan = expectedLoan) .invalidPDA
  let bandId ← bandIdForTrigger triggerPriceWad
  let directionByte := direction.toU8
  let (expectedBand, bandBump) := rt.findProgramAddress (.band accs.pool directionByte bandId)
  require (accs.band = expectedBand) .bandMismatch
  require (dataIsEmpty led accs.loan) .alreadyInitialized
  let led ← createPdaAccount led accs.loan (.loan Loan.zeroed) rt.programId
  let led ← allocateBand rt led accs.band accs.pool directionByte bandId bandBump
  let band ← led.loadBand accs.band
  require (band.isInitialized ∧ band.pool = accs.pool ∧ band.bandId = bandId ∧
    band.direction = directionByte) .bandMismatch
  require (band.count < LoanIndexBand.maxLoans) .bandFull
  let pool ← pool.markBand band.count directionByte bandId
  let borrowIndexSnapshotWad ← pool.borrowIndexForDebtSide sidesByte
  let loan := newLoan accs.pool accs.user nonce loanBump sidesByte collateralAmount debtAmount
    borrowIndexSnapshotWad triggerPriceWad directionByte bandId led.slot
  let led := led.setData accs.loan (.loan loan)
  let count ← fits 32 (band.count + 1)
  let led := led.setData accs.band (.band (band.withCount count))
  let decimals ← accs.readDecimals led
  let led ← accs.payIn rt led sides.collateralSide collateralAmount (decimals sides.collateralSide)
  let led ← accs.payOut rt pool led sides.debtSide debtAmount (decimals sides.debtSide)
  let pool ← pool.admitLoan sides collateralAmount debtAmount
  let pool := pool.stamp led.slot
  return (led.setData accs.pool (.pool pool),
    [.loanOpened accs.pool accs.loan accs.user nonce sidesByte collateralAmount debtAmount bandId
      directionByte triggerPriceWad])

end ChiefLiquidity
