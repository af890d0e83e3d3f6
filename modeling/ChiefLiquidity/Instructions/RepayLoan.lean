import ChiefLiquidity.Instructions.Accounts

/-!
# RepayLoan

`instructions/repay_loan.rs`: the borrower pays principal and accrued interest, gets the
collateral back, and the loan leaves the totals and its band. The loan account is drained and
zeroed; the emptied band stays allocated.

## What is paid

The borrower pays the principal grown by the borrow index of the debt side since the loan was
opened, rounded up, and gets back exactly what was posted. The totals lose the principal and not the
payment: interest is never in the totals, it is in the vault once it is paid, and from then on
belongs to the LPs.

## What stays

The source marks the loan repaid and then drains and zeroes it in the same instruction; what stays
of the account is its zeroed bytes, until the chain collects it. The band keeps its account when its
last loan leaves, with a count of zero and its bit cleared.

## Main definitions

* `processRepayLoan`
-/

namespace ChiefLiquidity

/-- `RepayLoan`: accrue, take what the loan owes into the vault of its debt side, give its
collateral back, take it out of its band and close its account. -/
def processRepayLoan (rt : Runtime) (accs : LoanAccounts) (led : Ledger) : Result Outcome := do
  require accs.userIsSigner .missingRequiredSigner
  accs.validate rt led
  require ((led.accts accs.loan).owner = rt.programId ∧
    (led.accts accs.band).owner = rt.programId) .invalidAccountOwner
  let pool ← accs.loadPool led
  let loan ← led.loadLoan accs.loan
  require loan.isInitialized .notInitialized
  require loan.isOpen .loanNotOpen
  require (loan.pool = accs.pool ∧ loan.borrower = accs.user) .invalidPool
  let band ← led.loadBand accs.band
  require (band.isInitialized ∧ band.pool = accs.pool ∧ band.bandId = loan.bandId ∧
    band.direction = loan.triggerDirection) .bandMismatch
  let (expectedBand, _) :=
    rt.findProgramAddress (.band accs.pool loan.triggerDirection loan.bandId)
  require (expectedBand = accs.band) .invalidPDA
  let (realA, realB) ← accs.readVaults led
  let pool ← pool.bumpIndexes realA realB led.slot
  let curIndex ← pool.borrowIndexForDebtSide loan.sides
  let totalOwed ← loan.owed curIndex
  let totalOwed ← fits 64 totalOwed
  let sides ← LoanSides.fromU8 loan.sides
  let collateralAmount ← fits 64 loan.collateralAmount
  let decimals ← accs.readDecimals led
  let led ← accs.payIn rt led sides.debtSide totalOwed (decimals sides.debtSide)
  let led ← accs.payOut rt pool led sides.collateralSide collateralAmount
    (decimals sides.collateralSide)
  let pool ← pool.settleLoan sides loan.collateralAmount loan.debtPrincipal
  let pool := pool.stamp led.slot
  let count ← checkedSub band.count 1
  let pool ← pool.unmarkBand count band.direction band.bandId
  let led := led.setData accs.band (.band (band.withCount count))
  -- Marked repaid and then closed in the same instruction: what stays is the zeroed account.
  let led := led.setData accs.loan (.loan Loan.zeroed)
  return (led.setData accs.pool (.pool pool),
    [.loanRepaid accs.pool accs.loan accs.user loan.debtPrincipal totalOwed])

end ChiefLiquidity
