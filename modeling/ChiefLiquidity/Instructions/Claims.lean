import ChiefLiquidity.Instructions.Accounts

/-!
# ClaimProtocolFees and ClaimLiquidatedRent

`instructions/claim_protocol_fees.rs`, a permissionless crank to a fixed recipient, and
`instructions/claim_liquidated_rent.rs`, which zeroes the tombstone of a liquidated loan.

## Who may call

Nobody has to sign a fee claim: the destination has to be owned by the fee recipient, and it does
not matter who pays for the transaction. The rent claim is signed by the borrower, and takes a loan
that a swap has liquidated. It names no pool, because a liquidated loan is in no total any more.

## What is left behind

A loan account is zeroed before its lamports go, so that it cannot be taken for a loan if somebody
funds it again in the same transaction. A zeroed account keeps its length; `isZeroedProgramAccount`
is how the program tells one when it wants to use the address once more.

## Main definitions

* `processClaimProtocolFees`
* `processClaimLiquidatedRent`
-/

namespace ChiefLiquidity

/-- Pay out the accumulated fee of one side, if there is any. -/
def payFee (rt : Runtime) (accs : ClaimFeesAccounts) (pool : Pool) (led : Ledger) (side : Side)
    (decimals : ℕ) : Result Ledger :=
  if 0 < pool.fees side then accs.payOut rt pool led side (pool.fees side) decimals else .ok led

/-- `ClaimProtocolFees`: pay both accumulated fees out to accounts of the fee recipient. Nobody has
to sign, and a pool without fees is left as it is. -/
def processClaimProtocolFees (rt : Runtime) (accs : ClaimFeesAccounts) (led : Ledger) :
    Result Outcome := do
  accs.validate rt led
  let ownerA ← led.readTokenOwner accs.userA
  let ownerB ← led.readTokenOwner accs.userB
  require (ownerA = protocolFeeRecipient ∧ ownerB = protocolFeeRecipient) .invalidFeeRecipient
  let pool ← accs.loadPool led
  if pool.protocolFeesA = 0 ∧ pool.protocolFeesB = 0 then return (led, [])
  else
    let decimals ← accs.readDecimals led
    let led ← payFee rt accs pool led .a (decimals .a)
    let led ← payFee rt accs pool led .b (decimals .b)
    let claimed := (pool.withFees 0 0).stamp led.slot
    return (led.setData accs.pool (.pool claimed),
      [.protocolFeesClaimed accs.pool protocolFeeRecipient pool.protocolFeesA pool.protocolFeesB])

/-- `ClaimLiquidatedRent`: the borrower of a liquidated loan closes its account, whose bytes are
zeroed before the lamports go back. -/
def processClaimLiquidatedRent (rt : Runtime) (accs : ClaimRentAccounts) (led : Ledger) :
    Result Outcome := do
  require accs.borrowerIsSigner .missingRequiredSigner
  require ((led.accts accs.loan).owner = rt.programId) .invalidAccountOwner
  let loan ← led.loadLoan accs.loan
  require loan.isInitialized .notInitialized
  require (loan.status = Loan.statusLiquidated) .loanNotLiquidatable
  require (loan.borrower = accs.borrower) .invalidAuthority
  return (led.setData accs.loan (.loan Loan.zeroed),
    [.liquidatedRentClaimed loan.pool accs.loan accs.borrower])

end ChiefLiquidity
