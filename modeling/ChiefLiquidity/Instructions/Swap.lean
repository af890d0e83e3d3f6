import ChiefLiquidity.Instructions.RepayLoan

/-!
# Swap

`instructions/swap.rs`: a swap liquidates in flight every supplied loan its price path triggers.
The caller hands over the bands the path can reach, each with all of its loans; the program checks
that nothing is missing, runs the liquidation cascade to its fixed point, and settles.

## The loop

A round quotes the swap on the reserves of the moment, computes the price the swap would settle at,
and looks for a supplied loan that is triggered there. The first one in the order of the context is
liquidated: its collateral and its debt leave the totals, which moves both reserves, and the next
round quotes again. The loop ends with the first quote that triggers nothing, or with an error when
a ninth loan would have to go.

`cascade` is recursion on the liquidations that are left under the cap, which is the counter of the
source; there is no fuel that could run out.

## The boundary

The caller says up to which band the price will go, before the final price is known. All populated
bands on that side have to be supplied, and the price of the settlement has to stay on it. Both
checks are in the source because neither is enough: the first without the second would let a swap go
further than it looked, and the second without the first would not look at all.

## Main definitions

* `parseTail`, `checkCoverage` — the liquidation context and its completeness check
* `postSwapPriceWad`, `quoteRound`, `cascade` — the loop that liquidates and re-prices
* `checkBoundary` — the price boundary of the settlement
* `persistLiquidations` — tombstones and band counts
* `processSwap`
-/

namespace ChiefLiquidity

/-- Cap on liquidations in one swap. -/
def maxLiqPerSwap : ℕ := 8

/-- `u32::MAX`. -/
def u32Max : ℕ := 2 ^ 32 - 1

/-- The direction of the loans a swap can trigger: `a_to_b` makes the price of A fall. -/
def swapDirection (aToB : Bool) : TriggerDirection := if aToB then .onFall else .onRise

/-! ### The liquidation context -/

/-- A supplied loan, as the cascade carries it. -/
structure LoanCtx where
  loan : Pubkey
  triggerWad : ℕ
  direction : TriggerDirection
  sides : LoanSides
  collateral : ℕ
  debtPrincipal : ℕ
  liquidated : Bool
  deriving DecidableEq, Repr

/-- A supplied band and its loans. -/
structure BandCtx where
  band : Pubkey
  loans : List Pubkey
  deriving DecidableEq, Repr

/-- The parsed tail: bands and loans in the order supplied, and the ids of the bands. -/
structure Context where
  bands : List BandCtx
  loans : List LoanCtx
  bandIds : List ℕ

/-- Read the loans supplied for one band. They must be open loans of the pool with this band id and
the swap's direction, in strictly ascending order. -/
def parseLoans (rt : Runtime) (led : Ledger) (pool : Pubkey) (bandId directionByte : ℕ) :
    Pubkey → List Pubkey → Result (List LoanCtx)
  | _, [] => .ok []
  | prevKey, key :: keys => do
    require ((led.accts key).owner = rt.programId) .invalidAccountOwner
    require (prevKey < key) .invalidLiquidationContext
    let loan ← led.loadLoan key
    require (loan.isInitialized ∧ loan.pool = pool) .invalidPool
    require loan.isOpen .loanNotOpen
    require (loan.bandId = bandId ∧ loan.triggerDirection = directionByte)
      .invalidLiquidationContext
    let direction ← TriggerDirection.fromU8 loan.triggerDirection
    let sides ← LoanSides.fromU8 loan.sides
    let rest ← parseLoans rt led pool bandId directionByte key keys
    return { loan := key, triggerWad := loan.triggerPriceWad, direction, sides,
             collateral := loan.collateralAmount, debtPrincipal := loan.debtPrincipal,
             liquidated := false } :: rest

/-- Read one supplied band: a live band of the pool and the swap's direction, at its own address,
not supplied before, and with as many loans as it counts. -/
def parseBand (rt : Runtime) (led : Ledger) (pool : Pubkey) (directionByte : ℕ)
    (suppliedBandIds : List ℕ) (key : Pubkey) (k : ℕ) : Result LoanIndexBand := do
  require ((led.accts key).owner = rt.programId) .invalidAccountOwner
  let band ← led.loadBand key
  require (band.isInitialized ∧ band.pool = pool ∧ band.direction = directionByte) .bandMismatch
  let expectedBand ←
    okOr (rt.createProgramAddress (.band pool band.direction band.bandId) band.bump) .bandMismatch
  require (key = expectedBand) .bandMismatch
  require (band.bandId ∉ suppliedBandIds) .invalidLiquidationContext
  require (band.count = k) .incompleteBandWalk
  return band

/-- Read the whole tail: for every count `k` a band and `k` loans, and nothing after the last. -/
def parseTail (rt : Runtime) (led : Ledger) (pool : Pubkey) (directionByte : ℕ) :
    List ℕ → List ℕ → List Pubkey → Result Context
  | suppliedBandIds, [], tail => do
    require (tail = []) .invalidLiquidationContext
    return { bands := [], loans := [], bandIds := suppliedBandIds }
  | _, _ :: _, [] => .error (.custom .invalidLiquidationContext)
  | suppliedBandIds, k :: ks, key :: tail => do
    require (k ≤ tail.length) .invalidLiquidationContext
    let band ← parseBand rt led pool directionByte suppliedBandIds key k
    let loans ← parseLoans rt led pool band.bandId directionByte defaultPubkey (tail.take k)
    let rest ←
      parseTail rt led pool directionByte (suppliedBandIds ++ [band.bandId]) ks (tail.drop k)
    return { bands := { band := key, loans := tail.take k } :: rest.bands
             loans := loans ++ rest.loans, bandIds := rest.bandIds }

/-- The band ids a swap must supply when they are populated. -/
def requiredRange (aToB : Bool) (bandBoundary : ℕ) : ℕ × ℕ :=
  if aToB then (bandBoundary, u32Max) else (0, bandBoundary)

/-- Every set bit on the claimed side of the boundary must belong to a supplied band. -/
def checkCoverage (pool : Pool) (aToB : Bool) (bandBoundary : ℕ) (suppliedBandIds : List ℕ) :
    Result Unit := do
  let bitmap ← pool.bandBitmap (swapDirection aToB).toU8
  let (lo, hi) := requiredRange aToB bandBoundary
  require (∀ id ∈ bitmapIterSetRange bitmap lo hi, id ∈ suppliedBandIds) .incompleteBandWalk

/-- The tail parsing and the coverage check. -/
def checkContext (rt : Runtime) (led : Ledger) (poolKey : Pubkey) (pool : Pool) (aToB : Bool)
    (bandBoundary : ℕ) (bandLoanCounts : List ℕ) (tail : List Pubkey) : Result Context := do
  let context ← parseTail rt led poolKey (swapDirection aToB).toU8 [] bandLoanCounts tail
  checkCoverage pool aToB bandBoundary context.bandIds
  return context

/-! ### The cascade -/

/-- The accounted price once the swap settles: the input side grows by `inGrowth`, the output side
shrinks by `amountOut`. -/
def postSwapPriceWad (accountedA accountedB inGrowth amountOut : ℕ) (aToB : Bool) : Result ℕ :=
  if aToB then do
    let postA ← fits 128 (accountedA + inGrowth)
    let postB ← checkedSub accountedB amountOut
    priceBPerAWad postA postB
  else do
    let postA ← checkedSub accountedA amountOut
    let postB ← fits 128 (accountedB + inGrowth)
    priceBPerAWad postA postB

/-- Mark the first supplied loan that is triggered at `price` and not liquidated yet, and return it
with the updated list. -/
def markNextTriggered (price : ℕ) : List LoanCtx → Option (LoanCtx × List LoanCtx)
  | [] => none
  | l :: ls =>
    if !l.liquidated && isLiquidatable l.triggerWad l.direction price then
      some (l, { l with liquidated := true } :: ls)
    else (markNextTriggered price ls).map fun (hit, ls') => (hit, l :: ls')

/-- What stays fixed while the cascade runs. -/
structure SwapTerms where
  aToB : Bool
  amountIn : ℕ
  inGrowth : ℕ
  realA : ℕ
  realB : ℕ

/-- What the cascade changes. -/
structure CascadeState where
  pool : Pool
  accountedA : ℕ
  accountedB : ℕ
  loans : List LoanCtx

/-- The quote on the current reserves, and the price the swap would settle at. -/
def quoteRound (t : SwapTerms) (st : CascadeState) : Result (ℕ × ℕ) := do
  let (inReserve, outReserve) :=
    if t.aToB then (st.accountedA, st.accountedB) else (st.accountedB, st.accountedA)
  require (inReserve ≠ 0 ∧ outReserve ≠ 0) .zeroReserves
  let amountOut ← cpmmQuoteOut t.amountIn inReserve outReserve st.pool.swapFeeBps
  let postPriceWad ←
    postSwapPriceWad st.accountedA st.accountedB t.inGrowth amountOut t.aToB
  return (amountOut, postPriceWad)

/-- Liquidate one loan: take it out of the totals, and recompute the accounted reserves. -/
def liquidateRound (t : SwapTerms) (st : CascadeState) (hit : LoanCtx) (loans : List LoanCtx) :
    Result CascadeState := do
  let pool ← st.pool.settleLoan hit.sides hit.collateral hit.debtPrincipal
  let (accountedA, accountedB) ← pool.accounted t.realA t.realB
  return { pool, accountedA, accountedB, loans }

/-- What the cascade ends with: its state, the final quote, the final price, and how many loans it
liquidated. -/
structure Settled where
  state : CascadeState
  amountOut : ℕ
  postPriceWad : ℕ
  liqCount : ℕ

/-- The liquidation loop, with `remaining` liquidations left under the cap. -/
def cascade (t : SwapTerms) : ℕ → CascadeState → Result Settled
  | remaining, st => do
    let (amountOut, postPriceWad) ← quoteRound t st
    match markNextTriggered postPriceWad st.loans with
    | none =>
      return { state := st, amountOut, postPriceWad, liqCount := maxLiqPerSwap - remaining }
    | some (hit, loans) =>
      match remaining with
      | 0 => .error (.custom .tooManyLiquidationsRequired)
      | remaining + 1 => do
        let st ← liquidateRound t st hit loans
        cascade t remaining st

/-! ### Settlement -/

/-- Fold the pre-swap spot price into the reference price, once a slot. -/
def Pool.sampleRefPrice (p : Pool) (accountedA accountedB slot : ℕ) : Result Pool :=
  if p.refPriceWad = 0 ∨ slot ≠ p.refPriceSlot then do
    let spotWad ← priceBPerAWad accountedA accountedB
    let refPriceWad ← p.refPriceAt spotWad slot
    return p.withRefPrice refPriceWad slot
  else .ok p

/-- The protocol's share of the swap fee. -/
def Pool.protocolPortion (p : Pool) (amountIn : ℕ) : Result ℕ :=
  if p.swapFeeBps = 0 ∨ p.protocolFeeBps = 0 then .ok 0
  else
    let feeTaken := amountIn * p.swapFeeBps / bpsDenom
    fits 64 (feeTaken * p.protocolFeeBps / p.swapFeeBps)

/-- Add the protocol's share to the fees of the input side. -/
def Pool.accrueFee (p : Pool) (aToB : Bool) (portion : ℕ) : Result Pool :=
  if 0 < portion then
    if aToB then do
      let protocolFeesA ← fits 64 (p.protocolFeesA + portion)
      return { p with protocolFeesA }
    else do
      let protocolFeesB ← fits 64 (p.protocolFeesB + portion)
      return { p with protocolFeesB }
  else .ok p

/-- The post-swap price must lie on the claimed side of the boundary. -/
def checkBoundary (aToB : Bool) (finalPostBand bandBoundary : ℕ) : Result Unit :=
  if aToB then require (bandBoundary ≤ finalPostBand) .incompleteBandWalk
  else require (finalPostBand ≤ bandBoundary) .incompleteBandWalk

/-! ### Persisting -/

/-- Tombstone the liquidated ones among the loans of a band, and count them. -/
def tombstoneLoans (ctxs : List LoanCtx) :
    List Pubkey → Ledger → Result (Ledger × ℕ × List Event)
  | [], led => .ok (led, 0, [])
  | key :: keys, led => do
    let lc ← okOr (ctxs.find? fun lc => lc.loan = key) .invalidLiquidationContext
    if lc.liquidated then
      let loan ← led.loadLoan key
      let event := Event.loanLiquidated loan.pool key loan.borrower lc.sides.toU8 lc.collateral
        lc.debtPrincipal lc.triggerWad
      let tombstone := { loan with
        collateralAmount := 0, debtPrincipal := 0, status := Loan.statusLiquidated
        closedSlot := led.slot }
      let (led, n, events) ← tombstoneLoans ctxs keys (led.setData key (.loan tombstone))
      return (led, n + 1, event :: events)
    else tombstoneLoans ctxs keys led

/-- For each band, tombstone its liquidated loans, lower its count, and clear its bit when it has
become empty. -/
def persistLiquidations (ctxs : List LoanCtx) (directionByte : ℕ) :
    List BandCtx → Ledger → Pool → Result (Ledger × Pool × List Event)
  | [], led, pool => .ok (led, pool, [])
  | bandCtx :: bands, led, pool => do
    let band ← led.loadBand bandCtx.band
    let (led, liquidatedHere, events) ← tombstoneLoans ctxs bandCtx.loans led
    if liquidatedHere = 0 then
      persistLiquidations ctxs directionByte bands led pool
    else
      let count ← checkedSub band.count liquidatedHere
      let pool ← pool.unmarkBand count directionByte band.bandId
      let led := led.setData bandCtx.band (.band (band.withCount count))
      let (led, pool, events') ← persistLiquidations ctxs directionByte bands led pool
      return (led, pool, events ++ events')

/-- The two transfers of a swap: the input from the user, then the output to the user. -/
def swapTransfers (rt : Runtime) (accs : PoolAccounts) (pool : Pool) (aToB : Bool)
    (amountIn amountOut : ℕ) (decimals : Side → ℕ) (led : Ledger) : Result Ledger :=
  if aToB then do
    let led ← accs.payIn rt led .a amountIn (decimals .a)
    accs.payOut rt pool led .b amountOut (decimals .b)
  else do
    let led ← accs.payIn rt led .b amountIn (decimals .b)
    accs.payOut rt pool led .a amountOut (decimals .a)

/-- `Swap`: check that the loans handed in are all that the quote could reach, sample the reference
price, run the cascade of liquidations to its end, pay, and write the liquidated loans back. -/
def processSwap (rt : Runtime) (accs : SwapAccounts) (amountIn minOut : ℕ) (aToB : Bool)
    (bandBoundary : ℕ) (bandLoanCounts : List ℕ) (led : Ledger) : Result Outcome := do
  require accs.userIsSigner .missingRequiredSigner
  accs.validate rt led
  require (amountIn ≠ 0) .zeroAmount
  let pool ← accs.loadPool led
  let context ← checkContext rt led accs.pool pool aToB bandBoundary bandLoanCounts accs.tail
  let decimals ← accs.readDecimals led
  let (realA, realB) ← accs.readVaults led
  let pool ← pool.bumpIndexes realA realB led.slot
  let (accountedA, accountedB) ← pool.accounted realA realB
  require (accountedA ≠ 0 ∧ accountedB ≠ 0) .zeroReserves
  let pool ← pool.sampleRefPrice accountedA accountedB led.slot
  require (pool.swapFeeBps < bpsDenom) .settingExceedsMaximum
  let protocolPortion ← pool.protocolPortion amountIn
  let terms := { aToB, amountIn, inGrowth := amountIn - protocolPortion, realA, realB }
  let settled ← cascade terms maxLiqPerSwap
    { pool, accountedA, accountedB, loans := context.loans }
  require (settled.amountOut ≠ 0) .zeroAmount
  let amountOut ← fits 64 settled.amountOut
  require (minOut ≤ amountOut) .slippageExceeded
  let (swappableA, swappableB) ← settled.state.pool.swappable realA realB
  require (amountOut ≤ if aToB then swappableB else swappableA) .insolvent
  let pool ← settled.state.pool.accrueFee aToB protocolPortion
  let finalPostBand ← bandIdForTrigger settled.postPriceWad
  checkBoundary aToB finalPostBand bandBoundary
  let (led, pool, events) ← persistLiquidations settled.state.loans (swapDirection aToB).toU8
    context.bands led pool
  let led ← swapTransfers rt accs.toPoolAccounts pool aToB amountIn amountOut decimals led
  let pool := pool.stamp led.slot
  return (led.setData accs.pool (.pool pool), events ++
    [.swapExecuted accs.pool accs.user aToB amountIn amountOut settled.liqCount protocolPortion])

end ChiefLiquidity
