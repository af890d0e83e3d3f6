import ChiefLiquidity.Instructions.AddLiquidity

/-!
# RemoveLiquidity

`instructions/remove_liquidity.rs`: LP is burned for the floor of its share of each accounted
reserve, as long as the LP-owned part of the vaults covers it.

## Three limits

A withdrawal is a floor of the accounted reserves, which contain what is lent out; what it can pay
is in the vaults and belongs to the LPs, which is less. It fails when the first exceeds the second.
It fails too when it would leave a supply between zero and the minimum, and when a side that is not
empty would pay nothing, so that no LP is burned for one token only.

The burn comes before the payments, and the LP token program is that of the first mint.

## Main definitions

* `checkSupplyFloor`, `withdrawalAmounts`
* `processRemoveLiquidity`
-/

namespace ChiefLiquidity

/-- A burn may not take a supply at or above the floor to a nonzero supply below it. -/
def checkSupplyFloor (lpSupply lpAmount : ℕ) : Result Unit := do
  let postSupply ← checkedSub lpSupply lpAmount
  require (¬ (minimumLiquidity ≤ lpSupply ∧ postSupply ≠ 0 ∧ postSupply < minimumLiquidity))
    .minimumLiquidityFloor

/-- The floor of the share of each side; a side that is not empty never pays nothing. -/
def withdrawalAmounts (lpAmount accountedA accountedB lpSupply : ℕ) : Result (ℕ × ℕ) := do
  let amountAOut ← mulDiv lpAmount accountedA lpSupply
  let amountBOut ← mulDiv lpAmount accountedB lpSupply
  require (¬ (amountAOut = 0 ∧ accountedA ≠ 0 ∨ amountBOut = 0 ∧ accountedB ≠ 0)) .zeroAmount
  return (amountAOut, amountBOut)

/-- `RemoveLiquidity`: burn LP and pay out its share of both accounted reserves, as long as the
vaults can cover it and the LP supply does not fall between zero and its floor. -/
def processRemoveLiquidity (rt : Runtime) (accs : LiquidityAccounts)
    (lpAmount minAOut minBOut : ℕ) (led : Ledger) : Result Outcome := do
  require accs.userIsSigner .missingRequiredSigner
  accs.validate rt led
  require (lpAmount ≠ 0) .zeroAmount
  let pool ← accs.loadPool led
  require (pool.lpMint = accs.lpMint) .invalidPool
  let decimals ← accs.readDecimals led
  let lpDecimals ← led.readMintDecimals accs.lpMint
  let lpSupply ← led.readMintSupply accs.lpMint
  let (realA, realB) ← accs.readVaults led
  require (lpSupply ≠ 0) .zeroReserves
  require (lpAmount ≤ lpSupply) .mathUnderflow
  checkSupplyFloor lpSupply lpAmount
  let pool ← pool.bumpIndexes realA realB led.slot
  let (accountedA, accountedB) ← pool.accounted realA realB
  let (swappableA, swappableB) ← pool.swappable realA realB
  let (amountAOut, amountBOut) ← withdrawalAmounts lpAmount accountedA accountedB lpSupply
  let amountAOut ← fits 64 amountAOut
  let amountBOut ← fits 64 amountBOut
  require (minAOut ≤ amountAOut ∧ minBOut ≤ amountBOut) .slippageExceeded
  require (amountAOut ≤ swappableA ∧ amountBOut ≤ swappableB) .insufficientExecutableLiquidity
  let led ← burnChecked rt led accs.tokenProgramA accs.userLp accs.lpMint accs.user
    accs.userIsSigner lpAmount lpDecimals
  let led ← accs.payOut rt pool led .a amountAOut (decimals .a)
  let led ← accs.payOut rt pool led .b amountBOut (decimals .b)
  let pool := pool.stamp led.slot
  return (led.setData accs.pool (.pool pool),
    [.liquidityRemoved accs.pool accs.user lpAmount amountAOut amountBOut])

theorem withdrawalAmounts_eq_ok {lp accA accB supply a b : ℕ}
    (h : withdrawalAmounts lp accA accB supply = .ok (a, b)) :
    supply ≠ 0 ∧ a = lp * accA / supply ∧ b = lp * accB / supply := by
  simp only [withdrawalAmounts, Checked.bind_eq_ok, require_eq_ok, mulDiv_eq_ok,
    Checked.pure_eq_ok, Prod.mk.injEq] at h
  obtain ⟨_, ⟨hS, -, -, rfl⟩, _, ⟨-, -, -, rfl⟩, _, -, rfl, rfl⟩ := h
  exact ⟨hS, rfl, rfl⟩

end ChiefLiquidity
