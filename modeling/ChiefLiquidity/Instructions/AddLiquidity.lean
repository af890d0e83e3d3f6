import ChiefLiquidity.Instructions.Accounts

/-!
# AddLiquidity

`instructions/add_liquidity.rs`: a deposit is charged, rounded up, for exactly the LP it mints.

## How a deposit is charged

The offer is cut down to the ratio of the reserves, the LP for what is left is the smaller of two
floors, and the charge is recomputed from that LP, rounded up. So what an LP token costs never falls
below what it stands for. The price of the three roundings is borne by the depositor: the LP can be
less than what the whole offer pays for, and never more.

The first deposit has no ratio to keep. It is taken as it is offered, and mints the root of the
product of its amounts; what it leaves in the vaults besides was sent there by somebody and belongs
to whoever deposits first.

## Main definitions

* `deriveDeposit`
* `processAddLiquidity`

## Main results

* `deriveDeposit_later` — what a deposit into a live pool is charged
-/

namespace ChiefLiquidity

/-- `MIN_FIRST_DEPOSIT`: the least a first deposit may offer of either token. -/
def minFirstDeposit : ℕ := 1_000_000

/-- Floor on the LP supply of a live pool. -/
def minimumLiquidity : ℕ := 1_000

/-- The part of the offer that is in the ratio of the reserves. -/
def matchedAmounts (amountAMax amountBMax accountedA accountedB : ℕ) : Result (ℕ × ℕ) := do
  let idealB ← mulDiv amountAMax accountedB accountedA
  if idealB ≤ amountBMax then return (amountAMax, idealB)
  else
    let idealA ← mulDiv amountBMax accountedA accountedB
    return (idealA, amountBMax)

/-- The amounts taken and the LP minted for a deposit offering up to the two maxes. -/
def deriveDeposit (amountAMax amountBMax accountedA accountedB lpSupply : ℕ) :
    Result (ℕ × ℕ × ℕ) :=
  if lpSupply = 0 then do
    require (¬ (amountAMax < minFirstDeposit ∨ amountBMax < minFirstDeposit)) .zeroAmount
    let lp := isqrt (← fits 128 (amountAMax * amountBMax))
    require (minimumLiquidity ≤ lp) .zeroAmount
    return (amountAMax, amountBMax, lp)
  else do
    require (accountedA ≠ 0 ∧ accountedB ≠ 0) .zeroReserves
    let (aIn, bIn) ← matchedAmounts amountAMax amountBMax accountedA accountedB
    require (aIn ≠ 0 ∧ bIn ≠ 0) .zeroAmount
    let lpA ← mulDiv aIn lpSupply accountedA
    let lpB ← mulDiv bIn lpSupply accountedB
    let lp := min lpA lpB
    require (lp ≠ 0) .zeroAmount
    -- `ceil (lp * A / S)` never exceeds what was offered, so the minimum changes nothing.
    let chargeA ← mulDivCeil lp accountedA lpSupply
    let chargeB ← mulDivCeil lp accountedB lpSupply
    return (min chargeA aIn, min chargeB bIn, lp)

/-- `AddLiquidity`: take what is in proportion of the offer, at most the two maxes, and mint LP for
it. The amounts are those of the reserves before the deposit; the reference price is sampled only
by later swaps. -/
def processAddLiquidity (rt : Runtime) (accs : LiquidityAccounts)
    (amountAMax amountBMax minLpOut : ℕ) (led : Ledger) : Result Outcome := do
  require accs.userIsSigner .missingRequiredSigner
  accs.validate rt led
  require (amountAMax ≠ 0 ∧ amountBMax ≠ 0) .zeroAmount
  let pool ← accs.loadPool led
  require (pool.lpMint = accs.lpMint) .invalidPool
  let decimals ← accs.readDecimals led
  let lpDecimals ← led.readMintDecimals accs.lpMint
  let lpSupply ← led.readMintSupply accs.lpMint
  let (realA, realB) ← accs.readVaults led
  let pool ← pool.bumpIndexes realA realB led.slot
  let (accountedA, accountedB) ← pool.accounted realA realB
  let (amountAIn, amountBIn, lpToMint) ←
    deriveDeposit amountAMax amountBMax accountedA accountedB lpSupply
  let amountAIn ← fits 64 amountAIn
  let amountBIn ← fits 64 amountBIn
  let lpToMint ← fits 64 lpToMint
  require (minLpOut ≤ lpToMint) .slippageExceeded
  let led ← accs.payIn rt led .a amountAIn (decimals .a)
  let led ← accs.payIn rt led .b amountBIn (decimals .b)
  let led ← mintToChecked rt led accs.tokenProgramA accs.lpMint accs.userLp accs.pool
    (pool.signsFor rt accs.pool) lpToMint lpDecimals
  let pool := pool.stamp led.slot
  return (led.setData accs.pool (.pool pool),
    [.liquidityAdded accs.pool accs.user amountAIn amountBIn lpToMint])

/-- **A deposit into a live pool** pays the ceiling of what its LP is worth on each side. -/
theorem deriveDeposit_later {maxA maxB accA accB supply a b lp : ℕ} (hS : supply ≠ 0)
    (h : deriveDeposit maxA maxB accA accB supply = .ok (a, b, lp)) :
    0 < accA ∧ 0 < accB ∧ 0 < lp ∧
      a = Rounding.up (lp * accA) supply ∧ b = Rounding.up (lp * accB) supply := by
  rw [deriveDeposit, if_neg hS] at h
  simp only [Checked.bind_eq_ok, require_eq_ok, Checked.pure_eq_ok, Prod.mk.injEq, Prod.exists,
    mulDiv_eq_ok] at h
  obtain ⟨_, ⟨hA, hB⟩, aIn, bIn, -, _, -, lpA, ⟨-, -, -, rfl⟩, lpB, ⟨-, -, -, rfl⟩, _, hlp,
    chargeA, hchA, chargeB, hchB, rfl, rfl, rfl⟩ := h
  obtain ⟨hSpos, rfl⟩ := mulDivCeil_eq_ok hchA
  obtain ⟨-, rfl⟩ := mulDivCeil_eq_ok hchB
  refine ⟨Nat.pos_of_ne_zero hA, Nat.pos_of_ne_zero hB, Nat.pos_of_ne_zero hlp, ?_, ?_⟩
  · refine min_eq_left (Rounding.up_le hSpos ?_)
    exact (Nat.mul_le_mul_right _ (min_le_left _ _)).trans (Nat.div_mul_le_self _ _)
  · refine min_eq_left (Rounding.up_le hSpos ?_)
    exact (Nat.mul_le_mul_right _ (min_le_right _ _)).trans (Nat.div_mul_le_self _ _)

end ChiefLiquidity
