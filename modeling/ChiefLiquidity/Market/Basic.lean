import ChiefLiquidity.Program
import ChiefLiquidity.ForMathlib.KeyedSum
import ChiefLiquidity.ForMathlib.Firing

/-!
# One pool as a market

What the program is for, seen from one pool: two reserves, the loans open against them, the index
that finds the loans a price move triggers, and the moves the instructions make on all of this.
Accounts, addresses and signatures are gone; the loans are a finite partial map.

A move says everything an accepted instruction does to the pool it is about. That the
instructions of the ledger make these moves and no others is proved in `ChiefLiquidity.Refinement`.

## Two levels

The ledger level has accounts that can be anything, and checks that refuse what they should not be.
The market level has none of this: a `Market` is a pool record, two vault balances, a supply, a map
of open loans, a map of band counts and a slot. It says what the component is for, and the
invariants and the arithmetic are done here. The loans are a partial map whose domain is finite,
given by a set of keys that the invariants carry along.

## Moves are relations

A move is a structure that lists what was checked and what the market is afterwards, with the values
the instruction computed as arguments. Nothing in it is computed again: a property of a move follows
from its fields. What the instruction does with tokens sent to odd places is part of the move. A
payment out may go to the vault it comes from, and then nothing is paid, so every payment is the
amount or zero.

## Sides

A push has an input and an output side, and the loans it can trigger have their collateral on the
input side. All statements about swaps are made in these terms, once for both directions.

## Main definitions

* `Market`, with `Market.reserve`, `Market.spot`
* `Market.Solvent`, `Market.Booked`, `Market.Indexed` — the invariants
* `Market.Cascade`, `Market.provisionalPrice` — liquidation chains and the price they settle at
* `Deposit`, `Withdraw`, `Borrow`, `Repay`, `ClaimFees`, `Trade`, `DriftMove`, and `Move`
-/

namespace ChiefLiquidity

/-- A pool with its vault balances, its LP supply, its open loans by address, the counts of its
band accounts by direction byte and id, and the current slot. -/
structure Market where
  pool : Pool
  real : Side → ℕ
  supply : ℕ
  loans : Pubkey → Option Loan
  bands : ℕ → ℕ → Option ℕ
  slot : ℕ

/-! ### Weights of a loan -/

namespace Loan

/-- The collateral of a loan with these sides, zero for any other loan. -/
def collateralFor (s : LoanSides) (l : Loan) : ℕ :=
  if l.sides = s.toU8 then l.collateralAmount else 0

/-- The principal of a loan with these sides, zero for any other loan. -/
def principalFor (s : LoanSides) (l : Loan) : ℕ := if l.sides = s.toU8 then l.debtPrincipal else 0

/-- One for a loan of this band, zero for any other. -/
def inBand (direction bandId : ℕ) (l : Loan) : ℕ :=
  if l.triggerDirection = direction ∧ l.bandId = bandId then 1 else 0

/-- The cached trigger, direction and band of a loan are the ones its amounts determine. -/
def Sound (liqRatioBps : ℕ) (l : Loan) : Prop :=
  ∃ sides direction, l.sides = sides.toU8 ∧ l.triggerDirection = direction.toU8 ∧
    recomputeTrigger sides l.collateralAmount l.debtPrincipal liqRatioBps =
      .ok (l.triggerPriceWad, direction) ∧
    bandIdForTrigger l.triggerPriceWad = .ok l.bandId

end Loan

namespace Market

/-! ### Reserves -/

/-- The LP-owned part of a vault. -/
def swappable (m : Market) (x : Side) : ℕ := m.real x - m.pool.collateral x - m.pool.fees x

/-- The accounted reserve of a side: the LP-owned part of the vault and what is lent out of it. -/
def reserve (m : Market) (x : Side) : ℕ := m.swappable x + m.pool.debt x

/-- The accounted spot price, B per A. -/
def spot (m : Market) : ℕ := spotWad (m.reserve .a) (m.reserve .b)

/-! ### Invariants -/

/-- The vaults hold the collateral and the fees they owe. -/
def Solvent (m : Market) : Prop := ∀ x, m.pool.collateral x + m.pool.fees x ≤ m.real x

/-- The totals of the pool are the totals of its open loans, which are those with keys in `S`. -/
structure Booked (m : Market) (S : Finset Pubkey) : Prop where
  domain : KeyedSum.IsDomain S m.loans
  collateral : ∀ s : LoanSides,
    m.pool.collateral s.collateralSide = KeyedSum.total S m.loans (Loan.collateralFor s)
  debt : ∀ s : LoanSides, m.pool.debt s.debtSide = KeyedSum.total S m.loans (Loan.principalFor s)
  openLoans : m.pool.openLoans = S.card

/-- The number of open loans of a band. -/
def members (m : Market) (S : Finset Pubkey) (direction : TriggerDirection) (bandId : ℕ) : ℕ :=
  KeyedSum.total S m.loans (Loan.inBand direction.toU8 bandId)

/-- The band index is exact. -/
structure Indexed (m : Market) (S : Finset Pubkey) : Prop where
  sound : ∀ k l, m.loans k = some l → l.Sound m.pool.liqRatioBps
  bandId_le : ∀ k l, m.loans k = some l → l.bandId ≤ maxBandId
  bit : ∀ d b, bitmapIsSet (m.pool.bitmapOf d) b = true ↔ 0 < m.members S d b
  count : ∀ d b n, m.bands d.toU8 b = some n → n = m.members S d b ∧ n ≤ LoanIndexBand.maxLoans
  allocated : ∀ d b, 0 < m.members S d b → (m.bands d.toU8 b).isSome

/-- The economics every pool is created with. -/
structure StandardTerms (p : Pool) : Prop where
  swapFee : p.swapFeeBps = defaultSwapFeeBps
  protocolFee : p.protocolFeeBps = defaultProtocolFeeBps
  liqRatio : p.liqRatioBps = defaultLiqRatioBps
  maxLtv : p.maxLtvBps = defaultMaxLtvBps
  base : p.interestBaseBpsPerYear = defaultInterestBaseBpsPerYear
  slope1 : p.interestSlope1BpsPerYear = defaultInterestSlope1BpsPerYear
  slope2 : p.interestSlope2BpsPerYear = defaultInterestSlope2BpsPerYear
  kink : p.interestKinkBps = defaultInterestKinkBps

/-- A market all of whose invariants hold. -/
structure Valid (m : Market) (S : Finset Pubkey) : Prop where
  terms : StandardTerms m.pool
  solvent : m.Solvent
  booked : m.Booked S
  indexed : m.Indexed S

/-- A market that has just been created. -/
structure New (m : Market) : Prop where
  valid : m.Valid ∅
  index : ∀ x, m.pool.index x = wad
  clock : m.pool.lastIndexUpdateSlot = m.slot
  refPrice : m.pool.refPriceWad = 0
  fees : ∀ x, m.pool.fees x = 0
  supply : m.supply = 0

/-! ### Liquidation chains -/

/-- The side a swap pays in on, and the side it is paid on. -/
def inSide (aToB : Bool) : Side := if aToB then .a else .b

/-- The side a swap is paid on. -/
def outSide (aToB : Bool) : Side := if aToB then .b else .a

/-- The sides of the loans a swap can trigger: their collateral is the token it pays in. -/
def swapSides (aToB : Bool) : LoanSides := if aToB then .collateralA else .collateralB

/-- Collateral the pool keeps when the loans in `R` are liquidated. -/
def seized (m : Market) (R : Finset Pubkey) : ℕ :=
  KeyedSum.total R m.loans Loan.collateralAmount

/-- Debt the pool forgives when the loans in `R` are liquidated. -/
def forgiven (m : Market) (R : Finset Pubkey) : ℕ := KeyedSum.total R m.loans Loan.debtPrincipal

/-- What decides how a swap moves the price: its direction, the part of the input its quote trades
on, and the part by which the input reserve grows. -/
structure Push where
  aToB : Bool
  afterFee : ℕ
  growth : ℕ

/-- The input and the output reserve once the loans in `R` are gone. -/
def inReserve (m : Market) (t : Push) (R : Finset Pubkey) : ℕ :=
  m.reserve (inSide t.aToB) + m.seized R

/-- The output reserve once the loans in `R` are gone. -/
def outReserve (m : Market) (t : Push) (R : Finset Pubkey) : ℕ :=
  m.reserve (outSide t.aToB) - m.forgiven R

/-- What the swap pays out once the loans in `R` are gone. -/
def provisionalOut (m : Market) (t : Push) (R : Finset Pubkey) : ℕ :=
  ConstantProduct.quote t.afterFee (m.inReserve t R) (m.outReserve t R)

/-- The price B per A of an input and an output reserve. -/
def priceOf (aToB : Bool) (inR outR : ℕ) : ℕ :=
  if aToB then spotWad inR outR else spotWad outR inR

/-- The price the swap would settle at if exactly the loans in `R` were liquidated. -/
def provisionalPrice (m : Market) (t : Push) (R : Finset Pubkey) : ℕ :=
  priceOf t.aToB (m.inReserve t R + t.growth) (m.outReserve t R - m.provisionalOut t R)

/-- The loan at `k` is one the swap can trigger, and is triggered at `price`. -/
def Triggered (m : Market) (aToB : Bool) (price : ℕ) (k : Pubkey) (l : Loan) : Prop :=
  m.loans k = some l ∧ l.triggerDirection = (swapDirection aToB).toU8 ∧
    isLiquidatable l.triggerPriceWad (swapDirection aToB) price = true

/-- The loan at `k` is triggered once the loans in `R` are gone. -/
def Fires (m : Market) (t : Push) (R : Finset Pubkey) (k : Pubkey) : Prop :=
  ∃ l, m.Triggered t.aToB (m.provisionalPrice t R) k l

/-- Loans liquidated one after the other, each triggered at the price provisional before it. -/
abbrev Cascade (m : Market) (t : Push) : List Pubkey → Prop := Firing.Chain (m.Fires t)

/-! ### Moves -/

/-- The accounting prologue: `p` is the pool with its indexes bumped to now. -/
structure Accrued (m : Market) (p : Pool) : Prop where
  bump : m.pool.bumpIndexes (m.real .a) (m.real .b) m.slot = .ok p

/-- The counts of the bands with one of them replaced. -/
def setBandCount (bands : ℕ → ℕ → Option ℕ) (d b n : ℕ) : ℕ → ℕ → Option ℕ :=
  fun d' b' => if d' = d ∧ b' = b then some n else bands d' b'

/-- Liquidity is added. -/
structure Deposit (m : Market) (p : Pool) (amount : Side → ℕ) (lp : ℕ) (m' : Market) : Prop where
  accrued : m.Accrued p
  charged : ∃ maxA maxB, deriveDeposit maxA maxB (m.reserve .a) (m.reserve .b) m.supply =
    .ok (amount .a, amount .b, lp)
  after : m' = { m with
    pool := p.stamp m.slot
    real := fun x => m.real x + amount x
    supply := m.supply + lp }

/-- Liquidity is removed. What a side does not pay stays in the vault: it was sent there. -/
structure Withdraw (m : Market) (p : Pool) (lp : ℕ) (share paid : Side → ℕ) (m' : Market) :
    Prop where
  accrued : m.Accrued p
  lp_pos : 0 < lp
  lp_le : lp ≤ m.supply
  floor : checkSupplyFloor m.supply lp = .ok ()
  shares : withdrawalAmounts lp (m.reserve .a) (m.reserve .b) m.supply = .ok (share .a, share .b)
  covered : ∀ x, share x ≤ m.swappable x
  paid_eq : ∀ x, paid x = share x ∨ paid x = 0
  after : m' = { m with
    pool := p.stamp m.slot
    real := fun x => m.real x - paid x
    supply := m.supply - lp }

/-- A loan is opened at `k`. -/
structure Borrow (m : Market) (p : Pool) (k : Pubkey) (l : Loan) (s : LoanSides) (paid : ℕ)
    (m' : Market) : Prop where
  accrued : m.Accrued p
  free : m.loans k = none
  sides : l.sides = s.toU8
  direction : l.triggerDirection = s.direction.toU8
  trigger : recomputeTrigger s l.collateralAmount l.debtPrincipal p.liqRatioBps =
    .ok (l.triggerPriceWad, s.direction)
  band : bandIdForTrigger l.triggerPriceWad = .ok l.bandId
  snapshot : p.borrowIndexForDebtSide l.sides = .ok l.borrowIndexSnapshotWad
  reserves : m.reserve .a ≠ 0 ∧ m.reserve .b ≠ 0
  ltv : checkLtv p s l.collateralAmount l.debtPrincipal (m.reserve .a) (m.reserve .b) m.slot
    l.triggerPriceWad s.direction = .ok ()
  covered : l.debtPrincipal ≤ m.swappable s.debtSide
  counter : p.openLoans + 1 < 2 ^ 64
  paid_eq : paid = l.debtPrincipal ∨ paid = 0
  after : ∃ n p', n = (m.bands l.triggerDirection l.bandId).getD 0 ∧
    n < LoanIndexBand.maxLoans ∧ p.markBand n l.triggerDirection l.bandId = .ok p' ∧
    m' = { m with
      pool := (p'.admitted s l.collateralAmount l.debtPrincipal).stamp m.slot
      real := fun x => m.real x + (if x = s.collateralSide then l.collateralAmount else 0) -
        if x = s.debtSide then paid else 0
      loans := Function.update m.loans k (some l)
      bands := setBandCount m.bands l.triggerDirection l.bandId (n + 1) }

/-- The loan at `k` is repaid. -/
structure Repay (m : Market) (p : Pool) (k : Pubkey) (l : Loan) (s : LoanSides) (owed paid : ℕ)
    (m' : Market) : Prop where
  accrued : m.Accrued p
  loan : m.loans k = some l
  sides : l.sides = s.toU8
  interest : ∃ index, p.borrowIndexForDebtSide l.sides = .ok index ∧ l.owed index = .ok owed
  settle : p.settleLoan s l.collateralAmount l.debtPrincipal =
    .ok (p.settled s l.collateralAmount l.debtPrincipal)
  paid_eq : paid = l.collateralAmount ∨ paid = 0
  paid_le : paid ≤ m.real s.collateralSide
  after : ∃ n p', m.bands l.triggerDirection l.bandId = some (n + 1) ∧
    ((p.settled s l.collateralAmount l.debtPrincipal).stamp m.slot).unmarkBand n
      l.triggerDirection l.bandId = .ok p' ∧
    m' = { m with
      pool := p'
      real := fun x => m.real x + (if x = s.debtSide then owed else 0) -
        if x = s.collateralSide then paid else 0
      loans := KeyedSum.without {k} m.loans
      bands := setBandCount m.bands l.triggerDirection l.bandId n }

/-- The protocol fees are paid out. -/
structure ClaimFees (m m' : Market) : Prop where
  covered : ∀ x, m.pool.fees x ≤ m.real x
  after : m' = { m with
    pool := (m.pool.withFees 0 0).stamp m.slot
    real := fun x => m.real x - m.pool.fees x }

/-- The pool once a swap has taken `n` loans with collateral `c` and principal `d` out of the
totals and left `portion` to the protocol. -/
def traded (p : Pool) (aToB : Bool) (c d n portion : ℕ) : Pool :=
  if aToB then { p with
    totalCollateralA := p.totalCollateralA - c, totalDebtB := p.totalDebtB - d
    openLoans := p.openLoans - n, protocolFeesA := p.protocolFeesA + portion }
  else { p with
    totalCollateralB := p.totalCollateralB - c, totalDebtA := p.totalDebtA - d
    openLoans := p.openLoans - n, protocolFeesB := p.protocolFeesB + portion }

section Traded

variable {p : Pool} {aToB : Bool} {c d n portion : ℕ} {x : Side}

theorem traded_collateral : (traded p aToB c d n portion).collateral x =
    p.collateral x - if x = inSide aToB then c else 0 := by
  cases aToB <;> cases x <;> rfl

theorem traded_debt : (traded p aToB c d n portion).debt x =
    p.debt x - if x = outSide aToB then d else 0 := by
  cases aToB <;> cases x <;> rfl

theorem traded_fees : (traded p aToB c d n portion).fees x =
    p.fees x + if x = inSide aToB then portion else 0 := by
  cases aToB <;> cases x <;> rfl

@[simp] theorem traded_meters : (traded p aToB c d n portion).meters = p.meters := by
  cases aToB <;> rfl

@[simp] theorem traded_terms : (traded p aToB c d n portion).terms = p.terms := by
  cases aToB <;> rfl

@[simp] theorem traded_bitmapOf {e : TriggerDirection} :
    (traded p aToB c d n portion).bitmapOf e = p.bitmapOf e := by
  cases aToB <;> cases e <;> rfl

@[simp] theorem traded_openLoans : (traded p aToB c d n portion).openLoans = p.openLoans - n := by
  cases aToB <;> rfl

end Traded

/-- The arguments of a swap and the figures it settles with. -/
structure SwapFigures where
  aToB : Bool
  amountIn : ℕ
  bandBoundary : ℕ
  portion : ℕ
  amountOut : ℕ
  price : ℕ
  paid : ℕ

/-- How a swap pushes the price of a pool with this fee. -/
def SwapFigures.push (f : SwapFigures) (swapFeeBps : ℕ) : Push where
  aToB := f.aToB
  afterFee := inAfterFee f.amountIn swapFeeBps
  growth := f.amountIn - f.portion

/-- A swap liquidates the loans in `ks`, in this order, out of the ones in `supplied`. -/
structure Trade (m : Market) (p p₁ : Pool) (f : SwapFigures) (supplied : Finset Pubkey)
    (ks : List Pubkey) (m' : Market) : Prop where
  accrued : m.Accrued p
  amountIn_pos : 0 < f.amountIn
  reserves : m.reserve .a ≠ 0 ∧ m.reserve .b ≠ 0
  sample : p.sampleRefPrice (m.reserve .a) (m.reserve .b) m.slot = .ok p₁
  portion : p₁.protocolPortion f.amountIn = .ok f.portion
  /-- The context: loans of the direction, in full for every band on the claimed side. -/
  supplied_open : ∀ k ∈ supplied, ∃ l, m.loans k = some l ∧
    l.triggerDirection = (swapDirection f.aToB).toU8
  covered : ∀ b, (requiredRange f.aToB f.bandBoundary).1 ≤ b →
    b ≤ (requiredRange f.aToB f.bandBoundary).2 →
    bitmapIsSet (m.pool.bitmapOf (swapDirection f.aToB)) b = true →
    m.bands (swapDirection f.aToB).toU8 b =
      some (KeyedSum.total supplied m.loans (Loan.inBand (swapDirection f.aToB).toU8 b))
  /-- The cascade, and that it stopped where nothing supplied is triggered any more. -/
  cascade : m.Cascade (f.push p.swapFeeBps) ks
  ks_subset : ks.toFinset ⊆ supplied
  ks_length : ks.length ≤ maxLiqPerSwap
  price_eq : f.price = m.provisionalPrice (f.push p.swapFeeBps) ks.toFinset
  settled : ∀ k ∈ supplied, k ∉ ks → ∀ l, ¬ m.Triggered f.aToB f.price k l
  /-- The settlement. -/
  amountOut_eq : f.amountOut = m.provisionalOut (f.push p.swapFeeBps) ks.toFinset
  amountOut_pos : 0 < f.amountOut
  amountOut_le : f.amountOut ≤ m.swappable (outSide f.aToB)
  seized_le : m.seized ks.toFinset ≤ m.pool.collateral (inSide f.aToB)
  forgiven_le : m.forgiven ks.toFinset ≤ m.pool.debt (outSide f.aToB)
  boundary : ∃ band, bandIdForTrigger f.price = .ok band ∧
    if f.aToB then f.bandBoundary ≤ band else band ≤ f.bandBoundary
  paid_eq : f.paid = f.amountOut ∨ f.paid = 0
  pool_eq : ∃ fall rise, m'.pool =
    ((traded p₁ f.aToB (m.seized ks.toFinset) (m.forgiven ks.toFinset) ks.length
      f.portion).withBitmaps fall rise).stamp m.slot
  real_eq : ∀ x, m'.real x = m.real x + (if x = inSide f.aToB then f.amountIn else 0) -
    if x = outSide f.aToB then f.paid else 0
  supply_eq : m'.supply = m.supply
  loans_eq : m'.loans = KeyedSum.without ks.toFinset m.loans
  slot_eq : m'.slot = m.slot
  bands_eq : ∀ d b, m'.bands d b = (m.bands d b).map fun n =>
    n - KeyedSum.total ks.toFinset m.loans (Loan.inBand d b)
  bits_eq : ∀ d b, bitmapIsSet (m'.pool.bitmapOf d) b = true ↔
    bitmapIsSet (m.pool.bitmapOf d) b = true ∧
      ¬ (0 < KeyedSum.total ks.toFinset m.loans (Loan.inBand d.toU8 b) ∧
        m'.bands d.toU8 b = some 0)

/-- Nothing that touches the pool: slots pass, tokens arrive in the vaults, LP tokens burn. -/
structure DriftMove (m m' : Market) : Prop where
  pool : m'.pool = m.pool
  real : ∀ x, m.real x ≤ m'.real x
  supply : m'.supply ≤ m.supply
  loans : m'.loans = m.loans
  bands : m'.bands = m.bands
  slot : m.slot ≤ m'.slot

/-- Everything that can happen to a market, with the loans it liquidates. -/
inductive Move (m : Market) : List Pubkey → Market → Prop where
  | deposit {p amount lp m'} : Deposit m p amount lp m' → Move m [] m'
  | withdraw {p lp share paid m'} : Withdraw m p lp share paid m' → Move m [] m'
  | borrow {p k l s paid m'} : Borrow m p k l s paid m' → Move m [] m'
  | repay {p k l s owed paid m'} : Repay m p k l s owed paid m' → Move m [] m'
  | claimFees {m'} : ClaimFees m m' → Move m [] m'
  | trade {p p₁ f supplied ks m'} : Trade m p p₁ f supplied ks m' → Move m ks m'
  | drift {m'} : DriftMove m m' → Move m [] m'

end Market

end ChiefLiquidity
