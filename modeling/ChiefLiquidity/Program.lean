import ChiefLiquidity.Instructions.InitializePool
import ChiefLiquidity.Instructions.RemoveLiquidity
import ChiefLiquidity.Instructions.OpenLoan
import ChiefLiquidity.Instructions.Claims
import ChiefLiquidity.Instructions.Swap

/-!
# The program and its runs

The instruction set (`lib.rs`), and what a run of the chain is: accepted instructions of anybody,
interleaved with whatever else the chain allows to happen to the accounts involved.

## What happens between instructions

As little is assumed as the chain guarantees. An account that is not at an address of the program
changes at will, tokens and owners included, with the one restriction that nobody else can write the
program's discriminators into an account the program owns. An account at an address of the program
drifts: tokens are sent to it, tokens of its mint are burned, and a drained record is collected. The
slot never falls.

## Signers

An instruction may be called by anybody who can sign, and no address of the program can, because its
private key does not exist. This is the only thing a step asks of the accounts it is handed: they
may coincide, belong to other pools, or not exist. What the program needs of them it checks.

## Runs

A state is reachable if a run leads to it from a chain on which the program has not been used. All
safety results of this development are about reachable states or about runs between them.

## Main definitions

* `Instruction`, with `Instruction.user` and `Instruction.pool`, and `processInstruction`
* `Outside` — everything that happens between two instructions
* `Step`, `Genesis`, `Reachable`
-/

namespace ChiefLiquidity

/-- The instructions, with their accounts and arguments. -/
inductive Instruction where
  | initializePool (accs : InitializeAccounts)
  | addLiquidity (accs : LiquidityAccounts) (amountAMax amountBMax minLpOut : ℕ)
  | removeLiquidity (accs : LiquidityAccounts) (lpAmount minAOut minBOut : ℕ)
  | openLoan (accs : LoanAccounts) (sides collateralAmount debtAmount nonce : ℕ)
  | repayLoan (accs : LoanAccounts)
  | claimProtocolFees (accs : ClaimFeesAccounts)
  | claimLiquidatedRent (accs : ClaimRentAccounts)
  | swap (accs : SwapAccounts) (amountIn minOut : ℕ) (aToB : Bool) (bandBoundary : ℕ)
      (bandLoanCounts : List ℕ)

/-- `process_instruction`: hand an instruction to its processor. -/
def processInstruction (rt : Runtime) : Instruction → Ledger → Result Outcome
  | .initializePool accs => processInitializePool rt accs
  | .addLiquidity accs amountAMax amountBMax minLpOut =>
    processAddLiquidity rt accs amountAMax amountBMax minLpOut
  | .removeLiquidity accs lpAmount minAOut minBOut =>
    processRemoveLiquidity rt accs lpAmount minAOut minBOut
  | .openLoan accs sides collateralAmount debtAmount nonce =>
    processOpenLoan rt accs sides collateralAmount debtAmount nonce
  | .repayLoan accs => processRepayLoan rt accs
  | .claimProtocolFees accs => processClaimProtocolFees rt accs
  | .claimLiquidatedRent accs => processClaimLiquidatedRent rt accs
  | .swap accs amountIn minOut aToB bandBoundary bandLoanCounts =>
    processSwap rt accs amountIn minOut aToB bandBoundary bandLoanCounts

/-- The user of an instruction, whose tokens it may move. -/
def Instruction.user : Instruction → Option Pubkey
  | .initializePool accs => accs.authority
  | .addLiquidity accs .. => accs.user
  | .removeLiquidity accs .. => accs.user
  | .openLoan accs .. => accs.user
  | .repayLoan accs => accs.user
  | .claimProtocolFees _ => none
  | .claimLiquidatedRent accs => accs.borrower
  | .swap accs .. => accs.user

/-- The pool account of an instruction. `ClaimLiquidatedRent` takes none. -/
def Instruction.pool : Instruction → Option Pubkey
  | .initializePool accs => accs.pool
  | .addLiquidity accs .. => accs.pool
  | .removeLiquidity accs .. => accs.pool
  | .openLoan accs .. => accs.pool
  | .repayLoan accs => accs.pool
  | .claimProtocolFees accs => accs.pool
  | .claimLiquidatedRent _ => none
  | .swap accs .. => accs.pool

/-! ### Outside the program -/

/-- Whether the bytes of an account carry no discriminator of the program. -/
def AccountData.Blank : AccountData → Prop
  | .pool p => p.isInitialized = false
  | .loan l => l.isInitialized = false
  | .band b => b.isInitialized = false
  | _ => True

/-- What can happen, outside the program, to an account at one of its addresses. Only the program
can sign for such an address: others can send tokens to it, burn a mint's tokens, and take away
the lamports that keep a drained account alive. -/
inductive Drift (rt : Runtime) : Account → Account → Prop where
  | same (a) : Drift rt a a
  | deposit {o t t'} : t'.mint = t.mint → t'.owner = t.owner → t'.delegate = t.delegate →
      t.amount ≤ t'.amount → Drift rt ⟨o, .token t⟩ ⟨o, .token t'⟩
  | burn {o m m'} : m'.mintAuthority = m.mintAuthority → m'.supply ≤ m.supply →
      Drift rt ⟨o, .mint m⟩ ⟨o, .mint m'⟩
  | collect {d} : d.Blank → Drift rt ⟨rt.programId, d⟩ .unused

/-- Anything that can happen between two instructions: slots pass, the program's addresses drift,
and every other account changes at will, except that nobody else can write the program's
discriminators into an account the program owns. -/
structure Outside (rt : Runtime) (led led' : Ledger) : Prop where
  slot_le : led.slot ≤ led'.slot
  pda : ∀ k, rt.IsPda k → Drift rt (led.accts k) (led'.accts k)
  fresh : ∀ k, ¬ rt.IsPda k → (led'.accts k).owner = rt.programId → (led'.accts k).data.Blank

/-! ### Runs -/

/-- One step of the chain: an accepted instruction, whose signer is not an address of the program,
or something outside. -/
inductive Step (rt : Runtime) : Ledger → Ledger → Prop where
  | instruction {led led' events} (i : Instruction) (hsig : ∀ k ∈ i.user, ¬ rt.IsPda k) :
      processInstruction rt i led = .ok (led', events) → Step rt led led'
  | outside {led led'} : Outside rt led led' → Step rt led led'

/-- The chain before the program has been used: its addresses are unused. -/
structure Genesis (rt : Runtime) (led : Ledger) : Prop where
  pda : ∀ k, rt.IsPda k → led.accts k = .unused
  fresh : ∀ k, (led.accts k).owner = rt.programId → (led.accts k).data.Blank

/-- A state of the chain that a run of steps leads to. -/
def Reachable (rt : Runtime) (led : Ledger) : Prop :=
  ∃ genesis, Genesis rt genesis ∧ Relation.ReflTransGen (Step rt) genesis led

end ChiefLiquidity
