import ChiefLiquidity.TokenProgram

/-!
# The runtime

What the program runs on, and does not define itself: the ids it is deployed with, address
derivation (`Pubkey::find_program_address`), and the token program it calls. All of it is a
parameter, `Runtime`.

## Addresses

Address derivation is a hash. Of it the code relies on `create_program_address` agreeing with
`find_program_address`, and on no derived address being the default key or the fee recipient's
wallet. That two different seeds have different addresses is *not* assumed: the program checks the
contents of every account it derives.

## Main definitions

* `Runtime`, `Runtime.IsPda`, `Runtime.isValidTokenProgram`
* `transferChecked`, `mintToChecked`, `burnChecked`, `initializeAccount`, `initializeMint` — the
  calls into the token program
* `isZeroedProgramAccount`, `validateTokenProgramForMint`
-/

namespace ChiefLiquidity

/-- `PROTOCOL_FEE_RECIPIENT`. -/
def protocolFeeRecipient : Pubkey :=
  0x0f73a5b7fa25a1bcf249049b55d932093ddc94ccc0b0f6b3b917d0876f1ce886

/-- The ids the program is deployed with, address derivation under its own id, and the token
program. -/
structure Runtime where
  programId : Pubkey
  token2022Id : Pubkey
  tokens : TokenProgram
  findProgramAddress : Seeds → Pubkey × ℕ
  createProgramAddress : Seeds → ℕ → Option Pubkey
  create_find : ∀ s, createProgramAddress s (findProgramAddress s).2 = some (findProgramAddress s).1
  find_ne_default : ∀ s, (findProgramAddress s).1 ≠ defaultPubkey
  find_ne_recipient : ∀ s, (findProgramAddress s).1 ≠ protocolFeeRecipient
  programId_ne_system : programId ≠ defaultPubkey
  programId_ne_token : programId ≠ token2022Id ∧ programId ≠ splTokenProgramId

namespace Runtime

variable (rt : Runtime)

/-- An address of the program: nobody holds its private key. -/
def IsPda (k : Pubkey) : Prop := ∃ s, (rt.findProgramAddress s).1 = k

/-- `is_valid_token_program`. -/
def isValidTokenProgram (k : Pubkey) : Bool := k = rt.token2022Id ∨ k = splTokenProgramId

end Runtime

/-! ### Calls into the token program -/

section Calls

variable (rt : Runtime) (led : Ledger) (program : Pubkey)

/-- `transfer_checked` of the token program `program`, with `signed` whether `authority` signed the
call. -/
def transferChecked (src mint dst authority : Pubkey) (signed : Bool) (amount decimals : ℕ) :
    Result Ledger :=
  rt.tokens.run program (.transferChecked src mint dst authority signed amount decimals) led

/-- `mint_to_checked`. -/
def mintToChecked (mint dst authority : Pubkey) (signed : Bool) (amount decimals : ℕ) :
    Result Ledger :=
  rt.tokens.run program (.mintToChecked mint dst authority signed amount decimals) led

/-- `burn_checked`. -/
def burnChecked (src mint authority : Pubkey) (signed : Bool) (amount decimals : ℕ) :
    Result Ledger :=
  rt.tokens.run program (.burnChecked src mint authority signed amount decimals) led

/-- `initialize_account3` on an account just created for `program`. -/
def initializeAccount (k mint owner : Pubkey) : Result Ledger :=
  rt.tokens.run program (.initializeAccount k mint owner) led

/-- `initialize_mint2` on an account just created for `program`, without a freeze authority. -/
def initializeMint (k authority : Pubkey) (decimals : ℕ) : Result Ledger :=
  rt.tokens.run program (.initializeMint k authority decimals) led

end Calls

/-! ### Checks -/

/-- `is_zeroed_program_account` at the length of a band. -/
def isZeroedProgramAccount (rt : Runtime) (led : Ledger) (k : Pubkey) : Bool :=
  match (led.accts k).data with
  | .band b => (led.accts k).owner = rt.programId ∧ b = LoanIndexBand.zeroed
  | _ => false

/-- `validate_token_program_for_mint`. -/
def validateTokenProgramForMint (rt : Runtime) (led : Ledger) (tokenProgram mint : Pubkey) :
    Result Unit :=
  require (rt.isValidTokenProgram tokenProgram ∧ tokenProgram = (led.accts mint).owner)
    .invalidTokenProgram

theorem isZeroedProgramAccount_iff {rt : Runtime} {led : Ledger} {k : Pubkey} :
    isZeroedProgramAccount rt led k = true ↔
      led.accts k = ⟨rt.programId, .band LoanIndexBand.zeroed⟩ := by
  rw [isZeroedProgramAccount]
  rcases led.accts k with ⟨o, d⟩
  cases d <;> simp

end ChiefLiquidity
