import ChiefLiquidity.ForMathlib.Checked

/-!
# Errors and checked arithmetic

The program's error codes (`error.rs`), and the few shapes every fallible line of it takes. A
check `if !c { return Err(e) }` is `require c e`; `checked_sub(..).ok_or(MathUnderflow)?` is
`checkedSub`; `checked_add`, `checked_mul`, `try_into` and `to_u128`, which all fail with
`MathOverflow`, are `fits w`.

## Two kinds of errors

Most errors are the program's own and carry the code `error.rs` gives them. The others come back
from calls into other programs, above all from the token program. Nothing in this development reads
an error of the second kind; where it matters which check an instruction failed, the error is one of
the first kind (`ProgramError.IsForeign` tells them apart).

## Order of the checks

Checks are made in the order of the source, because that order decides which error comes back, and
the order of two lines that cannot fail is immaterial to everything that is proved.

## Main definitions

* `LiquidityError`, `TokenError`, `ProgramError` — what an instruction can fail with
* `Result` — a computation of the program
* `require`, `checkedSub`, `fits` — its checks
-/

namespace ChiefLiquidity

/-- The program's own error codes that the modelled instructions can return. -/
inductive LiquidityError where
  | alreadyInitialized
  | notInitialized
  | invalidPDA
  | accountDataTooSmall
  | invalidAccountOwner
  | missingRequiredSigner
  | invalidAuthority
  | invalidPool
  | invalidPoolMint
  | invalidVault
  | invalidTokenProgram
  | unsupportedMintExtension
  | mintsMustDiffer
  | mintsNotSorted
  | settingExceedsMaximum
  | mathOverflow
  | mathUnderflow
  | zeroAmount
  | zeroReserves
  | slippageExceeded
  | insufficientExecutableLiquidity
  | ltvExceedsMax
  | loanNotOpen
  | loanNotLiquidatable
  | invalidSidesEncoding
  | invalidLiquidationContext
  | incompleteBandWalk
  | bandMismatch
  | bandFull
  | tooManyLiquidationsRequired
  | insolvent
  | invalidFeeRecipient
  | minimumLiquidityFloor
  deriving DecidableEq, Repr

/-- What the token program answers when it refuses a transfer, a mint or a burn. -/
inductive TokenError where
  | invalidAccount
  | invalidMint
  | insufficientFunds
  | mintMismatch
  | mintDecimalsMismatch
  | ownerMismatch
  | accountFrozen
  | overflow
  deriving DecidableEq, Repr

/-- The error of a whole instruction: the program's own, or one of a program it calls. -/
inductive ProgramError where
  | custom (e : LiquidityError)
  | token (e : TokenError)
  | invalidAccountData
  | missingRequiredSignature
  deriving DecidableEq, Repr

/-- An error that is not one of the program's own. -/
def ProgramError.IsForeign : ProgramError → Prop
  | .custom _ => False
  | _ => True

/-- A fallible computation of the program. -/
abbrev Result (α : Type) := Except ProgramError α

/-- `if !p { return Err(e) }`. -/
def require (p : Prop) [Decidable p] (e : LiquidityError) : Result Unit :=
  Checked.ensure p (.custom e)

/-- `a.checked_sub(b).ok_or(MathUnderflow)`. -/
def checkedSub (a b : ℕ) : Result ℕ := Checked.sub (.custom .mathUnderflow) a b

/-- `n` as a `w`-bit word, or `MathOverflow`. -/
def fits (w n : ℕ) : Result ℕ := Checked.narrow w (.custom .mathOverflow) n

/-- The value of an option, or the error `e`. -/
def okOr {α : Type} (o : Option α) (e : LiquidityError) : Result α := Checked.ofOption (.custom e) o

variable {p : Prop} [Decidable p] {e : LiquidityError} {u : Unit} {a b k n w : ℕ}

@[simp] theorem require_eq_ok : require p e = .ok u ↔ p := Checked.ensure_eq_ok

theorem require_of_not (h : ¬ p) : require p e = .error (.custom e) := Checked.ensure_of_not h

theorem require_of (h : p) : require p e = .ok () := Checked.ensure_of h

@[simp] theorem checkedSub_eq_ok : checkedSub a b = .ok k ↔ b ≤ a ∧ k = a - b := Checked.sub_eq_ok

theorem checkedSub_of_le (h : b ≤ a) : checkedSub a b = .ok (a - b) := Checked.sub_of_le h

@[simp] theorem fits_eq_ok : fits w n = .ok k ↔ n < 2 ^ w ∧ k = n := Checked.narrow_eq_ok

theorem fits_of_lt (h : n < 2 ^ w) : fits w n = .ok n := Checked.narrow_of_lt h

@[simp] theorem okOr_eq_ok {α : Type} {o : Option α} {x : α} : okOr o e = .ok x ↔ o = some x :=
  Checked.ofOption_eq_ok

end ChiefLiquidity
