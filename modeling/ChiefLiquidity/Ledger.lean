import ChiefLiquidity.State

/-!
# The ledger

The accounts of the chain as far as the program reads or writes them: the seeds addresses are
derived from, what the bytes of an account can hold, the table of all accounts, and the helpers
that read and create them (`account_utils.rs` and the `read_*` functions of the instructions).

## What is left out

Lamports: an account that exists is rent-exempt, so only whether an address is in use shows. Bytes:
an account holds a value of the type its bytes encode, and the encodings are the subject of
`Wire`. The type of an account survives its bytes being zeroed, because the account types differ in
length and `try_from_slice` takes exactly the length of its type.

## Token accounts

A token account carries what the token program decides by: the mint, the owner, the balance, an
allowance for one delegate, and whether it is frozen. The two numbers that are 64-bit words on the
chain, a balance and a supply, carry their bound.

## Main definitions

* `Seeds` — what addresses are derived from
* `TokenAccount`, `Mint`, `AccountData`, `Account`, `Ledger`
* `Ledger.loadPool`, `Ledger.loadLoan`, `Ledger.loadBand`, `Ledger.readTokenAmount` — reading
* `createPdaAccount` — creating
* `Ledger.setToken`, `Ledger.setMint` — what a token program writes
-/

namespace ChiefLiquidity

/-! ### Addresses -/

/-- The seed lists the program derives addresses from. -/
inductive Seeds where
  | pool (mintA mintB : Pubkey)
  | vaultA (pool : Pubkey)
  | vaultB (pool : Pubkey)
  | lpMint (pool : Pubkey)
  | loan (pool borrower : Pubkey) (nonce : ℕ)
  | band (pool : Pubkey) (direction bandId : ℕ)
  deriving DecidableEq, Repr

/-! ### Accounts -/

/-- An empty balance is a 64-bit word. -/
theorem zero_lt_word : 0 < 2 ^ 64 := Nat.two_pow_pos 64

/-- A token account: `delegate` may move up to `delegatedAmount` of its tokens. The balance is a
64-bit word. -/
@[ext] structure TokenAccount where
  mint : Pubkey
  owner : Pubkey
  delegate : Option Pubkey
  delegatedAmount : ℕ
  isFrozen : Bool
  amount : ℕ
  amount_lt : amount < 2 ^ 64

/-- Token-2022 mint extensions, as far as `InitializePool` tells them apart. -/
inductive ExtensionType where
  | mintCloseAuthority
  | interestBearingConfig
  | metadataPointer
  | tokenMetadata
  | groupPointer
  | tokenGroup
  | groupMemberPointer
  | tokenGroupMember
  | transferFeeConfig
  | permanentDelegate
  | transferHook
  | confidentialTransferMint
  | defaultAccountState
  | nonTransferable
  | unknown (id : ℕ)
  deriving DecidableEq, Repr

/-- An SPL mint. The supply is a 64-bit word. -/
@[ext] structure Mint where
  mintAuthority : Option Pubkey
  supply : ℕ
  decimals : ℕ
  extensions : List ExtensionType
  closeAuthority : Option Pubkey
  supply_lt : supply < 2 ^ 64

/-- What the bytes of an account hold. The program's own account types differ in length, and
`try_from_slice` takes exactly the length of its type, so the type of an account's bytes is known
even where their contents are all zero. -/
inductive AccountData where
  | empty
  | pool (p : Pool)
  | loan (l : Loan)
  | band (b : LoanIndexBand)
  | token (t : TokenAccount)
  | mint (m : Mint)
  | other

/-- An account: the program that owns it, and its data. -/
structure Account where
  owner : Pubkey
  data : AccountData

/-- What an address that nobody has used holds: no data, and the system program as its owner. -/
def Account.unused : Account := ⟨defaultPubkey, .empty⟩

/-- All accounts, and the current slot of the clock. -/
structure Ledger where
  accts : Pubkey → Account
  slot : ℕ

namespace Ledger

variable (led : Ledger)

/-- The ledger with the account at `k` replaced. -/
def setAccount (k : Pubkey) (a : Account) : Ledger :=
  { led with accts := Function.update led.accts k a }

/-- The ledger with the data of the account at `k` replaced: a program writing one of its own. -/
def setData (k : Pubkey) (d : AccountData) : Ledger :=
  led.setAccount k ⟨(led.accts k).owner, d⟩

@[simp] theorem setAccount_slot {led : Ledger} {k : Pubkey} {a : Account} :
    (led.setAccount k a).slot = led.slot := rfl

@[simp] theorem setAccount_accts_self {led : Ledger} {k : Pubkey} {a : Account} :
    (led.setAccount k a).accts k = a := Function.update_self ..

theorem setAccount_accts_of_ne {led : Ledger} {k k' : Pubkey} {a : Account} (h : k' ≠ k) :
    (led.setAccount k a).accts k' = led.accts k' := Function.update_of_ne h ..

@[simp] theorem setData_slot {led : Ledger} {k : Pubkey} {d : AccountData} :
    (led.setData k d).slot = led.slot := rfl

@[simp] theorem setData_accts_self {led : Ledger} {k : Pubkey} {d : AccountData} :
    (led.setData k d).accts k = ⟨(led.accts k).owner, d⟩ := Function.update_self ..

theorem setData_accts_of_ne {led : Ledger} {k k' : Pubkey} {d : AccountData} (h : k' ≠ k) :
    (led.setData k d).accts k' = led.accts k' := Function.update_of_ne h ..

/-! ### Reading accounts -/

/-- `Pool::try_from_slice`. -/
def loadPool (k : Pubkey) : Result Pool :=
  match (led.accts k).data with
  | .pool p => .ok p
  | _ => .error (.custom .accountDataTooSmall)

/-- `Loan::try_from_slice`. -/
def loadLoan (k : Pubkey) : Result Loan :=
  match (led.accts k).data with
  | .loan l => .ok l
  | _ => .error (.custom .accountDataTooSmall)

/-- `LoanIndexBand::try_from_slice`. -/
def loadBand (k : Pubkey) : Result LoanIndexBand :=
  match (led.accts k).data with
  | .band b => .ok b
  | _ => .error (.custom .accountDataTooSmall)

/-- `read_token_amount`: the balance of a token account, read off its bytes. -/
def readTokenAmount (k : Pubkey) : Result ℕ :=
  match (led.accts k).data with
  | .token t => .ok t.amount
  | _ => .error (.custom .invalidVault)

/-- `read_token_owner`: the wallet a token account belongs to. -/
def readTokenOwner (k : Pubkey) : Result Pubkey :=
  match (led.accts k).data with
  | .token t => .ok t.owner
  | _ => .error (.custom .invalidFeeRecipient)

/-- `read_mint_decimals`. -/
def readMintDecimals (k : Pubkey) : Result ℕ :=
  match (led.accts k).data with
  | .mint m => .ok m.decimals
  | _ => .error (.custom .invalidPoolMint)

/-- `read_mint_supply`. -/
def readMintSupply (k : Pubkey) : Result ℕ :=
  match (led.accts k).data with
  | .mint m => .ok m.supply
  | _ => .error (.custom .invalidPoolMint)

variable {led : Ledger} {k : Pubkey} {n : ℕ}

@[simp] theorem loadPool_eq_ok {p : Pool} :
    led.loadPool k = .ok p ↔ (led.accts k).data = .pool p := by
  rw [loadPool]
  cases (led.accts k).data <;> simp

@[simp] theorem loadLoan_eq_ok {l : Loan} :
    led.loadLoan k = .ok l ↔ (led.accts k).data = .loan l := by
  rw [loadLoan]
  cases (led.accts k).data <;> simp

@[simp] theorem loadBand_eq_ok {b : LoanIndexBand} :
    led.loadBand k = .ok b ↔ (led.accts k).data = .band b := by
  rw [loadBand]
  cases (led.accts k).data <;> simp

@[simp] theorem readTokenAmount_eq_ok :
    led.readTokenAmount k = .ok n ↔ ∃ t, (led.accts k).data = .token t ∧ t.amount = n := by
  rw [readTokenAmount]
  cases (led.accts k).data <;> simp

@[simp] theorem readTokenOwner_eq_ok :
    led.readTokenOwner k = .ok n ↔ ∃ t, (led.accts k).data = .token t ∧ t.owner = n := by
  rw [readTokenOwner]
  cases (led.accts k).data <;> simp

@[simp] theorem readMintDecimals_eq_ok :
    led.readMintDecimals k = .ok n ↔ ∃ m, (led.accts k).data = .mint m ∧ m.decimals = n := by
  rw [readMintDecimals]
  cases (led.accts k).data <;> simp

@[simp] theorem readMintSupply_eq_ok :
    led.readMintSupply k = .ok n ↔ ∃ m, (led.accts k).data = .mint m ∧ m.supply = n := by
  rw [readMintSupply]
  cases (led.accts k).data <;> simp

end Ledger

/-! ### Account creation -/

/-- `create_pda_account`: give the unused address `target` to `owner`, with `blank` the zero bytes
of the requested length. An address that carries data or belongs to a program is refused. -/
def createPdaAccount (led : Ledger) (target : Pubkey) (blank : AccountData) (owner : Pubkey) :
    Result Ledger :=
  match led.accts target with
  | ⟨0, .empty⟩ => .ok (led.setAccount target ⟨owner, blank⟩)
  | _ => .error (.custom .alreadyInitialized)

/-- `data_is_empty`. -/
def dataIsEmpty (led : Ledger) (k : Pubkey) : Bool :=
  match (led.accts k).data with
  | .empty => true
  | _ => false

theorem createPdaAccount_eq_ok {led led' : Ledger} {k owner : Pubkey} {d : AccountData} :
    createPdaAccount led k d owner = .ok led' ↔
      led.accts k = .unused ∧ led' = led.setAccount k ⟨owner, d⟩ := by
  unfold createPdaAccount Account.unused defaultPubkey
  split
  · rename_i h
    simp [h, eq_comm]
  · rename_i h
    simp only [reduceCtorEq, false_iff, not_and]
    intro hk
    exact absurd hk (h)

@[simp] theorem dataIsEmpty_iff {led : Ledger} {k : Pubkey} :
    dataIsEmpty led k = true ↔ (led.accts k).data = .empty := by
  rw [dataIsEmpty]
  cases (led.accts k).data <;> simp

/-! ### Token accounts -/

namespace TokenAccount

/-- The account with its balance set to `n`. -/
def withAmount (t : TokenAccount) (n : ℕ) (h : n < 2 ^ 64) : TokenAccount :=
  { t with amount := n, amount_lt := h }

/-- The account with `n` tokens taken out. -/
def debit (t : TokenAccount) (n : ℕ) : TokenAccount :=
  t.withAmount (t.amount - n) ((Nat.sub_le ..).trans_lt t.amount_lt)

/-- Whether `authority` may take `n` tokens out: the delegate up to its allowance, the owner
otherwise. An owner that has made itself the delegate is held to the allowance. -/
def allows (t : TokenAccount) (authority : Pubkey) (n : ℕ) : Bool :=
  if t.delegate = some authority then n ≤ t.delegatedAmount else t.owner = authority

/-- The account once `authority` has used `n` of its allowance, if it has one. A delegate whose
allowance is used up is removed. -/
def charge (t : TokenAccount) (authority : Pubkey) (n : ℕ) : TokenAccount :=
  if t.delegate = some authority then
    { t with
      delegate := if t.delegatedAmount - n = 0 then none else t.delegate
      delegatedAmount := t.delegatedAmount - n }
  else t

/-- The account once `authority` has taken `n` tokens out. -/
def spend (t : TokenAccount) (authority : Pubkey) (n : ℕ) : TokenAccount :=
  (t.charge authority n).debit n

/-- An account as it is opened: empty, without a delegate, and frozen if its mint says so. -/
def opened (mint owner : Pubkey) (isFrozen : Bool) : TokenAccount where
  mint := mint
  owner := owner
  delegate := none
  delegatedAmount := 0
  isFrozen := isFrozen
  amount := 0
  amount_lt := zero_lt_word

/-- Whether `t'` is `t` after token movements: of the same mint and owner, frozen or not as before,
and without a new delegate. -/
structure Keeps (t t' : TokenAccount) : Prop where
  mint : t'.mint = t.mint
  owner : t'.owner = t.owner
  delegate : t'.delegate = t.delegate ∨ t'.delegate = none
  isFrozen : t'.isFrozen = t.isFrozen

variable {t t' t'' : TokenAccount} {authority : Pubkey} {n : ℕ}

theorem Keeps.refl (t : TokenAccount) : t.Keeps t := ⟨rfl, rfl, Or.inl rfl, rfl⟩

theorem Keeps.trans (h : t.Keeps t') (h' : t'.Keeps t'') : t.Keeps t'' where
  mint := h'.mint.trans h.mint
  owner := h'.owner.trans h.owner
  delegate := by
    rcases h'.delegate with hd | hd
    · rw [hd]
      exact h.delegate
    · exact Or.inr hd
  isFrozen := h'.isFrozen.trans h.isFrozen

/-- No delegate comes out of nothing. -/
theorem Keeps.delegate_none (h : t.Keeps t') (hd : t.delegate = none) : t'.delegate = none := by
  rcases h.delegate with hd' | hd'
  · rw [hd', hd]
  · exact hd'

/-- A delegate has been one before. -/
theorem Keeps.delegate_some {k : Pubkey} (h : t.Keeps t') (hd : t'.delegate = some k) :
    t.delegate = some k := by
  rcases h.delegate with hd' | hd'
  · rw [← hd', hd]
  · rw [hd] at hd'
    cases hd'

theorem keeps_withAmount (h : n < 2 ^ 64) : t.Keeps (t.withAmount n h) :=
  ⟨rfl, rfl, Or.inl rfl, rfl⟩

theorem keeps_charge : t.Keeps (t.charge authority n) := by
  rw [charge]
  split
  · refine ⟨rfl, rfl, ?_, rfl⟩
    show (if t.delegatedAmount - n = 0 then none else t.delegate) = t.delegate ∨ _
    split
    · exact Or.inr rfl
    · exact Or.inl rfl
  · exact .refl t

theorem keeps_spend : t.Keeps (t.spend authority n) := keeps_charge.trans (keeps_withAmount _)

@[simp] theorem charge_amount : (t.charge authority n).amount = t.amount := by
  rw [charge]
  split <;> rfl

@[simp] theorem spend_amount : (t.spend authority n).amount = t.amount - n := by
  show (t.charge authority n).amount - n = t.amount - n
  rw [charge_amount]

/-- Who may take tokens out is the owner or the delegate. -/
theorem owner_or_delegate_of_allows (h : t.allows authority n = true) :
    t.owner = authority ∨ t.delegate = some authority := by
  rw [allows] at h
  split at h
  · exact Or.inr ‹_›
  · exact Or.inl (of_decide_eq_true h)

/-- The owner may, unless it has made itself the delegate. -/
theorem allows_of_owner (howner : t.owner = authority) (hd : t.delegate ≠ some authority) :
    t.allows authority n = true := by
  rw [allows, if_neg hd, howner]
  exact decide_eq_true rfl

end TokenAccount

namespace Ledger

/-- Store a token account back. -/
def setToken (led : Ledger) (k : Pubkey) (t : TokenAccount) : Ledger := led.setData k (.token t)

/-- Store a mint back. -/
def setMint (led : Ledger) (k : Pubkey) (m : Mint) : Ledger := led.setData k (.mint m)

end Ledger

end ChiefLiquidity
