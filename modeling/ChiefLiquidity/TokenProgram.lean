import ChiefLiquidity.Ledger

/-!
# The token program

The instructions call a token program, SPL Token or Token-2022, which is no part of the repository.
It is a parameter of this development: `TokenProgram` is any program that takes the five calls and
meets what is documented of them. Every result about the instructions holds whatever else the token
program does.

## What is documented

Four facts, each about all five calls.

* `effect`: an accepted call has found its accounts in order, and writes what it is for and nothing
  else. A transfer moves exactly the amount between distinct accounts and nothing from an account
  to itself; what leaves an account leaves it on the authority of its owner, or of its delegate up
  to the allowance.
* `executes`: a transfer or a burn that an owner signs for is executed when the accounts are in
  order, none of them is frozen, the source holds enough and the result fits a word.
* `handed`: what a call does depends on the accounts it is handed.
* `foreign`: it fails with errors of its own.

## What is left out

Multisignature authorities, which sign through further accounts: the program hands none on. Token
accounts that belong to the system program or the incinerator, which anybody may burn from. Mint
extensions that make a transfer move less than its amount or call a third program: pools are not
created for such mints. Extensions of a token account by which its owner asks for more than a
signature, a memo with every transfer or no transfers out of calls by other programs. The lamports
behind the accounts of the native mint.

## Main definitions

* `TokenCall` — the five calls
* `TokenEffect` — what an accepted call has found and leaves
* `TokenCall.Ready` — what makes a call be accepted
* `TokenProgram`
-/

namespace ChiefLiquidity

/-- `SPL_TOKEN_PROGRAM_ID`. -/
def splTokenProgramId : Pubkey :=
  0x06ddf6e1d765a193d9cbe146ceeb79ac1cb485ed5f5b37913a8cf5857eff00a9

/-- The calls into a token program. `signed` is whether `authority` signed the call. -/
inductive TokenCall where
  | transferChecked (src mint dst authority : Pubkey) (signed : Bool) (amount decimals : ℕ)
  | mintToChecked (mint dst authority : Pubkey) (signed : Bool) (amount decimals : ℕ)
  | burnChecked (src mint authority : Pubkey) (signed : Bool) (amount decimals : ℕ)
  | initializeAccount (k mint owner : Pubkey)
  | initializeMint (k authority : Pubkey) (decimals : ℕ)

namespace TokenCall

/-- The accounts a call is handed, the authority aside, which only signs. -/
def keys : TokenCall → List Pubkey
  | .transferChecked src mint dst .. => [src, mint, dst]
  | .mintToChecked mint dst .. => [mint, dst]
  | .burnChecked src mint .. => [src, mint]
  | .initializeAccount k mint _ => [k, mint]
  | .initializeMint k .. => [k]

/-- The accounts a call may write. -/
def writes : TokenCall → List Pubkey
  | .transferChecked src _ dst .. => [src, dst]
  | .mintToChecked mint dst .. => [mint, dst]
  | .burnChecked src mint .. => [src, mint]
  | .initializeAccount k _ _ => [k]
  | .initializeMint k .. => [k]

end TokenCall

/-- What an accepted call of the token program `program` has found on a ledger, and what it makes
of it. -/
inductive TokenEffect (program : Pubkey) (led : Ledger) : TokenCall → Ledger → Prop where
  /-- A transfer from an account to itself is checked like any other and moves nothing. -/
  | transferSelf {src mint authority : Pubkey} {amount decimals : ℕ} {s : TokenAccount} {m : Mint} :
      led.accts src = ⟨program, .token s⟩ → led.accts mint = ⟨program, .mint m⟩ →
      s.mint = mint → m.decimals = decimals → s.isFrozen = false →
      s.allows authority amount = true → amount ≤ s.amount →
      TokenEffect program led (.transferChecked src mint src authority true amount decimals) led
  | transfer {src mint dst authority : Pubkey} {amount decimals : ℕ} {s d : TokenAccount} {m : Mint}
      (hne : src ≠ dst) (hfit : d.amount + amount < 2 ^ 64) :
      led.accts src = ⟨program, .token s⟩ → led.accts dst = ⟨program, .token d⟩ →
      led.accts mint = ⟨program, .mint m⟩ → s.mint = mint → d.mint = mint →
      m.decimals = decimals → s.isFrozen = false → d.isFrozen = false →
      s.allows authority amount = true → amount ≤ s.amount →
      TokenEffect program led (.transferChecked src mint dst authority true amount decimals)
        ((led.setToken src (s.spend authority amount)).setToken dst (d.withAmount _ hfit))
  | mintTo {mint dst authority : Pubkey} {amount decimals : ℕ} {d : TokenAccount} {m : Mint}
      (hfit : d.amount + amount < 2 ^ 64) (hsupply : m.supply + amount < 2 ^ 64) :
      led.accts dst = ⟨program, .token d⟩ → led.accts mint = ⟨program, .mint m⟩ →
      d.mint = mint → m.decimals = decimals → d.isFrozen = false →
      m.mintAuthority = some authority →
      TokenEffect program led (.mintToChecked mint dst authority true amount decimals)
        ((led.setToken dst (d.withAmount _ hfit)).setMint mint
          { m with supply := m.supply + amount, supply_lt := hsupply })
  | burn {src mint authority : Pubkey} {amount decimals : ℕ} {s : TokenAccount} {m : Mint} :
      led.accts src = ⟨program, .token s⟩ → led.accts mint = ⟨program, .mint m⟩ →
      s.mint = mint → m.decimals = decimals → s.isFrozen = false →
      s.allows authority amount = true → amount ≤ s.amount → amount ≤ m.supply →
      TokenEffect program led (.burnChecked src mint authority true amount decimals)
        ((led.setToken src (s.spend authority amount)).setMint mint
          { m with
            supply := m.supply - amount
            supply_lt := (Nat.sub_le ..).trans_lt m.supply_lt })
  /-- A new account is empty. It is frozen only if the mint has an extension that says so, which
  mints of the first token program cannot have. -/
  | initializeAccount {k mint owner : Pubkey} {m : Mint} {isFrozen : Bool} :
      (led.accts k).owner = program → led.accts mint = ⟨program, .mint m⟩ →
      (isFrozen = true → program ≠ splTokenProgramId ∧ .defaultAccountState ∈ m.extensions) →
      TokenEffect program led (.initializeAccount k mint owner)
        (led.setToken k (.opened mint owner isFrozen))
  | initializeMint {k authority : Pubkey} {decimals : ℕ} :
      (led.accts k).owner = program →
      TokenEffect program led (.initializeMint k authority decimals)
        (led.setMint k
          { mintAuthority := some authority, supply := 0, decimals, extensions := [],
            closeAuthority := none, supply_lt := zero_lt_word })

/-- A call leaves every account alone that is not handed to it for writing. -/
theorem TokenEffect.accts {program k : Pubkey} {led led' : Ledger} {call : TokenCall}
    (h : TokenEffect program led call led') (hk : k ∉ call.writes) :
    led'.accts k = led.accts k := by
  cases h with
  | transferSelf => rfl
  | transfer =>
    simp only [TokenCall.writes, List.mem_pair, not_or] at hk
    rw [Ledger.setToken, Ledger.setData_accts_of_ne hk.2, Ledger.setToken,
      Ledger.setData_accts_of_ne hk.1]
  | mintTo =>
    simp only [TokenCall.writes, List.mem_pair, not_or] at hk
    rw [Ledger.setMint, Ledger.setData_accts_of_ne hk.1, Ledger.setToken,
      Ledger.setData_accts_of_ne hk.2]
  | burn =>
    simp only [TokenCall.writes, List.mem_pair, not_or] at hk
    rw [Ledger.setMint, Ledger.setData_accts_of_ne hk.2, Ledger.setToken,
      Ledger.setData_accts_of_ne hk.1]
  | initializeAccount => exact Ledger.setData_accts_of_ne (List.mem_singleton.not.mp hk)
  | initializeMint => exact Ledger.setData_accts_of_ne (List.mem_singleton.not.mp hk)

theorem TokenEffect.slot {program : Pubkey} {led led' : Ledger} {call : TokenCall}
    (h : TokenEffect program led call led') : led'.slot = led.slot := by
  cases h <;> rfl

/-- What makes the token program execute a call: the accounts are in order and not frozen, their
owner signs, the source holds enough, and the result fits a word. -/
inductive TokenCall.Ready (program : Pubkey) (led : Ledger) : TokenCall → Prop where
  | transferChecked {src mint dst authority : Pubkey} {amount : ℕ} {s d : TokenAccount} {m : Mint} :
      led.accts src = ⟨program, .token s⟩ → led.accts dst = ⟨program, .token d⟩ →
      led.accts mint = ⟨program, .mint m⟩ → s.mint = mint → d.mint = mint →
      s.isFrozen = false → d.isFrozen = false → s.owner = authority →
      s.delegate ≠ some authority → amount ≤ s.amount → d.amount + amount < 2 ^ 64 →
      TokenCall.Ready program led
        (.transferChecked src mint dst authority true amount m.decimals)
  | burnChecked {src mint authority : Pubkey} {amount : ℕ} {s : TokenAccount} {m : Mint} :
      led.accts src = ⟨program, .token s⟩ → led.accts mint = ⟨program, .mint m⟩ →
      s.mint = mint → s.isFrozen = false → s.owner = authority → s.delegate ≠ some authority →
      amount ≤ s.amount → amount ≤ m.supply →
      TokenCall.Ready program led (.burnChecked src mint authority true amount m.decimals)

/-- A token program, as far as it is documented. `run program` takes a call to the deployment at the
address `program`. -/
structure TokenProgram where
  run : Pubkey → TokenCall → Ledger → Result Ledger
  effect : ∀ {program call led led'}, run program call led = .ok led' →
    TokenEffect program led call led'
  executes : ∀ {program call led}, TokenCall.Ready program led call →
    ∃ led', run program call led = .ok led'
  handed : ∀ {program call led led'}, (∀ k ∈ call.keys, led.accts k = led'.accts k) →
    Checked.Paired (fun l l' => ∀ k ∈ call.writes, l.accts k = l'.accts k)
      (run program call led) (run program call led')
  foreign : ∀ {program call led e}, run program call led = .error e → e.IsForeign

end ChiefLiquidity
