import ChiefLiquidity.TokenProgram

/-!
# A token program

A token program that is written out, and meets what is documented of token programs. It follows
`transfer_checked`, `mint_to_checked`, `burn_checked`, `initialize_account3` and `initialize_mint2`
check by check. No result about the instructions rests on it: it is what scripts are replayed with,
and it shows that the documented facts agree with one another.

## Main definitions

* `SplToken.run` — the five calls
* `splToken` — the token program they make
-/

namespace ChiefLiquidity

namespace SplToken

/-! ### The calls -/

/-- The token account at `k`, when it is one of `program`. -/
def tokenAccount (led : Ledger) (program k : Pubkey) : Result TokenAccount :=
  match led.accts k with
  | ⟨o, .token t⟩ => if o = program then .ok t else .error (.token .invalidAccount)
  | _ => .error (.token .invalidAccount)

/-- The mint at `k`, when it is one of `program`. -/
def mintAccount (led : Ledger) (program k : Pubkey) : Result Mint :=
  match led.accts k with
  | ⟨o, .mint m⟩ => if o = program then .ok m else .error (.token .invalidMint)
  | _ => .error (.token .invalidMint)

/-- A check of the token program. -/
def check (p : Prop) [Decidable p] (e : TokenError) : Result Unit := Checked.ensure p (.token e)

/-- `validate_owner`: the delegate is held to its allowance, anybody else has to be the owner. -/
def authorize (t : TokenAccount) (authority : Pubkey) (n : ℕ) : Result Unit :=
  if t.delegate = some authority then check (n ≤ t.delegatedAmount) .insufficientFunds
  else check (t.owner = authority) .ownerMismatch

/-- Put `n` tokens into an account. -/
def credit (t : TokenAccount) (n : ℕ) : Result TokenAccount :=
  if h : t.amount + n < 2 ^ 64 then .ok (t.withAmount (t.amount + n) h)
  else .error (.token .overflow)

/-- The supply of a mint, `n` higher. -/
def raiseSupply (m : Mint) (n : ℕ) : Result Mint :=
  if h : m.supply + n < 2 ^ 64 then .ok { m with supply := m.supply + n, supply_lt := h }
  else .error (.token .overflow)

/-- `transfer_checked`. -/
def transferChecked (led : Ledger) (program src mint dst authority : Pubkey) (signed : Bool)
    (amount decimals : ℕ) : Result Ledger := do
  Checked.ensure signed .missingRequiredSignature
  let s ← tokenAccount led program src
  let d ← tokenAccount led program dst
  check (s.isFrozen = false ∧ d.isFrozen = false) .accountFrozen
  check (amount ≤ s.amount) .insufficientFunds
  check (s.mint = mint ∧ d.mint = mint) .mintMismatch
  let m ← mintAccount led program mint
  check (m.decimals = decimals) .mintDecimalsMismatch
  authorize s authority amount
  if src = dst then return led
  else
    let d ← credit d amount
    return (led.setToken src (s.spend authority amount)).setToken dst d

/-- `mint_to_checked`. -/
def mintToChecked (led : Ledger) (program mint dst authority : Pubkey) (signed : Bool)
    (amount decimals : ℕ) : Result Ledger := do
  Checked.ensure signed .missingRequiredSignature
  let d ← tokenAccount led program dst
  check (d.isFrozen = false) .accountFrozen
  check (d.mint = mint) .mintMismatch
  let m ← mintAccount led program mint
  check (m.decimals = decimals) .mintDecimalsMismatch
  check (m.mintAuthority = some authority) .ownerMismatch
  let d ← credit d amount
  let m ← raiseSupply m amount
  return (led.setToken dst d).setMint mint m

/-- `burn_checked`. -/
def burnChecked (led : Ledger) (program src mint authority : Pubkey) (signed : Bool)
    (amount decimals : ℕ) : Result Ledger := do
  Checked.ensure signed .missingRequiredSignature
  let s ← tokenAccount led program src
  let m ← mintAccount led program mint
  check (s.isFrozen = false) .accountFrozen
  check (amount ≤ s.amount ∧ amount ≤ m.supply) .insufficientFunds
  check (s.mint = mint) .mintMismatch
  check (m.decimals = decimals) .mintDecimalsMismatch
  authorize s authority amount
  return (led.setToken src (s.spend authority amount)).setMint mint
    { m with supply := m.supply - amount, supply_lt := (Nat.sub_le ..).trans_lt m.supply_lt }

/-- `initialize_account3`. -/
def initializeAccount (led : Ledger) (program k mint owner : Pubkey) : Result Ledger := do
  check ((led.accts k).owner = program) .invalidAccount
  let m ← mintAccount led program mint
  return led.setToken k (.opened mint owner
    (program ≠ splTokenProgramId ∧ .defaultAccountState ∈ m.extensions))

/-- `initialize_mint2`. -/
def initializeMint (led : Ledger) (program k authority : Pubkey) (decimals : ℕ) :
    Result Ledger := do
  check ((led.accts k).owner = program) .invalidAccount
  return led.setMint k
    { mintAuthority := some authority, supply := 0, decimals, extensions := [],
      closeAuthority := none, supply_lt := zero_lt_word }

/-- The five calls. -/
def run (program : Pubkey) : TokenCall → Ledger → Result Ledger
  | .transferChecked src mint dst authority signed amount decimals, led =>
    transferChecked led program src mint dst authority signed amount decimals
  | .mintToChecked mint dst authority signed amount decimals, led =>
    mintToChecked led program mint dst authority signed amount decimals
  | .burnChecked src mint authority signed amount decimals, led =>
    burnChecked led program src mint authority signed amount decimals
  | .initializeAccount k mint owner, led => initializeAccount led program k mint owner
  | .initializeMint k authority decimals, led => initializeMint led program k authority decimals

/-! ### What each step establishes -/

variable {led led' : Ledger} {program k authority : Pubkey} {t t' : TokenAccount} {m m' : Mint}
  {n : ℕ} {p : Prop} [Decidable p] {e : TokenError} {u : Unit} {call : TokenCall}

theorem tokenAccount_eq_ok :
    tokenAccount led program k = .ok t ↔ led.accts k = ⟨program, .token t⟩ := by
  rw [tokenAccount]
  rcases led.accts k with ⟨o, d⟩
  cases d <;> simp
  split <;> simp [*]

theorem mintAccount_eq_ok :
    mintAccount led program k = .ok m ↔ led.accts k = ⟨program, .mint m⟩ := by
  rw [mintAccount]
  rcases led.accts k with ⟨o, d⟩
  cases d <;> simp
  split <;> simp [*]

theorem check_eq_ok : check p e = .ok u ↔ p := Checked.ensure_eq_ok

theorem check_of (h : p) : check p e = .ok () := Checked.ensure_of h

theorem authorize_eq_ok : authorize t authority n = .ok u ↔ t.allows authority n = true := by
  rw [authorize, TokenAccount.allows]
  split <;> rw [check_eq_ok, decide_eq_true_eq]

theorem credit_eq_ok :
    credit t n = .ok t' ↔ ∃ h : t.amount + n < 2 ^ 64, t' = t.withAmount (t.amount + n) h :=
  Checked.dite_eq_ok

theorem raiseSupply_eq_ok : raiseSupply m n = .ok m' ↔
    ∃ h : m.supply + n < 2 ^ 64, m' = { m with supply := m.supply + n, supply_lt := h } :=
  Checked.dite_eq_ok

/-! ### It is as documented -/

theorem run_effect (h : run program call led = .ok led') : TokenEffect program led call led' := by
  cases call with
  | transferChecked src mint dst authority signed amount decimals =>
    simp only [run, transferChecked, Checked.bind_eq_ok, Checked.ensure_eq_ok, check_eq_ok,
      authorize_eq_ok, tokenAccount_eq_ok, mintAccount_eq_ok, exists_const] at h
    obtain ⟨rfl, s, hs, d, hd, ⟨hsf, hdf⟩, hamount, ⟨hsm, hdm⟩, m, hm, hdec, hallows, h⟩ := h
    split at h
    · rename_i hself
      cases h
      exact hself ▸ .transferSelf hs hm hsm hdec hsf hallows hamount
    · rename_i hne
      simp only [Checked.bind_eq_ok, credit_eq_ok, Checked.pure_eq_ok] at h
      obtain ⟨_, ⟨hfit, rfl⟩, rfl⟩ := h
      exact .transfer hne hfit hs hd hm hsm hdm hdec hsf hdf hallows hamount
  | mintToChecked mint dst authority signed amount decimals =>
    simp only [run, mintToChecked, Checked.bind_eq_ok, Checked.ensure_eq_ok, check_eq_ok,
      tokenAccount_eq_ok, mintAccount_eq_ok, credit_eq_ok, raiseSupply_eq_ok, Checked.pure_eq_ok,
      exists_const] at h
    obtain ⟨rfl, d, hd, hdf, hdm, m, hm, hdec, hauth, _, ⟨hfit, rfl⟩, _, ⟨hsupply, rfl⟩, rfl⟩ := h
    exact .mintTo hfit hsupply hd hm hdm hdec hdf hauth
  | burnChecked src mint authority signed amount decimals =>
    simp only [run, burnChecked, Checked.bind_eq_ok, Checked.ensure_eq_ok, check_eq_ok,
      authorize_eq_ok, tokenAccount_eq_ok, mintAccount_eq_ok, Checked.pure_eq_ok,
      exists_const] at h
    obtain ⟨rfl, s, hs, m, hm, hsf, ⟨hamount, hsupply⟩, hsm, hdec, hallows, rfl⟩ := h
    exact .burn hs hm hsm hdec hsf hallows hamount hsupply
  | initializeAccount k mint owner =>
    simp only [run, initializeAccount, Checked.bind_eq_ok, check_eq_ok, mintAccount_eq_ok,
      Checked.pure_eq_ok, exists_const] at h
    obtain ⟨howner, m, hm, rfl⟩ := h
    exact .initializeAccount howner hm of_decide_eq_true
  | initializeMint k authority decimals =>
    simp only [run, initializeMint, Checked.bind_eq_ok, check_eq_ok, Checked.pure_eq_ok,
      exists_const] at h
    obtain ⟨howner, rfl⟩ := h
    exact .initializeMint howner

theorem run_executes (h : TokenCall.Ready program led call) :
    ∃ led', run program call led = .ok led' := by
  cases h with
  | @transferChecked src mint dst authority amount s d m hs hd hm hsm hdm hsf hdf howner hdel
      hamount hfit =>
    have hauth : authorize s authority amount = .ok () :=
      authorize_eq_ok.mpr (TokenAccount.allows_of_owner howner hdel)
    rw [run, transferChecked, Checked.ensure_of rfl, tokenAccount_eq_ok.mpr hs,
      tokenAccount_eq_ok.mpr hd, mintAccount_eq_ok.mpr hm]
    simp only [Checked.ok_bind, check_of, hsf, hdf, hamount, hsm, hdm, and_self, hauth]
    split
    · exact ⟨led, rfl⟩
    · rw [credit_eq_ok.mpr ⟨hfit, rfl⟩]
      exact ⟨_, rfl⟩
  | @burnChecked src mint authority amount s m hs hm hsm hsf howner hdel hamount hsupply =>
    have hauth : authorize s authority amount = .ok () :=
      authorize_eq_ok.mpr (TokenAccount.allows_of_owner howner hdel)
    rw [run, burnChecked, Checked.ensure_of rfl, tokenAccount_eq_ok.mpr hs,
      mintAccount_eq_ok.mpr hm]
    simp only [Checked.ok_bind, check_of, hsf, hamount, hsupply, hsm, and_self, hauth]
    exact ⟨_, rfl⟩

theorem tokenAccount_congr (h : led.accts k = led'.accts k) :
    tokenAccount led program k = tokenAccount led' program k := by
  rw [tokenAccount, tokenAccount, h]

theorem mintAccount_congr (h : led.accts k = led'.accts k) :
    mintAccount led program k = mintAccount led' program k := by
  rw [mintAccount, mintAccount, h]

/-- The same write in two ledgers keeps what they agree on. -/
theorem setData_congr {j : Pubkey} {d : AccountData} (hk : led.accts k = led'.accts k)
    (hj : led.accts j = led'.accts j) : (led.setData k d).accts j = (led'.setData k d).accts j := by
  by_cases hjk : j = k
  · rw [hjk, Ledger.setData_accts_self, Ledger.setData_accts_self, hk]
  · rw [Ledger.setData_accts_of_ne hjk, Ledger.setData_accts_of_ne hjk, hj]

theorem run_handed (h : ∀ k ∈ call.keys, led.accts k = led'.accts k) :
    Checked.Paired (fun l l' => ∀ k ∈ call.writes, l.accts k = l'.accts k)
      (run program call led) (run program call led') := by
  cases call with
  | transferChecked src mint dst authority signed amount decimals =>
    have hsrc := h src (by simp [TokenCall.keys])
    have hmint := h mint (by simp [TokenCall.keys])
    have hdst := h dst (by simp [TokenCall.keys])
    have hwrites : ∀ k ∈ [src, dst], led.accts k = led'.accts k := by
      intro k hk
      rcases List.mem_pair.mp hk with rfl | rfl <;> assumption
    rw [run, run, transferChecked, transferChecked, tokenAccount_congr hsrc,
      tokenAccount_congr hdst, mintAccount_congr hmint]
    iterate 9 refine .bind_same fun _ => ?_
    split
    · exact .pure hwrites
    · exact .bind_same fun _ => .pure fun k hk =>
        setData_congr (setData_congr hsrc hdst) (setData_congr hsrc (hwrites k hk))
  | mintToChecked mint dst authority signed amount decimals =>
    have hmint := h mint (by simp [TokenCall.keys])
    have hdst := h dst (by simp [TokenCall.keys])
    rw [run, run, mintToChecked, mintToChecked, tokenAccount_congr hdst, mintAccount_congr hmint]
    iterate 9 refine .bind_same fun _ => ?_
    exact .pure fun k hk =>
      setData_congr (setData_congr hdst hmint) (setData_congr hdst (h k hk))
  | burnChecked src mint authority signed amount decimals =>
    have hsrc := h src (by simp [TokenCall.keys])
    have hmint := h mint (by simp [TokenCall.keys])
    rw [run, run, burnChecked, burnChecked, tokenAccount_congr hsrc, mintAccount_congr hmint]
    iterate 8 refine .bind_same fun _ => ?_
    exact .pure fun k hk =>
      setData_congr (setData_congr hsrc hmint) (setData_congr hsrc (h k hk))
  | initializeAccount k mint owner =>
    have hk := h k (by simp [TokenCall.keys])
    have hmint := h mint (by simp [TokenCall.keys])
    rw [run, run, initializeAccount, initializeAccount, mintAccount_congr hmint, hk]
    iterate 2 refine .bind_same fun _ => ?_
    exact .pure fun j hj => setData_congr hk (by rwa [List.mem_singleton.mp hj])
  | initializeMint k authority decimals =>
    have hk := h k (by simp [TokenCall.keys])
    rw [run, run, initializeMint, initializeMint, hk]
    refine .bind_same fun _ => .pure fun j hj => ?_
    exact setData_congr hk (by rwa [List.mem_singleton.mp hj])

theorem check_foreign : Checked.FailsOnly ProgramError.IsForeign (check p e) := .ensure trivial

theorem tokenAccount_foreign :
    Checked.FailsOnly ProgramError.IsForeign (tokenAccount led program k) := by
  rw [tokenAccount]
  split
  · exact .ite (fun _ => .ok) fun _ => .error trivial
  · exact .error trivial

theorem mintAccount_foreign :
    Checked.FailsOnly ProgramError.IsForeign (mintAccount led program k) := by
  rw [mintAccount]
  split
  · exact .ite (fun _ => .ok) fun _ => .error trivial
  · exact .error trivial

theorem authorize_foreign :
    Checked.FailsOnly ProgramError.IsForeign (authorize t authority n) :=
  .ite (fun _ => check_foreign) fun _ => check_foreign

theorem credit_foreign : Checked.FailsOnly ProgramError.IsForeign (credit t n) := by
  rw [credit]
  split
  · exact .ok
  · exact .error trivial

theorem raiseSupply_foreign : Checked.FailsOnly ProgramError.IsForeign (raiseSupply m n) := by
  rw [raiseSupply]
  split
  · exact .ok
  · exact .error trivial

theorem run_foreign : Checked.FailsOnly ProgramError.IsForeign (run program call led) := by
  cases call with
  | transferChecked src mint dst authority signed amount decimals =>
    refine .bind (.ensure trivial) fun _ _ => .bind tokenAccount_foreign fun _ _ =>
      .bind tokenAccount_foreign fun _ _ => .bind check_foreign fun _ _ =>
      .bind check_foreign fun _ _ => .bind check_foreign fun _ _ =>
      .bind mintAccount_foreign fun _ _ => .bind check_foreign fun _ _ =>
      .bind authorize_foreign fun _ _ => ?_
    exact .ite (fun _ => .pure) fun _ => .bind credit_foreign fun _ _ => .pure
  | mintToChecked mint dst authority signed amount decimals =>
    exact .bind (.ensure trivial) fun _ _ => .bind tokenAccount_foreign fun _ _ =>
      .bind check_foreign fun _ _ => .bind check_foreign fun _ _ =>
      .bind mintAccount_foreign fun _ _ => .bind check_foreign fun _ _ =>
      .bind check_foreign fun _ _ => .bind credit_foreign fun _ _ =>
      .bind raiseSupply_foreign fun _ _ => .pure
  | burnChecked src mint authority signed amount decimals =>
    exact .bind (.ensure trivial) fun _ _ => .bind tokenAccount_foreign fun _ _ =>
      .bind mintAccount_foreign fun _ _ => .bind check_foreign fun _ _ =>
      .bind check_foreign fun _ _ => .bind check_foreign fun _ _ =>
      .bind check_foreign fun _ _ => .bind authorize_foreign fun _ _ => .pure
  | initializeAccount k mint owner =>
    exact .bind check_foreign fun _ _ => .bind mintAccount_foreign fun _ _ => .pure
  | initializeMint k authority decimals => exact .bind check_foreign fun _ _ => .pure

end SplToken

/-- A token program that is as documented. -/
def splToken : TokenProgram where
  run := SplToken.run
  effect := SplToken.run_effect
  executes := SplToken.run_executes
  handed := SplToken.run_handed
  foreign := SplToken.run_foreign _

end ChiefLiquidity
