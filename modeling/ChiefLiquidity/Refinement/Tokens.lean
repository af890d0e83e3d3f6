import ChiefLiquidity.Market.Trade

/-!
# Token movements

What the calls into the token program do to the ledger: balances and supplies change, and nothing
else does. One spec lemma per call.

## Balances as functions

The balance of an address is a function on all addresses, zero where there is no token account. A
transfer is then a pointwise statement, `moved`, that also covers a transfer from an account to
itself, and a supply is a function in the same way. Two ledgers that differ in these two functions
and in used up allowances only are `TokenOnly`, and everything that does not ask for balances is the
same in both.

## Allowances

A delegate may move tokens up to its allowance, and each use lowers it; at zero the delegate is
gone. `Ledger.allowance` is what is left, and `drawn` what becomes of it. Draws on one account
commute, which is what lets two instructions with a common delegate be made in either order.

## From laws to lemmas

Nothing here is about a particular token program. The spec lemmas are read off
`TokenProgram.effect`, which is the only way in which the rest of the development learns what a call
has done.

## Main definitions

* `Ledger.balance`, `Ledger.mintSupply`
* `TokenOnly` — two ledgers that differ in balances and supplies only
* `moved` — the balances after a transfer

## Main results

* `transferChecked_eq_ok`, `mintToChecked_eq_ok`, `burnChecked_eq_ok`
-/

namespace ChiefLiquidity

/-! ### Allowances -/

/-- The delegate of a token account, and what it may still move. -/
abbrev Allowance := Option Pubkey × ℕ

/-- An allowance once `authority` has moved `n` tokens: the delegate draws on it, the owner does
not. -/
def Allowance.draw (authority : Pubkey) (n : ℕ) (a : Allowance) : Allowance :=
  if a.1 = some authority then (if a.2 - n = 0 then none else a.1, a.2 - n) else a

/-- **Draws commute**: what is left, and whether the delegate is, depends on the sum. -/
theorem Allowance.draw_comm (k j : Pubkey) (m n : ℕ) (a : Allowance) :
    (a.draw k m).draw j n = (a.draw j n).draw k m := by
  obtain ⟨d, x⟩ := a
  simp only [draw]
  by_cases hk : d = some k <;> by_cases hj : d = some j
  · obtain rfl : k = j := Option.some.inj (hk.symm.trans hj)
    subst hk
    by_cases hm : x - m = 0 <;> by_cases hn : x - n = 0
    · simp [hm, hn]
    · simp [hm, hn, Nat.sub_right_comm]
    · simp [hm, hn]
      omega
    · simp [hm, hn, Nat.sub_right_comm]
  · subst hk
    have hkj : k ≠ j := fun h => hj (congrArg some h)
    by_cases hm : x - m = 0 <;> simp [hm, hkj]
  · subst hj
    have hjk : j ≠ k := fun h => hk (congrArg some h)
    by_cases hn : x - n = 0 <;> simp [hn, hjk]
  · simp [hk, hj]

/-- The allowance of a token account. -/
def TokenAccount.allowance (t : TokenAccount) : Allowance := (t.delegate, t.delegatedAmount)

theorem TokenAccount.spend_allowance {t : TokenAccount} {authority : Pubkey} {n : ℕ} :
    (t.spend authority n).allowance = t.allowance.draw authority n := by
  show (t.charge authority n).allowance = _
  rw [charge, Allowance.draw]
  show _ = if t.delegate = some authority then _ else _
  split <;> rfl

/-! ### Balances and supplies -/

/-- Data that is neither a token account nor a mint. -/
def AccountData.Plain : AccountData → Prop
  | .token _ => False
  | .mint _ => False
  | _ => True

namespace Ledger

/-- The balance of a token account, zero for any other account. -/
def balance (led : Ledger) (k : Pubkey) : ℕ :=
  match (led.accts k).data with
  | .token t => t.amount
  | _ => 0

/-- The supply of a mint, zero for any other account. -/
def mintSupply (led : Ledger) (k : Pubkey) : ℕ :=
  match (led.accts k).data with
  | .mint m => m.supply
  | _ => 0

/-- The allowance of a token account, none for any other account. -/
def allowance (led : Ledger) (k : Pubkey) : Allowance :=
  match (led.accts k).data with
  | .token t => t.allowance
  | _ => (none, 0)

variable {led led' : Ledger} {k : Pubkey} {d : AccountData}

theorem allowance_of_data {t : TokenAccount} (h : (led.accts k).data = .token t) :
    led.allowance k = t.allowance := by
  rw [allowance]
  rw [h]

theorem allowance_congr (h : led'.accts k = led.accts k) : led'.allowance k = led.allowance k := by
  unfold allowance
  rw [h]

theorem balance_of_data {t : TokenAccount} (h : (led.accts k).data = .token t) :
    led.balance k = t.amount := by
  rw [balance]
  rw [h]

theorem mintSupply_of_data {m : Mint} (h : (led.accts k).data = .mint m) :
    led.mintSupply k = m.supply := by
  unfold mintSupply
  rw [h]

theorem balance_congr (h : (led'.accts k).data = (led.accts k).data) :
    led'.balance k = led.balance k := by
  unfold balance
  rw [h]

theorem mintSupply_congr (h : (led'.accts k).data = (led.accts k).data) :
    led'.mintSupply k = led.mintSupply k := by
  unfold mintSupply
  rw [h]

theorem balance_of_plain (h : (led.accts k).data.Plain) : led.balance k = 0 := by
  rw [balance]
  cases hd : (led.accts k).data <;> simp_all [AccountData.Plain]

theorem mintSupply_of_plain (h : (led.accts k).data.Plain) : led.mintSupply k = 0 := by
  rw [mintSupply]
  cases hd : (led.accts k).data <;> simp_all [AccountData.Plain]

/-- Writing a record over a record moves no tokens. -/
theorem balance_setAccount {a : Account} (hk : (led.accts k).data.Plain) (ha : a.data.Plain) :
    (led.setAccount k a).balance = led.balance := by
  funext j
  by_cases hj : j = k
  · subst hj
    rw [balance_of_plain hk, balance_of_plain (by rwa [setAccount_accts_self])]
  · exact balance_congr (by rw [setAccount_accts_of_ne hj])

theorem mintSupply_setAccount {a : Account} (hk : (led.accts k).data.Plain) (ha : a.data.Plain) :
    (led.setAccount k a).mintSupply = led.mintSupply := by
  funext j
  by_cases hj : j = k
  · subst hj
    rw [mintSupply_of_plain hk, mintSupply_of_plain (by rwa [setAccount_accts_self])]
  · exact mintSupply_congr (by rw [setAccount_accts_of_ne hj])

theorem balance_setData (hk : (led.accts k).data.Plain) (hd : d.Plain) :
    (led.setData k d).balance = led.balance := balance_setAccount hk hd

theorem mintSupply_setData (hk : (led.accts k).data.Plain) (hd : d.Plain) :
    (led.setData k d).mintSupply = led.mintSupply := mintSupply_setAccount hk hd

end Ledger

/-! ### Ledgers that differ in balances, allowances and supplies only -/

/-- The same account but for its balance and its allowance, or its supply. -/
inductive TokenShape : Account → Account → Prop where
  | same (a) : TokenShape a a
  | token {o t t'} : t.Keeps t' → TokenShape ⟨o, .token t⟩ ⟨o, .token t'⟩
  | mint {o m m'} : m'.mintAuthority = m.mintAuthority → TokenShape ⟨o, .mint m⟩ ⟨o, .mint m'⟩

theorem TokenShape.trans {a b c : Account} (h : TokenShape a b) (h' : TokenShape b c) :
    TokenShape a c := by
  cases h with
  | same => exact h'
  | token hkeep =>
    cases h' with
    | same => exact .token hkeep
    | token hkeep' => exact .token (hkeep.trans hkeep')
  | mint h₁ =>
    cases h' with
    | same => exact .mint h₁
    | mint h₁' => exact .mint (h₁'.trans h₁)

/-- Two ledgers that differ in balances, allowances and supplies only. -/
structure TokenOnly (led led' : Ledger) : Prop where
  slot : led'.slot = led.slot
  accts : ∀ k, TokenShape (led.accts k) (led'.accts k)

namespace TokenOnly

variable {led led' led'' : Ledger} {k : Pubkey}

theorem refl (led : Ledger) : TokenOnly led led := ⟨rfl, fun _ => .same _⟩

theorem trans (h : TokenOnly led led') (h' : TokenOnly led' led'') : TokenOnly led led'' :=
  ⟨h'.slot.trans h.slot, fun k => (h.accts k).trans (h'.accts k)⟩

/-- Records are untouched. -/
theorem eq_of_plain (h : TokenOnly led led') (hk : (led.accts k).data.Plain) :
    led'.accts k = led.accts k := by
  have hs := h.accts k
  generalize led.accts k = a at hs hk ⊢
  generalize led'.accts k = b at hs ⊢
  cases hs with
  | same => rfl
  | token => exact absurd hk (by simp [AccountData.Plain])
  | mint => exact absurd hk (by simp [AccountData.Plain])

theorem owner_eq (h : TokenOnly led led') (k : Pubkey) :
    (led'.accts k).owner = (led.accts k).owner := by
  have hs := h.accts k
  generalize led.accts k = a at hs ⊢
  generalize led'.accts k = b at hs ⊢
  cases hs <;> rfl

end TokenOnly

/-- A token account is one before and after. -/
theorem TokenShape.token_inv {o : Pubkey} {t : TokenAccount} {a : Account}
    (h : TokenShape ⟨o, .token t⟩ a) : ∃ t', a = ⟨o, .token t'⟩ ∧ t.Keeps t' := by
  cases h with
  | same => exact ⟨t, rfl, .refl t⟩
  | token hkeep => exact ⟨_, rfl, hkeep⟩

theorem TokenOnly.token {led led' : Ledger} {k o : Pubkey} {t : TokenAccount}
    (h : TokenOnly led led') (hk : led.accts k = ⟨o, .token t⟩) :
    ∃ t', led'.accts k = ⟨o, .token t'⟩ ∧ t.Keeps t' :=
  TokenShape.token_inv (hk ▸ h.accts k)

/-! ### The three calls -/

/-- The balances once `amount` has moved from `src` to `dst`. -/
def moved (balance : Pubkey → ℕ) (src dst : Pubkey) (amount : ℕ) (k : Pubkey) : ℕ :=
  if src = dst then balance k
  else if k = src then balance k - amount
  else if k = dst then balance k + amount
  else balance k

/-- A transfer takes from one account and gives to another, be they the same or not. -/
theorem moved_cast {balance : Pubkey → ℕ} {src dst : Pubkey} {amount : ℕ}
    (h : amount ≤ balance src) (k : Pubkey) : (moved balance src dst amount k : ℤ) =
      balance k - (if k = src then (amount : ℤ) else 0) + if k = dst then (amount : ℤ) else 0 := by
  rw [moved]
  by_cases hself : src = dst
  · subst hself
    by_cases hk : k = src <;> simp [hk]
  · by_cases hsrc : k = src
    · subst hsrc
      simp [hself, Nat.cast_sub h]
    · rw [if_neg hself, if_neg hsrc, if_neg hsrc]
      by_cases hdst : k = dst <;> simp [hdst]

/-- Only the source of a transfer can lose tokens. -/
theorem le_moved {balance : Pubkey → ℕ} {src dst k : Pubkey} {amount : ℕ} (h : k ≠ src) :
    balance k ≤ moved balance src dst amount k := by
  rw [moved]
  split_ifs <;> omega

/-- The account a call takes tokens out of, and who signed for it. -/
structure Debited (led : Ledger) (src mint authority : Pubkey) (amount : ℕ) : Prop where
  account : ∃ o t, led.accts src = ⟨o, .token t⟩ ∧ t.mint = mint ∧ amount ≤ t.amount ∧
    (t.owner = authority ∨ t.delegate = some authority)

/-- The account a call puts tokens into. -/
structure Credited (led : Ledger) (dst mint : Pubkey) : Prop where
  account : ∃ o t, led.accts dst = ⟨o, .token t⟩ ∧ t.mint = mint

theorem setToken_tokenOnly {led : Ledger} {k o : Pubkey} {t t' : TokenAccount}
    (hk : led.accts k = ⟨o, .token t⟩) (hkeep : t.Keeps t') :
    TokenOnly led (led.setToken k t') := by
  refine ⟨rfl, fun j => ?_⟩
  by_cases hj : j = k
  · subst hj
    rw [Ledger.setToken, Ledger.setData_accts_self, hk]
    exact .token hkeep
  · rw [Ledger.setToken, Ledger.setData_accts_of_ne hj]
    exact .same _

theorem setMint_tokenOnly {led : Ledger} {k o : Pubkey} {m m' : Mint}
    (hk : led.accts k = ⟨o, .mint m⟩) (hm : m'.mintAuthority = m.mintAuthority) :
    TokenOnly led (led.setMint k m') := by
  refine ⟨rfl, fun j => ?_⟩
  by_cases hj : j = k
  · subst hj
    rw [Ledger.setMint, Ledger.setData_accts_self, hk]
    exact .mint hm
  · rw [Ledger.setMint, Ledger.setData_accts_of_ne hj]
    exact .same _

theorem balance_setToken {led : Ledger} {k : Pubkey} {t : TokenAccount} (j : Pubkey) :
    (led.setToken k t).balance j = if j = k then t.amount else led.balance j := by
  by_cases hj : j = k
  · subst hj
    rw [if_pos rfl, Ledger.balance_of_data (t := t)]
    simp [Ledger.setToken]
  · rw [if_neg hj]
    exact Ledger.balance_congr (by rw [Ledger.setToken, Ledger.setData_accts_of_ne hj])

theorem mintSupply_setMint {led : Ledger} {k : Pubkey} {m : Mint} (j : Pubkey) :
    (led.setMint k m).mintSupply j = if j = k then m.supply else led.mintSupply j := by
  by_cases hj : j = k
  · subst hj
    rw [if_pos rfl, Ledger.mintSupply_of_data (m := m)]
    simp [Ledger.setMint]
  · rw [if_neg hj]
    exact Ledger.mintSupply_congr (by rw [Ledger.setMint, Ledger.setData_accts_of_ne hj])

theorem mintSupply_setToken {led : Ledger} {k o : Pubkey} {t t' : TokenAccount}
    (hk : led.accts k = ⟨o, .token t⟩) : (led.setToken k t').mintSupply = led.mintSupply := by
  funext j
  by_cases hj : j = k
  · subst hj
    simp [Ledger.mintSupply, Ledger.setToken, hk]
  · exact Ledger.mintSupply_congr (by rw [Ledger.setToken, Ledger.setData_accts_of_ne hj])

theorem balance_setMint {led : Ledger} {k o : Pubkey} {m m' : Mint}
    (hk : led.accts k = ⟨o, .mint m⟩) : (led.setMint k m').balance = led.balance := by
  funext j
  by_cases hj : j = k
  · subst hj
    simp [Ledger.balance, Ledger.setMint, hk]
  · exact Ledger.balance_congr (by rw [Ledger.setMint, Ledger.setData_accts_of_ne hj])

section Calls

variable {rt : Runtime} {led led' : Ledger} {program src mint dst authority k : Pubkey}
  {signed : Bool} {amount decimals : ℕ}

/-- **A transfer** moves exactly `amount`, from an account its authority controls. -/
theorem transferChecked_eq_ok
    (h : transferChecked rt led program src mint dst authority signed amount decimals = .ok led') :
    TokenOnly led led' ∧ Debited led src mint authority amount ∧ Credited led dst mint ∧
      (∀ k, led'.balance k = moved led.balance src dst amount k) ∧
      led'.mintSupply = led.mintSupply := by
  cases rt.tokens.effect h with
  | @transferSelf _ _ _ _ _ s m hs hm hsm _ _ hallows hamount =>
    exact ⟨.refl _, ⟨_, s, hs, hsm, hamount, s.owner_or_delegate_of_allows hallows⟩,
      ⟨_, s, hs, hsm⟩, fun k => by rw [moved, if_pos rfl], rfl⟩
  | @transfer _ _ _ _ _ _ s d m hne hfit hs hd hm hsm hdm _ _ _ hallows hamount =>
    have hd' : (led.setToken src (s.spend authority amount)).accts dst = ⟨program, .token d⟩ := by
      rw [Ledger.setToken, Ledger.setData_accts_of_ne (Ne.symm hne), hd]
    refine ⟨(setToken_tokenOnly hs s.keeps_spend).trans
        (setToken_tokenOnly hd' (d.keeps_withAmount hfit)),
      ⟨_, s, hs, hsm, hamount, s.owner_or_delegate_of_allows hallows⟩, ⟨_, d, hd, hdm⟩,
      fun k => ?_, ?_⟩
    · rw [balance_setToken, balance_setToken, moved, if_neg hne]
      by_cases hkd : k = dst
      · subst hkd
        rw [if_pos rfl, if_neg (Ne.symm hne), if_pos rfl,
          Ledger.balance_of_data (congrArg Account.data hd)]
        rfl
      · rw [if_neg hkd, if_neg hkd]
        split
        · rename_i hks
          subst hks
          rw [Ledger.balance_of_data (congrArg Account.data hs), TokenAccount.spend_amount]
        · rfl
    · rw [mintSupply_setToken hd', mintSupply_setToken hs]

/-- An allowance once `authority` has moved `amount` from `src` to `dst`. -/
def drawn (src dst authority : Pubkey) (amount : ℕ) (k : Pubkey) (a : Allowance) : Allowance :=
  if src ≠ dst ∧ k = src then a.draw authority amount else a

theorem drawn_commute {src' dst' authority' : Pubkey} {amount' : ℕ} :
    Function.Commute (drawn src dst authority amount k) (drawn src' dst' authority' amount' k) := by
  intro a
  simp only [drawn]
  split_ifs
  · exact Allowance.draw_comm ..
  all_goals rfl

/-- A transfer draws on the allowance of its source, unless it moves nothing. -/
theorem transferChecked_allowance
    (h : transferChecked rt led program src mint dst authority signed amount decimals = .ok led')
    (k : Pubkey) : led'.allowance k = drawn src dst authority amount k (led.allowance k) := by
  cases rt.tokens.effect h with
  | transferSelf => exact (if_neg fun h => h.1 rfl).symm
  | @transfer _ _ _ _ _ _ s d m hne hfit hs hd =>
    rw [drawn, Ledger.setToken]
    by_cases hkd : k = dst
    · rw [if_neg fun hk => hne (hk.2.symm.trans hkd), hkd,
        Ledger.allowance_of_data (congrArg Account.data hd),
        Ledger.allowance_of_data (by rw [Ledger.setData_accts_self])]
      rfl
    · rw [Ledger.allowance_congr (Ledger.setData_accts_of_ne hkd), Ledger.setToken]
      by_cases hks : k = src
      · rw [if_pos ⟨hne, hks⟩, hks, Ledger.allowance_of_data (congrArg Account.data hs),
          Ledger.allowance_of_data (by rw [Ledger.setData_accts_self]),
          TokenAccount.spend_allowance]
      · rw [if_neg fun hk => hks hk.2, Ledger.allowance_congr (Ledger.setData_accts_of_ne hks)]

/-- A transfer leaves every account alone that is not a token account. -/
theorem transferChecked_accts
    (h : transferChecked rt led program src mint dst authority signed amount decimals = .ok led')
    (hk : ∀ t, (led.accts k).data ≠ .token t) : led'.accts k = led.accts k := by
  cases rt.tokens.effect h with
  | transferSelf => rfl
  | @transfer _ _ _ _ _ _ s d m hne hfit hs hd =>
    rw [Ledger.setToken, Ledger.setData_accts_of_ne, Ledger.setToken, Ledger.setData_accts_of_ne]
    · rintro rfl
      exact hk s (congrArg Account.data hs)
    · rintro rfl
      exact hk d (congrArg Account.data hd)

/-- **Minting** credits one account, and grows the supply of a mint its authority signs for. -/
theorem mintToChecked_eq_ok
    (h : mintToChecked rt led program mint dst authority signed amount decimals = .ok led') :
    TokenOnly led led' ∧ Credited led dst mint ∧
      (∃ o m, led.accts mint = ⟨o, .mint m⟩ ∧ m.mintAuthority = some authority) ∧
      (∀ k, led'.balance k = if k = dst then led.balance k + amount else led.balance k) ∧
      ∀ k, led'.mintSupply k =
        if k = mint then led.mintSupply k + amount else led.mintSupply k := by
  cases rt.tokens.effect h with
  | @mintTo _ _ _ _ _ d m hfit hsupply hd hm hdm _ _ hauth =>
    have hne : mint ≠ dst := by
      rintro rfl
      rw [hd] at hm
      cases hm
    have hm' : (led.setToken dst (d.withAmount _ hfit)).accts mint = ⟨program, .mint m⟩ := by
      rw [Ledger.setToken, Ledger.setData_accts_of_ne hne, hm]
    refine ⟨(setToken_tokenOnly hd (d.keeps_withAmount hfit)).trans
      (setMint_tokenOnly hm' (by rfl)),
      ⟨_, d, hd, hdm⟩, ⟨_, m, hm, hauth⟩, fun k => ?_, fun k => ?_⟩
    · rw [balance_setMint hm', balance_setToken]
      split
      · rename_i hk
        subst hk
        rw [Ledger.balance_of_data (congrArg Account.data hd)]
        rfl
      · rfl
    · rw [mintSupply_setMint, mintSupply_setToken hd]
      split
      · rename_i hk
        subst hk
        rw [Ledger.mintSupply_of_data (congrArg Account.data hm)]
      · rfl

/-- **Burning** debits an account its authority controls, and shrinks the supply. -/
theorem burnChecked_eq_ok
    (h : burnChecked rt led program src mint authority signed amount decimals = .ok led') :
    TokenOnly led led' ∧ Debited led src mint authority amount ∧
      (∀ k, led'.balance k = if k = src then led.balance k - amount else led.balance k) ∧
      ∀ k, led'.mintSupply k =
        if k = mint then led.mintSupply k - amount else led.mintSupply k := by
  cases rt.tokens.effect h with
  | @burn _ _ _ _ _ s m hs hm hsm _ _ hallows hamount hsupply =>
    have hne : mint ≠ src := by
      rintro rfl
      rw [hs] at hm
      cases hm
    have hm' : (led.setToken src (s.spend authority amount)).accts mint = ⟨program, .mint m⟩ := by
      rw [Ledger.setToken, Ledger.setData_accts_of_ne hne, hm]
    refine ⟨(setToken_tokenOnly hs s.keeps_spend).trans (setMint_tokenOnly hm' (by rfl)),
      ⟨_, s, hs, hsm, hamount, s.owner_or_delegate_of_allows hallows⟩, fun k => ?_, fun k => ?_⟩
    · rw [balance_setMint hm', balance_setToken]
      split
      · rename_i hk
        subst hk
        rw [Ledger.balance_of_data (congrArg Account.data hs), TokenAccount.spend_amount]
      · rfl
    · rw [mintSupply_setMint, mintSupply_setToken hs]
      split
      · rename_i hk
        subst hk
        rw [Ledger.mintSupply_of_data (congrArg Account.data hm)]
      · rfl

/-- A burn leaves every account alone that is neither a token account nor the mint. -/
theorem burnChecked_accts
    (h : burnChecked rt led program src mint authority signed amount decimals = .ok led')
    (hne : k ≠ mint) (hk : ∀ t, (led.accts k).data ≠ .token t) : led'.accts k = led.accts k := by
  cases rt.tokens.effect h with
  | @burn _ _ _ _ _ s m hs =>
    rw [Ledger.setMint, Ledger.setData_accts_of_ne hne, Ledger.setToken, Ledger.setData_accts_of_ne]
    rintro rfl
    exact hk s (congrArg Account.data hs)

end Calls

end ChiefLiquidity
