import ChiefLiquidity.Refinement.Transfers

/-!
# Transfers that are accepted

The token program executes every transfer whose source holds enough, as long as the accounts are
what they should be and the balances of a mint fit a word together. Both transfers of a side
preserve that, so an instruction can be taken through its transfers one by one.

## Running forwards

The other modules of this layer read an accepted instruction backwards: it was accepted, so each of
its checks was passed. Here the direction is the other one. A stage is accepted under a condition on
the ledger before it, and the condition for the next stage has to hold on the ledger after it, so
each stage comes with two lemmas: it is accepted, and it leaves the accounts in order.

What is asked of the token program is `TokenProgram.executes`: accounts in order that are not
frozen, an owner who signs, a source that holds enough and a destination with room.

## Main definitions

* `PoolAccounts.Funded` — the token accounts of an instruction are in order

## Main results

* `payIn_accepted`, `payOut_accepted`, `burn_accepted` — calls into the token program
* `Funded.payIn`, `Funded.payOut`, `Funded.burn` — the accounts stay in order
* `validate_accepted`, `loadPool_accepted`, `readVaults_accepted`, `readDecimals_accepted` — the
  opening of an instruction
-/

namespace ChiefLiquidity

open Ledger

variable {rt : Runtime} {led led' : Ledger} {accs : PoolAccounts} {p q : Pool} {x y : Side}
  {program src mint dst authority holder k : Pubkey} {amount : ℕ} {decimals : Side → ℕ}

/-! ### The token program -/

/-- The token program executes a transfer whose accounts are in order and whose source holds
enough. -/
theorem transferChecked_accepted {s d : TokenAccount} {m : Mint}
    (hs : led.accts src = ⟨program, .token s⟩) (hd : led.accts dst = ⟨program, .token d⟩)
    (hm : led.accts mint = ⟨program, .mint m⟩) (hsm : s.mint = mint) (hdm : d.mint = mint)
    (hsf : s.isFrozen = false) (hdf : d.isFrozen = false) (hauth : s.owner = authority)
    (hdel : s.delegate ≠ some authority) (hamount : amount ≤ led.balance src)
    (hroom : led.balance dst + amount < 2 ^ 64) :
    ∃ led', transferChecked rt led program src mint dst authority true amount m.decimals =
      .ok led' := by
  rw [balance_of_data (congrArg Account.data hs)] at hamount
  rw [balance_of_data (congrArg Account.data hd)] at hroom
  exact rt.tokens.executes
    (.transferChecked hs hd hm hsm hdm hsf hdf hauth hdel hamount hroom)

/-- The token program burns what an account holds, as long as the supply shows it. -/
theorem burnChecked_accepted {s : TokenAccount} {m : Mint}
    (hs : led.accts src = ⟨program, .token s⟩) (hm : led.accts mint = ⟨program, .mint m⟩)
    (hsm : s.mint = mint) (hsf : s.isFrozen = false) (hauth : s.owner = authority)
    (hdel : s.delegate ≠ some authority) (hamount : amount ≤ led.balance src)
    (hsupply : amount ≤ led.mintSupply mint) :
    ∃ led', burnChecked rt led program src mint authority true amount m.decimals = .ok led' := by
  rw [balance_of_data (congrArg Account.data hs)] at hamount
  rw [mintSupply_of_data (congrArg Account.data hm)] at hsupply
  exact rt.tokens.executes (.burnChecked hs hm hsm hsf hauth hdel hamount hsupply)

/-! ### The token accounts of an instruction -/

/-- The token accounts of an instruction are in order, so that the token program executes each of its
transfers whose source holds enough: each side's mint, vault and user account are of the side's token
program, neither account is frozen, the user account holds the side's mint for `holder`, who is not
held to an allowance as its delegate, and the balances of a mint fit a word together. -/
structure PoolAccounts.Funded (accs : PoolAccounts) (rt : Runtime) (led : Ledger)
    (holder : Pubkey) (decimals : Side → ℕ) : Prop where
  program : ∀ x, rt.isValidTokenProgram (accs.tokenProgram x) = true
  mint : ∀ x, ∃ m, led.accts (accs.mint x) = ⟨accs.tokenProgram x, .mint m⟩ ∧
    m.decimals = decimals x
  vault : ∀ x, ∃ t, led.accts (accs.vault x) = ⟨accs.tokenProgram x, .token t⟩ ∧
    t.isFrozen = false
  user : ∀ x, ∃ t, led.accts (accs.userToken x) = ⟨accs.tokenProgram x, .token t⟩ ∧
    t.mint = accs.mint x ∧ t.owner = holder ∧ t.delegate ≠ some holder ∧ t.isFrozen = false
  room : ∀ x, led.balance (accs.vault x) + led.balance (accs.userToken x) < 2 ^ 64

section Funded

variable (hF : accs.Funded rt led holder decimals) (hw : Wired rt led accs.pool p)
  (hacc : p.matchesAccounts accs = true)

include hw hacc in
/-- The vault of a side as the token program sees it. -/
theorem PoolAccounts.vault_account (x : Side) : ∃ o t, led.accts (accs.vault x) = ⟨o, .token t⟩ ∧
    t.mint = accs.mint x ∧ t.owner = accs.pool ∧ t.delegate = none := by
  obtain ⟨hvault, hmint⟩ := Pool.matchesAccounts_iff.mp hacc
  obtain ⟨o, t, hk, hm, ho, hd⟩ := hw.vault x
  exact ⟨o, t, hvault x ▸ hk, hm.trans (hmint x), ho, hd⟩

include hF hw hacc in
/-- The vault of a side, which the token program will move tokens into and out of. -/
theorem PoolAccounts.Funded.vault_account (x : Side) :
    ∃ t, led.accts (accs.vault x) = ⟨accs.tokenProgram x, .token t⟩ ∧ t.mint = accs.mint x ∧
      t.owner = accs.pool ∧ t.delegate ≠ some accs.pool ∧ t.isFrozen = false := by
  obtain ⟨_, t, hk, hm, ho, hd⟩ := accs.vault_account hw hacc x
  obtain ⟨t', hk', hfrozen⟩ := hF.vault x
  rw [hk] at hk'
  cases hk'
  exact ⟨t, hk, hm, ho, by simp [hd], hfrozen⟩

include hF hw hacc in
/-- A user account is not a vault, unless the pool holds it. -/
theorem PoolAccounts.Funded.userToken_ne (hholder : holder ≠ accs.pool) (x y : Side) :
    accs.userToken x ≠ accs.vault y := by
  intro heq
  obtain ⟨t, hk, -, ho, -⟩ := hF.user x
  obtain ⟨_, t', hk', -, ho', -⟩ := accs.vault_account hw hacc y
  rw [heq, hk'] at hk
  cases hk
  exact hholder (ho.symm.trans ho')

include hF hw hacc in
/-- The user accounts of the two sides differ. -/
theorem PoolAccounts.Funded.userToken_side_ne (hxy : x ≠ y) :
    accs.userToken x ≠ accs.userToken y := by
  obtain ⟨-, hmint⟩ := Pool.matchesAccounts_iff.mp hacc
  intro heq
  obtain ⟨t, hk, hm, -⟩ := hF.user x
  obtain ⟨t', hk', hm', -⟩ := hF.user y
  rw [heq, hk'] at hk
  obtain rfl : t' = t := AccountData.token.inj (congrArg Account.data hk)
  rw [hm', ← hmint, ← hmint] at hm
  exact hw.mint_side_ne hxy hm.symm

include hF hw hacc in
/-- **Paying in** what the user holds is accepted. -/
theorem payIn_accepted (huser : accs.user = holder) (hsigned : accs.userIsSigner = true)
    (hamount : amount ≤ led.balance (accs.userToken x)) :
    ∃ led', accs.payIn rt led x amount (decimals x) = .ok led' := by
  obtain ⟨m, hm, hdec⟩ := hF.mint x
  obtain ⟨s, hs, hsm, hso, hdel, hsf⟩ := hF.user x
  obtain ⟨d, hd, hdm, -, -, hdf⟩ := hF.vault_account hw hacc x
  rw [PoolAccounts.payIn, hsigned, ← hdec]
  have hroom := hF.room x
  exact transferChecked_accepted hs hd hm hsm hdm hsf hdf (hso.trans huser.symm) (huser ▸ hdel)
    hamount (by omega)

include hF hw hacc in
/-- **Paying out** what the vault holds is accepted. -/
theorem payOut_accepted (hsigns : q.signsFor rt accs.pool = true)
    (hamount : amount ≤ led.balance (accs.vault x)) :
    ∃ led', accs.payOut rt q led x amount (decimals x) = .ok led' := by
  obtain ⟨m, hm, hdec⟩ := hF.mint x
  obtain ⟨d, hd, hdm, -, -, hdf⟩ := hF.user x
  obtain ⟨s, hs, hsm, hso, hdel, hsf⟩ := hF.vault_account hw hacc x
  rw [PoolAccounts.payOut, hsigns, ← hdec]
  have hroom := hF.room x
  exact transferChecked_accepted hs hd hm hsm hdm hsf hdf hso hdel hamount (by omega)

/-! ### The accounts stay in order -/

include hF in
/-- Moving tokens keeps the accounts in order, as long as it leaves the mints alone and the balances
within a word. -/
theorem PoolAccounts.Funded.of_tokenOnly (htok : TokenOnly led led')
    (hmint : ∀ x, led'.accts (accs.mint x) = led.accts (accs.mint x))
    (hroom : ∀ x, led'.balance (accs.vault x) + led'.balance (accs.userToken x) < 2 ^ 64) :
    accs.Funded rt led' holder decimals where
  program := hF.program
  mint x := by
    rw [hmint]
    exact hF.mint x
  vault x := by
    obtain ⟨t, hk, hfrozen⟩ := hF.vault x
    obtain ⟨t', hk', hkeep⟩ := htok.token hk
    exact ⟨t', hk', hkeep.isFrozen.trans hfrozen⟩
  user x := by
    obtain ⟨t, hk, hm, ho, hdel, hfrozen⟩ := hF.user x
    obtain ⟨t', hk', hkeep⟩ := htok.token hk
    exact ⟨t', hk', hkeep.mint.trans hm, hkeep.owner.trans ho,
      fun hd => hdel (hkeep.delegate_some hd), hkeep.isFrozen.trans hfrozen⟩
  room := hroom

include hF in
/-- The mints are no token accounts. -/
theorem PoolAccounts.Funded.mint_ne_token (x : Side) (t : TokenAccount) :
    (led.accts (accs.mint x)).data ≠ .token t := by
  obtain ⟨m, hm, -⟩ := hF.mint x
  rw [hm]
  exact nofun

/-- What two accounts hold together is the same after a transfer between them. -/
theorem moved_add_moved {balance : Pubkey → ℕ} {u v : Pubkey} (hne : u ≠ v)
    (hamount : amount ≤ balance u) :
    moved balance u v amount u + moved balance u v amount v = balance u + balance v := by
  simp only [moved, if_neg hne, if_neg hne.symm, if_pos]
  omega

theorem moved_of_ne {balance : Pubkey → ℕ} (hsrc : k ≠ src) (hdst : k ≠ dst) :
    moved balance src dst amount k = balance k := by
  rw [moved, if_neg hsrc, if_neg hdst, ite_self]

theorem moved_dst {balance : Pubkey → ℕ} (hne : src ≠ dst) :
    moved balance src dst amount dst = balance dst + amount := by
  rw [moved, if_neg hne, if_neg hne.symm, if_pos rfl]

include hF hw hacc in
/-- A transfer between the two accounts of a side moves nothing on the other side. -/
theorem PoolAccounts.Funded.transfer {dst mint : Pubkey} {signed : Bool} {n : ℕ}
    (hholder : holder ≠ accs.pool)
    (hpair : src = accs.vault x ∧ dst = accs.userToken x ∨
      src = accs.userToken x ∧ dst = accs.vault x)
    (h : transferChecked rt led program src mint dst authority signed amount n = .ok led') :
    accs.Funded rt led' holder decimals := by
  obtain ⟨htok, hdeb, -, hbal, -⟩ := transferChecked_eq_ok h
  obtain ⟨o, t, hk, -, hle, -⟩ := hdeb.account
  rw [← balance_of_data (congrArg Account.data hk)] at hle
  have hne := hF.userToken_ne hw hacc hholder
  refine hF.of_tokenOnly htok (fun y => transferChecked_accts h (hF.mint_ne_token y)) fun y => ?_
  have hroom := hF.room y
  rw [hbal, hbal]
  by_cases hy : y = x
  · subst hy
    rcases hpair with ⟨rfl, rfl⟩ | ⟨rfl, rfl⟩
    · rw [moved_add_moved (hne y y).symm hle]
      exact hroom
    · rw [Nat.add_comm, moved_add_moved (hne y y) hle]
      omega
  · obtain ⟨hvault, -⟩ := Pool.matchesAccounts_iff.mp hacc
    have hv : accs.vault y ≠ accs.vault x := by
      rw [← hvault, ← hvault]
      exact hw.vault_ne hy
    have hu := hF.userToken_side_ne hw hacc hy
    rcases hpair with ⟨rfl, rfl⟩ | ⟨rfl, rfl⟩
    · rw [moved_of_ne hv (hne x y).symm, moved_of_ne (hne y x) hu]
      exact hroom
    · rw [moved_of_ne (hne x y).symm hv, moved_of_ne hu (hne y x)]
      exact hroom

include hF hw hacc in
theorem PoolAccounts.Funded.payIn (hholder : holder ≠ accs.pool)
    (h : accs.payIn rt led x amount (decimals x) = .ok led') :
    accs.Funded rt led' holder decimals :=
  hF.transfer hw hacc hholder (.inr ⟨rfl, rfl⟩) h

include hF hw hacc in
theorem PoolAccounts.Funded.payOut (hholder : holder ≠ accs.pool)
    (h : accs.payOut rt q led x amount (decimals x) = .ok led') :
    accs.Funded rt led' holder decimals :=
  hF.transfer hw hacc hholder (.inl ⟨rfl, rfl⟩) h

include hF hw hacc in
/-- Burning LP tokens moves nothing on either side. -/
theorem PoolAccounts.Funded.burn {o : Pubkey} {t : TokenAccount} {signed : Bool} {n : ℕ}
    (hsrc : led.accts src = ⟨o, .token t⟩) (hmint : t.mint = p.lpMint)
    (h : burnChecked rt led program src p.lpMint authority signed amount n = .ok led') :
    accs.Funded rt led' holder decimals := by
  obtain ⟨htok, -, hbal, -⟩ := burnChecked_eq_ok h
  obtain ⟨-, hmints⟩ := Pool.matchesAccounts_iff.mp hacc
  have hne : ∀ x, accs.mint x ≠ p.lpMint := fun x => hmints x ▸ hw.lpMint_ne x
  have hvault : ∀ x, accs.vault x ≠ src := by
    rintro x rfl
    obtain ⟨_, t', hk, hm, -⟩ := accs.vault_account hw hacc x
    rw [hk] at hsrc
    cases hsrc
    exact hne x (hm.symm.trans hmint)
  have huser : ∀ x, accs.userToken x ≠ src := by
    rintro x rfl
    obtain ⟨t', hk, hm, -⟩ := hF.user x
    rw [hk] at hsrc
    cases hsrc
    exact hne x (hm.symm.trans hmint)
  refine hF.of_tokenOnly htok (fun x => burnChecked_accts h (hne x) (hF.mint_ne_token x))
    fun x => ?_
  rw [hbal, hbal, if_neg (hvault x), if_neg (huser x)]
  exact hF.room x

/-! ### The opening of an instruction -/

include hF in
theorem validate_accepted (hp : led.HasPool rt accs.pool p) : accs.validate rt led = .ok () := by
  obtain ⟨mA, hA, -⟩ := hF.mint .a
  obtain ⟨mB, hB, -⟩ := hF.mint .b
  have hownerA : accs.tokenProgramA = (led.accts accs.mintA).owner :=
    (congrArg Account.owner hA).symm
  have hownerB : accs.tokenProgramB = (led.accts accs.mintB).owner :=
    (congrArg Account.owner hB).symm
  have howner : (led.accts accs.pool).owner = rt.programId := congrArg Account.owner hp.1
  rw [PoolAccounts.validate, validateTokenProgramForMint, validateTokenProgramForMint,
    require_of ⟨hF.program .a, hownerA⟩, require_of ⟨hF.program .b, hownerB⟩, require_of howner]
  rfl

include hF in
theorem readDecimals_accepted : accs.readDecimals led = .ok decimals := by
  obtain ⟨mA, hA, hdA⟩ := hF.mint .a
  obtain ⟨mB, hB, hdB⟩ := hF.mint .b
  have hreadA : led.readMintDecimals accs.mintA = .ok (decimals .a) :=
    readMintDecimals_eq_ok.mpr ⟨mA, congrArg Account.data hA, hdA⟩
  have hreadB : led.readMintDecimals accs.mintB = .ok (decimals .b) :=
    readMintDecimals_eq_ok.mpr ⟨mB, congrArg Account.data hB, hdB⟩
  rw [PoolAccounts.readDecimals, hreadA, hreadB]
  refine congrArg Except.ok (funext fun x => ?_)
  cases x <;> rfl

include hw hacc in
theorem readVaults_accepted :
    accs.readVaults led = .ok (led.balance p.vaultA, led.balance p.vaultB) := by
  obtain ⟨hvault, -⟩ := Pool.matchesAccounts_iff.mp hacc
  obtain ⟨_, tA, hA, -, -, -, hbalA⟩ := hw.balance .a
  obtain ⟨_, tB, hB, -, -, -, hbalB⟩ := hw.balance .b
  have hvA : p.vaultA = accs.vaultA := hvault .a
  have hvB : p.vaultB = accs.vaultB := hvault .b
  refine PoolAccounts.readVaults_eq_ok.mpr ⟨?_, ?_⟩
  · rw [← hvA]
    exact readTokenAmount_eq_ok.mpr ⟨tA, congrArg Account.data hA, hbalA.symm⟩
  · rw [← hvB]
    exact readTokenAmount_eq_ok.mpr ⟨tB, congrArg Account.data hB, hbalB.symm⟩

include hacc in
theorem loadPool_accepted (hp : led.HasPool rt accs.pool p) : accs.loadPool led = .ok p :=
  PoolAccounts.loadPool_eq_ok.mpr ⟨congrArg Account.data hp.1, hp.2, hacc⟩

include hw in
/-- The seeds of a pool sign for it. -/
theorem signsFor_accepted (hterms : q.terms = p.terms) : q.signsFor rt accs.pool = true := by
  have hA : q.mintA = p.mintA := Pool.mint_of_terms hterms .a
  have hB : q.mintB = p.mintB := Pool.mint_of_terms hterms .b
  have hbump : q.poolBump = p.poolBump :=
    (congrArg Pool.poolBump hterms : q.terms.poolBump = p.terms.poolBump)
  have hcreate := rt.create_find (.pool p.mintA p.mintB)
  rw [hw.key] at hcreate
  rw [Pool.signsFor, hA, hB, hbump]
  exact decide_eq_true hcreate

end Funded

end ChiefLiquidity
