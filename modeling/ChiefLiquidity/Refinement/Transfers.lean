import ChiefLiquidity.Refinement.View

/-!
# The transfers of an instruction

What paying in, paying out, minting and burning LP do to the vaults and the LP supply of the pool
an instruction is about. The source of a payment in is never a vault, because a vault has no
delegate and its owner signs for nobody; the destination of a payment out may be the vault it comes
from, and then nothing moves.

## Who signs for what

A payment in is signed by the user. The token program lets an owner or a delegate move tokens; the
vault of a pool has no delegate and is owned by the pool, whose address no user can sign for. So a
payment in never comes from a vault of any pool, and the vault it goes to gains exactly the amount.

A payment out is signed by the pool with its seeds. It comes from the vault, and its destination is
whatever the user has handed in. If that is the vault itself, the token program moves nothing, and
the program does not notice. Every lemma on a payment out has therefore two outcomes: the amount, or
zero.

## Main results

* `payIn_eq_ok`, `payOut_eq_ok`, `mintLp_eq_ok`, `burnLp_eq_ok`
-/

namespace ChiefLiquidity

open Ledger

/-- What a token movement of an instruction about the pool `P` leaves alone. -/
structure TokenMove (rt : Runtime) (P : Pubkey) (led led' : Ledger) : Prop where
  tokenOnly : TokenOnly led led'
  touched : Touched rt P led led'

theorem TokenMove.trans {rt : Runtime} {P : Pubkey} {led led' led'' : Ledger}
    (h : TokenMove rt P led led') (h' : TokenMove rt P led' led'') : TokenMove rt P led led'' :=
  ⟨h.tokenOnly.trans h'.tokenOnly, h.touched.trans h'.touched⟩

variable {rt : Runtime} {led led' : Ledger} {accs : PoolAccounts} {p q : Pool} {x : Side}
  {amount decimals : ℕ}

/-- An account the user debits is not a vault. -/
theorem Wired.vault_ne_of_debited {user src mint : Pubkey} (hw : Wired rt led accs.pool p)
    (huser : ¬ rt.IsPda user) (hd : Debited led src mint user amount) (y : Side) :
    src ≠ p.vault y := by
  rintro rfl
  obtain ⟨o, t, hk, -, -, hcontrol⟩ := hd.account
  obtain ⟨_, t', hk', -, howner, hdel⟩ := hw.vault y
  rw [hk] at hk'
  cases hk'
  rcases hcontrol with h | h
  · exact huser (h ▸ howner ▸ hw.pda)
  · rw [hdel] at h
    cases h

/-- A token account of the mint of one side is not the vault of the other. -/
theorem Wired.vault_ne_of_credited {dst mint : Pubkey} (hw : Wired rt led accs.pool p)
    (hc : Credited led dst mint) {y : Side} (hne : mint ≠ p.mint y) : dst ≠ p.vault y := by
  rintro rfl
  obtain ⟨o, t, hk, hm⟩ := hc.account
  obtain ⟨_, t', hk', hm', -⟩ := hw.vault y
  rw [hk] at hk'
  cases hk'
  exact hne (hm.symm.trans hm')

/-- Tokens the user debits leave the balances of all other pools' vaults alone. -/
theorem Debited.guarded {src mint user k o : Pubkey} {t : TokenAccount}
    (hd : Debited led src mint user amount) (huser : ¬ rt.IsPda user)
    (hk : led.accts k = ⟨o, .token t⟩) (hpda : rt.IsPda t.owner) (hdel : t.delegate = none) :
    k ≠ src := by
  rintro rfl
  obtain ⟨o', t', hk', -, -, hcontrol⟩ := hd.account
  rw [hk] at hk'
  cases hk'
  rcases hcontrol with h | h
  · exact huser (h ▸ hpda)
  · rw [hdel] at h
    cases h

/-- **Paying in** grows the vault of the side by exactly the amount. -/
theorem payIn_eq_ok (hw : Wired rt led accs.pool p) (hacc : p.matchesAccounts accs = true)
    (huser : ¬ rt.IsPda accs.user) (h : accs.payIn rt led x amount decimals = .ok led') :
    TokenMove rt accs.pool led led' ∧
      (∀ y, led'.balance (p.vault y) = led.balance (p.vault y) + if y = x then amount else 0) ∧
      led'.mintSupply = led.mintSupply := by
  obtain ⟨hvault, hmint⟩ := Pool.matchesAccounts_iff.mp hacc
  obtain ⟨htok, hdeb, hcred, hbal, hsup⟩ := transferChecked_eq_ok h
  refine ⟨⟨htok, .of_tokenOnly htok (fun k o t hk hpda hdel _ => ?_) fun k o m _ _ => ?_⟩,
    fun y => ?_, hsup⟩
  · rw [hbal]
    exact le_moved (hdeb.guarded huser hk hpda hdel)
  · rw [hsup]
  · have hsrc := hw.vault_ne_of_debited huser hdeb
    rw [hbal, moved, ← hvault x, if_neg (hsrc x), if_neg (Ne.symm (hsrc y))]
    by_cases hy : y = x
    · rw [hy, if_pos rfl, if_pos rfl]
    · rw [if_neg (hw.vault_ne hy), if_neg hy, Nat.add_zero]

/-- What leaves the vault when `amount` is paid to the user's account of the side: nothing when
that account is the vault itself. -/
def PoolAccounts.paidOut (accs : PoolAccounts) (x : Side) (amount : ℕ) : ℕ :=
  if accs.userToken x = accs.vault x then 0 else amount

theorem PoolAccounts.paidOut_eq (accs : PoolAccounts) (x : Side) (amount : ℕ) :
    accs.paidOut x amount = amount ∨ accs.paidOut x amount = 0 := by
  rw [paidOut]
  split
  · exact Or.inr rfl
  · exact Or.inl rfl

theorem PoolAccounts.paidOut_of_ne (h : accs.userToken x ≠ accs.vault x) :
    accs.paidOut x amount = amount := if_neg h

/-- **Paying out** shrinks the vault of the side by the amount, or by nothing when it is paid to
that vault. -/
theorem payOut_eq_ok (hw : Wired rt led accs.pool p) (hacc : p.matchesAccounts accs = true)
    (h : accs.payOut rt q led x amount decimals = .ok led') :
    TokenMove rt accs.pool led led' ∧ amount ≤ led.balance (p.vault x) ∧
      (∀ y, led'.balance (p.vault y) =
        led.balance (p.vault y) - if y = x then accs.paidOut x amount else 0) ∧
      led'.mintSupply = led.mintSupply := by
  obtain ⟨hvault, hmint⟩ := Pool.matchesAccounts_iff.mp hacc
  obtain ⟨htok, hdeb, hcred, hbal, hsup⟩ := transferChecked_eq_ok h
  rw [PoolAccounts.paidOut]
  rw [← hvault x] at hdeb hbal ⊢
  rw [← hmint x] at hcred
  have hamount : amount ≤ led.balance (p.vault x) := by
    obtain ⟨o, t, hk, -, hle, -⟩ := hdeb.account
    rwa [balance_of_data (congrArg Account.data hk)]
  refine ⟨⟨htok, .of_tokenOnly htok (fun k o t hk _ _ hP => ?_) fun k o m _ _ => ?_⟩,
    hamount, fun y => ?_, hsup⟩
  · -- the only account that loses tokens is the vault, which the pool owns
    have hne : k ≠ p.vault x := by
      rintro rfl
      obtain ⟨_, t', hk', -, howner, -⟩ := hw.vault x
      rw [hk] at hk'
      cases hk'
      exact hP howner
    rw [hbal]
    exact le_moved hne
  · rw [hsup]
  · by_cases hself : accs.userToken x = p.vault x
    · rw [hbal, moved, if_pos hself.symm, if_pos hself]
      simp
    · rw [hbal, moved, if_neg (Ne.symm hself), if_neg hself]
      by_cases hy : y = x
      · rw [hy, if_pos rfl, if_pos rfl]
      · have hne := hw.vault_ne_of_credited hcred (hw.mint_side_ne (Ne.symm hy))
        rw [if_neg (hw.vault_ne hy), if_neg (Ne.symm hne), if_neg hy, Nat.sub_zero]

/-- **Minting LP** grows the supply, and touches no vault. -/
theorem mintLp_eq_ok {program dst : Pubkey} {signed : Bool} (hw : Wired rt led accs.pool p)
    (h : mintToChecked rt led program p.lpMint dst accs.pool signed amount decimals = .ok led') :
    TokenMove rt accs.pool led led' ∧ (∀ y, led'.balance (p.vault y) = led.balance (p.vault y)) ∧
      led'.mintSupply p.lpMint = led.mintSupply p.lpMint + amount := by
  obtain ⟨htok, hcred, ⟨o, m, hm, hauth⟩, hbal, hsup⟩ := mintToChecked_eq_ok h
  refine ⟨⟨htok, .of_tokenOnly htok (fun k o t _ _ _ _ => ?_) fun k o' m' hk hP => ?_⟩,
    fun y => ?_, by rw [hsup, if_pos rfl]⟩
  · rw [hbal]
    split <;> omega
  · have hne : k ≠ p.lpMint := by
      rintro rfl
      rw [hm] at hk
      cases hk
      exact hP hauth
    rw [hsup, if_neg hne]
  · have hne := hw.vault_ne_of_credited hcred (Ne.symm (hw.lpMint_ne y))
    rw [hbal, if_neg (Ne.symm hne)]

/-- **Burning LP** shrinks the supply, and touches no vault. -/
theorem burnLp_eq_ok {program src : Pubkey} {signed : Bool} (hw : Wired rt led accs.pool p)
    (huser : ¬ rt.IsPda accs.user)
    (h : burnChecked rt led program src p.lpMint accs.user signed amount decimals = .ok led') :
    TokenMove rt accs.pool led led' ∧ (∀ y, led'.balance (p.vault y) = led.balance (p.vault y)) ∧
      led'.mintSupply p.lpMint = led.mintSupply p.lpMint - amount := by
  obtain ⟨htok, hdeb, hbal, hsup⟩ := burnChecked_eq_ok h
  refine ⟨⟨htok, .of_tokenOnly htok (fun k o t hk hpda hdel _ => ?_) fun k o m hk hP => ?_⟩,
    fun y => ?_, by rw [hsup, if_pos rfl]⟩
  · rw [hbal, if_neg (hdeb.guarded huser hk hpda hdel)]
  · have hne : k ≠ p.lpMint := by
      rintro rfl
      obtain ⟨_, m', hk', hauth⟩ := hw.lpMint
      rw [hk] at hk'
      cases hk'
      exact hP hauth
    rw [hsup, if_neg hne]
  · have hne := hw.vault_ne_of_debited huser hdeb y
    rw [hbal, if_neg (Ne.symm hne)]

/-! ### What token movements leave alone -/

section TokenOnly

variable {P k : Pubkey} {d : AccountData}

theorem TokenOnly.hasPool (h : TokenOnly led led') (hp : led.HasPool rt P p) :
    led'.HasPool rt P p := by
  refine ⟨?_, hp.2⟩
  rw [h.eq_of_plain (by rw [hp.1]; trivial), hp.1]

theorem TokenOnly.accts_eq (h : TokenOnly led led') {a : Account} (hk : led.accts k = a)
    (hplain : a.data.Plain) : led'.accts k = a := by
  rw [h.eq_of_plain (by rwa [hk]), hk]

theorem TokenOnly.openLoan (h : TokenOnly led led') : led'.openLoan rt P = led.openLoan rt P := by
  funext k
  have hs := h.accts k
  unfold Ledger.openLoan
  generalize led.accts k = a at hs ⊢
  generalize led'.accts k = b at hs ⊢
  cases hs <;> rfl

theorem TokenOnly.bandCount (h : TokenOnly led led') :
    led'.bandCount rt P = led.bandCount rt P := by
  funext d b
  have hs := h.accts (bandKey rt P d b)
  unfold Ledger.bandCount
  generalize led.accts (bandKey rt P d b) = a at hs ⊢
  generalize led'.accts (bandKey rt P d b) = b' at hs ⊢
  cases hs <;> rfl

/-- Rewriting the pool's own record changes neither loans nor bands. -/
theorem setPool_openLoan (hp : led.HasPool rt P p) :
    (led.setData P (.pool q)).openLoan rt P = led.openLoan rt P := by
  funext k
  by_cases hk : k = P
  · subst hk
    unfold Ledger.openLoan
    rw [setData_accts_self, hp.1]
    rfl
  · exact openLoan_congr (setData_accts_of_ne hk)

theorem setPool_bandCount (hp : led.HasPool rt P p) :
    (led.setData P (.pool q)).bandCount rt P = led.bandCount rt P := by
  funext d b
  by_cases hk : bandKey rt P d b = P
  · unfold Ledger.bandCount
    rw [hk, setData_accts_self, hp.1]
    rfl
  · exact bandCount_congr (setData_accts_of_ne hk)

/-- The pool as it stands after its record has been rewritten. -/
theorem setPool_hasPool (hp : led.HasPool rt P p) (hinit : q.isInitialized = true) :
    (led.setData P (.pool q)).HasPool rt P q :=
  ⟨by rw [setData_accts_self, hp.1], hinit⟩

theorem setPool_touched (hp : led.HasPool rt P p) :
    Touched rt P led (led.setData P (.pool q)) :=
  .setData hp.1 (fun _ => rfl) fun _ => rfl

theorem setPool_balance (hp : led.HasPool rt P p) :
    (led.setData P (.pool q)).balance = led.balance :=
  balance_setData (by rw [hp.1]; trivial) trivial

theorem setPool_mintSupply (hp : led.HasPool rt P p) :
    (led.setData P (.pool q)).mintSupply = led.mintSupply :=
  mintSupply_setData (by rw [hp.1]; trivial) trivial

end TokenOnly

end ChiefLiquidity
