import ChiefLiquidity.Refinement.Opening

/-!
# A new pool

`InitializePool` creates a pool whose accounts are wired and whose market is valid, with no open
loans at all. That there are none rests on the filing: a loan or a band left over from an earlier
life of the address would be a record that belongs to no pool.

## A clean start

All four addresses must be unused, which is checked for each before anything is written to it. What
an unused address cannot exclude are records elsewhere that name the new pool: a loan or a band of
the same address from an earlier life. There are none, because every live record belongs to a pool
that exists, and a pool is never closed. So the market of the new pool has no loans and no counts,
its bitmaps are empty, and it is valid.

## Vaults

A vault is a token account of the pool's mint that the pool owns, without a delegate. The token
program leaves it that way, and nobody but the pool can sign for it.

## Main results

* `createVault_eq_ok`, `createLpMint_eq_ok`
* `Market.valid_of_new` — a market without loans and with the standard terms is valid
* `processInitializePool_creates`
-/

namespace ChiefLiquidity

open Ledger Market

variable {rt : Runtime} {led led' : Ledger} {P k program mint : Pubkey} {p : Pool}
  {events : List Event}

/-- An LP mint as it is created. -/
def freshLpMint (authority : Pubkey) : Mint where
  mintAuthority := some authority
  supply := 0
  decimals := lpMintDecimals
  extensions := []
  closeAuthority := none
  supply_lt := zero_lt_word

theorem setData_setAccount {a : Account} {d : AccountData} :
    (led.setAccount k a).setData k d = led.setAccount k ⟨a.owner, d⟩ := by
  simp [setData, setAccount]

theorem createVault_eq_ok (h : createVault rt led program P mint k = .ok led') :
    led.accts k = .unused ∧ (∃ m, led.accts mint = ⟨program, .mint m⟩) ∧
      ∃ isFrozen, led' = led.setAccount k ⟨program, .token (.opened mint P isFrozen)⟩ := by
  simp only [createVault, Checked.bind_eq_ok, createPdaAccount_eq_ok] at h
  obtain ⟨_, ⟨hunused, rfl⟩, hinit⟩ := h
  cases rt.tokens.effect hinit with
  | @initializeAccount _ _ _ m isFrozen _ hm =>
    refine ⟨hunused, ⟨m, ?_⟩, isFrozen, ?_⟩
    · by_cases hk : mint = k
      · rw [hk, setAccount_accts_self] at hm
        cases hm
      · rwa [setAccount_accts_of_ne hk] at hm
    · rw [setToken, setData_setAccount]

theorem createLpMint_eq_ok (h : createLpMint rt led program P k = .ok led') :
    led.accts k = .unused ∧ led' = led.setAccount k ⟨program, .mint (freshLpMint P)⟩ := by
  simp only [createLpMint, Checked.bind_eq_ok, createPdaAccount_eq_ok] at h
  obtain ⟨_, ⟨hunused, rfl⟩, hinit⟩ := h
  cases rt.tokens.effect hinit with
  | initializeMint => exact ⟨hunused, setData_setAccount⟩

/-- **A market without loans** whose totals are all zero is valid. -/
theorem Market.valid_of_new {m : Market} (hterms : StandardTerms m.pool)
    (hcollateral : ∀ x, m.pool.collateral x = 0) (hdebt : ∀ x, m.pool.debt x = 0)
    (hfees : ∀ x, m.pool.fees x = 0) (hopen : m.pool.openLoans = 0)
    (hbits : ∀ d, m.pool.bitmapOf d = fun _ => 0) (hloans : ∀ k, m.loans k = none)
    (hbands : ∀ d b, m.bands d b = none) : m.Valid ∅ where
  terms := hterms
  solvent x := by simp [hcollateral, hfees]
  booked := by
    refine ⟨fun k => by simp [hloans], fun s => ?_, fun s => ?_, by simp [hopen]⟩
    · rw [hcollateral, KeyedSum.total_empty]
    · rw [hdebt, KeyedSum.total_empty]
  indexed := by
    refine ⟨fun k l hk => ?_, fun k l hk => ?_, fun d b => ?_, fun d b n hn => ?_,
      fun d b hpos => ?_⟩
    · simp [hloans] at hk
    · simp [hloans] at hk
    · rw [hbits, bitmapIsSet_zero, members, KeyedSum.total_empty]
      simp
    · simp [hbands] at hn
    · simp [members] at hpos

/-- The token programs are not this program. -/
theorem programId_ne_of_validate {u : Unit}
    (h : validateTokenProgramForMint rt led program mint = .ok u) : program ≠ rt.programId := by
  obtain ⟨hvalid, -⟩ := require_eq_ok.mp h
  obtain ⟨h2022, hspl⟩ := rt.programId_ne_token
  rintro rfl
  rcases (decide_eq_true_eq.mp hvalid : _ ∨ _) with h | h
  · exact h2022 h
  · exact hspl h

/-- Before a pool exists, nothing is filed under it. -/
theorem Filed.no_loans (hfiled : Filed rt led) (hno : ∀ q, ¬ led.HasPool rt P q) (k : Pubkey) :
    led.openLoan rt P k = none := by
  refine openLoan_eq_none fun l hk hinit _ hpool => ?_
  obtain ⟨-, q, hq⟩ := hfiled.loan k l hk hinit
  exact hno q (hpool ▸ hq)

theorem Filed.no_bands (hfiled : Filed rt led) (hno : ∀ q, ¬ led.HasPool rt P q) (d b : ℕ) :
    led.bandCount rt P d b = none := by
  rw [Option.eq_none_iff_forall_ne_some]
  intro n hn
  obtain ⟨x, hk, hinit, hpool, -⟩ := bandCount_eq_some.mp hn
  obtain ⟨-, q, hq⟩ := hfiled.band _ x hk hinit
  exact hno q (hpool ▸ hq)

/-- An account that is in use is not one that is about to be created. -/
theorem ne_of_unused {a : Account} {j : Pubkey} (hk : led.accts k = .unused)
    (hj : led.accts j = a) (ha : a.data ≠ .empty) : j ≠ k := by
  rintro rfl
  exact ha (by rw [← hj, hk]; rfl)

/-- Creating an account leaves those in use alone. -/
theorem setAccount_of_unused {a c : Account} {j : Pubkey} (hk : led.accts k = .unused)
    (hj : led.accts j = a) (ha : a.data ≠ .empty) : (led.setAccount k c).accts j = a := by
  rw [setAccount_accts_of_ne (ne_of_unused hk hj ha), hj]

/-- Creating an account that is neither a loan nor a band does not show in the view of a pool. -/
theorem view_of_unused (rt : Runtime) (P : Pubkey) {a : Account} (hk : led.accts k = .unused)
    (hloan : a.openLoan rt P = none) (hband : ∀ d b, a.bandCount rt P d b = none) :
    (led.setAccount k a).openLoan rt P = led.openLoan rt P ∧
      (led.setAccount k a).bandCount rt P = led.bandCount rt P :=
  ⟨openLoan_setAccount_of_eq (by rw [hk, hloan]; rfl),
    bandCount_setAccount_of_eq fun d b => by rw [hk, hband]; rfl⟩

/-- The ledger `led'` once the four accounts of a pool have been created in `led`. -/
structure Created (rt : Runtime) (accs : InitializeAccounts) (led led' : Ledger) : Prop where
  unused : led.accts accs.pool = .unused
  pool : led'.accts accs.pool = ⟨rt.programId, .pool Pool.zeroed⟩
  vaultA : ∃ isFrozen, led'.accts accs.vaultA =
    ⟨accs.tokenProgramA, .token (.opened accs.mintA accs.pool isFrozen)⟩
  vaultB : ∃ isFrozen, led'.accts accs.vaultB =
    ⟨accs.tokenProgramB, .token (.opened accs.mintB accs.pool isFrozen)⟩
  lpMint : led'.accts accs.lpMint = ⟨accs.tokenProgramA, .mint (freshLpMint accs.pool)⟩
  /-- The mints were there before the LP mint was. -/
  mint_ne : accs.mintA ≠ accs.lpMint ∧ accs.mintB ≠ accs.lpMint
  touched : Touched rt accs.pool led led'
  openLoan : led'.openLoan rt accs.pool = led.openLoan rt accs.pool
  bandCount : led'.bandCount rt accs.pool = led.bandCount rt accs.pool

/-- **The creation of the four accounts.** Each is unused until its turn, so none of them is one of
the others. -/
theorem created_of_ok {accs : InitializeAccounts} {l₁ l₂ l₃ l₄ : Ledger}
    (hpda : rt.IsPda accs.pool ∧ rt.IsPda accs.vaultA ∧ rt.IsPda accs.vaultB ∧
      rt.IsPda accs.lpMint)
    (hA : accs.tokenProgramA ≠ rt.programId) (hB : accs.tokenProgramB ≠ rt.programId)
    (h₁ : createPdaAccount led accs.pool (.pool Pool.zeroed) rt.programId = .ok l₁)
    (h₂ : createVault rt l₁ accs.tokenProgramA accs.pool accs.mintA accs.vaultA = .ok l₂)
    (h₃ : createVault rt l₂ accs.tokenProgramB accs.pool accs.mintB accs.vaultB = .ok l₃)
    (h₄ : createLpMint rt l₃ accs.tokenProgramA accs.pool accs.lpMint = .ok l₄) :
    Created rt accs led l₄ := by
  obtain ⟨hunP, hl₁⟩ := createPdaAccount_eq_ok.mp h₁
  obtain ⟨hunA, ⟨mA, hmA⟩, frozenA, hl₂⟩ := createVault_eq_ok h₂
  obtain ⟨hunB, ⟨mB, hmB⟩, frozenB, hl₃⟩ := createVault_eq_ok h₃
  obtain ⟨hunL, hl₄⟩ := createLpMint_eq_ok h₄
  have hP₁ : l₁.accts accs.pool = ⟨rt.programId, .pool Pool.zeroed⟩ := by
    rw [hl₁, setAccount_accts_self]
  have hP₂ : l₂.accts accs.pool = ⟨rt.programId, .pool Pool.zeroed⟩ := by
    rw [hl₂, setAccount_of_unused hunA hP₁ (by simp)]
  have hA₂ : l₂.accts accs.vaultA =
      ⟨accs.tokenProgramA, .token (.opened accs.mintA accs.pool frozenA)⟩ := by
    rw [hl₂, setAccount_accts_self]
  have hmA₂ : l₂.accts accs.mintA = ⟨accs.tokenProgramA, .mint mA⟩ := by
    rw [hl₂, setAccount_of_unused hunA hmA (by simp)]
  have hP₃ : l₃.accts accs.pool = ⟨rt.programId, .pool Pool.zeroed⟩ := by
    rw [hl₃, setAccount_of_unused hunB hP₂ (by simp)]
  have hA₃ : l₃.accts accs.vaultA =
      ⟨accs.tokenProgramA, .token (.opened accs.mintA accs.pool frozenA)⟩ := by
    rw [hl₃, setAccount_of_unused hunB hA₂ (by simp)]
  have hB₃ : l₃.accts accs.vaultB =
      ⟨accs.tokenProgramB, .token (.opened accs.mintB accs.pool frozenB)⟩ := by
    rw [hl₃, setAccount_accts_self]
  have hmA₃ : l₃.accts accs.mintA = ⟨accs.tokenProgramA, .mint mA⟩ := by
    rw [hl₃, setAccount_of_unused hunB hmA₂ (by simp)]
  have hmB₃ : l₃.accts accs.mintB = ⟨accs.tokenProgramB, .mint mB⟩ := by
    rw [hl₃, setAccount_of_unused hunB hmB (by simp)]
  obtain ⟨hloans₁, hbands₁⟩ := view_of_unused rt accs.pool
    (a := ⟨rt.programId, .pool Pool.zeroed⟩) hunP rfl fun _ _ => rfl
  obtain ⟨hloans₂, hbands₂⟩ := view_of_unused rt accs.pool
    (a := ⟨accs.tokenProgramA, .token (.opened accs.mintA accs.pool frozenA)⟩) hunA rfl
    fun _ _ => rfl
  obtain ⟨hloans₃, hbands₃⟩ := view_of_unused rt accs.pool
    (a := ⟨accs.tokenProgramB, .token (.opened accs.mintB accs.pool frozenB)⟩) hunB rfl
    fun _ _ => rfl
  obtain ⟨hloans₄, hbands₄⟩ := view_of_unused rt accs.pool
    (a := ⟨accs.tokenProgramA, .mint (freshLpMint accs.pool)⟩) hunL rfl fun _ _ => rfl
  have htouched₁ : Touched rt accs.pool led l₁ :=
    hl₁ ▸ .setAccount hunP hpda.1 ⟨rfl, fun _ => rfl⟩
  have htouched₂ : Touched rt accs.pool l₁ l₂ := hl₂ ▸ .setAccount hunA hpda.2.1 ⟨rfl, hA⟩
  have htouched₃ : Touched rt accs.pool l₂ l₃ := hl₃ ▸ .setAccount hunB hpda.2.2.1 ⟨rfl, hB⟩
  have htouched₄ : Touched rt accs.pool l₃ l₄ := hl₄ ▸ .setAccount hunL hpda.2.2.2 ⟨rfl, hA⟩
  refine ⟨hunP, ?_, ?_, ?_, ?_, ⟨ne_of_unused hunL hmA₃ (by simp),
    ne_of_unused hunL hmB₃ (by simp)⟩,
    ((htouched₁.trans htouched₂).trans htouched₃).trans htouched₄, ?_, ?_⟩
  · rw [hl₄, setAccount_of_unused hunL hP₃ (by simp)]
  · exact ⟨frozenA, by rw [hl₄, setAccount_of_unused hunL hA₃ (by simp)]⟩
  · exact ⟨frozenB, by rw [hl₄, setAccount_of_unused hunL hB₃ (by simp)]⟩
  · rw [hl₄, setAccount_accts_self]
  · rw [hl₄, hloans₄, hl₃, hloans₃, hl₂, hloans₂, hl₁, hloans₁]
  · rw [hl₄, hbands₄, hl₃, hbands₃, hl₂, hbands₂, hl₁, hbands₁]

/-- **InitializePool creates a wired pool with a new market.** -/
theorem processInitializePool_creates {accs : InitializeAccounts} (hfiled : Filed rt led)
    (h : processInitializePool rt accs led = .ok (led', events)) :
    (∀ q, ¬ led.HasPool rt accs.pool q) ∧ ∃ p, led'.HasPool rt accs.pool p ∧
      Wired rt led' accs.pool p ∧ Touched rt accs.pool led led' ∧
      (led'.market rt accs.pool p).New := by
  simp only [processInitializePool, Checked.bind_eq_ok, require_eq_ok, exists_const,
    Checked.pure_eq_ok, Prod.mk.injEq] at h
  obtain ⟨-, _, hvA, _, hvB, hne, -, _, -, _, -, hP, hA, hB, hL, -, l₁, h₁, l₂, h₂, l₃, h₃, l₄, h₄,
    rfl, -⟩ := h
  have hc := created_of_ok ⟨⟨_, hP.symm⟩, ⟨_, hA.symm⟩, ⟨_, hB.symm⟩, ⟨_, hL.symm⟩⟩
    (programId_ne_of_validate hvA) (programId_ne_of_validate hvB) h₁ h₂ h₃ h₄
  obtain ⟨frozenA, hcA⟩ := hc.vaultA
  obtain ⟨frozenB, hcB⟩ := hc.vaultB
  have hne_pool : ∀ {k : Pubkey} {a : Account}, l₄.accts k = a → (∀ q, a.data ≠ .pool q) →
      k ≠ accs.pool := by
    rintro k a hk ha rfl
    exact ha Pool.zeroed (by rw [← hk, hc.pool])
  have hno : ∀ q, ¬ led.HasPool rt accs.pool q := fun q hq => by
    rw [HasPool, hc.unused] at hq
    simp [Account.unused] at hq
  set p := newPool accs (rt.findProgramAddress (.pool accs.mintA accs.mintB)).2
    (rt.findProgramAddress (.vaultA accs.pool)).2 (rt.findProgramAddress (.vaultB accs.pool)).2
    (rt.findProgramAddress (.lpMint accs.pool)).2 l₄.slot
  refine ⟨hno, p, ⟨by rw [setData_accts_self, hc.pool], rfl⟩, ?_, ?_, ?_⟩
  · refine ⟨Prod.ext hP.symm rfl, hne, fun x => ?_, fun x => ?_, ⟨_, hL.symm⟩,
      ⟨accs.tokenProgramA, freshLpMint accs.pool,
        (setData_accts_of_ne (hne_pool hc.lpMint (by simp))).trans hc.lpMint, rfl⟩, fun x => ?_,
      fun x => ?_, ?_⟩
    · cases x
      · exact ⟨_, hA.symm⟩
      · exact ⟨_, hB.symm⟩
    · cases x
      · exact ⟨accs.tokenProgramA, .opened accs.mintA accs.pool frozenA,
          (setData_accts_of_ne (hne_pool hcA (by simp))).trans hcA, rfl, rfl, rfl⟩
      · exact ⟨accs.tokenProgramB, .opened accs.mintB accs.pool frozenB,
          (setData_accts_of_ne (hne_pool hcB (by simp))).trans hcB, rfl, rfl, rfl⟩
    · cases x
      · exact hc.mint_ne.1
      · exact hc.mint_ne.2
    · cases x
      · change ((l₄.setData _ _).accts accs.vaultA).owner ≠ _
        rw [setData_accts_of_ne (hne_pool hcA (by simp)), hcA]
        exact programId_ne_of_validate hvA
      · change ((l₄.setData _ _).accts accs.vaultB).owner ≠ _
        rw [setData_accts_of_ne (hne_pool hcB (by simp)), hcB]
        exact programId_ne_of_validate hvB
    · change ((l₄.setData _ _).accts accs.lpMint).owner ≠ _
      rw [setData_accts_of_ne (hne_pool hc.lpMint (by simp)), hc.lpMint]
      exact programId_ne_of_validate hvA
  · exact hc.touched.trans (.setData hc.pool (fun _ => rfl) fun _ => rfl)
  · have hfees : ∀ x, p.fees x = 0 := fun x => by cases x <;> rfl
    refine ⟨valid_of_new ⟨rfl, rfl, rfl, rfl, rfl, rfl, rfl, rfl⟩ (fun x => ?_) (fun x => ?_)
      hfees rfl (fun d => ?_) (fun k => ?_) fun d b => ?_, fun x => ?_, rfl, rfl, hfees, ?_⟩
    · cases x <;> rfl
    · cases x <;> rfl
    · cases d <;> rfl
    · change (l₄.setData accs.pool (.pool p)).openLoan rt accs.pool k = none
      rw [setData, openLoan_setAccount_of_eq (by rw [hc.pool]; rfl), hc.openLoan]
      exact hfiled.no_loans hno k
    · change (l₄.setData accs.pool (.pool p)).bandCount rt accs.pool d b = none
      rw [setData, bandCount_setAccount_of_eq fun _ _ => by rw [hc.pool]; rfl, hc.bandCount]
      exact hfiled.no_bands hno d b
    · cases x <;> rfl
    · have hL := (setData_accts_of_ne (d := .pool p) (hne_pool hc.lpMint (by simp))).trans hc.lpMint
      exact mintSupply_of_data (congrArg Account.data hL)

end ChiefLiquidity
