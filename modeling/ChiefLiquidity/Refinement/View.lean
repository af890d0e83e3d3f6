import ChiefLiquidity.Refinement.Tokens

/-!
# Pools in the ledger

How a pool shows in the ledger, and what an instruction about one pool leaves alone. An instruction
about the pool `P` touches only records of `P`, tokens `P` owns or the user controls, and tokens
and supplies of others in the direction that cannot hurt them. So every other pool drifts.

## Addresses are not assumed to be injective

That different seeds have different addresses is not part of the runtime. The program does not rely
on it either: it checks the contents of what it finds at a derived address. So the view is defined
by contents as well. An open loan of a pool is a live open loan record that names the pool, wherever
it is; a band count is taken from the record at the band's address if that record names the pool,
the direction and the id.

## Touching

`Touch` lists what an instruction about one pool may do to an account. For another pool each case is
harmless. Its records are left alone, since they name it; the tokens in its vaults may only grow,
since nobody can sign for them; the supply of its LP mint stays, since its mint authority does not
sign.

## Main definitions

* `Ledger.HasPool`, `Ledger.openLoan`, `Ledger.bandCount`, `Ledger.market` — the view of a pool
* `Wired` — a pool's accounts are where and what they should be
* `Filed` — every record of the program belongs to a pool and sits at its own address
* `Touched` — everything an instruction about one pool may do to the accounts

## Main results

* `Touched.drift` — the pools an instruction is not about drift
* `Wired.touched`, `Filed.touched` — the wiring and the filing survive
-/

namespace ChiefLiquidity

/-- The open loan of the pool `P` that an account holds. -/
def Account.openLoan (rt : Runtime) (P : Pubkey) : Account → Option Loan
  | ⟨o, .loan l⟩ =>
    if o = rt.programId ∧ l.isInitialized ∧ l.isOpen ∧ l.pool = P then some l else none
  | _ => none

/-- The count in an account that holds this band of the pool `P`. -/
def Account.bandCount (rt : Runtime) (P : Pubkey) (direction bandId : ℕ) : Account → Option ℕ
  | ⟨o, .band b⟩ =>
    if o = rt.programId ∧ b.isInitialized ∧ b.pool = P ∧ b.direction = direction ∧
      b.bandId = bandId then some b.count else none
  | _ => none

namespace Ledger

/-- `p` is the state of the pool at `P`. -/
def HasPool (rt : Runtime) (led : Ledger) (P : Pubkey) (p : Pool) : Prop :=
  led.accts P = ⟨rt.programId, .pool p⟩ ∧ p.isInitialized = true

/-- The open loan of the pool `P` at the address `k`, if there is one. -/
def openLoan (rt : Runtime) (led : Ledger) (P k : Pubkey) : Option Loan :=
  (led.accts k).openLoan rt P

/-- The address of a band account. -/
def bandKey (rt : Runtime) (P : Pubkey) (direction bandId : ℕ) : Pubkey :=
  (rt.findProgramAddress (.band P direction bandId)).1

/-- The count of a band account of the pool `P`, if it exists. -/
def bandCount (rt : Runtime) (led : Ledger) (P : Pubkey) (direction bandId : ℕ) : Option ℕ :=
  (led.accts (bandKey rt P direction bandId)).bandCount rt P direction bandId

/-- The pool `P` with state `p` as a market. -/
def market (rt : Runtime) (led : Ledger) (P : Pubkey) (p : Pool) : Market where
  pool := p
  real x := led.balance (p.vault x)
  supply := led.mintSupply p.lpMint
  loans := led.openLoan rt P
  bands := led.bandCount rt P
  slot := led.slot

/-- The accounted reserves of a pool, as the program computes them from its vaults. -/
def accounted (led : Ledger) (p : Pool) : Result (ℕ × ℕ) :=
  p.accounted (led.balance p.vaultA) (led.balance p.vaultB)

variable {rt : Runtime} {led led' : Ledger} {P k : Pubkey} {p q : Pool} {l : Loan} {d b n : ℕ}

theorem market_real (x : Side) : (led.market rt P p).real x = led.balance (p.vault x) := rfl

theorem market_supply : (led.market rt P p).supply = led.mintSupply p.lpMint := rfl

theorem market_bands (d b : ℕ) : (led.market rt P p).bands d b = led.bandCount rt P d b := rfl

theorem openLoan_eq_some :
    led.openLoan rt P k = some l ↔
      led.accts k = ⟨rt.programId, .loan l⟩ ∧ l.isInitialized = true ∧ l.isOpen = true ∧
        l.pool = P := by
  rw [openLoan]
  rcases led.accts k with ⟨o, d⟩
  cases d <;> simp [Account.openLoan]
  aesop

theorem bandCount_eq_some :
    led.bandCount rt P d b = some n ↔
      ∃ x : LoanIndexBand, led.accts (bandKey rt P d b) = ⟨rt.programId, .band x⟩ ∧
        x.isInitialized = true ∧ x.pool = P ∧ x.direction = d ∧ x.bandId = b ∧ x.count = n := by
  unfold bandCount
  rcases led.accts (bandKey rt P d b) with ⟨o, d⟩
  cases d <;> simp [Account.bandCount]
  aesop

theorem HasPool.unique (h : led.HasPool rt P p) (h' : led.HasPool rt P q) : p = q := by
  have := h.1.symm.trans h'.1
  simpa using this

theorem openLoan_congr (h : led'.accts k = led.accts k) :
    led'.openLoan rt P k = led.openLoan rt P k := by
  unfold openLoan
  rw [h]

theorem bandCount_congr (h : led'.accts (bandKey rt P d b) = led.accts (bandKey rt P d b)) :
    led'.bandCount rt P d b = led.bandCount rt P d b := by
  unfold bandCount
  rw [h]

/-- An address that holds no live loan of the pool is no open loan of it. -/
theorem openLoan_eq_none (h : ∀ l, led.accts k = ⟨rt.programId, .loan l⟩ →
    l.isInitialized = true → l.isOpen = true → l.pool ≠ P) : led.openLoan rt P k = none := by
  rw [Option.eq_none_iff_forall_ne_some]
  intro l hl
  obtain ⟨hk, hinit, hopen, hpool⟩ := openLoan_eq_some.mp hl
  exact h l hk hinit hopen hpool

end Ledger

open Ledger

/-- The accounts of a pool: its own address, its vaults, and its LP mint. -/
structure Wired (rt : Runtime) (led : Ledger) (P : Pubkey) (p : Pool) : Prop where
  key : rt.findProgramAddress (.pool p.mintA p.mintB) = (P, p.poolBump)
  mint_ne : p.mintA ≠ p.mintB
  vault_pda : ∀ x, rt.IsPda (p.vault x)
  vault : ∀ x, ∃ o t, led.accts (p.vault x) = ⟨o, .token t⟩ ∧ t.mint = p.mint x ∧ t.owner = P ∧
    t.delegate = none
  lpMint_pda : rt.IsPda p.lpMint
  lpMint : ∃ o m, led.accts p.lpMint = ⟨o, .mint m⟩ ∧ m.mintAuthority = some P
  lpMint_ne : ∀ x, p.mint x ≠ p.lpMint
  vault_owner : ∀ x, (led.accts (p.vault x)).owner ≠ rt.programId
  lpMint_owner : (led.accts p.lpMint).owner ≠ rt.programId

/-- Every pool is wired, and every live record is at its own address and belongs to a pool. -/
structure Filed (rt : Runtime) (led : Ledger) : Prop where
  wired : ∀ P p, led.HasPool rt P p → Wired rt led P p
  loan : ∀ k l, led.accts k = ⟨rt.programId, .loan l⟩ → l.isInitialized = true →
    rt.IsPda k ∧ ∃ p, led.HasPool rt l.pool p
  band : ∀ k b, led.accts k = ⟨rt.programId, .band b⟩ → b.isInitialized = true →
    rt.findProgramAddress (.band b.pool b.direction b.bandId) = (k, b.bump) ∧
      ∃ p, led.HasPool rt b.pool p
  /-- Nobody else can put a record at an address of the program. -/
  owned : ∀ k o d, rt.IsPda k → led.accts k = ⟨o, d⟩ → d.Plain → d ≠ .empty → o = rt.programId

/-! ### Touching accounts -/

/-- Data of a record that, when it is live, is one of the pool `P` and fits the address `k`. -/
def AccountData.RecordOf (rt : Runtime) (P k : Pubkey) : AccountData → Prop
  | .pool p => p.isInitialized = true → k = P
  | .loan l => l.isInitialized = true → l.pool = P ∧ rt.IsPda k
  | .band b => b.isInitialized = true → b.pool = P ∧
      rt.findProgramAddress (.band P b.direction b.bandId) = (k, b.bump)
  | _ => False

/-- An account that may appear at an unused address in an instruction about the pool `P`. -/
def Account.CreatedFor (rt : Runtime) (P k : Pubkey) (a : Account) : Prop :=
  match a.data with
  | .token t => t.owner = P ∧ a.owner ≠ rt.programId
  | .mint m => m.mintAuthority = some P ∧ a.owner ≠ rt.programId
  | d => a.owner = rt.programId ∧ d.RecordOf rt P k

/-- What an instruction about the pool `P` may do to the account at `k`. -/
inductive Touch (rt : Runtime) (P k : Pubkey) : Account → Account → Prop where
  | same (a) : Touch rt P k a a
  | token {o t t'} : t.Keeps t' →
      (rt.IsPda t.owner → t.delegate = none → t.owner ≠ P → t.amount ≤ t'.amount) →
      Touch rt P k ⟨o, .token t⟩ ⟨o, .token t'⟩
  | mint {o m m'} : m'.mintAuthority = m.mintAuthority →
      (m.mintAuthority ≠ some P → m'.supply = m.supply) →
      Touch rt P k ⟨o, .mint m⟩ ⟨o, .mint m'⟩
  | record {d d'} : d.RecordOf rt P k → d'.RecordOf rt P k →
      Touch rt P k ⟨rt.programId, d⟩ ⟨rt.programId, d'⟩
  | create {a} : rt.IsPda k → a.CreatedFor rt P k → Touch rt P k .unused a

theorem Touch.trans {rt : Runtime} {P k : Pubkey} {a b c : Account} (h : Touch rt P k a b)
    (h' : Touch rt P k b c) : Touch rt P k a c := by
  cases h with
  | same => exact h'
  | token hkeep hle =>
    cases h' with
    | same => exact .token hkeep hle
    | token hkeep' hle' =>
      refine .token (hkeep.trans hkeep') fun hp hd hP => ?_
      exact (hle hp hd hP).trans
        (hle' (hkeep.owner ▸ hp) (hkeep.delegate_none hd) (hkeep.owner ▸ hP))
    | record hd => exact hd.elim
  | mint h₁ h₂ =>
    cases h' with
    | same => exact .mint h₁ h₂
    | mint h₁' h₂' =>
      exact .mint (h₁'.trans h₁) fun hP => (h₂' (h₁ ▸ hP)).trans (h₂ hP)
    | record hd => exact hd.elim
  | @record d d' hd hd' =>
    generalize hb : (⟨rt.programId, d'⟩ : Account) = b at h'
    cases h' with
    | same => exact hb ▸ .record hd hd'
    | token => cases hb; exact hd'.elim
    | mint => cases hb; exact hd'.elim
    | record _ hd'' => exact .record hd hd''
    | create => exact absurd (congrArg Account.owner hb) rt.programId_ne_system
  | create hk ha =>
    cases h' with
    | same => exact .create hk ha
    | token hkeep => exact .create hk ⟨hkeep.owner.trans ha.1, ha.2⟩
    | mint h₁ => exact .create hk ⟨h₁.trans ha.1, ha.2⟩
    | @record d d' hd hd' =>
      refine .create hk ?_
      cases d' <;> first | exact hd'.elim | exact ⟨rfl, hd'⟩
    | create _ ha' => exact .create hk ha'

/-- Everything an instruction about the pool `P` may do to the accounts. -/
structure Touched (rt : Runtime) (P : Pubkey) (led led' : Ledger) : Prop where
  slot : led'.slot = led.slot
  accts : ∀ k, Touch rt P k (led.accts k) (led'.accts k)

namespace Touched

variable {rt : Runtime} {P Q k : Pubkey} {led led' led'' : Ledger} {p q : Pool}

theorem refl (led : Ledger) : Touched rt P led led := ⟨rfl, fun _ => .same _⟩

theorem trans (h : Touched rt P led led') (h' : Touched rt P led' led'') :
    Touched rt P led led'' :=
  ⟨h'.slot.trans h.slot, fun k => (h.accts k).trans (h'.accts k)⟩

/-- Rewriting a record of the pool. -/
theorem setData {d d' : AccountData} (hk : led.accts k = ⟨rt.programId, d⟩)
    (hd : d.RecordOf rt P k) (hd' : d'.RecordOf rt P k) : Touched rt P led (led.setData k d') := by
  refine ⟨rfl, fun j => ?_⟩
  by_cases hj : j = k
  · subst hj
    rw [setData_accts_self, hk]
    exact .record hd hd'
  · rw [setData_accts_of_ne hj]
    exact .same _

/-- Using an unused address of the program. -/
theorem setAccount {a : Account} (hk : led.accts k = .unused) (hpda : rt.IsPda k)
    (ha : a.CreatedFor rt P k) : Touched rt P led (led.setAccount k a) := by
  refine ⟨rfl, fun j => ?_⟩
  by_cases hj : j = k
  · subst hj
    rw [setAccount_accts_self, hk]
    exact .create hpda ha
  · rw [setAccount_accts_of_ne hj]
    exact .same _

/-- Token movements that only take from accounts the pool or a user controls, and only mint what
the pool may mint. -/
theorem of_tokenOnly (h : TokenOnly led led')
    (hbal : ∀ k o t, led.accts k = ⟨o, .token t⟩ → rt.IsPda t.owner → t.delegate = none →
      t.owner ≠ P → led.balance k ≤ led'.balance k)
    (hsup : ∀ k o m, led.accts k = ⟨o, .mint m⟩ → m.mintAuthority ≠ some P →
      led'.mintSupply k = led.mintSupply k) : Touched rt P led led' := by
  refine ⟨h.slot, fun k => ?_⟩
  have hs := h.accts k
  have hb := hbal k
  have hm := hsup k
  unfold balance at hb
  unfold mintSupply at hm
  generalize led.accts k = a at hs hb hm ⊢
  generalize led'.accts k = b at hs hb hm ⊢
  cases hs with
  | same => exact .same _
  | token hkeep => exact .token hkeep fun hp hd hP => hb _ _ rfl hp hd hP
  | mint h₁ => exact .mint h₁ fun hP => hm _ _ rfl hP

/-- An account whose data is a record of another pool is untouched. -/
theorem eq_of_not_recordOf {o : Pubkey} {d : AccountData} (h : Touched rt P led led')
    (hk : led.accts k = ⟨o, d⟩) (hplain : d.Plain) (hd : ¬ d.RecordOf rt P k)
    (hne : d ≠ .empty) : led'.accts k = led.accts k := by
  have ht := h.accts k
  rw [hk] at ht ⊢
  generalize led'.accts k = b at ht ⊢
  cases ht with
  | same => rfl
  | token => exact hplain.elim
  | mint => exact hplain.elim
  | record hd' => exact absurd hd' hd
  | create => exact absurd rfl hne

/-- A record that appears or changes is one of the pool. -/
theorem recordOf_of_ne {d : AccountData} (h : Touched rt P led led')
    (hk : led'.accts k = ⟨rt.programId, d⟩) (hplain : d.Plain)
    (hne : led'.accts k ≠ led.accts k) : d.RecordOf rt P k := by
  have ht := h.accts k
  rw [hk] at ht hne
  generalize led.accts k = a at ht hne
  cases ht with
  | same => exact absurd rfl hne
  | token => exact hplain.elim
  | mint => exact hplain.elim
  | record _ hd' => exact hd'
  | create _ ha => cases d <;> first | exact hplain.elim | exact ha.2

/-- An account that is in use keeps its owner. -/
theorem owner_eq (h : Touched rt P led led') (hk : led.accts k ≠ .unused) :
    (led'.accts k).owner = (led.accts k).owner := by
  have ht := h.accts k
  generalize led.accts k = a at ht hk
  generalize led'.accts k = b at ht
  cases ht with
  | create => exact absurd rfl hk
  | _ => rfl

theorem hasPool (h : Touched rt P led led') (hQ : Q ≠ P) (hp : led.HasPool rt Q q) :
    led'.HasPool rt Q q := by
  refine ⟨?_, hp.2⟩
  rw [h.eq_of_not_recordOf hp.1 trivial (fun hd => hQ (hd hp.2)) (by simp), hp.1]

theorem hasPool_inv (h : Touched rt P led led') (hQ : Q ≠ P) (hp : led'.HasPool rt Q q) :
    led.HasPool rt Q q := by
  by_cases heq : led'.accts Q = led.accts Q
  · exact ⟨heq ▸ hp.1, hp.2⟩
  · exact absurd (h.recordOf_of_ne hp.1 trivial heq hp.2) hQ

/-- The open loans of another pool are untouched. -/
theorem openLoan (h : Touched rt P led led') (hQ : Q ≠ P) :
    led'.openLoan rt Q = led.openLoan rt Q := by
  funext k
  ext l
  simp only [openLoan_eq_some]
  constructor
  · rintro ⟨hk, hinit, hopen, rfl⟩
    by_cases heq : led'.accts k = led.accts k
    · exact ⟨heq ▸ hk, hinit, hopen, rfl⟩
    · exact absurd (h.recordOf_of_ne hk trivial heq hinit).1 hQ
  · rintro ⟨hk, hinit, hopen, rfl⟩
    refine ⟨?_, hinit, hopen, rfl⟩
    rw [h.eq_of_not_recordOf hk trivial (fun hd => hQ (hd hinit).1) (by simp), hk]

/-- The bands of another pool are untouched. -/
theorem bandCount (h : Touched rt P led led') (hQ : Q ≠ P) :
    led'.bandCount rt Q = led.bandCount rt Q := by
  funext d b
  ext n
  simp only [bandCount_eq_some]
  constructor
  · rintro ⟨x, hk, hinit, rfl, hx⟩
    by_cases heq : led'.accts (bandKey rt x.pool d b) = led.accts (bandKey rt x.pool d b)
    · exact ⟨x, heq ▸ hk, hinit, rfl, hx⟩
    · exact absurd (h.recordOf_of_ne hk trivial heq hinit).1 hQ
  · rintro ⟨x, hk, hinit, rfl, hx⟩
    refine ⟨x, ?_, hinit, rfl, hx⟩
    rw [h.eq_of_not_recordOf hk trivial (fun hd => hQ (hd hinit).1) (by simp), hk]

end Touched

/-! ### Wiring -/

section Wiring

variable {rt : Runtime} {P Q k : Pubkey} {led led' : Ledger} {p p' q : Pool}

theorem Wired.pda (h : Wired rt led P p) : rt.IsPda P := ⟨_, congrArg Prod.fst h.key⟩

theorem Wired.balance (h : Wired rt led P p) (x : Side) :
    ∃ o t, led.accts (p.vault x) = ⟨o, .token t⟩ ∧ t.mint = p.mint x ∧ t.owner = P ∧
      t.delegate = none ∧ led.balance (p.vault x) = t.amount := by
  obtain ⟨o, t, hk, hm, ho, hd⟩ := h.vault x
  exact ⟨o, t, hk, hm, ho, hd, balance_of_data (congrArg Account.data hk)⟩

theorem Wired.mint_side_ne (h : Wired rt led P p) {x y : Side} (hxy : x ≠ y) :
    p.mint x ≠ p.mint y := by
  have := h.mint_ne
  cases x <;> cases y <;> simp_all [Pool.mint, eq_comm]

theorem Wired.vault_ne (h : Wired rt led P p) {x y : Side} (hxy : x ≠ y) :
    p.vault x ≠ p.vault y := by
  intro heq
  obtain ⟨_, t, ht, hm, -, -⟩ := h.vault x
  obtain ⟨_, t', ht', hm', -, -⟩ := h.vault y
  rw [heq, ht'] at ht
  cases ht
  exact h.mint_side_ne hxy (hm.symm.trans hm')

/-- **The wiring survives** an instruction about any pool, as long as the terms do. -/
theorem Wired.touched (h : Wired rt led P p) (ht : Touched rt Q led led')
    (hterms : p'.terms = p.terms) : Wired rt led' P p' where
  key := by
    have hA : p'.mintA = p.mintA := Pool.mint_of_terms hterms .a
    have hB : p'.mintB = p.mintB := Pool.mint_of_terms hterms .b
    have hbump : p'.poolBump = p.poolBump :=
      (congrArg Pool.poolBump hterms : p'.terms.poolBump = p.terms.poolBump)
    rw [hA, hB, hbump]
    exact h.key
  mint_ne := by
    have hA : p'.mintA = p.mintA := Pool.mint_of_terms hterms .a
    have hB : p'.mintB = p.mintB := Pool.mint_of_terms hterms .b
    rw [hA, hB]
    exact h.mint_ne
  vault_pda x := by
    rw [Pool.vault_of_terms hterms]
    exact h.vault_pda x
  vault x := by
    obtain ⟨o, t, hk, hm, ho, hd⟩ := h.vault x
    rw [Pool.vault_of_terms hterms, Pool.mint_of_terms hterms]
    have htouch := ht.accts (p.vault x)
    rw [hk] at htouch
    generalize led'.accts (p.vault x) = a at htouch
    cases htouch with
    | same => exact ⟨o, t, rfl, hm, ho, hd⟩
    | @token _ _ t' hkeep =>
      exact ⟨o, t', rfl, hkeep.mint.trans hm, hkeep.owner.trans ho, hkeep.delegate_none hd⟩
    | record hd => exact hd.elim
  lpMint_pda := by
    have hlp := Pool.lpMint_of_terms hterms
    rw [hlp]
    exact h.lpMint_pda
  lpMint := by
    have hlp := Pool.lpMint_of_terms hterms
    obtain ⟨o, m, hk, hm⟩ := h.lpMint
    rw [hlp]
    have htouch := ht.accts p.lpMint
    rw [hk] at htouch
    generalize led'.accts p.lpMint = a at htouch
    cases htouch with
    | same => exact ⟨o, m, rfl, hm⟩
    | @mint _ _ m' h₁ => exact ⟨o, m', rfl, h₁.trans hm⟩
    | record hd => exact hd.elim
  lpMint_ne x := by
    have hlp := Pool.lpMint_of_terms hterms
    rw [hlp, Pool.mint_of_terms hterms]
    exact h.lpMint_ne x
  vault_owner x := by
    obtain ⟨o, t, hk, -, -, -⟩ := h.vault x
    rw [Pool.vault_of_terms hterms, ht.owner_eq (by rw [hk]; simp [Account.unused])]
    exact h.vault_owner x
  lpMint_owner := by
    have hlp := Pool.lpMint_of_terms hterms
    obtain ⟨o, m, hk, -⟩ := h.lpMint
    rw [hlp, ht.owner_eq (by rw [hk]; simp [Account.unused])]
    exact h.lpMint_owner

/-- The LP supply of another pool is untouched. -/
theorem Touched.mintSupply (ht : Touched rt P led led') (hQ : Q ≠ P) (hw : Wired rt led Q q) :
    led'.mintSupply q.lpMint = led.mintSupply q.lpMint := by
  obtain ⟨o, m, hk, hm⟩ := hw.lpMint
  have htouch := ht.accts q.lpMint
  have hne : m.mintAuthority ≠ some P := by
    rw [hm]
    intro h
    exact hQ (Option.some.inj h)
  unfold Ledger.mintSupply
  rw [hk] at htouch ⊢
  generalize led'.accts q.lpMint = a at htouch ⊢
  cases htouch with
  | same => rfl
  | mint _ h₂ => exact h₂ hne
  | record hd => exact hd.elim

/-- **The pools an instruction is not about drift.** -/
theorem Touched.drift (ht : Touched rt P led led') (hQ : Q ≠ P) (hw : Wired rt led Q q) :
    Market.DriftMove (led.market rt Q q) (led'.market rt Q q) where
  pool := rfl
  real x := by
    obtain ⟨o, t, hk, -, ho, hd, hbal⟩ := hw.balance x
    have htouch := ht.accts (q.vault x)
    have hpda : rt.IsPda t.owner := ho ▸ hw.pda
    have hne : t.owner ≠ P := ho ▸ hQ
    change led.balance (q.vault x) ≤ led'.balance (q.vault x)
    rw [hbal]
    rw [balance]
    rw [hk] at htouch
    generalize led'.accts (q.vault x) = a at htouch ⊢
    cases htouch with
    | same => exact le_refl _
    | token _ hle => exact hle hpda hd hne
    | record hd => exact hd.elim
  supply := (ht.mintSupply hQ hw).le
  loans := ht.openLoan hQ
  bands := ht.bandCount hQ
  slot := ht.slot.ge

/-- **The filing survives** an instruction about the pool `P` that leaves `P` a pool with the terms
it had. -/
theorem Filed.touched (h : Filed rt led) (ht : Touched rt P led led')
    (hpool : led'.HasPool rt P p') (hwired : Wired rt led' P p') : Filed rt led' where
  wired Q q hq := by
    by_cases hQ : Q = P
    · subst hQ
      exact hpool.unique hq ▸ hwired
    · exact (h.wired Q q (ht.hasPool_inv hQ hq)).touched ht rfl
  loan k l hk hinit := by
    by_cases heq : led'.accts k = led.accts k
    · obtain ⟨hpda, q, hq⟩ := h.loan k l (heq ▸ hk) hinit
      refine ⟨hpda, ?_⟩
      by_cases hQ : l.pool = P
      · exact ⟨p', hQ ▸ hpool⟩
      · exact ⟨q, ht.hasPool hQ hq⟩
    · obtain ⟨hP, hpda⟩ := ht.recordOf_of_ne hk trivial heq hinit
      exact ⟨hpda, p', hP ▸ hpool⟩
  band k b hk hinit := by
    by_cases heq : led'.accts k = led.accts k
    · obtain ⟨hkey, q, hq⟩ := h.band k b (heq ▸ hk) hinit
      refine ⟨hkey, ?_⟩
      by_cases hQ : b.pool = P
      · exact ⟨p', hQ ▸ hpool⟩
      · exact ⟨q, ht.hasPool hQ hq⟩
    · obtain ⟨hP, hkey⟩ := ht.recordOf_of_ne hk trivial heq hinit
      exact ⟨hP ▸ hkey, p', hP ▸ hpool⟩
  owned k o d hpda hk hplain hne := by
    have htouch := ht.accts k
    have hold := h.owned k (led.accts k).owner (led.accts k).data hpda rfl
    rw [hk] at htouch
    generalize led.accts k = a at htouch hold
    cases htouch with
    | same => exact hold hplain hne
    | token => exact hplain.elim
    | mint => exact hplain.elim
    | record => rfl
    | create _ ha => cases d <;> first | exact hplain.elim | exact ha.1

end Wiring

end ChiefLiquidity
