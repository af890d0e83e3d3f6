import ChiefLiquidity.Refinement.Opening

/-!
# Loans refine their moves

`OpenLoan` and `RepayLoan` make the market of their pool do a `Borrow` and a `Repay`. Both write two
records besides the pool's: the loan's own account and the count of its band.

## Three writes

A loan instruction writes the loan, the band and the pool. In the view of the pool the first is one
entry of the loan map, the second one entry of the count map, and the third the pool record. The
first two are made before the transfers when a loan is opened, and after them when it is repaid;
since transfers change no record, and records no balance, the view is the same.

## Bands

A band account may be created, revived or found. The view before is the same in the first two cases,
no count at all, and in each of the three the view after has one more than before, where nothing
counts as zero. What is left over from an earlier life of an address is zeroed, so it is not
mistaken for a band in use.

## Main results

* `allocateBand_eq_ok` — the three cases of a band account leave one and the same view
* `processOpenLoan_refines`, `processRepayLoan_refines`
-/

namespace ChiefLiquidity

open Ledger Market

variable {rt : Runtime} {led led' l₁ : Ledger} {P k : Pubkey} {p : Pool} {l : Loan}
  {x : LoanIndexBand} {events : List Event} {bands : ℕ → ℕ → Option ℕ} {d b n m bump : ℕ}

/-! ### Band accounts -/

@[simp] theorem setBandCount_setBandCount :
    setBandCount (setBandCount bands d b m) d b n = setBandCount bands d b n := by
  funext d' b'
  unfold setBandCount
  split <;> rfl

theorem setBandCount_self (h : bands d b = some n) : setBandCount bands d b n = bands := by
  funext d' b'
  rw [setBandCount]
  split
  · rename_i hband
    rw [hband.1, hband.2, h]
  · rfl

/-- The account at a key of the pool that is not used by a loan or a band shows neither. -/
theorem ne_pool_of_account {a : Account} (hp : led.HasPool rt P p) (hk : led.accts k = a)
    (ha : ∀ q, a.data ≠ .pool q) : k ≠ P := by
  rintro rfl
  exact ha p (by rw [← hk, hp.1])

/-- The band `b` of a direction is at `k`, with the count it had before, and the market is as it
was. -/
structure Allocated (rt : Runtime) (led : Ledger) (P k : Pubkey) (d b : ℕ) (x : LoanIndexBand)
    (l₁ : Ledger) : Prop where
  move : RecordMove rt P led l₁
  account : l₁.accts k = ⟨rt.programId, .band x⟩
  record : (.band x : AccountData).RecordOf rt P k
  count : x.count = (led.bandCount rt P d b).getD 0
  loans : l₁.openLoan rt P = led.openLoan rt P
  bands : l₁.bandCount rt P = setBandCount (led.bandCount rt P) d b x.count
  other : ∀ j, j ≠ k → l₁.accts j = led.accts j
  notLoan : ∀ l, led.accts k ≠ ⟨rt.programId, .loan l⟩

/-- A new band in an account that shows neither a loan nor a band. -/
theorem Allocated.fresh (hkey : rt.findProgramAddress (.band P d b) = (k, bump))
    (hmove : RecordMove rt P led
      (led.setAccount k ⟨rt.programId, .band (newBand P d b bump)⟩))
    (hloan : (led.accts k).openLoan rt P = none)
    (hband : ∀ dir id, (led.accts k).bandCount rt P dir id = none)
    (hnot : ∀ l, led.accts k ≠ ⟨rt.programId, .loan l⟩) :
    Allocated rt led P k d b (newBand P d b bump)
      (led.setAccount k ⟨rt.programId, .band (newBand P d b bump)⟩) where
  move := hmove
  account := setAccount_accts_self
  record := fun _ => ⟨rfl, hkey⟩
  count := by
    rw [Ledger.bandCount, show bandKey rt P d b = k from congrArg Prod.fst hkey, hband]
    rfl
  loans := openLoan_setAccount_of_eq (by rw [hloan]; rfl)
  bands := bandCount_setBand (congrArg Prod.fst hkey) rfl rfl fun dir id _ => hband dir id
  other _ hj := setAccount_accts_of_ne hj
  notLoan := hnot

/-- **Allocating a band.** Whether the account was unused, zeroed or live, the band is there now. -/
theorem allocateBand_eq_ok (hfiled : Filed rt led) (hp : led.HasPool rt P p)
    (hkey : rt.findProgramAddress (.band P d b) = (k, bump))
    (h : allocateBand rt led k P d b bump = .ok l₁) (hload : (l₁.accts k).data = .band x)
    (hx : x.isInitialized = true ∧ x.pool = P ∧ x.bandId = b ∧ x.direction = d) :
    Allocated rt led P k d b x l₁ := by
  have hpda : rt.IsPda k := ⟨_, congrArg Prod.fst hkey⟩
  have hkey' : bandKey rt P d b = k := congrArg Prod.fst hkey
  have hnewRecord : (.band (newBand P d b bump) : AccountData).RecordOf rt P k :=
    fun _ => ⟨rfl, hkey⟩
  rw [allocateBand] at h
  split at h
  · -- the account is created and filled in one go
    simp only [Checked.bind_eq_ok, createPdaAccount_eq_ok, Checked.pure_eq_ok] at h
    obtain ⟨_, ⟨hunused, rfl⟩, rfl⟩ := h
    have hne := ne_pool_of_account hp hunused (by simp [Account.unused])
    have hwrite : (led.setAccount k ⟨rt.programId, .band LoanIndexBand.zeroed⟩).setData k
        (.band (newBand P d b bump)) =
          led.setAccount k ⟨rt.programId, .band (newBand P d b bump)⟩ := by
      simp [setData, setAccount]
    rw [hwrite] at hload ⊢
    rw [setAccount_accts_self] at hload
    cases hload
    refine .fresh hkey (.create hunused hne hpda hnewRecord) ?_ (fun dir id => ?_)
      (by simp [hunused, Account.unused])
    · rw [hunused, Account.openLoan_unused]
    · rw [hunused, Account.bandCount_unused]
  · split at h
    · -- the account holds nothing but zero bytes
      rename_i hzeroed
      rw [isZeroedProgramAccount_iff] at hzeroed
      cases h
      have hne := ne_pool_of_account hp hzeroed (by simp)
      have hzeroRecord : (.band LoanIndexBand.zeroed : AccountData).RecordOf rt P k :=
        fun hz => absurd hz (by decide)
      have hmove := RecordMove.setData hzeroed hne hzeroRecord hnewRecord
      have hwrite : led.setData k (.band (newBand P d b bump)) =
          led.setAccount k ⟨rt.programId, .band (newBand P d b bump)⟩ := by
        rw [setData, hzeroed]
      rw [hwrite] at hmove hload ⊢
      rw [setAccount_accts_self] at hload
      cases hload
      refine .fresh hkey hmove ?_ (fun dir id => ?_) (by simp [hzeroed])
      · rw [hzeroed, Account.openLoan_band]
      · rw [hzeroed]
        simp [Account.bandCount, LoanIndexBand.isInitialized, LoanIndexBand.zeroed,
          loanIndexBandDiscriminator]
    · -- the band is there already
      cases h
      obtain ⟨hinit, rfl, rfl, rfl⟩ := hx
      have howner : (led.accts k).owner = rt.programId :=
        hfiled.owned k _ _ hpda rfl (by rw [hload]; trivial) (by rw [hload]; simp)
      have hk : led.accts k = ⟨rt.programId, .band x⟩ := by rw [← howner, ← hload]
      have hcount : led.bandCount rt x.pool x.direction x.bandId = some x.count := by
        rw [Ledger.bandCount, hkey', hk]
        simp [Account.bandCount, hinit]
      exact
        { move := .refl led
          account := hk
          record := fun _ => ⟨rfl, (hfiled.band k x hk hinit).1⟩
          count := by rw [hcount]; rfl
          loans := rfl
          bands := (setBandCount_self hcount).symm
          other := fun _ _ => rfl
          notLoan := by simp [hk] }

/-- Writing the count of a live band. -/
theorem setCount_eq (hk : led.accts k = ⟨rt.programId, .band x⟩) (hP : k ≠ P)
    (hinit : x.isInitialized = true) (hrec : (.band x : AccountData).RecordOf rt P k) :
    RecordMove rt P led (led.setData k (.band (x.withCount n))) ∧
      (led.setData k (.band (x.withCount n))).openLoan rt P = led.openLoan rt P ∧
      (led.setData k (.band (x.withCount n))).bandCount rt P =
        setBandCount (led.bandCount rt P) x.direction x.bandId n := by
  obtain ⟨hpool, hkey⟩ := hrec hinit
  have hwrite : led.setData k (.band (x.withCount n)) =
      led.setAccount k ⟨rt.programId, .band (x.withCount n)⟩ := by
    rw [setData, hk]
  refine ⟨.setData hk hP hrec fun _ => ⟨hpool, hkey⟩, ?_, ?_⟩
  · rw [hwrite]
    exact openLoan_setAccount_of_eq (by rw [hk]; rfl)
  · rw [hwrite]
    refine bandCount_setBand (congrArg Prod.fst hkey) hinit hpool fun dir id hne => ?_
    rw [hk]
    exact bandCount_of_ne hne

/-- Writing a loan account. -/
theorem setLoan_eq {l' : Loan} (hk : led.accts k = ⟨rt.programId, .loan l⟩) (hP : k ≠ P)
    (hrec : (.loan l : AccountData).RecordOf rt P k)
    (hrec' : (.loan l' : AccountData).RecordOf rt P k) :
    RecordMove rt P led (led.setData k (.loan l')) ∧
      (led.setData k (.loan l')).openLoan rt P = Function.update (led.openLoan rt P) k
        (Account.openLoan rt P ⟨rt.programId, .loan l'⟩) ∧
      (led.setData k (.loan l')).bandCount rt P = led.bandCount rt P := by
  have hwrite : led.setData k (.loan l') = led.setAccount k ⟨rt.programId, .loan l'⟩ := by
    rw [setData, hk]
  refine ⟨.setData hk hP hrec hrec', ?_, ?_⟩
  · rw [hwrite, openLoan_setAccount]
  · rw [hwrite]
    exact bandCount_setAccount_of_eq fun dir id => by rw [hk]; rfl

/-! ### Transfers of a loan -/

/-- What a loan instruction does outside the accounts of the pool, the loan and its band: tokens
move from the user to one vault, and then from the other vault to the user. -/
structure LoanTransfers (accs : LoanAccounts) (into : Side) (amountIn : ℕ) (out : Side)
    (amountOut : ℕ) (led led' : Ledger) : Prop where
  slot : led'.slot = led.slot
  others : ∀ j, j ≠ accs.pool → j ≠ accs.loan → j ≠ accs.band →
    TokenShape (led.accts j) (led'.accts j)
  fixed : ∀ j, j ≠ accs.pool → j ≠ accs.loan → j ≠ accs.band →
    (∀ t, (led.accts j).data ≠ .token t) → led'.accts j = led.accts j
  amountIn_le : amountIn ≤ led.balance (accs.userToken into)
  amountOut_le : amountOut ≤ moved led.balance (accs.userToken into) (accs.vault into) amountIn
    (accs.vault out)
  balance : ∀ j, led'.balance j = moved
    (moved led.balance (accs.userToken into) (accs.vault into) amountIn) (accs.vault out)
    (accs.userToken out) amountOut j
  allowance : ∀ j, j ≠ accs.pool → j ≠ accs.loan → j ≠ accs.band →
    led'.allowance j = drawn (accs.vault out) (accs.userToken out) accs.pool amountOut j
      (drawn (accs.userToken into) (accs.vault into) accs.user amountIn j (led.allowance j))
  mintSupply : led'.mintSupply = led.mintSupply

/-- What the two transfers give to an account and take from it. -/
theorem LoanTransfers.balance_cast {accs : LoanAccounts} {into out : Side}
    {amountIn amountOut : ℕ} (h : LoanTransfers accs into amountIn out amountOut led led')
    (j : Pubkey) : (led'.balance j : ℤ) = led.balance j -
      (if j = accs.userToken into then (amountIn : ℤ) else 0) +
      (if j = accs.vault into then (amountIn : ℤ) else 0) -
      (if j = accs.vault out then (amountOut : ℤ) else 0) +
      if j = accs.userToken out then (amountOut : ℤ) else 0 := by
  rw [h.balance, moved_cast h.amountOut_le, moved_cast h.amountIn_le]

theorem Debited.amount_le {src mint authority amount : ℕ}
    (h : Debited led src mint authority amount) : amount ≤ led.balance src := by
  obtain ⟨_, t, hk, -, hle, -⟩ := h.account
  rwa [balance_of_data (t := t) (by rw [hk])]

/-- The two transfers of a loan instruction, one after the other. -/
theorem payIn_payOut_eq_ok (accs : LoanAccounts) {q : Pool} {led₁ led₂ : Ledger} {x y : Side}
    {amountIn amountOut decimals decimals' : ℕ}
    (hin : accs.payIn rt led x amountIn decimals = .ok led₁)
    (hout : accs.payOut rt q led₁ y amountOut decimals' = .ok led₂) :
    TokenOnly led led₂ ∧ LoanTransfers accs x amountIn y amountOut led led₂ := by
  obtain ⟨htok, hdeb, -, hbal, hsup⟩ := transferChecked_eq_ok hin
  obtain ⟨htok', hdeb', -, hbal', hsup'⟩ := transferChecked_eq_ok hout
  have hbal₁ : led₁.balance = moved led.balance (accs.userToken x) (accs.vault x) amountIn :=
    funext hbal
  refine ⟨htok.trans htok', (htok.trans htok').slot, fun j _ _ _ => (htok.trans htok').accts j,
    fun j _ _ _ hj => ?_, hdeb.amount_le, ?_, fun j => ?_, fun j _ _ _ => ?_, hsup'.trans hsup⟩
  · have hsame := transferChecked_accts hin hj
    rw [transferChecked_accts hout (hsame ▸ hj), hsame]
  · rw [← hbal₁]
    exact hdeb'.amount_le
  · rw [hbal', hbal₁]
  · rw [transferChecked_allowance hout, transferChecked_allowance hin]

/-! ### OpenLoan -/

/-- **Entering a loan**: its account is created and filled, and its band counts one more. -/
theorem enterLoan_eq_ok {kb : Pubkey} {l₂ : Ledger} (hfiled : Filed rt led)
    (hp : led.HasPool rt P p) (hpda : rt.IsPda k)
    (hcreate : createPdaAccount led k (.loan Loan.zeroed) rt.programId = .ok l₁)
    (hkey : rt.findProgramAddress (.band P d b) = (kb, bump))
    (halloc : allocateBand rt l₁ kb P d b bump = .ok l₂) (hload : l₂.loadBand kb = .ok x)
    (hx : x.isInitialized = true ∧ x.pool = P ∧ x.bandId = b ∧ x.direction = d)
    (hinit : l.isInitialized = true) (hopen : l.isOpen = true) (hpool : l.pool = P)
    {l₃ : Ledger} (hl₃ : l₃ = (l₂.setData k (.loan l)).setData kb (.band (x.withCount n))) :
    RecordMove rt P led l₃ ∧ led.openLoan rt P k = none ∧
      x.count = (led.bandCount rt P d b).getD 0 ∧
      l₃.openLoan rt P = Function.update (led.openLoan rt P) k (some l) ∧
      l₃.bandCount rt P = setBandCount (led.bandCount rt P) d b n ∧
      (∀ j, j ≠ k → j ≠ kb → l₃.accts j = led.accts j) ∧
      ∀ l₀, led.accts kb ≠ ⟨rt.programId, .loan l₀⟩ := by
  obtain ⟨hunused, rfl⟩ := createPdaAccount_eq_ok.mp hcreate
  have hne := ne_pool_of_account hp hunused (by simp [Account.unused])
  have hzero : (.loan Loan.zeroed : AccountData).RecordOf rt P k :=
    fun hz => absurd hz (by decide)
  have hrec : (.loan l : AccountData).RecordOf rt P k := fun _ => ⟨hpool, hpda⟩
  have hmove₁ : RecordMove rt P led (led.setAccount k ⟨rt.programId, .loan Loan.zeroed⟩) :=
    .create hunused hne hpda hzero
  have hfiled₁ := hfiled.touched hmove₁.touched (hmove₁.hasPool hp)
    ((hfiled.wired _ _ hp).touched hmove₁.touched rfl)
  obtain ⟨hmove₂, hband, hbandRec, hcount, hloans₂, hbands₂, hrest, hnotLoan⟩ :=
    allocateBand_eq_ok hfiled₁ (hmove₁.hasPool hp) hkey halloc (loadBand_eq_ok.mp hload) hx
  -- the band was read back as a band, so its address is not the loan's
  have hkb : k ≠ kb := by
    rintro rfl
    obtain ⟨hinitb, rfl, rfl, rfl⟩ := hx
    rw [allocateBand] at halloc
    rw [if_neg (by simp), if_neg (by simp [isZeroedProgramAccount])] at halloc
    cases halloc
    rw [setAccount_accts_self] at hband
    cases hband
  have hloan : l₂.accts k = ⟨rt.programId, .loan Loan.zeroed⟩ := by
    rw [hrest k hkb, setAccount_accts_self]
  obtain ⟨hmove₃, hloans₃, hbands₃⟩ := setLoan_eq hloan hne hzero hrec
  have hband₃ : (l₂.setData k (.loan l)).accts kb = ⟨rt.programId, .band x⟩ := by
    rw [setData_accts_of_ne hkb.symm, hband]
  have hneb := ne_pool_of_account (hmove₂.hasPool (hmove₁.hasPool hp)) hband (by simp)
  obtain ⟨hmove₄, hloans₄, hbands₄⟩ := setCount_eq (n := n) hband₃ hneb hx.1 hbandRec
  have hloans₁ : (led.setAccount k ⟨rt.programId, .loan Loan.zeroed⟩).openLoan rt P =
      led.openLoan rt P :=
    openLoan_setAccount_of_eq (by rw [Account.openLoan_of_not_init (by rfl), hunused]; rfl)
  have hbands₁ : (led.setAccount k ⟨rt.programId, .loan Loan.zeroed⟩).bandCount rt P =
      led.bandCount rt P := bandCount_setAccount_of_eq fun dir id => by rw [hunused]; rfl
  rw [setAccount_accts_of_ne hkb.symm] at hnotLoan
  refine ⟨hl₃ ▸ ((hmove₁.trans hmove₂).trans hmove₃).trans hmove₄, ?_, ?_, ?_, ?_,
    fun j hj hjb => ?_, hnotLoan⟩
  · rw [Ledger.openLoan, hunused]
    rfl
  · rw [hcount, hbands₁]
  · rw [hl₃, hloans₄, hloans₃, hloans₂, hloans₁, Account.openLoan_of_live hinit hopen hpool]
  · rw [hl₃, hbands₄, hbands₃, hbands₂, hbands₁, hx.2.2.1, hx.2.2.2, setBandCount_setBandCount]
  · rw [hl₃, setData_accts_of_ne hjb, setData_accts_of_ne hj, hrest j hjb,
      setAccount_accts_of_ne hj]

/-- Everything an accepted `OpenLoan` does: it borrows on the market, enters the record of the
loan, and moves the tokens. -/
structure LoanOpened (rt : Runtime) (accs : LoanAccounts) (sidesByte c dAmount nonce : ℕ)
    (led led' : Ledger) (p p' q : Pool) (l : Loan) (s : LoanSides) : Prop where
  step : PoolStep rt accs.pool led led' p p'
  borrow : Borrow (led.market rt accs.pool p) q accs.loan l s
    (accs.paidOut s.debtSide l.debtPrincipal) (led'.market rt accs.pool p')
  accounts : p.matchesAccounts accs.toPoolAccounts = true
  sides : sidesByte = s.toU8
  key : (rt.findProgramAddress (.loan accs.pool accs.user nonce)).1 = accs.loan
  loan : ∃ index trigger b, l = newLoan accs.pool accs.user nonce
    (rt.findProgramAddress (.loan accs.pool accs.user nonce)).2 s.toU8 c dAmount index trigger
    s.direction.toU8 b led.slot
  band : bandKey rt accs.pool l.triggerDirection l.bandId = accs.band
  notLoan : ∀ l₀, led.accts accs.band ≠ ⟨rt.programId, .loan l₀⟩
  transfers : LoanTransfers accs s.collateralSide c s.debtSide dAmount led led'

theorem processOpenLoan_opened {accs : LoanAccounts} {sidesByte c dAmount nonce : ℕ}
    (hfiled : Filed rt led) (huser : ¬ rt.IsPda accs.user)
    (h : processOpenLoan rt accs sidesByte c dAmount nonce led = .ok (led', events)) :
    ∃ p p' q l s, LoanOpened rt accs sidesByte c dAmount nonce led led' p p' q l s := by
  simp only [processOpenLoan, Checked.bind_eq_ok, require_eq_ok, exists_const,
    Prod.exists, Checked.pure_eq_ok] at h
  obtain ⟨-, _, hvalid, hpos, p, hload, s, hsides, realA, realB, hreads, q, hbump, trigger, dir,
    htrigger, accA, accB, haccounted, swA, swB, hswappable, hreserves, _, hltv, hcov, hloanKey, b,
    hbandId, hbandKey, hempty, l₁, hcreate, l₂, halloc, x, hloadBand, hx, hfull, q', hmark, index,
    hindex, n, hcount, decimals, -, l₃, hin, l₄, hout, q'', hadmit, heq⟩ := h
  obtain ⟨hp, hacc, hw, rfl, rfl, haccrued⟩ := opening hfiled hvalid hload hreads hbump
  obtain ⟨rfl, rfl⟩ := haccrued.reserve_eq haccounted
  obtain ⟨rfl, rfl⟩ := haccrued.swappable_eq hswappable
  obtain rfl := LoanSides.fromU8_eq_ok.mp hsides
  obtain ⟨-, -, rfl, -⟩ := recomputeTrigger_eq_ok htrigger
  obtain ⟨-, rfl⟩ := fits_eq_ok.mp hcount
  obtain ⟨rfl, hcounter⟩ := Pool.admitLoan_eq_ok hadmit
  obtain ⟨rfl, -⟩ := Prod.mk.inj heq
  have hkey : rt.findProgramAddress (.band accs.pool s.direction.toU8 b) = (accs.band, _) :=
    Prod.ext hbandKey.symm rfl
  obtain ⟨⟨fall, rise, rfl⟩, -⟩ := Pool.markBand_eq_ok hmark
  set l := newLoan accs.pool accs.user nonce
    (rt.findProgramAddress (.loan accs.pool accs.user nonce)).2 s.toU8 c dAmount index trigger
    s.direction.toU8 b l₂.slot with hl
  obtain ⟨hmove₁, hfree, hbefore, hloans, hbands, hrest, hnotLoan⟩ := enterLoan_eq_ok (l := l)
    hfiled hp ⟨_, hloanKey.symm⟩ hcreate hkey halloc hloadBand hx (by rfl) (by rfl) rfl rfl
  have hw₁ := hw.touched hmove₁.touched rfl
  obtain ⟨hmove₂, hbal₂, hsup₂⟩ := payIn_eq_ok hw₁ hacc huser hin
  have hw₂ := hw₁.touched hmove₂.touched rfl
  obtain ⟨hmove₃, -, hbal₃, hsup₃⟩ := payOut_eq_ok hw₂ hacc hout
  have hmove := hmove₂.trans hmove₃
  have hslot₂ : l₂.slot = led.slot := hmove₁.touched.slot
  have hslot : l₄.slot = led.slot := hmove.tokenOnly.slot.trans hslot₂
  have hterms : (((q.withBitmaps fall rise).admitted s c dAmount).stamp l₄.slot).terms =
      p.terms := by
    rw [Pool.stamp_terms, Pool.admitted_terms, Pool.withBitmaps_terms]
    exact haccrued.terms
  have hp₄ := hmove.tokenOnly.hasPool (hmove₁.hasPool hp)
  obtain ⟨-, htransfers⟩ := payIn_payOut_eq_ok accs hin hout
  refine ⟨p, _, q, l, s, ⟨.of_touched hp (hmove₁.touched.trans hmove.touched) hp₄ hterms,
    ⟨haccrued, hfree, rfl, rfl, htrigger, hbandId, hindex, hreserves, hltv, ?_, hcounter,
      accs.paidOut_eq _ _, x.count, q.withBitmaps fall rise, hbefore, hfull, hmark, ?_⟩, hacc, rfl,
    hloanKey.symm, ⟨index, trigger, b, by rw [hl, hslot₂]⟩, congrArg Prod.fst hkey, hnotLoan,
    ⟨hslot, fun j hj hjl hjb => ?_, fun j hj hjl hjb hplain => ?_, ?_, ?_, fun j => ?_,
      fun j hj hjl hjb => ?_, ?_⟩⟩⟩
  · cases s <;> exact hcov
  · refine setPool_market hp₄ ?_ (fun y => ?_) ?_ ?_ ?_ hslot
    · rw [hslot]
      rfl
    · rw [Pool.vault_of_terms hterms, hbal₃, hbal₂, hmove₁.balance]
      rfl
    · rw [Pool.lpMint_of_terms hterms, hsup₃, hsup₂, hmove₁.mintSupply]
      rfl
    · rw [hmove.tokenOnly.openLoan, hloans]
      rfl
    · rw [hmove.tokenOnly.bandCount, hbands]
      rfl
  · rw [setData_accts_of_ne hj, ← hrest j hjl hjb]
    exact hmove.tokenOnly.accts j
  · have hsame := hrest j hjl hjb
    rw [setData_accts_of_ne hj, htransfers.fixed j hj hjl hjb (hsame ▸ hplain), hsame]
  · rw [← hmove₁.balance]
    exact htransfers.amountIn_le
  · rw [← hmove₁.balance]
    exact htransfers.amountOut_le
  · rw [setPool_balance hp₄, htransfers.balance, hmove₁.balance]
  · rw [allowance_congr (setData_accts_of_ne hj), htransfers.allowance j hj hjl hjb,
      allowance_congr (hrest j hjl hjb)]
  · rw [setPool_mintSupply hp₄, htransfers.mintSupply, hmove₁.mintSupply]

/-- **OpenLoan is a borrow.** -/
theorem processOpenLoan_refines {accs : LoanAccounts} {sidesByte c dAmount nonce : ℕ}
    (hfiled : Filed rt led) (huser : ¬ rt.IsPda accs.user)
    (h : processOpenLoan rt accs sidesByte c dAmount nonce led = .ok (led', events)) :
    ∃ p p' q l s, PoolStep rt accs.pool led led' p p' ∧
      Borrow (led.market rt accs.pool p) q accs.loan l s
        (accs.paidOut s.debtSide l.debtPrincipal) (led'.market rt accs.pool p') := by
  obtain ⟨p, p', q, l, s, hopened⟩ := processOpenLoan_opened hfiled huser h
  exact ⟨p, p', q, l, s, hopened.step, hopened.borrow⟩

/-! ### RepayLoan -/

/-- **Leaving**: the band counts one less, and the account of the loan is zeroed. -/
theorem leaveLoan_eq {kb : Pubkey} (hp : led.HasPool rt P p)
    (hloan : led.accts k = ⟨rt.programId, .loan l⟩)
    (hrec : (.loan l : AccountData).RecordOf rt P k)
    (hband : led.accts kb = ⟨rt.programId, .band x⟩) (hinit : x.isInitialized = true)
    (hrecb : (.band x : AccountData).RecordOf rt P kb) {l₃ : Ledger}
    (hl₃ : l₃ = (led.setData kb (.band (x.withCount n))).setData k (.loan Loan.zeroed)) :
    RecordMove rt P led l₃ ∧ l₃.openLoan rt P = KeyedSum.without {k} (led.openLoan rt P) ∧
      l₃.bandCount rt P = setBandCount (led.bandCount rt P) x.direction x.bandId n := by
  have hne := ne_pool_of_account hp hloan (by simp)
  have hneb := ne_pool_of_account hp hband (by simp)
  have hkb : k ≠ kb := by
    rintro rfl
    rw [hloan] at hband
    cases hband
  have hzero : (.loan Loan.zeroed : AccountData).RecordOf rt P k :=
    fun hz => absurd hz (by decide)
  obtain ⟨hmove₁, hloans₁, hbands₁⟩ := setCount_eq (n := n) hband hneb hinit hrecb
  have hloan₁ : (led.setData kb (.band (x.withCount n))).accts k =
      ⟨rt.programId, .loan l⟩ := by
    rw [setData_accts_of_ne hkb, hloan]
  obtain ⟨hmove₂, hloans₂, hbands₂⟩ := setLoan_eq hloan₁ hne hrec hzero
  refine ⟨hl₃ ▸ hmove₁.trans hmove₂, ?_, ?_⟩
  · rw [hl₃, hloans₂, hloans₁, Account.openLoan_of_not_init (by rfl)]
    funext j
    by_cases hj : j = k
    · subst hj
      simp [KeyedSum.without]
    · simp [KeyedSum.without, hj]
  · rw [hl₃, hbands₂, hbands₁]

/-- Everything an accepted `RepayLoan` does: it repays on the market, zeroes the record of the
loan, and moves the tokens. -/
structure LoanRepaid (rt : Runtime) (accs : LoanAccounts) (led led' : Ledger)
    (events : List Event) (p p' q : Pool) (l : Loan) (s : LoanSides) (owed : ℕ) : Prop where
  step : PoolStep rt accs.pool led led' p p'
  repay : Repay (led.market rt accs.pool p) q accs.loan l s owed
    (accs.paidOut s.collateralSide l.collateralAmount) (led'.market rt accs.pool p')
  accounts : p.matchesAccounts accs.toPoolAccounts = true
  borrower : l.borrower = accs.user
  band : bandKey rt accs.pool l.triggerDirection l.bandId = accs.band
  closed : led'.accts accs.loan = ⟨rt.programId, .loan Loan.zeroed⟩
  logged : events = [.loanRepaid accs.pool accs.loan accs.user l.debtPrincipal owed]
  transfers : LoanTransfers accs s.debtSide owed s.collateralSide l.collateralAmount led led'

theorem processRepayLoan_repaid {accs : LoanAccounts} (hfiled : Filed rt led)
    (huser : ¬ rt.IsPda accs.user)
    (h : processRepayLoan rt accs led = .ok (led', events)) :
    ∃ p p' q l s owed, LoanRepaid rt accs led led' events p p' q l s owed := by
  simp only [processRepayLoan, Checked.bind_eq_ok, require_eq_ok, exists_const,
    Prod.exists, Checked.pure_eq_ok, loadLoan_eq_ok, loadBand_eq_ok, fits_eq_ok,
    checkedSub_eq_ok] at h
  obtain ⟨-, _, hvalid, ⟨hownerL, hownerB⟩, p, hload, l, hdataL, hinit, hopen, ⟨hpool, hborrower⟩,
    x, hdataB, ⟨hinitb, hpoolb, hidb, hdirb⟩, hkey, realA, realB, hreads, q, hbump, index, hindex,
    _, howed, owed, ⟨-, rfl⟩, s, hsides, c, ⟨-, rfl⟩, decimals, -, l₁, hin, l₂, hout, q', hsettle,
    n, ⟨hcount, rfl⟩, q'', hunmark, heq⟩ := h
  obtain ⟨hp, hacc, hw, rfl, rfl, haccrued⟩ := opening hfiled hvalid hload hreads hbump
  have hsides := LoanSides.fromU8_eq_ok.mp hsides
  obtain ⟨rfl, rfl⟩ := Prod.mk.inj heq
  have hsettled := Pool.settleLoan_eq_ok.mp hsettle
  obtain rfl := hsettled.2.2.2
  have hloan : led.accts accs.loan = ⟨rt.programId, .loan l⟩ := by rw [← hownerL, ← hdataL]
  have hband : led.accts accs.band = ⟨rt.programId, .band x⟩ := by rw [← hownerB, ← hdataB]
  have hrec : (.loan l : AccountData).RecordOf rt accs.pool accs.loan :=
    fun _ => ⟨hpool, (hfiled.loan _ _ hloan hinit).1⟩
  have hrecb : (.band x : AccountData).RecordOf rt accs.pool accs.band :=
    fun _ => ⟨hpoolb, hpoolb ▸ (hfiled.band _ _ hband hinitb).1⟩
  obtain ⟨hmove₁, hbal₁, hsup₁⟩ := payIn_eq_ok hw hacc huser hin
  have hw₁ := hw.touched hmove₁.touched rfl
  obtain ⟨hmove₂, hle, hbal₂, hsup₂⟩ := payOut_eq_ok hw₁ hacc hout
  have hmove := hmove₁.trans hmove₂
  have hp₂ := hmove.tokenOnly.hasPool hp
  have hloan₂ := hmove.tokenOnly.accts_eq hloan trivial
  obtain ⟨hmove₃, hloans, hbands⟩ := leaveLoan_eq hp₂ hloan₂ hrec
    (hmove.tokenOnly.accts_eq hband trivial) hinitb hrecb rfl
  rw [hidb, hdirb] at hunmark
  have hterms : q''.terms = p.terms := by
    rw [Pool.unmarkBand_terms hunmark, Pool.stamp_terms, Pool.settled_terms]
    exact haccrued.terms
  have hslot : l₂.slot = led.slot := hmove.tokenOnly.slot
  have hp₃ := hmove₃.hasPool hp₂
  have hne := ne_pool_of_account hp hloan (by simp)
  have hkb : accs.loan ≠ accs.band := by
    intro hk
    rw [hk, hband] at hloan
    cases hloan
  obtain ⟨-, htransfers⟩ := payIn_payOut_eq_ok accs hin hout
  refine ⟨p, _, q, l, s, owed, ⟨.of_touched hp (hmove.touched.trans hmove₃.touched) hp₃ hterms,
    ⟨haccrued, openLoan_eq_some.mpr ⟨hloan, hinit, hopen, hpool⟩, hsides, ⟨index, hindex, howed⟩,
      hsettle, accs.paidOut_eq _ _, ?_, x.count - 1, q'', ?_, ?_, ?_⟩, hacc, hborrower, hkey, ?_,
    rfl, ⟨?_, fun j hj hjl hjb => ?_, fun j hj hjl hjb hplain => ?_, htransfers.amountIn_le,
      htransfers.amountOut_le, fun j => ?_, fun j hj hjl hjb => ?_, ?_⟩⟩⟩
  · -- the payment in went to the other vault
    rw [hbal₁, if_neg (debtSide_ne_collateralSide s).symm, Nat.add_zero] at hle
    refine le_trans ?_ hle
    rcases accs.paidOut_eq s.collateralSide l.collateralAmount with h | h <;> omega
  · change led.bandCount rt accs.pool l.triggerDirection l.bandId = _
    refine bandCount_eq_some.mpr ⟨x, ?_, hinitb, hpoolb, hdirb, hidb, by omega⟩
    rw [bandKey]
    exact hkey ▸ hband
  · rw [hslot] at hunmark
    exact hunmark
  · refine setPool_market hp₃ rfl (fun y => ?_) ?_ ?_ ?_ ?_
    · rw [Pool.vault_of_terms hterms, hmove₃.balance, hbal₂, hbal₁]
      rfl
    · rw [Pool.lpMint_of_terms hterms, hmove₃.mintSupply, hsup₂, hsup₁]
      rfl
    · rw [hloans, hmove.tokenOnly.openLoan]
      rfl
    · rw [hbands, hmove.tokenOnly.bandCount, hidb, hdirb]
      rfl
    · exact hmove₃.touched.slot.trans hslot
  · rw [setData_accts_of_ne hne, setData_accts_self, setData_accts_of_ne hkb, hloan₂]
  · exact hmove₃.touched.slot.trans hslot
  · rw [setData_accts_of_ne hj, setData_accts_of_ne hjl, setData_accts_of_ne hjb]
    exact hmove.tokenOnly.accts j
  · rw [setData_accts_of_ne hj, setData_accts_of_ne hjl, setData_accts_of_ne hjb]
    exact htransfers.fixed j hj hjl hjb hplain
  · rw [setPool_balance hp₃, hmove₃.balance, htransfers.balance]
  · rw [allowance_congr (setData_accts_of_ne hj), allowance_congr (setData_accts_of_ne hjl),
      allowance_congr (setData_accts_of_ne hjb), htransfers.allowance j hj hjl hjb]
  · rw [setPool_mintSupply hp₃, hmove₃.mintSupply, htransfers.mintSupply]

/-- **RepayLoan is a repayment.** -/
theorem processRepayLoan_refines {accs : LoanAccounts} (hfiled : Filed rt led)
    (huser : ¬ rt.IsPda accs.user)
    (h : processRepayLoan rt accs led = .ok (led', events)) :
    ∃ p p' q l s owed, PoolStep rt accs.pool led led' p p' ∧
      Repay (led.market rt accs.pool p) q accs.loan l s owed
        (accs.paidOut s.collateralSide l.collateralAmount) (led'.market rt accs.pool p') := by
  obtain ⟨p, p', q, l, s, owed, hrepaid⟩ := processRepayLoan_repaid hfiled huser h
  exact ⟨p, p', q, l, s, owed, hrepaid.step, hrepaid.repay⟩

end ChiefLiquidity
