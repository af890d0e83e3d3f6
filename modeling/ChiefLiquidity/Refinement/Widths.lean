import ChiefLiquidity.Refinement.Run
import ChiefLiquidity.Wire.Events

/-!
# No field outgrows its word

The records are modelled with natural numbers, and the checks of the program are what keeps them
within their words. Here every write is followed to see that it does: what an instruction stores
fits the layout of its record, and what it logs fits the layout of its event, provided that its
arguments, the slot and the addresses are words, which the runtime sees to.

## Which bounds are checked

Not every bound is checked where a field is written. The totals are 128-bit words because each
addition is checked; a principal is one because it came in as a 64-bit argument; a slot because the
clock has 64 bits; a band id because a trigger is a 128-bit word and bands are logarithms; a bump
and an address because the runtime derives them. The proofs say which of these it is, field by
field, and the event of an instruction fits for the same reasons.

The writes are those of the processors, followed from the first to the last with the bounds as the
invariant.

## Main definitions

* `Runtime.Words`, `Ledger.Wide`

## Main results

* `processInstruction_wide` — accepted instructions keep the records, and log, within their words
-/

namespace ChiefLiquidity

/-- Addresses have 32 bytes, and bumps one. -/
structure Runtime.Words (rt : Runtime) : Prop where
  key : ∀ s, (rt.findProgramAddress s).1 < 2 ^ 256
  bump : ∀ s, (rt.findProgramAddress s).2 < 2 ^ 8

/-- The slot is a word, and every record of the program that is live or at one of its addresses fits
its layout. -/
structure Ledger.Wide (rt : Runtime) (led : Ledger) : Prop where
  slot : led.slot < 2 ^ 64
  records : ∀ k, (led.accts k).owner = rt.programId → rt.IsPda k ∨ ¬ (led.accts k).data.Blank →
    (led.accts k).data.Fits

/-! ### Pools -/

namespace Pool

variable {p p' : Pool} {realA realB a b slot n d bandId : ℕ} {s : LoanSides}

theorem Fits.stamp (h : p.Fits) (hslot : slot < 2 ^ 64) : (p.stamp slot).Fits :=
  { h with lastUpdateSlot := hslot }

theorem Fits.withFees (h : p.Fits) (ha : a < 2 ^ 64) (hb : b < 2 ^ 64) : (p.withFees a b).Fits :=
  { h with protocolFeesA := ha, protocolFeesB := hb }

theorem Fits.withBitmaps (h : p.Fits) (fall rise : Bitmap) : (p.withBitmaps fall rise).Fits :=
  { h with terms := h.terms }

theorem bumpIndexWad_lt {i r n : ℕ} (hi : i < 2 ^ 128) : bumpIndexWad i r n < 2 ^ 128 := by
  have hcap : indexCapWad < 2 ^ 128 := by decide +kernel
  rw [bumpIndexWad]
  split
  · exact hi
  · split
    · dsimp only
      split
      · exact (min_le_right _ _).trans_lt hcap
      · exact hcap
    · exact hcap

theorem Fits.bumpIndexes (h : p.Fits) (hslot : slot < 2 ^ 64)
    (hrun : p.bumpIndexes realA realB slot = .ok p') : p'.Fits := by
  obtain ⟨-, rfl⟩ | ⟨-, _, _, _, _, -, -, -, rfl⟩ := bumpIndexes_eq_ok.mp hrun
  · exact h
  · exact { h with
      borrowIndexAWad := bumpIndexWad_lt h.borrowIndexAWad
      borrowIndexBWad := bumpIndexWad_lt h.borrowIndexBWad
      lastIndexUpdateSlot := hslot }

theorem priceBPerAWad_lt {q : ℕ} (h : priceBPerAWad a b = .ok q) : q < 2 ^ 128 := by
  simp only [priceBPerAWad, Checked.bind_eq_ok, fits_eq_ok] at h
  obtain ⟨_, -, _, -, hq, rfl⟩ := h
  exact hq

theorem Fits.refPriceAt {spot q : ℕ} (h : p.Fits) (hspot : spot < 2 ^ 128)
    (hrun : p.refPriceAt spot slot = .ok q) : q < 2 ^ 128 := by
  rw [Pool.refPriceAt] at hrun
  split at hrun
  · cases hrun
    exact h.refPriceWad
  · by_cases hprev : p.refPriceWad = 0 ∨ refPriceWindowSlots ≤ slot - p.refPriceSlot
    · rw [emaRefPriceWad, if_pos hprev] at hrun
      cases hrun
      exact hspot
    · obtain ⟨h0, hw⟩ := not_or.mp hprev
      obtain rfl := emaRefPriceWad_eq_ok h0 (not_le.mp hw) hrun
      have hle := MovingAverage.step_le (not_le.mp hw).le
        (Nat.le_sub_one_of_lt h.refPriceWad) (Nat.le_sub_one_of_lt hspot)
      exact Nat.lt_of_le_sub_one (Nat.two_pow_pos _) hle

theorem Fits.sampleRefPrice (h : p.Fits) (hslot : slot < 2 ^ 64)
    (hrun : p.sampleRefPrice a b slot = .ok p') : p'.Fits := by
  rw [Pool.sampleRefPrice] at hrun
  split at hrun
  · simp only [Checked.bind_eq_ok, Checked.pure_eq_ok] at hrun
    obtain ⟨spot, hspot, ref, href, rfl⟩ := hrun
    exact { h with
      refPriceWad := h.refPriceAt (priceBPerAWad_lt hspot) href, refPriceSlot := hslot }
  · cases hrun
    exact h

theorem Fits.accrueFee {aToB : Bool} (h : p.Fits) (hrun : p.accrueFee aToB n = .ok p') :
    p'.Fits := by
  rw [Pool.accrueFee] at hrun
  split at hrun
  · split at hrun
    · simp only [Checked.bind_eq_ok, Checked.pure_eq_ok, fits_eq_ok] at hrun
      obtain ⟨_, ⟨hfee, rfl⟩, rfl⟩ := hrun
      exact { h with protocolFeesA := hfee }
    · simp only [Checked.bind_eq_ok, Checked.pure_eq_ok, fits_eq_ok] at hrun
      obtain ⟨_, ⟨hfee, rfl⟩, rfl⟩ := hrun
      exact { h with protocolFeesB := hfee }
  · cases hrun
    exact h

theorem Fits.settleLoan {c : ℕ} (h : p.Fits) (hrun : p.settleLoan s c d = .ok p') : p'.Fits := by
  obtain ⟨-, -, -, rfl⟩ := settleLoan_eq_ok.mp hrun
  have hlt : ∀ {x y m : ℕ}, x < m → x - y < m := (Nat.sub_le _ _).trans_lt
  cases s with
  | collateralA => exact { h with
      totalCollateralA := hlt h.totalCollateralA, totalDebtB := hlt h.totalDebtB
      openLoans := hlt h.openLoans }
  | collateralB => exact { h with
      totalCollateralB := hlt h.totalCollateralB, totalDebtA := hlt h.totalDebtA
      openLoans := hlt h.openLoans }

theorem Fits.admitLoan {c : ℕ} (h : p.Fits) (hrun : p.admitLoan s c d = .ok p') : p'.Fits := by
  cases s with
  | collateralA =>
    simp only [Pool.admitLoan, admitTotals, Checked.bind_eq_ok, fits_eq_ok, Checked.pure_eq_ok]
      at hrun
    obtain ⟨_, ⟨_, ⟨hc, rfl⟩, _, ⟨hd, rfl⟩, rfl⟩, _, ⟨hopen, rfl⟩, _, ⟨hnonce, rfl⟩, rfl⟩ := hrun
    exact { h with
      totalCollateralA := hc, totalDebtB := hd, openLoans := hopen, nextLoanNonce := hnonce }
  | collateralB =>
    simp only [Pool.admitLoan, admitTotals, Checked.bind_eq_ok, fits_eq_ok, Checked.pure_eq_ok]
      at hrun
    obtain ⟨_, ⟨_, ⟨hc, rfl⟩, _, ⟨hd, rfl⟩, rfl⟩, _, ⟨hopen, rfl⟩, _, ⟨hnonce, rfl⟩, rfl⟩ := hrun
    exact { h with
      totalCollateralB := hc, totalDebtA := hd, openLoans := hopen, nextLoanNonce := hnonce }

theorem Fits.setBandBitmap (h : p.Fits) (bitmap : Bitmap) : (p.setBandBitmap d bitmap).Fits := by
  unfold Pool.setBandBitmap
  split
  · exact h.withBitmaps _ _
  · exact h.withBitmaps _ _

theorem Fits.markBand (h : p.Fits) (hrun : p.markBand n d bandId = .ok p') : p'.Fits := by
  rw [Pool.markBand] at hrun
  split at hrun
  · simp only [setBand, Checked.bind_eq_ok, Checked.pure_eq_ok] at hrun
    obtain ⟨_, -, _, -, rfl⟩ := hrun
    exact h.setBandBitmap _
  · cases hrun
    exact h

theorem Fits.unmarkBand (h : p.Fits) (hrun : p.unmarkBand n d bandId = .ok p') : p'.Fits := by
  rw [Pool.unmarkBand] at hrun
  split at hrun
  · simp only [clearBand, Checked.bind_eq_ok, Checked.pure_eq_ok] at hrun
    obtain ⟨_, -, _, -, rfl⟩ := hrun
    exact h.setBandBitmap _
  · cases hrun
    exact h

end Pool

/-! ### Ledgers -/

namespace Ledger

/-- The account at `k` is one of the program, and not a blank one. -/
structure Live (rt : Runtime) (led : Ledger) (k : Pubkey) : Prop where
  owner : (led.accts k).owner = rt.programId
  data : ¬ (led.accts k).data.Blank

variable {rt : Runtime} {led led' : Ledger} {k j : Pubkey} {d : AccountData} {l : Loan}
  {b : LoanIndexBand} {p : Pool}

theorem Live.setData (h : led.Live rt j) (hd : ¬ d.Blank) : (led.setData k d).Live rt j := by
  by_cases hj : j = k
  · subst hj
    refine ⟨?_, ?_⟩
    · rw [setData_accts_self]
      exact h.owner
    · rw [setData_accts_self]
      exact hd
  · refine ⟨?_, ?_⟩
    · rw [setData_accts_of_ne hj]
      exact h.owner
    · rw [setData_accts_of_ne hj]
      exact h.data

theorem Wide.setAccount {a : Account} (h : led.Wide rt)
    (ha : a.owner = rt.programId → a.data.Fits) : (led.setAccount k a).Wide rt := by
  refine ⟨h.slot, fun j hj hlive => ?_⟩
  by_cases hjk : j = k
  · subst hjk
    rw [setAccount_accts_self] at hj ⊢
    exact ha hj
  · rw [setAccount_accts_of_ne hjk] at hj hlive ⊢
    exact h.records j hj hlive

theorem Wide.setData (h : led.Wide rt) (hd : (led.accts k).owner = rt.programId → d.Fits) :
    (led.setData k d).Wide rt := h.setAccount hd

theorem setData_owner : ((led.setData k d).accts j).owner = (led.accts j).owner := by
  by_cases hj : j = k
  · rw [hj, setData_accts_self]
  · rw [setData_accts_of_ne hj]

theorem Wide.tokenOnly (h : led.Wide rt) (ht : TokenOnly led led') : led'.Wide rt := by
  refine ⟨ht.slot ▸ h.slot, fun j hj hlive => ?_⟩
  have hown := ht.owner_eq j
  have hold := h.records j (hown ▸ hj)
  have hshape := ht.accts j
  generalize led.accts j = a at hshape hold
  generalize led'.accts j = a' at hshape hlive
  cases hshape with
  | same => exact hold hlive
  | token => trivial
  | mint => trivial

theorem Wide.create {owner : Pubkey} (h : led.Wide rt) (hd : d.Fits)
    (hrun : createPdaAccount led k d owner = .ok led') : led'.Wide rt := by
  obtain ⟨-, rfl⟩ := createPdaAccount_eq_ok.mp hrun
  exact h.setAccount fun _ => hd

theorem Wide.pool (h : led.Wide rt) (hp : led.HasPool rt k p) : p.Fits := by
  have hfits := h.records k (by rw [hp.1]) (.inr (by rw [hp.1]; exact not_blank_pool hp.2))
  rwa [hp.1] at hfits

theorem Wide.loan (h : led.Wide rt) (hk : led.Live rt k) (hload : (led.accts k).data = .loan l) :
    l.Fits := by
  have hfits := h.records k hk.owner (.inr hk.data)
  rwa [hload] at hfits

theorem Wide.band (h : led.Wide rt) (hk : led.Live rt k) (hload : (led.accts k).data = .band b) :
    b.Fits := by
  have hfits := h.records k hk.owner (.inr hk.data)
  rwa [hload] at hfits

end Ledger

theorem LoanIndexBand.Fits.withCount {b : LoanIndexBand} {n : ℕ} (h : b.Fits) (hn : n < 2 ^ 32) :
    (b.withCount n).Fits := { h with count := hn }

theorem Loan.Fits.tombstone {l : Loan} {slot : ℕ} (h : l.Fits) (hslot : slot < 2 ^ 64) :
    (l.tombstone slot).Fits :=
  { h with
    collateralAmount := Nat.two_pow_pos _, debtPrincipal := Nat.two_pow_pos _
    status := show Loan.statusLiquidated < 2 ^ 8 by decide, closedSlot := hslot }

theorem newBand_fits {pool : Pubkey} {direction bandId bump : ℕ} (hpool : pool < 2 ^ 256)
    (hdir : direction < 2 ^ 8) (hband : bandId < 2 ^ 32) (hbump : bump < 2 ^ 8) :
    (newBand pool direction bandId bump).Fits where
  discriminator := show loanIndexBandDiscriminator < 2 ^ 64 by decide
  pool := hpool
  bandId := hband
  direction := hdir
  bump := hbump
  count := Nat.two_pow_pos _

/-! ### Instructions -/

section Instructions

variable {rt : Runtime} {led led' : Ledger} {events : List Event} {key : Pubkey}

theorem forall_mem_singleton_fits {e : Event} (h : e.Fits) : ∀ e' ∈ [e], e'.Fits := by
  intro e' he'
  exact List.mem_singleton.mp he' ▸ h

theorem processAddLiquidity_wide {accs : LiquidityAccounts} {maxA maxB minLp : ℕ}
    (hwide : led.Wide rt) (hpool : accs.pool < 2 ^ 256) (huser : accs.user < 2 ^ 256)
    (h : processAddLiquidity rt accs maxA maxB minLp led = .ok (led', events)) :
    led'.Wide rt ∧ ∀ e ∈ events, e.Fits := by
  simp only [processAddLiquidity, Checked.bind_eq_ok, require_eq_ok, exists_const, fits_eq_ok,
    Prod.exists, Checked.pure_eq_ok, Prod.mk.injEq] at h
  obtain ⟨-, _, hvalid, -, p, hload, hlp, decimals, -, decLp, -, supply, -, realA, realB,
    -, q, hbump, accA, accB, -, _, _, _, -, a, ⟨ha, rfl⟩, b, ⟨hb, rfl⟩, lp, ⟨hlp', rfl⟩, -, l₁,
    hin₁, l₂, hin₂, l₃, hmint, rfl, rfl⟩ := h
  obtain ⟨hp, -⟩ := hasPool_of_load hvalid hload
  have hq := (hwide.pool hp).bumpIndexes hwide.slot hbump
  have hwide₃ := ((hwide.tokenOnly (transferChecked_eq_ok hin₁).1).tokenOnly
    (transferChecked_eq_ok hin₂).1).tokenOnly (mintToChecked_eq_ok hmint).1
  exact ⟨hwide₃.setData fun _ => hq.stamp hwide₃.slot,
    forall_mem_singleton_fits ⟨⟨hpool, huser⟩, ha, hb, hlp'⟩⟩

theorem processRemoveLiquidity_wide {accs : LiquidityAccounts} {lpAmount minA minB : ℕ}
    (hwide : led.Wide rt) (hpool : accs.pool < 2 ^ 256) (huser : accs.user < 2 ^ 256)
    (hlp : lpAmount < 2 ^ 64)
    (h : processRemoveLiquidity rt accs lpAmount minA minB led = .ok (led', events)) :
    led'.Wide rt ∧ ∀ e ∈ events, e.Fits := by
  simp only [processRemoveLiquidity, Checked.bind_eq_ok, require_eq_ok, exists_const,
    fits_eq_ok, Prod.exists, Checked.pure_eq_ok, Prod.mk.injEq] at h
  obtain ⟨-, _, hvalid, -, p, hload, -, decimals, -, decLp, -, supply, -, realA, realB,
    -, -, -, _, -, q, hbump, accA, accB, -, swA, swB, -, _, _, -, a, ⟨ha, rfl⟩, b, ⟨hb, rfl⟩, -, -,
    l₁, hburn, l₂, hout₁, l₃, hout₂, rfl, rfl⟩ := h
  obtain ⟨hp, -⟩ := hasPool_of_load hvalid hload
  have hq := (hwide.pool hp).bumpIndexes hwide.slot hbump
  have hwide₃ := ((hwide.tokenOnly (burnChecked_eq_ok hburn).1).tokenOnly
    (transferChecked_eq_ok hout₁).1).tokenOnly (transferChecked_eq_ok hout₂).1
  exact ⟨hwide₃.setData fun _ => hq.stamp hwide₃.slot,
    forall_mem_singleton_fits ⟨⟨hpool, huser⟩, hlp, ha, hb⟩⟩

theorem recomputeTrigger_lt {s : LoanSides} {c d ratio trigger : ℕ} {dir : TriggerDirection}
    (h : recomputeTrigger s c d ratio = .ok (trigger, dir)) : trigger < 2 ^ 128 := by
  cases s with
  | collateralA =>
    simp only [recomputeTrigger, Checked.bind_eq_ok, fits_eq_ok, Checked.pure_eq_ok,
      Prod.mk.injEq] at h
    obtain ⟨_, -, _, -, _, -, _, -, _, -, _, ⟨htrigger, rfl⟩, rfl, -⟩ := h
    exact htrigger
  | collateralB =>
    simp only [recomputeTrigger, Checked.bind_eq_ok, fits_eq_ok, Checked.pure_eq_ok,
      Prod.mk.injEq] at h
    obtain ⟨_, -, _, -, _, -, _, -, _, -, _, ⟨htrigger, rfl⟩, rfl, -⟩ := h
    exact htrigger

theorem bandIdForTrigger_lt {trigger b : ℕ} (ht : trigger < 2 ^ 128)
    (h : bandIdForTrigger trigger = .ok b) : b < 2 ^ 32 := by
  obtain ⟨hpos, rfl⟩ := bandIdForTrigger_eq_ok.mp h
  have hlog := (Nat.log2_lt hpos).mpr ht
  omega

theorem Ledger.Wide.allocate {band pool : Pubkey} {direction bandId bump : ℕ} (h : led.Wide rt)
    (hfits : (newBand pool direction bandId bump).Fits)
    (hrun : allocateBand rt led band pool direction bandId bump = .ok led') :
    led'.Wide rt ∧ led'.slot = led.slot := by
  rw [allocateBand] at hrun
  split at hrun
  · simp only [Checked.bind_eq_ok, Checked.pure_eq_ok] at hrun
    obtain ⟨l₁, hcreate, rfl⟩ := hrun
    have hwide := h.create (d := .band _) LoanIndexBand.fits_zeroed hcreate
    refine ⟨hwide.setData fun _ => hfits, ?_⟩
    obtain ⟨-, rfl⟩ := createPdaAccount_eq_ok.mp hcreate
    rfl
  · split at hrun
    · cases hrun
      exact ⟨h.setData fun _ => hfits, rfl⟩
    · cases hrun
      exact ⟨h, rfl⟩

theorem processOpenLoan_wide {accs : LoanAccounts} {sidesByte c d nonce : ℕ} (hrt : rt.Words)
    (hwide : led.Wide rt) (hpool : accs.pool < 2 ^ 256) (huser : accs.user < 2 ^ 256)
    (hc : c < 2 ^ 64) (hd : d < 2 ^ 64) (hnonce : nonce < 2 ^ 64)
    (h : processOpenLoan rt accs sidesByte c d nonce led = .ok (led', events)) :
    led'.Wide rt ∧ ∀ e ∈ events, e.Fits := by
  simp only [processOpenLoan, Checked.bind_eq_ok, require_eq_ok, exists_const,
    Prod.exists, Checked.pure_eq_ok] at h
  obtain ⟨-, _, hvalid, hpos, p, hload, s, hsides, realA, realB, -, q, hbump, trigger, dir,
    htrigger, accA, accB, -, swA, swB, -, -, _, -, -, hloanKey, b, hbandId, hbandKey, -, l₁,
    hcreate, l₂, halloc, x, hxload, hx, hfull, q', hmark, index, hindex, n, hcount, decimals, -, l₃,
    hin, l₄, hout, q'', hadmit, heq⟩ := h
  obtain ⟨hp, -⟩ := hasPool_of_load hvalid hload
  obtain rfl := LoanSides.fromU8_eq_ok.mp hsides
  obtain ⟨hcount32, rfl⟩ := fits_eq_ok.mp hcount
  obtain ⟨rfl, rfl⟩ := Prod.mk.inj heq
  have hsides8 : s.toU8 < 2 ^ 8 := by cases s <;> decide
  have hdir8 : dir.toU8 < 2 ^ 8 := by cases dir <;> decide
  have htrig := recomputeTrigger_lt htrigger
  have hband := bandIdForTrigger_lt htrig hbandId
  have hloan : accs.loan < 2 ^ 256 := hloanKey ▸ hrt.key _
  have hq := (hwide.pool hp).bumpIndexes hwide.slot hbump
  have hindex128 : index < 2 ^ 128 := by
    cases s with
    | collateralA => cases hindex; exact (hq.markBand hmark).borrowIndexBWad
    | collateralB => cases hindex; exact (hq.markBand hmark).borrowIndexAWad
  have hwide₁ := hwide.create (d := .loan _) Loan.fits_zeroed hcreate
  obtain ⟨hwide₂, hslot₂⟩ := hwide₁.allocate (newBand_fits hpool hdir8 hband (hrt.bump _)) halloc
  have hloanFits : (newLoan accs.pool accs.user nonce
      (rt.findProgramAddress (.loan accs.pool accs.user nonce)).2 s.toU8 c d index trigger dir.toU8
      b l₂.slot).Fits :=
    { discriminator := show loanDiscriminator < 2 ^ 64 by decide
      pool := hpool, borrower := huser, nonce := hnonce
      bump := hrt.bump _, sides := hsides8, collateralAmount := hc.trans (by norm_num)
      debtPrincipal := hd.trans (by norm_num), borrowIndexSnapshotWad := hindex128
      lastTouchSlot := hwide₂.slot, triggerPriceWad := htrig, triggerDirection := hdir8
      status := show Loan.statusOpen < 2 ^ 8 by decide, bandId := hband
      openedSlot := hwide₂.slot, closedSlot := Nat.two_pow_pos _ }
  have hwide₃ := hwide₂.setData (k := accs.loan) (d := .loan _) fun _ => hloanFits
  have hwide₄ := hwide₃.setData (k := accs.band) (d := .band (x.withCount (x.count + 1)))
    fun howner => by
      have hlive : l₂.Live rt accs.band := ⟨Ledger.setData_owner.symm.trans howner, by
        rw [Ledger.loadBand_eq_ok.mp hxload]
        exact not_blank_band hx.1⟩
      exact (hwide₂.band hlive (Ledger.loadBand_eq_ok.mp hxload)).withCount hcount32
  have hwide₆ := (hwide₄.tokenOnly (transferChecked_eq_ok hin).1).tokenOnly
    (transferChecked_eq_ok hout).1
  have hpool' := ((hq.markBand hmark).admitLoan hadmit).stamp hwide₆.slot
  exact ⟨hwide₆.setData fun _ => hpool', forall_mem_singleton_fits
    ⟨⟨hpool, hloan, huser⟩, ⟨hnonce, hsides8, hc, hd⟩, hband, hdir8, htrig⟩⟩

theorem processRepayLoan_wide {accs : LoanAccounts} (hwide : led.Wide rt)
    (hpool : accs.pool < 2 ^ 256) (huser : accs.user < 2 ^ 256) (hloan : accs.loan < 2 ^ 256)
    (h : processRepayLoan rt accs led = .ok (led', events)) :
    led'.Wide rt ∧ ∀ e ∈ events, e.Fits := by
  simp only [processRepayLoan, Checked.bind_eq_ok, require_eq_ok, exists_const, fits_eq_ok,
    Prod.exists, Checked.pure_eq_ok, Prod.mk.injEq] at h
  obtain ⟨-, _, hvalid, ⟨hloanOwner, hbandOwner⟩, p, hload, l, hl, hinit, hopen, -, x, hx, hxinit,
    -, realA, realB, -, q, hbump, index, -, owed, howed, _, ⟨howed64, rfl⟩, s, hs, c, ⟨hc, rfl⟩,
    decimals, -, l₁, hin, l₂, hout, q', hsettle, count, hcount, q'', hunmark, rfl, rfl⟩ := h
  obtain ⟨hp, -⟩ := hasPool_of_load hvalid hload
  have hldata := Ledger.loadLoan_eq_ok.mp hl
  have hxdata := Ledger.loadBand_eq_ok.mp hx
  have hlfits := hwide.loan ⟨hloanOwner, by rw [hldata]; exact not_blank_loan hinit⟩ hldata
  have hxfits := hwide.band ⟨hbandOwner, by rw [hxdata]; exact not_blank_band hxinit.1⟩ hxdata
  have hq := (hwide.pool hp).bumpIndexes hwide.slot hbump
  have hwide₂ := (hwide.tokenOnly (transferChecked_eq_ok hin).1).tokenOnly
    (transferChecked_eq_ok hout).1
  have hpool' := ((hq.settleLoan hsettle).stamp hwide₂.slot).unmarkBand hunmark
  obtain ⟨-, rfl⟩ := checkedSub_eq_ok.mp hcount
  have hxfits' := hxfits.withCount ((Nat.sub_le x.count 1).trans_lt hxfits.count)
  have hwide₃ := hwide₂.setData (k := accs.band) (d := .band _) fun _ => hxfits'
  have hwide₄ := hwide₃.setData (k := accs.loan) (d := .loan _) fun _ => Loan.fits_zeroed
  exact ⟨hwide₄.setData fun _ => hpool', forall_mem_singleton_fits
    ⟨⟨hpool, hloan, huser⟩, hlfits.debtPrincipal, howed64⟩⟩

theorem processClaimProtocolFees_wide {accs : ClaimFeesAccounts} (hwide : led.Wide rt)
    (hpool : accs.pool < 2 ^ 256) (h : processClaimProtocolFees rt accs led = .ok (led', events)) :
    led'.Wide rt ∧ ∀ e ∈ events, e.Fits := by
  simp only [processClaimProtocolFees, Checked.bind_eq_ok, require_eq_ok, exists_const] at h
  obtain ⟨_, hvalid, _, -, _, -, -, p, hload, h⟩ := h
  obtain ⟨hp, -⟩ := hasPool_of_load hvalid hload
  have hpfits := hwide.pool hp
  split at h
  · cases h
    exact ⟨hwide, fun e he => absurd he List.not_mem_nil⟩
  · simp only [Checked.bind_eq_ok, Checked.pure_eq_ok, Prod.mk.injEq] at h
    obtain ⟨decimals, -, l₁, hpayA, l₂, hpayB, rfl, rfl⟩ := h
    have hpay : ∀ {x n l l'}, l.Wide rt → payFee rt accs p l x n = .ok l' → l'.Wide rt := by
      intro x n l l' hl hrun
      rw [payFee] at hrun
      split at hrun
      · exact hl.tokenOnly (transferChecked_eq_ok hrun).1
      · cases hrun
        exact hl
    have hwide₂ := hpay (hpay hwide hpayA) hpayB
    have hclaimed := (hpfits.withFees (Nat.two_pow_pos 64) (Nat.two_pow_pos 64)).stamp hwide₂.slot
    exact ⟨hwide₂.setData fun _ => hclaimed, forall_mem_singleton_fits
      ⟨⟨hpool, by decide +kernel⟩, hpfits.protocolFeesA, hpfits.protocolFeesB⟩⟩

theorem processClaimLiquidatedRent_wide {accs : ClaimRentAccounts} (hwide : led.Wide rt)
    (hloan : accs.loan < 2 ^ 256) (huser : accs.borrower < 2 ^ 256)
    (h : processClaimLiquidatedRent rt accs led = .ok (led', events)) :
    led'.Wide rt ∧ ∀ e ∈ events, e.Fits := by
  simp only [processClaimLiquidatedRent, Checked.bind_eq_ok, require_eq_ok, exists_const,
    Checked.pure_eq_ok, Prod.mk.injEq] at h
  obtain ⟨-, howner, l, hl, hinit, -, -, rfl, rfl⟩ := h
  have hldata := Ledger.loadLoan_eq_ok.mp hl
  have hlfits := hwide.loan ⟨howner, by rw [hldata]; exact not_blank_loan hinit⟩ hldata
  exact ⟨hwide.setData fun _ => Loan.fits_zeroed,
    forall_mem_singleton_fits ⟨hlfits.pool, hloan, huser⟩⟩

theorem newPool_fits {accs : InitializeAccounts} {pb va vb lb slot : ℕ}
    (hmintA : accs.mintA < 2 ^ 256) (hmintB : accs.mintB < 2 ^ 256)
    (hvaultA : accs.vaultA < 2 ^ 256) (hvaultB : accs.vaultB < 2 ^ 256)
    (hlp : accs.lpMint < 2 ^ 256) (hpb : pb < 2 ^ 8) (hva : va < 2 ^ 8) (hvb : vb < 2 ^ 8)
    (hlb : lb < 2 ^ 8) (hslot : slot < 2 ^ 64) : (newPool accs pb va vb lb slot).Fits where
  terms :=
    { discriminator := show poolDiscriminator < 2 ^ 64 by decide
      mintA := hmintA, mintB := hmintB, vaultA := hvaultA, vaultB := hvaultB, lpMint := hlp
      authority := Nat.two_pow_pos _, poolBump := hpb, vaultABump := hva, vaultBBump := hvb
      lpMintBump := hlb, curveKind := Nat.two_pow_pos _
      swapFeeBps := show defaultSwapFeeBps < 2 ^ 16 by decide
      protocolFeeBps := show defaultProtocolFeeBps < 2 ^ 16 by decide
      liqRatioBps := show defaultLiqRatioBps < 2 ^ 16 by decide
      maxLtvBps := show defaultMaxLtvBps < 2 ^ 16 by decide
      interestBaseBpsPerYear := show defaultInterestBaseBpsPerYear < 2 ^ 16 by decide
      interestSlope1BpsPerYear := show defaultInterestSlope1BpsPerYear < 2 ^ 16 by decide
      interestSlope2BpsPerYear := show defaultInterestSlope2BpsPerYear < 2 ^ 16 by decide
      interestKinkBps := show defaultInterestKinkBps < 2 ^ 16 by decide }
  totalDebtA := Nat.two_pow_pos _
  totalDebtB := Nat.two_pow_pos _
  totalCollateralA := Nat.two_pow_pos _
  totalCollateralB := Nat.two_pow_pos _
  borrowIndexAWad := show wad < 2 ^ 128 by decide
  borrowIndexBWad := show wad < 2 ^ 128 by decide
  lastIndexUpdateSlot := hslot
  openLoans := Nat.two_pow_pos _
  nextLoanNonce := Nat.two_pow_pos _
  lastUpdateSlot := hslot
  protocolFeesA := Nat.two_pow_pos _
  protocolFeesB := Nat.two_pow_pos _
  refPriceWad := Nat.two_pow_pos _
  refPriceSlot := Nat.two_pow_pos _

theorem processInitializePool_wide {accs : InitializeAccounts} (hrt : rt.Words)
    (hwide : led.Wide rt) (hmintA : accs.mintA < 2 ^ 256) (hmintB : accs.mintB < 2 ^ 256)
    (h : processInitializePool rt accs led = .ok (led', events)) :
    led'.Wide rt ∧ ∀ e ∈ events, e.Fits := by
  simp only [processInitializePool, Checked.bind_eq_ok, require_eq_ok, exists_const,
    Checked.pure_eq_ok, Prod.mk.injEq] at h
  obtain ⟨-, _, -, _, -, -, -, _, -, _, -, hpool, hvaultA, hvaultB, hlpMint, -, l₁, hcreate, l₂,
    hvA, l₃, hvB, l₄, hlp, rfl, rfl⟩ := h
  have hvault : ∀ {l l' program mint k}, l.Wide rt →
      createVault rt l program accs.pool mint k = .ok l' → l'.Wide rt := by
    intro l l' program mint k hl hrun
    obtain ⟨-, -, _, rfl⟩ := createVault_eq_ok hrun
    exact hl.setAccount fun _ => trivial
  have hwide₁ := hwide.create (d := .pool _) Pool.fits_zeroed hcreate
  have hwide₃ := hvault (hvault hwide₁ hvA) hvB
  have hwide₄ : l₄.Wide rt := by
    obtain ⟨-, rfl⟩ := createLpMint_eq_ok hlp
    exact hwide₃.setAccount fun _ => trivial
  have hkey : ∀ {k s}, k = (rt.findProgramAddress s).1 → k < 2 ^ 256 := fun h => h ▸ hrt.key _
  have hfits := newPool_fits hmintA hmintB (hkey hvaultA) (hkey hvaultB)
    (hkey hlpMint) (hrt.bump (.pool accs.mintA accs.mintB)) (hrt.bump (.vaultA accs.pool))
    (hrt.bump (.vaultB accs.pool)) (hrt.bump (.lpMint accs.pool)) hwide₄.slot
  refine ⟨hwide₄.setData fun _ => hfits, forall_mem_singleton_fits ?_⟩
  exact ⟨⟨hkey hpool, hmintA, hmintB, Nat.two_pow_pos _⟩, by decide, by decide⟩

/-! #### Swaps -/

/-- What the cascade carries of a loan is made of words. -/
structure LoanCtx.Fits (c : LoanCtx) : Prop where
  trigger : c.triggerWad < 2 ^ 128
  collateral : c.collateral < 2 ^ 128
  debt : c.debtPrincipal < 2 ^ 128

theorem parseLoans_wide {pool prev : Pubkey} {bandId directionByte : ℕ} {keys : List Pubkey}
    {ctxs : List LoanCtx} (hwide : led.Wide rt)
    (h : parseLoans rt led pool bandId directionByte prev keys = .ok ctxs) :
    (∀ c ∈ ctxs, c.Fits) ∧ ∀ k ∈ keys, led.Live rt k := by
  induction keys generalizing prev ctxs with
  | nil =>
    cases h
    exact ⟨fun c hc => absurd hc List.not_mem_nil, fun k hk => absurd hk List.not_mem_nil⟩
  | cons key keys ih =>
    simp only [parseLoans, Checked.bind_eq_ok, require_eq_ok, exists_const,
      Checked.pure_eq_ok] at h
    obtain ⟨howner, -, l, hl, ⟨hinit, -⟩, -, -, dir, -, s, -, rest, hrest, rfl⟩ := h
    obtain ⟨hrest, hkeys⟩ := ih hrest
    have hldata := Ledger.loadLoan_eq_ok.mp hl
    have hlive : led.Live rt key := ⟨howner, by rw [hldata]; exact not_blank_loan hinit⟩
    have hlfits := hwide.loan hlive hldata
    exact ⟨List.forall_mem_cons.mpr ⟨⟨hlfits.triggerPriceWad, hlfits.collateralAmount,
      hlfits.debtPrincipal⟩, hrest⟩, List.forall_mem_cons.mpr ⟨hlive, hkeys⟩⟩

theorem parseTail_wide {pool : Pubkey} {directionByte : ℕ} {ids ks : List ℕ}
    {tail : List Pubkey} {context : Context} (hwide : led.Wide rt)
    (h : parseTail rt led pool directionByte ids ks tail = .ok context) :
    (∀ c ∈ context.loans, c.Fits) ∧
      ∀ b ∈ context.bands, led.Live rt b.band ∧ ∀ k ∈ b.loans, led.Live rt k ∧ k ∈ tail := by
  induction ks generalizing ids tail context with
  | nil =>
    simp only [parseTail, Checked.bind_eq_ok, Checked.pure_eq_ok] at h
    obtain ⟨_, -, rfl⟩ := h
    exact ⟨fun c hc => absurd hc List.not_mem_nil, fun b hb => absurd hb List.not_mem_nil⟩
  | cons k ks ih =>
    cases tail with
    | nil => cases h
    | cons key tail =>
      simp only [parseTail, Checked.bind_eq_ok, Checked.pure_eq_ok] at h
      obtain ⟨_, -, band, hband, loans, hloans, rest, hrest, rfl⟩ := h
      obtain ⟨hctxs, hlive⟩ := parseLoans_wide hwide hloans
      obtain ⟨hrestCtxs, hrestBands⟩ := ih hrest
      simp only [parseBand, Checked.bind_eq_ok, require_eq_ok, exists_const] at hband
      obtain ⟨howner, x, hx, ⟨hinit, -⟩, -⟩ := hband
      have hxlive : led.Live rt key := ⟨howner, by
        rw [Ledger.loadBand_eq_ok.mp hx]
        exact not_blank_band hinit⟩
      refine ⟨List.forall_mem_append.mpr ⟨hctxs, hrestCtxs⟩, List.forall_mem_cons.mpr ⟨?_, ?_⟩⟩
      · exact ⟨hxlive, fun j hj => ⟨hlive j hj, List.mem_cons_of_mem _ (List.mem_of_mem_take hj)⟩⟩
      · intro b hb
        obtain ⟨hb, hbloans⟩ := hrestBands b hb
        exact ⟨hb, fun j hj => ⟨(hbloans j hj).1,
          List.mem_cons_of_mem _ (List.mem_of_mem_drop (hbloans j hj).2)⟩⟩

theorem markNextTriggered_fits {price : ℕ} {ctxs ctxs' : List LoanCtx} {hit : LoanCtx}
    (hctxs : ∀ c ∈ ctxs, c.Fits) (h : markNextTriggered price ctxs = some (hit, ctxs')) :
    ∀ c ∈ ctxs', c.Fits := by
  induction ctxs generalizing ctxs' with
  | nil => cases h
  | cons c ctxs ih =>
    obtain ⟨hc, hcs⟩ := List.forall_mem_cons.mp hctxs
    rw [markNextTriggered] at h
    split at h
    · obtain ⟨rfl, rfl⟩ := Prod.mk.inj (Option.some.inj h)
      exact List.forall_mem_cons.mpr ⟨⟨hc.trigger, hc.collateral, hc.debt⟩, hcs⟩
    · obtain ⟨⟨hit', rest⟩, hrest, heq⟩ := Option.map_eq_some_iff.mp h
      obtain ⟨rfl, rfl⟩ := Prod.mk.inj heq
      exact List.forall_mem_cons.mpr ⟨hc, ih hcs hrest⟩

/-- The loop keeps the pool and the loans it carries within their words. Induction on the
liquidations left under the cap. -/
theorem cascade_wide {t : SwapTerms} {remaining : ℕ} {st : CascadeState} {r : Settled}
    (hpool : st.pool.Fits) (hctxs : ∀ c ∈ st.loans, c.Fits)
    (h : cascade t remaining st = .ok r) :
    r.state.pool.Fits ∧ (∀ c ∈ r.state.loans, c.Fits) ∧ r.liqCount ≤ maxLiqPerSwap := by
  induction remaining generalizing st with
  | zero =>
    rw [cascade] at h
    simp only [Checked.bind_eq_ok, Prod.exists] at h
    obtain ⟨out, price, -, h⟩ := h
    split at h
    · cases h
      exact ⟨hpool, hctxs, Nat.sub_le _ _⟩
    · cases h
  | succ remaining ih =>
    rw [cascade] at h
    simp only [Checked.bind_eq_ok, Prod.exists] at h
    obtain ⟨out, price, -, h⟩ := h
    split at h
    · cases h
      exact ⟨hpool, hctxs, Nat.sub_le _ _⟩
    · rename_i hit loans hhit
      simp only [liquidateRound, Checked.bind_eq_ok, Prod.exists, Checked.pure_eq_ok] at h
      obtain ⟨st', ⟨p, hsettle, a, b, -, rfl⟩, hrest⟩ := h
      exact ih (hpool.settleLoan hsettle) (markNextTriggered_fits hctxs hhit) hrest

/-- Tombstones fit, and so do the events about them. -/
theorem tombstoneLoans_wide {ctxs : List LoanCtx} {keys : List Pubkey} {n : ℕ}
    (hwide : led.Wide rt) (hctxs : ∀ c ∈ ctxs, c.Fits) (hlive : ∀ k ∈ keys, led.Live rt k)
    (hkeys : ∀ k ∈ keys, k < 2 ^ 256)
    (h : tombstoneLoans ctxs keys led = .ok (led', n, events)) :
    led'.Wide rt ∧ (∀ j, led.Live rt j → led'.Live rt j) ∧ ∀ e ∈ events, e.Fits := by
  induction keys generalizing led n events with
  | nil =>
    cases h
    exact ⟨hwide, fun _ hj => hj, fun e he => absurd he List.not_mem_nil⟩
  | cons key keys ih =>
    obtain ⟨hkey, hlive⟩ := List.forall_mem_cons.mp hlive
    obtain ⟨hkey256, hkeys⟩ := List.forall_mem_cons.mp hkeys
    simp only [tombstoneLoans, Checked.bind_eq_ok] at h
    obtain ⟨c, hc, h⟩ := h
    split at h
    · simp only [Checked.bind_eq_ok, Prod.exists, Checked.pure_eq_ok, Prod.mk.injEq] at h
      obtain ⟨l, hl, l₁, m, es, hrest, rfl, rfl, rfl⟩ := h
      have hldata := Ledger.loadLoan_eq_ok.mp hl
      have hlfits := hwide.loan hkey hldata
      have hlive' : ¬ (AccountData.loan l).Blank := hldata ▸ hkey.data
      have hcfits := hctxs c (List.mem_of_find?_eq_some (Checked.ofOption_eq_ok.mp hc))
      have htomb : ¬ (AccountData.loan (l.tombstone led.slot)).Blank := hlive'
      obtain ⟨hwide', hkept, hes⟩ := ih
        (hwide.setData (k := key) (d := .loan (l.tombstone led.slot))
          fun _ => hlfits.tombstone hwide.slot)
        (fun j hj => (hlive j hj).setData htomb) hkeys hrest
      refine ⟨hwide', fun j hj => hkept j (hj.setData htomb), List.forall_mem_cons.mpr ⟨?_, hes⟩⟩
      exact ⟨⟨hlfits.pool, hkey256, hlfits.borrower⟩, by cases c.sides <;> decide,
        hcfits.collateral, hcfits.debt, hcfits.trigger⟩
    · exact ih hwide hlive hkeys h

theorem persistLiquidations_wide {ctxs : List LoanCtx} {directionByte : ℕ} {bands : List BandCtx}
    {p p' : Pool} (hwide : led.Wide rt) (hpool : p.Fits) (hctxs : ∀ c ∈ ctxs, c.Fits)
    (hlive : ∀ b ∈ bands, led.Live rt b.band ∧ ∀ k ∈ b.loans, led.Live rt k)
    (hkeys : ∀ b ∈ bands, ∀ k ∈ b.loans, k < 2 ^ 256)
    (h : persistLiquidations ctxs directionByte bands led p = .ok (led', p', events)) :
    led'.Wide rt ∧ p'.Fits ∧ ∀ e ∈ events, e.Fits := by
  induction bands generalizing led p events with
  | nil =>
    cases h
    exact ⟨hwide, hpool, fun e he => absurd he List.not_mem_nil⟩
  | cons b bands ih =>
    obtain ⟨⟨hb, hbloans⟩, hlive⟩ := List.forall_mem_cons.mp hlive
    obtain ⟨hbkeys, hkeys⟩ := List.forall_mem_cons.mp hkeys
    simp only [persistLiquidations, Checked.bind_eq_ok, Prod.exists] at h
    obtain ⟨x, hx, l₁, n, es, htomb, h⟩ := h
    obtain ⟨hwide₁, hlive₁, hes⟩ := tombstoneLoans_wide hwide hctxs hbloans hbkeys htomb
    have hlive' : ∀ b ∈ bands, l₁.Live rt b.band ∧ ∀ k ∈ b.loans, l₁.Live rt k := fun b hb =>
      ⟨hlive₁ _ (hlive b hb).1, fun k hk => hlive₁ k ((hlive b hb).2 k hk)⟩
    split at h
    · exact ih hwide₁ hpool hlive' hkeys h
    · simp only [Checked.bind_eq_ok, Prod.exists, Checked.pure_eq_ok, Prod.mk.injEq] at h
      obtain ⟨count, hcount, q, hunmark, l₂, q', es', hrest, rfl, rfl, rfl⟩ := h
      obtain ⟨-, rfl⟩ := checkedSub_eq_ok.mp hcount
      have hxdata := Ledger.loadBand_eq_ok.mp hx
      have hxfits := (hwide.band hb hxdata).withCount
        ((Nat.sub_le x.count n).trans_lt (hwide.band hb hxdata).count)
      have hxlive : ¬ (AccountData.band (x.withCount (x.count - n))).Blank := by
        have hdata := hb.data
        rwa [hxdata] at hdata
      obtain ⟨hwide', hq', hes'⟩ := ih
        (hwide₁.setData (k := b.band) (d := .band (x.withCount (x.count - n))) fun _ => hxfits)
        (hpool.unmarkBand hunmark)
        (fun c hc => ⟨(hlive' c hc).1.setData hxlive, fun k hk =>
          ((hlive' c hc).2 k hk).setData hxlive⟩) hkeys hrest
      exact ⟨hwide', hq', List.forall_mem_append.mpr ⟨hes, hes'⟩⟩

theorem protocolPortion_lt {p : Pool} {amountIn portion : ℕ}
    (h : p.protocolPortion amountIn = .ok portion) : portion < 2 ^ 64 := by
  rw [Pool.protocolPortion] at h
  split at h
  · cases h
    exact Nat.two_pow_pos _
  · obtain ⟨hlt, rfl⟩ := fits_eq_ok.mp h
    exact hlt

theorem checkContext_wide {pool : Pubkey} {p : Pool} {aToB : Bool} {bandBoundary : ℕ}
    {counts : List ℕ} {tail : List Pubkey} {context : Context} (hwide : led.Wide rt)
    (h : checkContext rt led pool p aToB bandBoundary counts tail = .ok context) :
    (∀ c ∈ context.loans, c.Fits) ∧
      ∀ b ∈ context.bands, led.Live rt b.band ∧ ∀ k ∈ b.loans, led.Live rt k ∧ k ∈ tail := by
  simp only [checkContext, Checked.bind_eq_ok, Checked.pure_eq_ok] at h
  obtain ⟨_, htail, _, -, rfl⟩ := h
  exact parseTail_wide hwide htail

theorem processSwap_wide {accs : SwapAccounts} {amountIn minOut bandBoundary : ℕ} {aToB : Bool}
    {counts : List ℕ} (hwide : led.Wide rt) (hpool : accs.pool < 2 ^ 256)
    (huser : accs.user < 2 ^ 256) (htail : ∀ k ∈ accs.tail, k < 2 ^ 256)
    (hin : amountIn < 2 ^ 64)
    (h : processSwap rt accs amountIn minOut aToB bandBoundary counts led = .ok (led', events)) :
    led'.Wide rt ∧ ∀ e ∈ events, e.Fits := by
  simp only [processSwap, Checked.bind_eq_ok, require_eq_ok, exists_const, Prod.exists,
    Checked.pure_eq_ok, Prod.mk.injEq] at h
  obtain ⟨-, _, hvalid, -, p, hload, context, hcontext, decimals, -, realA, realB, -, q, hbump,
    accA, accB, -, -, q₁, hsample, -, portion, hportion, settled, hcascade, -, out, hout, -,
    swA, swB, -, -, q₂, haccrue, final, -, _, -, l₁, q₃, log, hpersist, l₂, hmoves, rfl, rfl⟩ := h
  obtain ⟨hp, -⟩ := hasPool_of_load hvalid hload
  obtain ⟨hout64, rfl⟩ := fits_eq_ok.mp hout
  obtain ⟨hctxs, hbands⟩ := checkContext_wide hwide hcontext
  have hq₁ := ((hwide.pool hp).bumpIndexes hwide.slot hbump).sampleRefPrice hwide.slot hsample
  obtain ⟨hsettled, hmarked, hcount⟩ := cascade_wide hq₁ hctxs hcascade
  obtain ⟨hwide₁, hq₃, hlog⟩ := persistLiquidations_wide hwide (hsettled.accrueFee haccrue)
    hmarked (fun b hb => ⟨(hbands b hb).1, fun k hk => ((hbands b hb).2 k hk).1⟩)
    (fun b hb k hk => htail k ((hbands b hb).2 k hk).2) hpersist
  have hwide₂ := hwide₁.tokenOnly (swapTransfers_tokenOnly hmoves)
  have hcount32 : settled.liqCount < 2 ^ 32 := hcount.trans_lt (by decide)
  exact ⟨hwide₂.setData fun _ => hq₃.stamp hwide₂.slot, List.forall_mem_append.mpr
    ⟨hlog, forall_mem_singleton_fits
      ⟨⟨hpool, huser⟩, hin, hout64, hcount32, protocolPortion_lt hportion⟩⟩⟩

end Instructions

/-! ### The dispatch -/

/-- **Widths.** An accepted instruction leaves every record within its layout, and all that it
logs within the layouts of the events. -/
theorem processInstruction_wide {rt : Runtime} {led led' : Ledger} {events : List Event}
    {i : Instruction} (hrt : rt.Words) (hwide : led.Wide rt) (hi : i.Fits)
    (h : processInstruction rt i led = .ok (led', events)) :
    led'.Wide rt ∧ ∀ e ∈ events, e.Fits := by
  obtain ⟨hkeys, hargs⟩ := hi
  cases i with
  | initializePool accs =>
    simp only [Instruction.metas, List.forall_mem_cons] at hkeys
    obtain ⟨-, hmintA, hmintB, -⟩ := hkeys
    exact processInitializePool_wide hrt hwide hmintA hmintB h
  | addLiquidity accs maxA maxB minLp =>
    simp only [Instruction.metas, List.forall_mem_cons] at hkeys
    obtain ⟨hpool, -, -, -, -, -, -, huser, -⟩ := hkeys
    exact processAddLiquidity_wide hwide hpool huser h
  | removeLiquidity accs lpAmount minA minB =>
    simp only [Instruction.metas, List.forall_mem_cons] at hkeys
    obtain ⟨hpool, -, -, -, -, -, -, huser, -⟩ := hkeys
    exact processRemoveLiquidity_wide hwide hpool huser hargs.1 h
  | openLoan accs sides c d nonce =>
    simp only [Instruction.metas, List.forall_mem_cons] at hkeys
    obtain ⟨hpool, -, -, -, -, -, -, huser, -⟩ := hkeys
    obtain ⟨-, hc, hd, hnonce⟩ := hargs
    exact processOpenLoan_wide hrt hwide hpool huser hc hd hnonce h
  | repayLoan accs =>
    simp only [Instruction.metas, List.forall_mem_cons] at hkeys
    obtain ⟨hpool, -, -, -, -, -, -, huser, hloan, -⟩ := hkeys
    exact processRepayLoan_wide hwide hpool huser hloan h
  | claimProtocolFees accs =>
    simp only [Instruction.metas, List.forall_mem_cons] at hkeys
    exact processClaimProtocolFees_wide hwide hkeys.1 h
  | claimLiquidatedRent accs =>
    simp only [Instruction.metas, List.forall_mem_cons] at hkeys
    exact processClaimLiquidatedRent_wide hwide hkeys.1 hkeys.2.1 h
  | swap accs amountIn minOut aToB bandBoundary counts =>
    simp only [Instruction.metas, List.forall_mem_append, List.forall_mem_cons,
      List.forall_mem_map] at hkeys
    obtain ⟨⟨hpool, -, -, -, -, -, -, huser, -⟩, htail⟩ := hkeys
    exact processSwap_wide hwide hpool huser htail hargs.1 h

end ChiefLiquidity
