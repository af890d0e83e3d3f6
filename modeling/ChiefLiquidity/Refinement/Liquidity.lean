import ChiefLiquidity.Refinement.Opening

/-!
# Liquidity and claims refine their moves

`AddLiquidity`, `RemoveLiquidity` and `ClaimProtocolFees` make the market of their pool do a
`Deposit`, a `Withdraw` and a `ClaimFees`, and `ClaimLiquidatedRent` leaves it alone.

## The shape of a refinement

Each proof follows the instruction. Its opening gives the pool, the vaults and the accrual. The
checks in the middle become fields of the move. The transfers are replaced by what they do to the
vaults and to the supply, and the last write by the market it leaves. What remains is to compare two
records.

The accounts the user supplies are not assumed to be distinct, or to be the user's own. A payment in
comes from an account the user controls, which no vault is; a payment out may go to a vault, and the
move says how much left it.

## Main results

* `processAddLiquidity_refines`, `processRemoveLiquidity_refines`
* `processRemoveLiquidity_removed` — with the balances of the user
* `processClaimProtocolFees_refines`, `processClaimLiquidatedRent_refines`
-/

namespace ChiefLiquidity

open Ledger Market

variable {rt : Runtime} {led led' : Ledger} {P : Pubkey} {p : Pool} {events : List Event}

/-- **AddLiquidity is a deposit.** -/
theorem processAddLiquidity_refines {accs : LiquidityAccounts} {maxA maxB minLp : ℕ}
    (hfiled : Filed rt led) (huser : ¬ rt.IsPda accs.user)
    (h : processAddLiquidity rt accs maxA maxB minLp led = .ok (led', events)) :
    ∃ p p' q amount lp, PoolStep rt accs.pool led led' p p' ∧
      Deposit (led.market rt accs.pool p) q amount lp (led'.market rt accs.pool p') := by
  simp only [processAddLiquidity, Checked.bind_eq_ok, require_eq_ok, exists_const,
    fits_eq_ok, Prod.exists, Checked.pure_eq_ok, Prod.mk.injEq] at h
  obtain ⟨-, _, hvalid, -, p, hload, hlp, decimals, -, decLp, -, supply, hsupply, realA, realB,
    hreads, q, hbump, accA, accB, haccounted, _, _, _, hderive, a, ⟨-, rfl⟩, b, ⟨-, rfl⟩, lp,
    ⟨-, rfl⟩, -, l₁, hin₁, l₂, hin₂, l₃, hmint, rfl, -⟩ := h
  obtain ⟨hp, hacc, hw, rfl, rfl, haccrued⟩ := opening hfiled hvalid hload hreads hbump
  obtain ⟨rfl, rfl⟩ := haccrued.reserve_eq haccounted
  obtain rfl := supply_of_read rt accs.pool hlp hsupply
  obtain ⟨hmove₁, hbal₁, hsup₁⟩ := payIn_eq_ok hw hacc huser hin₁
  have hw₁ := hw.touched hmove₁.touched rfl
  obtain ⟨hmove₂, hbal₂, hsup₂⟩ := payIn_eq_ok hw₁ hacc huser hin₂
  have hw₂ := hw₁.touched hmove₂.touched rfl
  rw [← hlp] at hmint
  obtain ⟨hmove₃, hbal₃, hsup₃⟩ := mintLp_eq_ok hw₂ hmint
  have hmove := (hmove₁.trans hmove₂).trans hmove₃
  have hterms : (q.stamp l₃.slot).terms = p.terms := haccrued.terms
  refine ⟨p, q.stamp l₃.slot, q, fun x => if x = .a then a else b, lp,
    .of_tokenMove hp hmove hterms, haccrued, ⟨maxA, maxB, hderive⟩, ?_⟩
  refine of_tokenMove_market hp hmove (congrArg q.stamp hmove.tokenOnly.slot) (fun x => ?_) ?_ rfl
    rfl rfl
  · rw [Pool.vault_of_terms hterms, hbal₃, hbal₂, hbal₁]
    cases x <;> simp [market]
  · rw [Pool.lpMint_of_terms hterms, hsup₃, hsup₂, hsup₁]
    rfl

/-- Everything an accepted `RemoveLiquidity` does: it withdraws from the market, burns the LP and
pays the shares out of the vaults. -/
structure LiquidityRemoved (rt : Runtime) (accs : LiquidityAccounts) (lp : ℕ) (led led' : Ledger)
    (p p' q : Pool) (share : Side → ℕ) : Prop where
  step : PoolStep rt accs.pool led led' p p'
  withdraw : Withdraw (led.market rt accs.pool p) q lp share (fun x => accs.paidOut x (share x))
    (led'.market rt accs.pool p')
  accounts : p.matchesAccounts accs.toPoolAccounts = true
  balance : ∀ k, led'.balance k = moved (moved
    (fun j => if j = accs.userLp then led.balance j - lp else led.balance j)
    (accs.vault .a) (accs.userToken .a) (share .a)) (accs.vault .b) (accs.userToken .b) (share .b) k

theorem processRemoveLiquidity_removed {accs : LiquidityAccounts} {lp minA minB : ℕ}
    (hfiled : Filed rt led) (huser : ¬ rt.IsPda accs.user)
    (h : processRemoveLiquidity rt accs lp minA minB led = .ok (led', events)) :
    ∃ p p' q share, LiquidityRemoved rt accs lp led led' p p' q share := by
  simp only [processRemoveLiquidity, Checked.bind_eq_ok, require_eq_ok, exists_const,
    fits_eq_ok, Prod.exists, Checked.pure_eq_ok, Prod.mk.injEq] at h
  obtain ⟨-, _, hvalid, hlp0, p, hload, hlp, decimals, -, decLp, -, supply, hsupply, realA, realB,
    hreads, -, hle, _, hfloor, q, hbump, accA, accB, haccounted, swA, swB, hswappable, _, _,
    hshares, a, ⟨-, rfl⟩, b, ⟨-, rfl⟩, -, ⟨hcovA, hcovB⟩, l₁, hburn, l₂, hout₁, l₃, hout₂, rfl,
    -⟩ := h
  obtain ⟨hp, hacc, hw, rfl, rfl, haccrued⟩ := opening hfiled hvalid hload hreads hbump
  obtain ⟨rfl, rfl⟩ := haccrued.reserve_eq haccounted
  obtain ⟨rfl, rfl⟩ := haccrued.swappable_eq hswappable
  obtain rfl := supply_of_read rt accs.pool hlp hsupply
  rw [← hlp] at hburn
  obtain ⟨hmove₁, hbal₁, hsup₁⟩ := burnLp_eq_ok hw huser hburn
  have hw₁ := hw.touched hmove₁.touched rfl
  obtain ⟨hmove₂, -, hbal₂, hsup₂⟩ := payOut_eq_ok hw₁ hacc hout₁
  have hw₂ := hw₁.touched hmove₂.touched rfl
  obtain ⟨hmove₃, -, hbal₃, hsup₃⟩ := payOut_eq_ok hw₂ hacc hout₂
  have hmove := (hmove₁.trans hmove₂).trans hmove₃
  have hterms : (q.stamp l₃.slot).terms = p.terms := haccrued.terms
  refine ⟨p, q.stamp l₃.slot, q, fun x => if x = .a then a else b, .of_tokenMove hp hmove hterms,
    ⟨haccrued, Nat.pos_of_ne_zero hlp0, hle, hfloor, hshares, fun x => ?_,
      fun x => accs.paidOut_eq x _, ?_⟩, hacc, fun k => ?_⟩
  · cases x
    · exact hcovA
    · exact hcovB
  · refine of_tokenMove_market hp hmove (congrArg q.stamp hmove.tokenOnly.slot) (fun x => ?_) ?_ rfl
      rfl rfl
    · rw [Pool.vault_of_terms hterms, hbal₃, hbal₂, hbal₁]
      cases x <;> simp [market]
    · rw [Pool.lpMint_of_terms hterms, hsup₃, hsup₂, hsup₁]
      rfl
  · have hburned : l₁.balance = fun j =>
        if j = accs.userLp then led.balance j - lp else led.balance j :=
      funext (burnChecked_eq_ok hburn).2.2.1
    have hpaidA : l₂.balance = moved l₁.balance accs.vaultA accs.userA a :=
      funext (transferChecked_eq_ok hout₁).2.2.2.1
    rw [setPool_balance (hmove.tokenOnly.hasPool hp), (transferChecked_eq_ok hout₂).2.2.2.1 k,
      hpaidA, hburned]
    rfl

/-- **RemoveLiquidity is a withdrawal.** -/
theorem processRemoveLiquidity_refines {accs : LiquidityAccounts} {lp minA minB : ℕ}
    (hfiled : Filed rt led) (huser : ¬ rt.IsPda accs.user)
    (h : processRemoveLiquidity rt accs lp minA minB led = .ok (led', events)) :
    ∃ p p' q share, PoolStep rt accs.pool led led' p p' ∧
      Withdraw (led.market rt accs.pool p) q lp share (fun x => accs.paidOut x (share x))
        (led'.market rt accs.pool p') := by
  obtain ⟨p, p', q, share, hremoved⟩ := processRemoveLiquidity_removed hfiled huser h
  exact ⟨p, p', q, share, hremoved.step, hremoved.withdraw⟩

/-! ### Claims -/

/-- The fee recipient's token accounts are not vaults. -/
theorem Wired.vault_ne_of_owner {k : Pubkey} (hw : Wired rt led P p)
    (hread : led.readTokenOwner k = .ok protocolFeeRecipient) (x : Side) : k ≠ p.vault x := by
  rintro rfl
  obtain ⟨t, hk, howner⟩ := readTokenOwner_eq_ok.mp hread
  obtain ⟨_, t', hk', -, howner', -⟩ := hw.vault x
  rw [hk'] at hk
  cases hk
  obtain ⟨s, hs⟩ := hw.pda
  exact rt.find_ne_recipient s (hs.trans (howner'.symm.trans howner))

/-- Paying the fees of a side takes exactly these fees out of its vault. -/
theorem payFee_eq_ok {accs : PoolAccounts} {x : Side} {decimals : ℕ}
    (hw : Wired rt led accs.pool p) (hacc : p.matchesAccounts accs = true)
    (hne : accs.userToken x ≠ p.vault x) (h : payFee rt accs p led x decimals = .ok led') :
    TokenMove rt accs.pool led led' ∧ p.fees x ≤ led.balance (p.vault x) ∧
      (∀ y, led'.balance (p.vault y) =
        led.balance (p.vault y) - if y = x then p.fees x else 0) ∧
      led'.mintSupply = led.mintSupply := by
  rw [payFee] at h
  split at h
  · obtain ⟨hmove, hle, hbal, hsup⟩ := payOut_eq_ok hw hacc h
    obtain ⟨hvault, -⟩ := Pool.matchesAccounts_iff.mp hacc
    rw [accs.paidOut_of_ne (by rwa [← hvault x])] at hbal
    exact ⟨hmove, hle, hbal, hsup⟩
  · rename_i hzero
    cases h
    have h0 : p.fees x = 0 := by omega
    refine ⟨⟨.refl _, .refl _⟩, by omega, fun y => ?_, rfl⟩
    simp [h0]

/-- **ClaimProtocolFees pays out the fees**, and does nothing when there are none. -/
theorem processClaimProtocolFees_refines {accs : ClaimFeesAccounts} (hfiled : Filed rt led)
    (h : processClaimProtocolFees rt accs led = .ok (led', events)) :
    ∃ p p', PoolStep rt accs.pool led led' p p' ∧
      (led'.market rt accs.pool p' = led.market rt accs.pool p ∨
        ClaimFees (led.market rt accs.pool p) (led'.market rt accs.pool p')) := by
  simp only [processClaimProtocolFees, Checked.bind_eq_ok, require_eq_ok] at h
  obtain ⟨_, hvalid, ownerA, hownerA, ownerB, hownerB, _, ⟨rfl, rfl⟩, p, hload, h⟩ := h
  obtain ⟨hp, hacc⟩ := hasPool_of_load hvalid hload
  have hw := hfiled.wired _ _ hp
  split at h
  · cases h
    exact ⟨p, p, ⟨hp, hp, rfl, .refl _⟩, Or.inl rfl⟩
  · simp only [Checked.bind_eq_ok, Checked.pure_eq_ok, Prod.mk.injEq] at h
    obtain ⟨decimals, -, l₁, hfeeA, l₂, hfeeB, rfl, -⟩ := h
    obtain ⟨hmove₁, hleA, hbal₁, hsup₁⟩ :=
      payFee_eq_ok (x := .a) hw hacc (hw.vault_ne_of_owner hownerA .a) hfeeA
    have hw₁ := hw.touched hmove₁.touched rfl
    obtain ⟨hmove₂, hleB, hbal₂, hsup₂⟩ :=
      payFee_eq_ok (x := .b) hw₁ hacc (hw.vault_ne_of_owner hownerB .b) hfeeB
    have hmove := hmove₁.trans hmove₂
    have hterms : ((p.withFees 0 0).stamp l₂.slot).terms = p.terms := rfl
    refine ⟨p, _, .of_tokenMove hp hmove hterms, Or.inr ⟨fun x => ?_, ?_⟩⟩
    · cases x
      · exact hleA
      · rw [hbal₁, if_neg (by simp), Nat.sub_zero] at hleB
        exact hleB
    refine of_tokenMove_market hp hmove (congrArg (p.withFees 0 0).stamp hmove.tokenOnly.slot)
      (fun x => ?_) ?_ rfl rfl rfl
    · rw [Pool.vault_of_terms hterms, hbal₂, hbal₁]
      cases x <;> simp [market]
    · rw [Pool.lpMint_of_terms hterms, hsup₂, hsup₁]
      rfl

/-- ClaimLiquidatedRent moves no tokens. -/
theorem processClaimLiquidatedRent_balance {accs : ClaimRentAccounts}
    (h : processClaimLiquidatedRent rt accs led = .ok (led', events)) :
    led'.balance = led.balance := by
  simp only [processClaimLiquidatedRent, Checked.bind_eq_ok, require_eq_ok, loadLoan_eq_ok,
    Checked.pure_eq_ok, Prod.mk.injEq] at h
  obtain ⟨_, -, _, -, l, hdata, _, -, _, -, _, -, rfl, -⟩ := h
  exact balance_setData (by rw [hdata]; trivial) trivial

/-- **ClaimLiquidatedRent leaves the market of the loan's pool alone.** -/
theorem processClaimLiquidatedRent_refines {accs : ClaimRentAccounts} (hfiled : Filed rt led)
    (h : processClaimLiquidatedRent rt accs led = .ok (led', events)) :
    ∃ P p, PoolStep rt P led led' p p ∧ led'.market rt P p = led.market rt P p := by
  simp only [processClaimLiquidatedRent, Checked.bind_eq_ok, require_eq_ok, loadLoan_eq_ok,
    Checked.pure_eq_ok, Prod.mk.injEq] at h
  obtain ⟨_, -, _, howner, l, hdata, _, hinit, _, hstatus, _, -, rfl, -⟩ := h
  have hk : led.accts accs.loan = ⟨rt.programId, .loan l⟩ := by rw [← howner, ← hdata]
  obtain ⟨hpda, p, hp⟩ := hfiled.loan _ _ hk hinit
  have hne : accs.loan ≠ l.pool := fun heq => by
    rw [heq, hp.1] at hk
    cases hk
  have hzero : Loan.zeroed.isInitialized = false := rfl
  have hmove : RecordMove rt l.pool led (led.setData accs.loan (.loan Loan.zeroed)) :=
    .setData hk hne (fun _ => ⟨rfl, hpda⟩) fun hz => absurd hz (by simp [hzero])
  refine ⟨l.pool, p, ⟨hp, hmove.hasPool hp, rfl, hmove.touched⟩, market_eq rfl (fun x => ?_) ?_
    ?_ ?_ rfl⟩
  · rw [hmove.balance]
    rfl
  · rw [hmove.mintSupply]
    rfl
  · refine openLoan_setAccount_of_eq ?_
    rw [Account.openLoan_of_not_init hzero, hk, Account.openLoan_of_not_open]
    simp [Loan.isOpen, hstatus, Loan.statusLiquidated, Loan.statusOpen]
  · refine bandCount_setAccount_of_eq fun dir id => ?_
    rw [hk]
    rfl

end ChiefLiquidity
