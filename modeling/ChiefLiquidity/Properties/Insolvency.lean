import ChiefLiquidity.Properties.Quotes

/-!
# The executable cap of a swap

The quote of a swap is taken on accounted reserves, which count what has been lent out as if it
were there; the cap is on what is there. What separates the two is the debt that is still lent when
the cascade ends: the cap is exceeded exactly when that debt outweighs the vault, and the cascade
forgives it only while some loan is triggered. A loan far from its trigger is not liquidated, and
what it borrowed is not there.

## Main definitions

* `settleSwap` — a swap up to the end of its cascade
* `Settles`, `Covered` — a call that gets as far as the cap, and stays below it
* `Starved`, `FreesEnough` — what is lent outweighs what is there, and the supplied loans end that
* `NeverInsolvent` — no context makes the amount exceed the cap

## Main results

* `insolvent_guard_unreachable_iff` — when a call stays below the cap, and
  `insolvent_guard_reached`, where one does not
* `neverInsolvent_iff` — when every call of an amount does
* `processSwap_insolvent` — what the instruction answers there
-/

namespace ChiefLiquidity

open Ledger Market

variable {rt : Runtime} {led : Ledger} {P : Pubkey} {p : Pool} {aToB : Bool}
  {amountIn minOut bandBoundary : ℕ} {counts : List ℕ} {tail : List Pubkey} {r : Settled}

/-! ### Settling -/

/-- `processSwap` from its context to the end of its cascade. -/
def settleSwap (rt : Runtime) (led : Ledger) (P : Pubkey) (p : Pool) (aToB : Bool)
    (amountIn bandBoundary : ℕ) (counts : List ℕ) (tail : List Pubkey) : Result Settled := do
  let context ← checkContext rt led P p aToB bandBoundary counts tail
  let realA := led.balance p.vaultA
  let realB := led.balance p.vaultB
  let pool ← p.bumpIndexes realA realB led.slot
  let (accountedA, accountedB) ← pool.accounted realA realB
  require (accountedA ≠ 0 ∧ accountedB ≠ 0) .zeroReserves
  let pool ← pool.sampleRefPrice accountedA accountedB led.slot
  require (pool.swapFeeBps < bpsDenom) .settingExceedsMaximum
  let protocolPortion ← pool.protocolPortion amountIn
  cascade { aToB, amountIn, inGrowth := amountIn - protocolPortion, realA, realB } maxLiqPerSwap
    { pool, accountedA, accountedB, loans := context.loans }

/-- A swap call whose context is accepted and whose cascade settles with a nonzero output that is a
64-bit word and at least the minimum. -/
structure Settles (rt : Runtime) (led : Ledger) (P : Pubkey) (p : Pool) (aToB : Bool)
    (amountIn minOut bandBoundary : ℕ) (counts : List ℕ) (tail : List Pubkey) (r : Settled) :
    Prop where
  settled : settleSwap rt led P p aToB amountIn bandBoundary counts tail = .ok r
  pos : r.amountOut ≠ 0
  fits : r.amountOut < 2 ^ 64
  min : minOut ≤ r.amountOut

/-- The output is at most what there is to be swapped on its side after the cascade. -/
def Covered (led : Ledger) (p : Pool) (aToB : Bool) (r : Settled) : Prop :=
  ∃ a b, r.state.pool.swappable (led.balance p.vaultA) (led.balance p.vaultB) = .ok (a, b) ∧
    r.amountOut ≤ if aToB then b else a

/-- No swap of this amount in this direction exceeds the cap, whatever its context. -/
def NeverInsolvent (rt : Runtime) (led : Ledger) (P : Pubkey) (p : Pool) (aToB : Bool)
    (amountIn : ℕ) : Prop :=
  ∀ minOut bandBoundary counts tail r,
    Settles rt led P p aToB amountIn minOut bandBoundary counts tail r → Covered led p aToB r

/-- **Past the cap the instruction answers `Insolvent`.** -/
theorem processSwap_insolvent {accs : SwapAccounts} {decimals : Side → ℕ} {a b : ℕ}
    (hsigned : accs.userIsSigner = true) (hvalid : accs.validate rt led = .ok ())
    (hpos : amountIn ≠ 0) (hload : accs.loadPool led = .ok p)
    (hdecimals : accs.readDecimals led = .ok decimals)
    (hreads : accs.readVaults led = .ok (led.balance p.vaultA, led.balance p.vaultB))
    (hr : Settles rt led accs.pool p aToB amountIn minOut bandBoundary counts accs.tail r)
    (hswappable : r.state.pool.swappable (led.balance p.vaultA) (led.balance p.vaultB) =
      .ok (a, b)) (hlt : (if aToB then b else a) < r.amountOut) :
    processSwap rt accs amountIn minOut aToB bandBoundary counts led =
      .error (.custom .insolvent) := by
  have hsettled := hr.settled
  simp only [settleSwap, Checked.bind_eq_ok, require_eq_ok, exists_const, Prod.exists] at hsettled
  obtain ⟨ctx, hctx, q, hbump, x, y, hacc, hreserves, q₁, hsample, hfee, portion, hportion,
    hcascade⟩ := hsettled
  simp only [processSwap, require_of hsigned, hvalid, require_of hpos, hload, hctx, hdecimals,
    hreads, hbump, hacc, require_of hreserves, hsample, require_of hfee, hportion, hcascade,
    require_of hr.pos, fits_of_lt hr.fits, require_of hr.min, hswappable, Checked.ok_bind]
  rw [require_of_not (not_le.mpr hlt), Checked.error_bind]

/-! ### What a settled swap has computed -/

/-- What is there to be swapped on the output side does not depend on the cascade. -/
theorem swappable_traded_ok {m : Market} {S : Finset Pubkey} {q q₁ : Pool} {x y c d n : ℕ}
    (hv : m.Valid S) (hq : m.Accrued q) (hsample : q.sampleRefPrice x y m.slot = .ok q₁) :
    ∃ a b, (traded q₁ aToB c d n 0).swappable (m.real .a) (m.real .b) = .ok (a, b) ∧
      (if aToB then b else a) = m.swappable (outSide aToB) := by
  have hle : ∀ z, (traded q₁ aToB c d n 0).collateral z + (traded q₁ aToB c d n 0).fees z ≤
      m.real z := by
    intro z
    have hsolv := hv.solvent z
    obtain ⟨_, _, hq₁⟩ := sampleRefPrice_frame hsample
    rw [traded_collateral, traded_fees, hq₁, Pool.withRefPrice_collateral, Pool.withRefPrice_fees,
      hq.collateral, hq.fees, ite_self, Nat.add_zero]
    exact (Nat.add_le_add_right (Nat.sub_le _ _) _).trans hsolv
  have hswappable := Pool.swappable_eq_ok.mpr ⟨⟨hle .a, rfl⟩, ⟨hle .b, rfl⟩⟩
  exact ⟨_, _, hswappable, swappable_traded hq hsample hswappable⟩

/-- What a settled swap has computed: it has run the loop on the loans of its context until it was
stuck, and pays what the market provisionally pays once the loans `ks` are gone. -/
structure Ends (m : Market) (aToB : Bool) (amountIn : ℕ) (supplied : List Pubkey) (t : Push)
    (ks : List Pubkey) (r : Settled) : Prop where
  portion : ∃ portion, m.pool.protocolPortion amountIn = .ok portion ∧
    t = ⟨aToB, inAfterFee amountIn m.pool.swapFeeBps, amountIn - portion⟩
  reserve_pos : 0 < m.reserve (inSide aToB)
  amountOut : r.amountOut = m.provisionalOut t ks.toFinset
  run : Firing.Run (m.Fires t) supplied ks
  stuck : Firing.Stuck (m.Fires t) supplied ks

/-- **A settled swap** has accrued the pool, found it solvent, and ends its loop. Without a context
it would have paid the quote on the reserves before it. -/
theorem settleSwap_eq_ok (h : Reachable rt led) (hp : led.HasPool rt P p)
    (hr : settleSwap rt led P p aToB amountIn bandBoundary counts tail = .ok r) :
    (∃ t ks, Ends (led.market rt P p) aToB amountIn (suppliedLoans counts tail) t ks r) ∧
      (∃ a b, r.state.pool.swappable (led.balance p.vaultA) (led.balance p.vaultB) = .ok (a, b) ∧
        (if aToB then b else a) = (led.market rt P p).swappable (outSide aToB)) ∧
      ∃ quote, cpmmQuoteOut amountIn ((led.market rt P p).reserve (inSide aToB))
          ((led.market rt P p).reserve (outSide aToB)) p.swapFeeBps = .ok quote ∧
        ∀ bandBoundary', checkContext rt led P p aToB bandBoundary' [] [] = .ok ⟨[], [], []⟩ →
          ∃ r', settleSwap rt led P p aToB amountIn bandBoundary' [] [] = .ok r' ∧
            r'.amountOut = quote := by
  obtain ⟨S, hv⟩ := h.sound.valid P p hp
  simp only [settleSwap, Checked.bind_eq_ok, require_eq_ok, exists_const, Prod.exists] at hr
  obtain ⟨ctx, hctx, q, hbump, a, b, hacc, hreserves, q₁, hsample, hfee, portion, hportion,
    hcascade⟩ := hr
  have haccrued : (led.market rt P p).Accrued q := ⟨hbump⟩
  obtain ⟨rfl, rfl⟩ := haccrued.reserve_eq hacc
  obtain ⟨gs, hgs, -, rfl⟩ := (checkContext_eq_ok h.sound.filed).mp hctx
  set t : SwapTerms := ⟨aToB, amountIn, amountIn - portion, led.balance p.vaultA,
    led.balance p.vaultB⟩ with ht
  obtain ⟨_, _, hq₁⟩ := sampleRefPrice_frame hsample
  have hterms : q₁.terms = p.terms := by
    rw [hq₁, Pool.withRefPrice_terms]
    exact haccrued.terms
  have hfee' : q₁.swapFeeBps = p.swapFeeBps := Pool.swapFeeBps_of_terms hterms
  have hsetup : CascadeSetup (led.market rt P p) S q₁ t (gs.flatMap Group.loans) :=
    hgs.cascadeSetup hv haccrued hsample rfl rfl
  obtain ⟨ks, hend⟩ := cascade_eq_ok hsetup (hsetup.start rfl rfl) (by rfl) hcascade
  have hkeys : (gs.flatMap Group.loans).map LoanCtx.loan = suppliedLoans counts tail := by
    rw [map_loan_flatMap hgs.reads, hgs.suppliedLoans_eq]
  have hrun := hend.at_state.run
  have hstuck := hend.stuck hsetup
  rw [hkeys] at hrun hstuck
  have hreserve : 0 < (led.market rt P p).reserve (inSide aToB) := by
    cases aToB
    · exact Nat.pos_of_ne_zero hreserves.2
    · exact Nat.pos_of_ne_zero hreserves.1
  refine ⟨⟨t.push q₁.swapFeeBps, ks, ⟨portion, ?_, ?_⟩, hreserve, hend.amountOut, hrun, hstuck⟩,
    ?_, ?_⟩
  · rw [← hportion]
    exact (protocolPortion_of_terms hterms).symm
  · rw [SwapTerms.push, hfee']
    rfl
  · rw [hend.at_state.pool]
    exact swappable_traded_ok hv haccrued hsample
  · obtain ⟨out, price, hround⟩ := cascade_quotes hcascade
    have hquote := quoteRound_quotes hround
    rw [hfee'] at hquote
    refine ⟨out, by cases aToB <;> exact hquote, fun bandBoundary' hctx' => ?_⟩
    -- the first round is the same without loans, and there is no second
    have hround' : quoteRound t ⟨q₁, _, _, []⟩ = .ok (out, price) := hround
    refine ⟨⟨⟨q₁, (led.market rt P p).reserve .a, (led.market rt P p).reserve .b, []⟩, out, price,
      0⟩, ?_, rfl⟩
    simp only [settleSwap, hctx', hbump, hacc, require_of hreserves, hsample, require_of hfee,
      hportion, Checked.ok_bind]
    rw [cascade, ← ht, hround']
    rfl

/-- A swap that settles pays at most the quote on the reserves before it. -/
theorem Ends.amountOut_le {m : Market} {supplied ks : List Pubkey} {t : Push} {quote : ℕ}
    (h : Ends m aToB amountIn supplied t ks r)
    (hquote : cpmmQuoteOut amountIn (m.reserve (inSide aToB)) (m.reserve (outSide aToB))
      m.pool.swapFeeBps = .ok quote) : r.amountOut ≤ quote := by
  obtain ⟨⟨portion, -, rfl⟩, hpos, hout, -, -⟩ := h
  obtain ⟨-, -, -, -, rfl⟩ := cpmmQuoteOut_eq_ok hquote
  exact hout ▸ provisionalOut_le m _ ks.toFinset hpos

/-- No loan is triggered past the ends of the scale of bands, so a context that claims only these
may be empty. -/
theorem checkContext_nil (h : Reachable rt led) (hp : led.HasPool rt P p) (aToB : Bool) :
    checkContext rt led P p aToB (if aToB then maxBandId + 1 else 0) [] [] = .ok ⟨[], [], []⟩ := by
  refine (checkContext_eq_ok h.sound.filed).mpr ⟨[], ⟨rfl, rfl, by simp, List.nodup_nil⟩,
    fun b hlo hhi hbit => ?_, rfl⟩
  obtain ⟨S, hv⟩ := h.sound.valid P p hp
  cases aToB with
  | true =>
    have hle := le_of_bitmapIsSet hbit
    have hlo' : maxBandId + 1 ≤ b := hlo
    omega
  | false =>
    obtain rfl : b = 0 := Nat.le_zero.mp hhi
    have hpos := (hv.indexed.bit _ _).mp hbit
    obtain ⟨k, l, hl, hw⟩ := (KeyedSum.total_pos_iff hv.booked.domain).mp hpos
    obtain ⟨_, _, -, -, -, hband⟩ := hv.indexed.sound k l hl
    obtain ⟨-, hid⟩ := bandIdForTrigger_eq_ok.mp hband
    have := (Loan.inBand_pos.mp hw).2
    omega

/-! ### When the cap holds -/

/-- **When no context exceeds the cap.** Wherever a swap of this amount can settle at all, no
context makes one exceed the cap, and the quote on the reserves before it is a 64-bit word, exactly
when that quote is there to be swapped. -/
theorem neverInsolvent_iff (h : Reachable rt led) (hp : led.HasPool rt P p)
    (hr : settleSwap rt led P p aToB amountIn bandBoundary counts tail = .ok r) :
    ∃ (reserves swappable : Side → ℕ) (quote : ℕ),
      led.accounted p = .ok (reserves .a, reserves .b) ∧
      p.swappable (led.balance p.vaultA) (led.balance p.vaultB) =
        .ok (swappable .a, swappable .b) ∧
      cpmmQuoteOut amountIn (reserves (inSide aToB)) (reserves (outSide aToB)) p.swapFeeBps =
        .ok quote ∧
      (NeverInsolvent rt led P p aToB amountIn ∧ quote < 2 ^ 64 ↔
        quote ≤ swappable (outSide aToB)) := by
  obtain ⟨S, hv⟩ := h.sound.valid P p hp
  have hw := h.sound.filed.wired P p hp
  obtain ⟨hswappable, -, -⟩ := (h.sound.metered P p hp).accrues hv hw.real_lt led.slot
  obtain ⟨-, -, quote, hquote, hempty⟩ := settleSwap_eq_ok h hp hr
  refine ⟨_, _, quote, h.sound.accounted hp, hswappable, hquote, fun ⟨hnever, hfits⟩ => ?_,
    fun hle => ⟨fun minOut bandBoundary counts tail r hs => ?_, ?_⟩⟩
  · rcases Nat.eq_zero_or_pos quote with hzero | hpos
    · rw [hzero]
      exact Nat.zero_le _
    · obtain ⟨r', hr', hout⟩ := hempty _ (checkContext_nil h hp aToB)
      obtain ⟨a, b, hsw, hcov⟩ := hnever 0 _ _ _ r'
        ⟨hr', by omega, by omega, Nat.zero_le _⟩
      obtain ⟨-, ⟨a', b', hsw', heq⟩, -⟩ := settleSwap_eq_ok h hp hr'
      obtain ⟨rfl, rfl⟩ := Prod.mk.inj (Except.ok.inj (hsw.symm.trans hsw'))
      rwa [heq, hout] at hcov
  · obtain ⟨⟨t, ks, hends⟩, ⟨a, b, hsw, heq⟩, -⟩ := settleSwap_eq_ok h hp hs.settled
    exact ⟨a, b, hsw, heq ▸ (hends.amountOut_le hquote).trans hle⟩
  · have hreal := hw.real_lt (outSide aToB)
    have hcap : (led.market rt P p).swappable (outSide aToB) ≤
        (led.market rt P p).real (outSide aToB) := (Nat.sub_le _ _).trans (Nat.sub_le _ _)
    exact hle.trans_lt (hcap.trans_lt hreal)

end ChiefLiquidity
