import ChiefLiquidity.Refinement.Persist

/-!
# A swap refines its move

`Swap` makes the market of its pool do a `Trade`. The context it is handed becomes the supplied
loans of the trade, the loop its cascade, and the persisting loop the loss of the liquidated loans.

## In three parts

What happens before the loop sets it up: the context gives the supplied loans and the set of bands
that are complete, the prologue the accrued pool, the sample its reference price. The loop is
`Refinement.Cascade`. What happens after it settles: the protocol's share goes to the fees of the
input side, the liquidated loans are persisted, the input is paid in and the output paid out.

The reserves of the market after the swap are computed from the vaults, which have received the
whole input, and from a pool that counts the protocol's share as fees. So the input side grows by
the input without that share, and this is the growth the loop used for its prices.

## Main results

* `swapTransfers_eq_ok`, `accrueFee_frame`, `swappable_traded` — the stages of the settlement
* `Supplied.cascadeSetup` — the context sets the loop up
* `processSwap_refines`
-/

namespace ChiefLiquidity

open Ledger Market

variable {rt : Runtime} {led led' : Ledger} {P k : Pubkey} {p p' q : Pool} {aToB : Bool}
  {R : Finset Pubkey} {events : List Event} {dir : TriggerDirection}

/-! ### The stages -/

/-- In either direction the input is paid in, and then the output out. -/
theorem swapTransfers_stages {accs : PoolAccounts} {amountIn amountOut : ℕ} {decimals : Side → ℕ}
    (h : swapTransfers rt accs q aToB amountIn amountOut decimals led = .ok led') :
    ∃ l₁, accs.payIn rt led (inSide aToB) amountIn (decimals (inSide aToB)) = .ok l₁ ∧
      accs.payOut rt q l₁ (outSide aToB) amountOut (decimals (outSide aToB)) = .ok led' := by
  rw [swapTransfers] at h
  cases aToB <;> exact Checked.bind_eq_ok.mp h

theorem swapTransfers_tokenOnly {accs : PoolAccounts} {amountIn amountOut : ℕ}
    {decimals : Side → ℕ}
    (h : swapTransfers rt accs q aToB amountIn amountOut decimals led = .ok led') :
    TokenOnly led led' := by
  obtain ⟨l₁, hin, hout⟩ := swapTransfers_stages h
  exact (transferChecked_eq_ok hin).1.trans (transferChecked_eq_ok hout).1

/-- **The two transfers**: the input goes in, and the output goes out unless it is paid to the vault
it comes from. -/
theorem swapTransfers_eq_ok {accs : PoolAccounts} {amountIn amountOut : ℕ} {decimals : Side → ℕ}
    (hw : Wired rt led accs.pool p) (hacc : p.matchesAccounts accs = true)
    (huser : ¬ rt.IsPda accs.user)
    (h : swapTransfers rt accs q aToB amountIn amountOut decimals led = .ok led') :
    TokenMove rt accs.pool led led' ∧
      (∀ y, led'.balance (p.vault y) = led.balance (p.vault y) +
        (if y = inSide aToB then amountIn else 0) -
          if y = outSide aToB then accs.paidOut (outSide aToB) amountOut else 0) ∧
      led'.mintSupply = led.mintSupply := by
  obtain ⟨l₁, hin, hout⟩ := swapTransfers_stages h
  obtain ⟨hmove₁, hbal₁, hsup₁⟩ := payIn_eq_ok hw hacc huser hin
  obtain ⟨hmove₂, -, hbal₂, hsup₂⟩ := payOut_eq_ok (hw.touched hmove₁.touched rfl) hacc hout
  exact ⟨hmove₁.trans hmove₂, fun y => by rw [hbal₂, hbal₁], hsup₂.trans hsup₁⟩

/-- Accruing the fee adds the portion to the fees of the input side, and is all it does. -/
theorem accrueFee_frame {portion : ℕ} (h : p.accrueFee aToB portion = .ok p') :
    p' = p.withFees (p.protocolFeesA + if aToB then portion else 0)
      (p.protocolFeesB + if aToB then 0 else portion) := by
  rw [Pool.accrueFee] at h
  split at h
  · cases aToB <;>
    · simp only [Bool.false_eq_true, if_true, if_false, Checked.bind_eq_ok, fits_eq_ok,
        Checked.pure_eq_ok] at h
      obtain ⟨_, ⟨-, rfl⟩, rfl⟩ := h
      rfl
  · rename_i hzero
    cases h
    rw [Nat.eq_zero_of_not_pos hzero]
    simp [Pool.withFees]

theorem accrueFee_eq_ok {c d n portion : ℕ}
    (h : (traded p aToB c d n 0).accrueFee aToB portion = .ok p') :
    p' = traded p aToB c d n portion := by
  obtain rfl := accrueFee_frame h
  cases aToB <;> simp [traded, Pool.withFees]

/-- What the cap on the output compares with is the LP-owned part of the output vault: the loans
taken out had their collateral on the other side. -/
theorem swappable_traded {m : Market} {q₁ : Pool} {c d n a b a₁ b₁ : ℕ} (hq : m.Accrued q)
    (hsample : q.sampleRefPrice a₁ b₁ m.slot = .ok q₁)
    (h : (traded q₁ aToB c d n 0).swappable (m.real .a) (m.real .b) = .ok (a, b)) :
    (if aToB then b else a) = m.swappable (outSide aToB) := by
  obtain ⟨_, _, rfl⟩ := sampleRefPrice_frame hsample
  obtain ⟨_, _, _, rfl⟩ := hq.frame
  obtain ⟨⟨-, rfl⟩, -, rfl⟩ := Pool.swappable_eq_ok.mp h
  cases aToB <;> rfl

theorem checkBoundary_eq_ok {band boundary : ℕ} {u : Unit} :
    checkBoundary aToB band boundary = .ok u ↔
      if aToB then boundary ≤ band else band ≤ boundary := by
  rw [checkBoundary]
  cases aToB <;> simp

theorem Group.Reads.map_loan {g : Group} (h : g.Reads rt led P dir) :
    g.loans.map LoanCtx.loan = g.keys := by
  have hloans := h.loans
  generalize g.loans = ctxs at hloans
  generalize g.keys = keys at hloans
  induction hloans with
  | nil => rfl
  | cons hs _ ih => rw [List.map_cons, hs.loan, ih]

theorem Group.Reads.supplies {g : Group} (h : g.Reads rt led P dir) {c : LoanCtx}
    (hc : c ∈ g.loans) : Supplies (led.openLoan rt P) dir g.bandId c.loan c := by
  have hloans := h.loans
  generalize g.loans = ctxs at hloans hc
  generalize g.keys = keys at hloans
  induction hloans with
  | nil => cases hc
  | cons hs _ ih =>
    rcases List.mem_cons.mp hc with rfl | hc
    · exact hs.loan.symm ▸ hs
    · exact ih hc

theorem map_loan_flatMap {gs : List Group} (hreads : ∀ g ∈ gs, g.Reads rt led P dir) :
    (gs.flatMap Group.loans).map LoanCtx.loan = gs.flatMap Group.keys := by
  rw [List.map_flatMap]
  exact List.flatMap_congr fun g hg => (hreads g hg).map_loan

/-- The entries the cascade leaves know which loans are liquidated. -/
theorem flags_marked {ctxs : List LoanCtx} :
    Flags (ctxs.map (marked R)) R (ctxs.map LoanCtx.loan) := by
  intro k hk
  obtain ⟨c, hc, rfl⟩ := List.mem_map.mp hk
  have hsome : ((ctxs.map (marked R)).find? fun d => d.loan = c.loan).isSome := by
    rw [List.find?_isSome]
    exact ⟨marked R c, List.mem_map.mpr ⟨c, hc, rfl⟩, by simp⟩
  obtain ⟨d, hd⟩ := Option.isSome_iff_exists.mp hsome
  refine ⟨d, hd, ?_⟩
  obtain ⟨e, -, rfl⟩ := List.mem_map.mp (List.mem_of_find?_eq_some hd)
  have hfound := List.find?_some hd
  have hkey : e.loan = c.loan := of_decide_eq_true hfound
  simp [marked, hkey]

/-! ### The context of a swap -/

section Context

variable {m : Market} {S : Finset Pubkey} {t : SwapTerms} {counts : List ℕ} {tail : List Pubkey}
  {gs : List Group} {q₁ : Pool} {a b : ℕ} {ks : List Pubkey} {r : Settled}

/-- **The context of a swap sets its loop up.** -/
theorem Supplied.cascadeSetup (hgs : Supplied rt led P (swapDirection t.aToB) counts tail gs)
    (hv : (led.market rt P p).Valid S) (hq : (led.market rt P p).Accrued q)
    (hsample : q.sampleRefPrice a b led.slot = .ok q₁)
    (hA : t.realA = (led.market rt P p).real .a) (hB : t.realB = (led.market rt P p).real .b) :
    CascadeSetup (led.market rt P p) S q₁ t (gs.flatMap Group.loans) := by
  obtain ⟨_, _, rfl⟩ := sampleRefPrice_frame hsample
  refine ⟨hv, fun x => ?_, fun x => ?_, fun x => ?_, hA, hB, fun c hc => ?_, ?_⟩
  · rw [Pool.withRefPrice_collateral, hq.collateral]
  · rw [Pool.withRefPrice_debt, hq.debt]
  · rw [Pool.withRefPrice_fees, hq.fees]
  · obtain ⟨g, hg, hc⟩ := List.mem_flatMap.mp hc
    exact ⟨g.bandId, (hgs.reads g hg).supplies hc⟩
  · rw [map_loan_flatMap hgs.reads]
    exact suppliedKeys_nodup hgs.reads hgs.nodup

theorem Supplied.open_of_mem (hgs : Supplied rt led P dir counts tail gs)
    (hk : k ∈ suppliedKeys gs) :
    ∃ l, led.openLoan rt P k = some l ∧ l.triggerDirection = dir.toU8 := by
  obtain ⟨g, hg, hkg⟩ := mem_suppliedKeys.mp hk
  obtain ⟨l, hl, -, hdir⟩ := (hgs.reads g hg).open_of_mem hkg
  exact ⟨l, hl, hdir⟩

/-- A supplied band counts what the context supplies of it. -/
theorem Supplied.bandCount (hgs : Supplied rt led P dir counts tail gs)
    (hb : b ∈ gs.map Group.bandId) : led.bandCount rt P dir.toU8 b =
      some (KeyedSum.total (suppliedKeys gs) (led.openLoan rt P) (Loan.inBand dir.toU8 b)) := by
  obtain ⟨g, hg, rfl⟩ := List.mem_map.mp hb
  rw [total_suppliedKeys hgs.reads hgs.nodup hg, (hgs.reads g hg).count]

/-- The loans the loop liquidates are among those supplied. -/
theorem Supplied.liquidated_subset (hgs : Supplied rt led P dir counts tail gs)
    (hend : CascadeEnd m q₁ t (gs.flatMap Group.loans) ks r) : ks.toFinset ⊆ suppliedKeys gs := by
  intro k hk
  have hmem := hend.at_state.supplied (List.mem_toFinset.mp hk)
  rw [map_loan_flatMap hgs.reads] at hmem
  exact List.mem_toFinset.mpr hmem

/-- No supplied loan the loop leaves is triggered at the price it ends with. -/
theorem Supplied.settled (hgs : Supplied rt led P (swapDirection t.aToB) counts tail gs)
    (hend : CascadeEnd (led.market rt P p) q₁ t (gs.flatMap Group.loans) ks r)
    (hk : k ∈ suppliedKeys gs) (hnot : k ∉ ks) (l : Loan) :
    ¬ (led.market rt P p).Triggered t.aToB r.postPriceWad k l := by
  rintro ⟨hl, -, htrig⟩
  obtain ⟨g, hg, hkg⟩ := mem_suppliedKeys.mp hk
  obtain ⟨c, hc, l', s, hl', -, -, -, rfl⟩ := exists_of_forall₂ (hgs.reads g hg).loans hkg
  obtain rfl : l = l' := Option.some.inj (hl.symm.trans hl')
  have hmiss := hend.settled _ (List.mem_flatMap.mpr ⟨g, hg, hc⟩) hnot
  exact Bool.eq_false_iff.mp hmiss htrig

end Context

/-! ### The whole instruction -/

/-- An accepted swap with these figures, seen from the market of its pool and from its accounts. -/
structure Swapped (rt : Runtime) (accs : SwapAccounts) (f : SwapFigures) (ks : List Pubkey)
    (p p' : Pool) (led led' : Ledger) : Prop where
  step : PoolStep rt accs.pool led led' p p'
  trade : ∃ q q₁ supplied,
    Trade (led.market rt accs.pool p) q q₁ f supplied ks (led'.market rt accs.pool p')
  /-- Of the accounts that hold no tokens, only the liquidated loans, their bands and the pool
  change. -/
  records : ∃ led₁, Liquidated rt accs.pool ks.toFinset led led₁ ∧
    ∀ k, k ≠ accs.pool → (led₁.accts k).data.Plain → led'.accts k = led₁.accts k

/-- **Swap is a trade.** -/
theorem processSwap_refines {accs : SwapAccounts} {amountIn minOut bandBoundary : ℕ}
    {counts : List ℕ} (hfiled : Filed rt led) (huser : ¬ rt.IsPda accs.user)
    (hvalid : ∀ p, led.HasPool rt accs.pool p → ∃ S, (led.market rt accs.pool p).Valid S)
    (h : processSwap rt accs amountIn minOut aToB bandBoundary counts led = .ok (led', events)) :
    ∃ p p' f ks, Swapped rt accs f ks p p' led led' ∧ f.aToB = aToB ∧ f.amountIn = amountIn ∧
      f.bandBoundary = bandBoundary ∧
      f.paid = accs.paidOut (outSide aToB) f.amountOut ∧
      ∃ log, events = log ++ [.swapExecuted accs.pool accs.user aToB amountIn f.amountOut ks.length
        f.portion] := by
  simp only [processSwap, Checked.bind_eq_ok, require_eq_ok, exists_const, Prod.exists, fits_eq_ok,
    Checked.pure_eq_ok, checkContext_eq_ok hfiled, checkBoundary_eq_ok] at h
  obtain ⟨-, _, hvalidate, hpos, p, hload, _, ⟨gs, hgs, hcover, rfl⟩, decimals, -, realA, realB,
    hreads, q, hbump, accA, accB, haccounted, hreserves, q₁, hsample, -, portion, hportion, r,
    hcascade, hout, amountOut, ⟨-, rfl⟩, -, swA, swB, hswappable, hcov, q₂, haccrue, band, hband,
    hbound, led₁, q₃, log, hpersist, led₂, htransfers, heq⟩ := h
  obtain ⟨hp, hacc, hw, rfl, rfl, haccrued⟩ := opening hfiled hvalidate hload hreads hbump
  obtain ⟨rfl, rfl⟩ := haccrued.reserve_eq haccounted
  obtain ⟨S, hv⟩ := hvalid p hp
  obtain ⟨rfl, rfl⟩ := Prod.mk.inj heq
  set m := led.market rt accs.pool p with hm
  set t : SwapTerms := ⟨aToB, amountIn, amountIn - portion, m.real .a, m.real .b⟩ with ht
  have hsetup : CascadeSetup m S q₁ t (gs.flatMap Group.loans) :=
    hgs.cascadeSetup (t := t) hv haccrued hsample rfl rfl
  obtain ⟨ks, hend⟩ := cascade_eq_ok hsetup (hsetup.start rfl rfl) rfl hcascade
  have hcascade := hend.at_state.cascade
  obtain ⟨-, hloans, hpool, hseized, hforgiven, -, -⟩ := hend.at_state
  have hflags : Flags r.state.loans ks.toFinset (gs.flatMap Group.keys) := by
    rw [hloans, ← map_loan_flatMap hgs.reads]
    exact flags_marked
  obtain ⟨hliq, ⟨fall, rise, hq₃⟩, hbits⟩ := persistLiquidations_eq_ok (hfiled.bandsKeyed _)
    (fun g hg => (hgs.reads g hg).ready) hgs.nodup hflags hpersist
  rw [Finset.inter_eq_right.mpr (hgs.liquidated_subset hend)] at hliq hbits
  rw [hpool] at haccrue hswappable
  obtain rfl := accrueFee_eq_ok haccrue
  obtain ⟨ref, at', hq₁⟩ := sampleRefPrice_frame hsample
  have hterms : (q₃.stamp led₂.slot).terms = p.terms := by
    rw [hq₃, hq₁, Pool.stamp_terms, Pool.withBitmaps_terms, traded_terms, Pool.withRefPrice_terms]
    exact haccrued.terms
  have hrecord := hliq.recordMove hfiled hp
  have hp₁ := hrecord.hasPool hp
  obtain ⟨hmove, hbal, hsup⟩ := swapTransfers_eq_ok (hw.touched hrecord.touched rfl) hacc huser
    htransfers
  have hslot : led₂.slot = led.slot := hmove.tokenOnly.slot.trans hliq.slot
  have hp₂ := hmove.tokenOnly.hasPool hp₁
  have hfee : t.push q₁.swapFeeBps = SwapFigures.push ⟨aToB, amountIn, bandBoundary, portion,
      r.amountOut, r.postPriceWad, accs.paidOut (outSide aToB) r.amountOut⟩ q.swapFeeBps := by
    rw [hq₁]
    rfl
  refine ⟨p, _, ⟨aToB, amountIn, bandBoundary, portion, r.amountOut, r.postPriceWad,
    accs.paidOut (outSide aToB) r.amountOut⟩, ks, ⟨.of_touched hp
    (hrecord.touched.trans hmove.touched) hp₂ hterms, ⟨q, q₁, suppliedKeys gs, ?_⟩, led₁, hliq,
    fun k hk hplain => ?_⟩, rfl, rfl, rfl, rfl, log, by rw [hend.liqCount]⟩
  · exact {
      accrued := haccrued
      amountIn_pos := Nat.pos_of_ne_zero hpos
      reserves := hreserves
      sample := hsample
      portion := hportion
      supplied_open := fun k hk => hgs.open_of_mem hk
      covered := fun b hlo hhi hbit => hgs.bandCount (hcover b hlo hhi hbit)
      cascade := hfee ▸ hcascade
      ks_subset := hgs.liquidated_subset hend
      ks_length := hend.length_le
      price_eq := hfee ▸ hend.price
      settled := fun k hk hnot l => hgs.settled hend hk hnot l
      amountOut_eq := hfee ▸ hend.amountOut
      amountOut_pos := Nat.pos_of_ne_zero hout
      amountOut_le := swappable_traded haccrued hsample hswappable ▸ hcov
      seized_le := hseized
      forgiven_le := hforgiven
      boundary := ⟨band, hband, hbound⟩
      paid_eq := accs.paidOut_eq _ _
      pool_eq := ⟨fall, rise, by rw [hslot, hq₃]; rfl⟩
      real_eq := fun x => by
        rw [market_real, setPool_balance hp₂, Pool.vault_of_terms hterms, hbal, hrecord.balance]
        rfl
      supply_eq := by
        rw [market_supply, setPool_mintSupply hp₂, Pool.lpMint_of_terms hterms, hsup,
          hrecord.mintSupply]
        rfl
      loans_eq := by
        rw [market, setPool_openLoan hp₂, hmove.tokenOnly.openLoan, hliq.openLoan]
        rfl
      slot_eq := hslot
      bands_eq := fun d b => by
        rw [market_bands, setPool_bandCount hp₂, hmove.tokenOnly.bandCount, hliq.bandCount]
        rfl
      bits_eq := fun d b => by
        have hbit := hbits d b
        rw [traded_bitmapOf, hq₁, Pool.withRefPrice_bitmapOf, haccrued.bitmapOf] at hbit
        rw [market_bands, setPool_bandCount hp₂, hmove.tokenOnly.bandCount]
        exact hbit }
  · rw [setData_accts_of_ne hk, hmove.tokenOnly.eq_of_plain hplain]

end ChiefLiquidity
