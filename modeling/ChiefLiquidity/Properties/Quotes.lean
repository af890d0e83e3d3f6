import ChiefLiquidity.Market.Quotes
import ChiefLiquidity.Properties.Borrowing

/-!
# What a swap pays

The output of a swap is quoted on the reserves its liquidations leave. They add to the input side
and take from the output side, so they never improve the quote; and however a trade is cut into
pieces, the pieces pay no more than the whole.

## Liquidations and the quote

It is tempting to think that a swap gains from the loans it liquidates, because the pool does. The
pool gains collateral on the input side and loses debt on the output side, and both lower the quote:
what the swapper gets is bounded by the quote on the reserves before, whatever is liquidated.

## Splitting

A trade cut into pieces pays a fee on each piece and rounds each, and between the pieces nobody else
trades. With or without roundings the pieces pay at most the whole. The induction is on the list of
pieces; its step compares two pieces with their sum.

## Main definitions

* `SwapsInTurn` — swaps of one direction, one after the other

## Main results

* `swap_output_bounds`
* `splitting_never_pays`
-/

namespace ChiefLiquidity

open Ledger Market

variable {rt : Runtime} {led led' led₁ led₂ : Ledger} {P : Pubkey} {p p' : Pool}
  {accs : SwapAccounts} {amountIn minOut bandBoundary : ℕ} {aToB : Bool} {counts : List ℕ}
  {events : List Event}

/-! ### The first quote -/

theorem cascade_quotes {t : SwapTerms} {n : ℕ} {st : CascadeState} {r : Settled}
    (h : cascade t n st = .ok r) : ∃ out price, quoteRound t st = .ok (out, price) := by
  rw [cascade] at h
  obtain ⟨⟨out, price⟩, hquote, -⟩ := Checked.bind_eq_ok.mp h
  exact ⟨out, price, hquote⟩

/-- What the quote of a round is. -/
theorem quoteRound_quotes {t : SwapTerms} {st : CascadeState} {out price : ℕ}
    (h : quoteRound t st = .ok (out, price)) :
    cpmmQuoteOut t.amountIn (if t.aToB then st.accountedA else st.accountedB)
      (if t.aToB then st.accountedB else st.accountedA) st.pool.swapFeeBps = .ok out := by
  simp only [quoteRound] at h
  cases haToB : t.aToB <;> rw [haToB] at h <;>
  · simp only [Bool.false_eq_true, if_true, if_false, Checked.bind_eq_ok, require_eq_ok,
      Checked.pure_eq_ok, Prod.mk.injEq] at h ⊢
    obtain ⟨_, -, _, hquote, _, -, rfl, -⟩ := h
    exact hquote

/-- **Every accepted swap has a quote** on the reserves it found. -/
theorem processSwap_quotes (hfiled : Filed rt led)
    (h : processSwap rt accs amountIn minOut aToB bandBoundary counts led = .ok (led', events)) :
    ∃ p quote, led.HasPool rt accs.pool p ∧
      cpmmQuoteOut amountIn ((led.market rt accs.pool p).reserve (inSide aToB))
        ((led.market rt accs.pool p).reserve (outSide aToB)) p.swapFeeBps = .ok quote := by
  simp only [processSwap, Checked.bind_eq_ok, require_eq_ok, exists_const, Prod.exists] at h
  obtain ⟨-, _, hvalid, -, p, hload, ctx, -, decimals, -, realA, realB, hreads, q, hbump, a, b,
    haccounted, -, q₁, hsample, -, portion, -, r, hcascade, -⟩ := h
  obtain ⟨hp, -, -, rfl, rfl, haccrued⟩ := opening hfiled hvalid hload hreads hbump
  obtain ⟨rfl, rfl⟩ := haccrued.reserve_eq haccounted
  obtain ⟨out, price, hround⟩ := cascade_quotes hcascade
  have hquote := quoteRound_quotes hround
  have hfee : q₁.swapFeeBps = p.swapFeeBps := by
    obtain ⟨_, _, rfl⟩ := sampleRefPrice_frame hsample
    exact Pool.swapFeeBps_of_terms haccrued.terms
  rw [hfee] at hquote
  refine ⟨p, out, hp, ?_⟩
  cases aToB <;> exact hquote

/-! ### Bounds on the output -/

/-- **What a swap pays**, whatever it liquidates: at least one token, no more than is there to be
swapped, less than the reserve the liquidations leave, and no more than the quote without them. The
product of the reserves does not fall from there. -/
theorem swap_output_bounds (h : Reachable rt led) (hsig : ¬ rt.IsPda accs.user)
    (hi : processSwap rt accs amountIn minOut aToB bandBoundary counts led = .ok (led', events)) :
    ∃ (p p' : Pool) (r r' swappable : Side → ℕ) (R : Finset Pubkey)
      (inR outR amountOut quote fee : ℕ) (log : List Event),
      led.HasPool rt accs.pool p ∧ led'.HasPool rt accs.pool p' ∧
      led.accounted p = .ok (r .a, r .b) ∧ led'.accounted p' = .ok (r' .a, r' .b) ∧
      p.swappable (led.balance p.vaultA) (led.balance p.vaultB) =
        .ok (swappable .a, swappable .b) ∧
      (∀ k, k ∈ R ↔ Liquidates rt accs.pool led led' k) ∧
      inR = r (inSide aToB) +
        KeyedSum.total R (led.openLoan rt accs.pool) Loan.collateralAmount ∧
      outR + KeyedSum.total R (led.openLoan rt accs.pool) Loan.debtPrincipal =
        r (outSide aToB) ∧
      cpmmQuoteOut amountIn (r (inSide aToB)) (r (outSide aToB)) p.swapFeeBps = .ok quote ∧
      events = log ++
        [.swapExecuted accs.pool accs.user aToB amountIn amountOut R.card fee] ∧
      1 ≤ amountOut ∧ amountOut ≤ swappable (outSide aToB) ∧ amountOut < outR ∧
      amountOut ≤ quote ∧ inR * outR ≤ r' .a * r' .b := by
  have hsound := h.sound
  obtain ⟨p, p', f, ks, hswap, rfl, rfl, -, -, log, hevents⟩ :=
    processSwap_refines hsound.filed hsig (fun p => hsound.valid _ p) hi
  have hp := hswap.step.before
  obtain ⟨S, hv⟩ := hsound.valid _ _ hp
  obtain ⟨q, q₁, supplied, htrade⟩ := hswap.trade
  obtain ⟨p₁, quote, hp₁, hquote⟩ := processSwap_quotes hsound.filed hi
  obtain rfl := hp.unique hp₁
  obtain ⟨hswappable, -, -⟩ := (hsound.metered _ _ hp).accrues hv
    (hsound.filed.wired _ _ hp).real_lt led.slot
  obtain ⟨-, -, -, -, rfl⟩ := cpmmQuoteOut_eq_ok hquote
  have hforgiven := (totals_ge (R := ks.toFinset) hv fun k hk => htrade.open_of_mem hk).2.1
  have hle : KeyedSum.total ks.toFinset (led.openLoan rt accs.pool) Loan.debtPrincipal ≤
      (led.market rt accs.pool p).reserve (outSide f.aToB) :=
    hforgiven.trans (Nat.le_add_left _ _)
  have hlt := htrade.amountOut_lt
  have hproduct := htrade.product_ge hv
  rw [mul_inSide_outSide f.aToB fun x => (led'.market rt accs.pool p').reserve x] at hproduct
  refine ⟨p, p', _, _, _, ks.toFinset, _, _, f.amountOut, _, f.portion, log, hp, hswap.step.after,
    hsound.accounted hp, (h.swap hsig hi).sound.accounted hswap.step.after, hswappable,
    fun k => by rw [List.mem_toFinset, hswap.liquidates_iff], rfl, Nat.sub_add_cancel hle, hquote,
    ?_, htrade.amountOut_pos, htrade.amountOut_le, hlt, htrade.amountOut_le_quote, hproduct⟩
  rw [hevents, List.toFinset_card_of_nodup htrade.cascade.nodup]

theorem swap_output_bounds_lent :
    ∃ (led' : Ledger) (p' : Pool) (r' : Side → ℕ) (amountOut quote : ℕ),
      led'.accounted p' = .ok (r' .a, r' .b) ∧ 1 ≤ amountOut ∧ amountOut ≤ quote := by
  obtain ⟨⟨led', events⟩, hi⟩ := Checked.exists_of_isOk (x := processSwap sandbox
    (Sandbox.swapAccs [Sandbox.band 0 61, Sandbox.loan 0]) 3000000 0 true 60 [1]
      (Sandbox.after Sandbox.lent)) (by decide +kernel)
  obtain ⟨p, p', r, r', swappable, R, inR, outR, amountOut, quote, fee, log, -, -, -, hacc', -, -,
    -, -, -, -, hpos, -, -, hquote, -⟩ := swap_output_bounds
      (Sandbox.after_reachable Sandbox.lent) (Sandbox.swapAccs_user _) hi
  exact ⟨led', p', r', amountOut, quote, hacc', hpos, hquote⟩

/-! ### Trading in pieces -/

/-- Swaps of one direction with the pool `P`, made one after the other with nothing in between, and
what they pay in total. None of them liquidates a loan, and none pays to a vault. -/
inductive SwapsInTurn (rt : Runtime) (P : Pubkey) (aToB : Bool) :
    Ledger → List ℕ → ℕ → Ledger → Prop where
  | nil (led : Ledger) : SwapsInTurn rt P aToB led [] 0 led
  | cons {led led₁ led₂ : Ledger} {accs : SwapAccounts} {x minOut bandBoundary out n fee total : ℕ}
      {xs counts : List ℕ} {events log : List Event} :
      processSwap rt accs x minOut aToB bandBoundary counts led = .ok (led₁, events) →
      accs.pool = P → ¬ rt.IsPda accs.user →
      accs.userToken (outSide aToB) ≠ accs.vault (outSide aToB) →
      (∀ k, ¬ Liquidates rt P led led₁ k) →
      events = log ++ [.swapExecuted P accs.user aToB x out n fee] →
      SwapsInTurn rt P aToB led₁ xs total led₂ →
      SwapsInTurn rt P aToB led (x :: xs) (out + total) led₂

/-- A swap that logs no liquidation has made none. -/
theorem not_liquidates_of_log {x out fee : ℕ} {log : List Event} (h : Reachable rt led)
    (hsig : ¬ rt.IsPda accs.user)
    (hi : processSwap rt accs x minOut aToB bandBoundary counts led = .ok (led', events))
    (hevents : events = log ++ [.swapExecuted accs.pool accs.user aToB x out 0 fee]) (k : Pubkey) :
    ¬ Liquidates rt accs.pool led led' k := by
  obtain ⟨p, p', f, ks, hswap, -, -, -, -, log', hlog⟩ :=
    processSwap_refines h.sound.filed hsig (fun p => h.sound.valid _ p) hi
  have hlast := (List.append_inj' (hevents.symm.trans hlog) rfl).2
  simp only [List.cons.injEq, Event.swapExecuted.injEq, and_true, true_and] at hlast
  rw [hswap.liquidates_iff, List.length_eq_zero_iff.mp hlast.2.1.symm]
  exact List.not_mem_nil

/-- One of them pays the quote, and leaves the reserves it traded with. -/
theorem swap_in_turn {x out n fee : ℕ} {log : List Event} (h : Reachable rt led)
    (hsig : ¬ rt.IsPda accs.user)
    (hi : processSwap rt accs x minOut aToB bandBoundary counts led = .ok (led', events))
    (hout : accs.userToken (outSide aToB) ≠ accs.vault (outSide aToB))
    (hnone : ∀ k, ¬ Liquidates rt accs.pool led led' k)
    (hevents : events = log ++ [.swapExecuted accs.pool accs.user aToB x out n fee]) :
    ∃ p p' growth, led.HasPool rt accs.pool p ∧ led'.HasPool rt accs.pool p' ∧
      p'.terms = p.terms ∧ 0 < (led.market rt accs.pool p).reserve (inSide aToB) ∧
      out = ConstantProduct.quote (inAfterFee x p.swapFeeBps)
        ((led.market rt accs.pool p).reserve (inSide aToB))
        ((led.market rt accs.pool p).reserve (outSide aToB)) ∧
      (led'.market rt accs.pool p').reserve (inSide aToB) =
        (led.market rt accs.pool p).reserve (inSide aToB) + growth ∧
      (led'.market rt accs.pool p').reserve (outSide aToB) =
        (led.market rt accs.pool p).reserve (outSide aToB) - out ∧
      inAfterFee x p.swapFeeBps ≤ growth := by
  have hsound := h.sound
  obtain ⟨p, p', f, ks, hswap, rfl, rfl, -, hpaid, log', hlog⟩ :=
    processSwap_refines hsound.filed hsig (fun p => hsound.valid _ p) hi
  obtain ⟨S, hv⟩ := hsound.valid _ _ hswap.step.before
  obtain ⟨q, q₁, supplied, htrade⟩ := hswap.trade
  obtain rfl : ks = [] := List.eq_nil_iff_forall_not_mem.mpr fun k hk =>
    hnone k (hswap.liquidates_iff.mpr hk)
  have hlast := (List.append_inj' (hevents.symm.trans hlog) rfl).2
  simp only [List.cons.injEq, Event.swapExecuted.injEq, and_true, true_and] at hlast
  obtain ⟨rfl, -, -⟩ := hlast
  rw [PoolAccounts.paidOut_of_ne hout] at hpaid
  obtain ⟨hquote, hin', hout', hle⟩ := htrade.quoted hv hpaid
  exact ⟨p, p', _, hswap.step.before, hswap.step.after, hswap.step.terms, htrade.reserve_pos _,
    hquote, hin', hout', hle⟩

/-- **Swaps in turn are trades in turn.** -/
theorem SwapsInTurn.inTurn {xs : List ℕ} {total : ℕ} (h : Reachable rt led)
    (hswaps : SwapsInTurn rt P aToB led xs total led') (hp : led.HasPool rt P p) :
    ∃ ts : List (ℕ × ℕ), ts.map Prod.fst = xs.map (inAfterFee · p.swapFeeBps) ∧
      (∀ t ∈ ts, t.1 ≤ t.2) ∧
      total = ConstantProduct.inTurn ts ((led.market rt P p).reserve (inSide aToB))
        ((led.market rt P p).reserve (outSide aToB)) := by
  induction hswaps generalizing p with
  | nil led => exact ⟨[], rfl, by simp, rfl⟩
  | @cons led led₁ led₂ accs x _ _ out _ _ _ xs _ _ _ hi hpool hsig hout hnone hevents hrest ih =>
    subst hpool
    obtain ⟨q, p', growth, hq, hp', hterms, -, hquote, hin, hout', hle⟩ :=
      swap_in_turn h hsig hi hout hnone hevents
    obtain rfl := hq.unique hp
    obtain ⟨ts, hfst, hts, htotal⟩ := ih (h.swap hsig hi) hp'
    refine ⟨(inAfterFee x q.swapFeeBps, growth) :: ts, ?_, ?_, ?_⟩
    · rw [List.map_cons, List.map_cons, hfst, Pool.swapFeeBps_of_terms hterms]
    · simpa using ⟨hle, fun a b => hts (a, b)⟩
    · rw [htotal, hin, hout', ConstantProduct.inTurn, ← hquote, ConstantProduct.rest, ← hquote]

/-- The fee of the pieces rounds no less than the fee of the whole. -/
theorem sum_inAfterFee_le (xs : List ℕ) (feeBps : ℕ) :
    (xs.map (inAfterFee · feeBps)).sum ≤ inAfterFee xs.sum feeBps := by
  induction xs with
  | nil => exact Nat.zero_le _
  | cons x xs ih =>
    rw [List.map_cons, List.sum_cons, List.sum_cons]
    calc inAfterFee x feeBps + (xs.map (inAfterFee · feeBps)).sum
        ≤ inAfterFee x feeBps + inAfterFee xs.sum feeBps := Nat.add_le_add_left ih _
      _ ≤ (x * (bpsDenom - feeBps) + xs.sum * (bpsDenom - feeBps)) / bpsDenom :=
          Nat.div_add_div_le_add_div
      _ = inAfterFee (x + xs.sum) feeBps := by rw [inAfterFee, Nat.add_mul]

/-- **Splitting a trade never pays.** Swaps of one direction made one after the other pay in total
no more than one swap of their sum. -/
theorem splitting_never_pays {xs : List ℕ} {total out : ℕ} (h : Reachable rt led)
    (hsplit : SwapsInTurn rt P aToB led xs total led₁)
    (hone : SwapsInTurn rt P aToB led [xs.sum] out led₂) : total ≤ out := by
  cases hone with
  | cons hi hpool hsig hout hnone hevents hrest =>
    subst hpool
    obtain ⟨p, -, -, hp, -, -, hpos, hquote, -⟩ := swap_in_turn h hsig hi hout hnone hevents
    obtain ⟨ts, hfst, hts, rfl⟩ := hsplit.inTurn h hp
    cases hrest
    rw [Nat.add_zero, hquote]
    calc _ ≤ ConstantProduct.quote (ts.map Prod.fst).sum _ _ :=
          ConstantProduct.inTurn_le_quote hts hpos le_rfl
      _ ≤ _ := ConstantProduct.quote_mono_in hpos (hfst ▸ sum_inAfterFee_le xs p.swapFeeBps)

/-- A swap of the sandbox that liquidates nothing, with the ones that follow it. -/
theorem Sandbox.swapsInTurn {x out fee total : ℕ} {xs : List ℕ} {led led₁ led₂ : Ledger}
    {events : List Event} (h : Reachable sandbox led)
    (hi : processSwap sandbox (Sandbox.swapAccs []) x 0 true 63 [] led = .ok (led₁, events))
    (hevents : events = [.swapExecuted Sandbox.pool Sandbox.user true x out 0 fee])
    (hrest : SwapsInTurn sandbox Sandbox.pool true led₁ xs total led₂) :
    SwapsInTurn sandbox Sandbox.pool true led (x :: xs) (out + total) led₂ := by
  have hlog : events = [] ++ [.swapExecuted (Sandbox.swapAccs []).pool (Sandbox.swapAccs []).user
    true x out 0 fee] := hevents
  exact .cons hi rfl (Sandbox.swapAccs_user []) (by decide)
    (not_liquidates_of_log h (Sandbox.swapAccs_user []) hi hlog) hlog hrest

theorem splitting_never_pays_lent : ∃ total out, total = 996 + (1986 + 0) ∧ total ≤ out := by
  obtain ⟨⟨led₂, events₂⟩, hboth, hlog₂⟩ := Checked.exists_of_any (x := (processSwap sandbox
    (Sandbox.swapAccs []) 1000 0 true 63 [] (Sandbox.after Sandbox.lent) >>= fun o =>
      (if o.2 = [.swapExecuted Sandbox.pool Sandbox.user true 1000 996 0 0] then
        processSwap sandbox (Sandbox.swapAccs []) 2000 0 true 63 [] o.1 else
          .error .invalidAccountData)))
    (fun o => o.2 = [.swapExecuted Sandbox.pool Sandbox.user true 2000 1986 0 1])
    (by decide +kernel)
  obtain ⟨⟨led₁, events₁⟩, hi₁, hi₂⟩ := Checked.bind_eq_ok.mp hboth
  split at hi₂
  swap
  · cases hi₂
  rename_i hlog₁
  obtain ⟨⟨led₃, events₃⟩, hi₃, hlog₃⟩ := Checked.exists_of_any (x := processSwap sandbox
    (Sandbox.swapAccs []) 3000 0 true 63 [] (Sandbox.after Sandbox.lent))
    (fun o => o.2 = [.swapExecuted Sandbox.pool Sandbox.user true 3000 2982 0 1])
    (by decide +kernel)
  have hreach := Sandbox.after_reachable Sandbox.lent
  have hreach₁ := hreach.swap (Sandbox.swapAccs_user []) hi₁
  exact ⟨_, _, rfl, splitting_never_pays hreach
    (Sandbox.swapsInTurn hreach hi₁ hlog₁ (Sandbox.swapsInTurn hreach₁ hi₂
      (of_decide_eq_true hlog₂) (.nil _)))
    (Sandbox.swapsInTurn hreach hi₃ (of_decide_eq_true hlog₃) (.nil _))⟩

end ChiefLiquidity
