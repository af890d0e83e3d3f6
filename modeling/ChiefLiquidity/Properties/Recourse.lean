import ChiefLiquidity.Properties.Acceptance

/-!
# Splitting a swap that would liquidate too much

A swap that would liquidate more than eight loans is rejected, and the caller is told to split it.
Whether that helps depends on how the loans lie on the price scale.

## An obstacle

More than eight open loans that share a trigger are an obstacle that no swaps of the direction pass,
however the amount is cut. Whatever a swap pays in, the piece that first takes the price past the
trigger finds all of them triggered, and what it liquidates only pushes the price on. So accepted
swaps leave the obstacle where it is, and stop short of it.

## A way through

When no more than eight loans of little weight lie near each other, or near the price, a swap gets
through in small pieces. Each piece liquidates at most eight loans, and leaves the market as it has
to be for the next.

Between the two lie markets of heavy loans, or of triggers closer than their weight moves the price,
where it depends on the rounded quotes of the whole chain of swaps whether some splitting passes.

## Main definitions

* `SwapsThrough` — swaps of one direction, one after the other
* `CapReached`, `Recourse` — a swap is rejected for the cap, and can be split
* `Pushed` — what accepted swaps leave of a market that is blocked
* `Trader` — somebody who can pay for the swap
* `Passable` — a state in which the amount can be swapped in pieces

## Main results

* `no_split_passes` — an amount that no splitting gets through, and `splitting_is_no_recourse`,
  where there is one
* `Passable.splits` — an amount that gets through in pieces
* `splitting_is_recourse` — when splitting is a recourse, and when it is none
-/

namespace ChiefLiquidity

open Ledger Market

variable {rt : Runtime} {led led' : Ledger} {P : Pubkey} {p : Pool} {aToB : Bool} {xs : List ℕ}
  {D : Finset Pubkey} {amountIn trigger : ℕ}

/-- Swaps of these amounts in this direction are accepted one after the other, with any accounts and
contexts. -/
inductive SwapsThrough (rt : Runtime) (P : Pubkey) (aToB : Bool) : Ledger → List ℕ → Ledger → Prop
    where
  | nil (led : Ledger) : SwapsThrough rt P aToB led [] led
  | cons {led led₁ led₂ : Ledger} {accs : SwapAccounts} {x minOut bandBoundary : ℕ}
      {counts xs : List ℕ} {events : List Event} :
      processSwap rt accs x minOut aToB bandBoundary counts led = .ok (led₁, events) →
      accs.pool = P → ¬ rt.IsPda accs.user → SwapsThrough rt P aToB led₁ xs led₂ →
      SwapsThrough rt P aToB led (x :: xs) led₂

/-- Some call of this swap is rejected because it would liquidate too many loans. A call gets there
only with a complete context. -/
def CapReached (rt : Runtime) (led : Ledger) (P : Pubkey) (aToB : Bool) (amountIn : ℕ) : Prop :=
  ∃ (accs : SwapAccounts) (bandBoundary : ℕ) (counts : List ℕ), accs.pool = P ∧
    ¬ rt.IsPda accs.user ∧ processSwap rt accs amountIn 0 aToB bandBoundary counts led =
      .error (.custom .tooManyLiquidationsRequired)

/-- If the swap is rejected for the cap, it can be split. -/
def Recourse (rt : Runtime) (led : Ledger) (P : Pubkey) (aToB : Bool) (amountIn : ℕ) : Prop :=
  CapReached rt led P aToB amountIn → ∃ (xs : List ℕ) (led' : Ledger),
    (∀ x ∈ xs, 0 < x) ∧ xs.sum = amountIn ∧ SwapsThrough rt P aToB led xs led'

/-! ### An obstacle -/

/-- What accepted swaps do to a market that is blocked: the obstacle stays, the reserve they pay
into grows, and the one they are paid from does not. -/
structure Pushed (aToB : Bool) (D : Finset Pubkey) (trigger paidIn : ℕ) (m m' : Market) : Prop where
  jammed : m'.Jammed aToB D trigger
  loans : ∀ k ∈ D, m'.loans k = m.loans k
  reserve_in : 2 * m.reserve (inSide aToB) + paidIn ≤ 2 * m'.reserve (inSide aToB)
  reserve_out : m'.reserve (outSide aToB) ≤ m.reserve (outSide aToB)

theorem Pushed.refl {m : Market} (hj : m.Jammed aToB D trigger) : Pushed aToB D trigger 0 m m :=
  ⟨hj, fun _ _ => rfl, le_rfl, le_rfl⟩

theorem Pushed.trans {m m₁ m₂ : Market} {x y : ℕ} (h : Pushed aToB D trigger x m m₁)
    (h' : Pushed aToB D trigger y m₁ m₂) : Pushed aToB D trigger (x + y) m m₂ where
  jammed := h'.jammed
  loans k hk := (h'.loans k hk).trans (h.loans k hk)
  reserve_in := by
    have hin := h.reserve_in
    have hin' := h'.reserve_in
    omega
  reserve_out := h'.reserve_out.trans h.reserve_out

/-- The market is live, and its price on the near side of the trigger. -/
structure NotPast (aToB : Bool) (trigger : ℕ) (m : Market) : Prop where
  reserve_pos : ∀ x, 0 < m.reserve x
  spot : isLiquidatable trigger (swapDirection aToB) m.spot = false

/-- **One swap** leaves the obstacle where it is. -/
theorem processSwap_pushed {accs : SwapAccounts} {x minOut bandBoundary : ℕ} {counts : List ℕ}
    {events : List Event} (h : Reachable rt led) (hsig : ¬ rt.IsPda accs.user)
    (hp : led.HasPool rt accs.pool p)
    (hj : (led.market rt accs.pool p).Jammed aToB D trigger)
    (hi : processSwap rt accs x minOut aToB bandBoundary counts led = .ok (led', events)) :
    ∃ p', led'.HasPool rt accs.pool p' ∧
      Pushed aToB D trigger x (led.market rt accs.pool p) (led'.market rt accs.pool p') ∧
      0 < (led.market rt accs.pool p).reserve (inSide aToB) ∧
      NotPast aToB trigger (led'.market rt accs.pool p') := by
  have hsound := h.sound
  obtain ⟨p₀, p', f, ks, hswap, rfl, rfl, -⟩ :=
    processSwap_refines hsound.filed hsig (hsound.valid _) hi
  obtain rfl := hswap.step.before.unique hp
  obtain ⟨S, hv⟩ := hsound.valid _ _ hp
  obtain ⟨q, q₁, supplied, ht⟩ := hswap.trade
  obtain ⟨hin, hout⟩ := ht.reserves_moved hv
  refine ⟨p', hswap.step.after, ⟨hj.trade hv ht, fun k hk => ?_, hin, hout⟩, ht.reserve_pos _,
    ⟨fun y => ht.leaves_reserves hv y, ht.spot_not_past hv hj⟩⟩
  rw [ht.loans_eq]
  exact if_neg fun hmem => (ht.spares hv hj).1 k hk (List.mem_toFinset.mp hmem)

/-- **All swaps** leave the obstacle where it is. Induction on the swaps. -/
theorem SwapsThrough.pushed (h : Reachable rt led) (hrun : SwapsThrough rt P aToB led xs led')
    (hp : led.HasPool rt P p) (hj : (led.market rt P p).Jammed aToB D trigger) :
    ∃ p', led'.HasPool rt P p' ∧
      Pushed aToB D trigger xs.sum (led.market rt P p) (led'.market rt P p') ∧
      (xs ≠ [] → 0 < (led.market rt P p).reserve (inSide aToB) ∧
        NotPast aToB trigger (led'.market rt P p')) := by
  induction hrun generalizing p with
  | nil led => exact ⟨p, hp, .refl hj, fun hne => absurd rfl hne⟩
  | @cons led led₁ led₂ accs x minOut bandBoundary counts xs events hi hpool hsig hrest ih =>
    subst hpool
    obtain ⟨p₁, hp₁, hpushed, hpos, hnot⟩ := processSwap_pushed h hsig hp hj hi
    obtain ⟨p₂, hp₂, hpushed', hnot'⟩ := ih (h.swap hsig hi) hp₁ hpushed.jammed
    refine ⟨p₂, hp₂, by rw [List.sum_cons]; exact hpushed.trans hpushed', fun _ => ⟨hpos, ?_⟩⟩
    by_cases hxs : xs = []
    · subst hxs
      cases hrest
      obtain rfl := hp₂.unique hp₁
      exact hnot
    · exact (hnot' hxs).2

/-- **An amount that no splitting gets through.** While more than eight open loans of the direction
share a trigger that the price passes when the input reserve grows by half, no swaps of the
direction can pay in as much as the input reserve, however they are cut. -/
theorem no_split_passes (h : Reachable rt led) (hp : led.HasPool rt P p)
    (hj : (led.market rt P p).Jammed aToB D trigger) (hpos : 0 < xs.sum)
    (hlarge : (led.market rt P p).reserve (inSide aToB) ≤ xs.sum) :
    ¬ SwapsThrough rt P aToB led xs led' := by
  intro hrun
  obtain ⟨p', -, hpushed, hnot⟩ := hrun.pushed h hp hj
  have hne : xs ≠ [] := by
    rintro rfl
    exact absurd hpos (lt_irrefl 0)
  obtain ⟨hstart, hend⟩ := hnot hne
  have hin := hpushed.reserve_in
  have hfurther : Further aToB (priceOf aToB ((led.market rt P p).reserve (inSide aToB) +
      (led.market rt P p).reserve (inSide aToB) / 2) ((led.market rt P p).reserve (outSide aToB)))
      (led'.market rt P p').spot := by
    rw [spot_eq_priceOf _ aToB]
    exact further_of_le (by omega) (hend.reserve_pos _) (by omega) hpushed.reserve_out
  have hpast := isLiquidatable_of_further hfurther hj.in_reach
  rw [hend.spot] at hpast
  cases hpast

namespace Sandbox

/-- A pool and nine loans with one trigger. -/
def crowded : List Act :=
  create ++ add 1_000_000 1_000_000 :: (List.range 9).map fun nonce => lend nonce 0 10_000 7_000 64

/-- The nine loans. -/
def crowd : List Pubkey := (List.range 9).map loan

/-- Whether the loan is open, of the falling direction, and has this trigger. -/
def triggersAt (led : Ledger) (trigger : ℕ) (k : Pubkey) : Bool :=
  match led.openLoan sandbox pool k with
  | some l => l.triggerDirection = TriggerDirection.onFall.toU8 ∧ l.triggerPriceWad = trigger
  | none => false

theorem triggersAt_iff {led : Ledger} {trigger : ℕ} {k : Pubkey} :
    triggersAt led trigger k = true ↔ ∃ l, led.openLoan sandbox pool k = some l ∧
      l.triggerDirection = TriggerDirection.onFall.toU8 ∧ l.triggerPriceWad = trigger := by
  rw [triggersAt]
  cases led.openLoan sandbox pool k <;> simp

theorem crowded_jammed : ((after crowded).market sandbox pool (poolState (after crowded))).Jammed
    true crowd.toFinset 770_000_000_000_000_000 where
  card_gt := by decide +kernel
  isOpen k hk := by
    have hall : ∀ k ∈ crowd, triggersAt (after crowded) 770_000_000_000_000_000 k = true := by
      decide +kernel
    exact triggersAt_iff.mp (hall k (List.mem_toFinset.mp hk))
  in_reach := by decide +kernel

end Sandbox

/-- **Splitting is no recourse**: a swap as large as the input reserve is rejected because it would
liquidate all nine loans, and no splitting of it is accepted. -/
theorem splitting_is_no_recourse :
    ¬ ∀ (rt : Runtime) (led : Ledger) (P : Pubkey) (p : Pool) (aToB : Bool) (amountIn : ℕ),
      Reachable rt led → led.HasPool rt P p → Recourse rt led P aToB amountIn := by
  intro hall
  have hp := @Sandbox.hasPool (Sandbox.after Sandbox.crowded) (by decide +kernel)
  have hreach := Sandbox.after_reachable Sandbox.crowded
  have hcap : CapReached sandbox (Sandbox.after Sandbox.crowded) Sandbox.pool true 1_000_000 :=
    ⟨Sandbox.swapAccs (Sandbox.band 0 64 :: Sandbox.crowd), 0, [9], rfl, Sandbox.swapAccs_user _,
      Checked.eq_error_of_failsWith (by decide +kernel)⟩
  obtain ⟨xs, led', -, hsum, hrun⟩ := hall sandbox _ _ _ true 1_000_000 hreach hp hcap
  have hlarge : ((Sandbox.after Sandbox.crowded).market sandbox Sandbox.pool
      (Sandbox.poolState (Sandbox.after Sandbox.crowded))).reserve (inSide true) ≤ xs.sum := by
    rw [hsum]
    decide +kernel
  exact no_split_passes hreach hp Sandbox.crowded_jammed (by omega) hlarge hrun

/-! ### A way through -/

section WayThrough

variable {accs : PoolAccounts} {decimals : Side → ℕ} {n x left : ℕ}

/-- The accounts for trading with the pool are in order, and their owner signs and holds the
amount. -/
structure Trader (rt : Runtime) (led : Ledger) (accs : PoolAccounts) (p : Pool)
    (decimals : Side → ℕ) (aToB : Bool) (amountIn : ℕ) : Prop where
  signs : accs.userIsSigner = true
  notPda : ¬ rt.IsPda accs.user
  accounts : p.matchesAccounts accs = true
  funded : accs.Funded rt led accs.user decimals
  holds : amountIn ≤ led.balance (accs.userToken (inSide aToB))

/-- A state in which the amount can be swapped in pieces. -/
structure Passable (rt : Runtime) (led : Ledger) (accs : PoolAccounts) (p : Pool)
    (decimals : Side → ℕ) (aToB : Bool) (n amountIn : ℕ) : Prop where
  reachable : Reachable rt led
  hasPool : led.HasPool rt accs.pool p
  sparse : (led.market rt accs.pool p).Sparse aToB n
  deep : (led.market rt accs.pool p).Deep aToB n amountIn
  trader : Trader rt led accs p decimals aToB amountIn

/-- The boundary of a swap that claims nothing about its price. -/
def openBoundary (aToB : Bool) : ℕ := if aToB then 0 else u32Max

theorem checkBoundary_open {price band : ℕ} (hprice : price < 2 ^ 127)
    (hband : bandIdForTrigger price = .ok band) :
    checkBoundary aToB band (openBoundary aToB) = .ok () := by
  obtain ⟨h0, rfl⟩ := bandIdForTrigger_eq_ok.mp hband
  have hlog := (Nat.log2_lt h0).mpr hprice
  rw [checkBoundary_eq_ok]
  cases aToB
  · show Nat.log2 price + 5 ≤ u32Max
    rw [u32Max]
    omega
  · exact Nat.zero_le _

section Step

variable {portion : ℕ} {tail : List Pubkey} {counts : List ℕ} {events : List Event}

/-- What is swapped is a piece of the amount. -/
theorem Passable.piece (h : Passable rt led accs p decimals aToB n (x + left))
    (hportion : p.protocolPortion x = .ok portion)
    (hsmall : 16 * n * x ≤ (led.market rt accs.pool p).reserve (inSide aToB))
    (hbuys : (led.market rt accs.pool p).Buys aToB x) :
    (led.market rt accs.pool p).Piece n ((led.market rt accs.pool p).pushOf aToB x portion) ∧
      ((led.market rt accs.pool p).pushOf aToB x portion).growth ≤ x + left := by
  obtain ⟨S, hv⟩ := h.reachable.sound.valid _ _ h.hasPool
  exact ⟨hv.piece hportion hbuys hsmall, (Nat.sub_le _ _).trans (Nat.le_add_right _ _)⟩

/-- **One piece** is accepted, in the context of all populated bands. -/
theorem Passable.accepted (hn : 0 < n) (h : Passable rt led accs p decimals aToB n (x + left))
    (hsmall : 16 * n * x ≤ (led.market rt accs.pool p).reserve (inSide aToB))
    (hbuys : (led.market rt accs.pool p).Buys aToB x) :
    ∃ tail counts led' events,
      processSwap rt ⟨accs, tail⟩ x 0 aToB (openBoundary aToB) counts led = .ok (led', events) ∧
      accs.Funded rt led' accs.user decimals ∧
      led'.balance (accs.userToken (inSide aToB)) + x =
        led.balance (accs.userToken (inSide aToB)) := by
  obtain ⟨hreach, hp, hsparse, hdeep, htrader⟩ := id h
  obtain ⟨S, hv⟩ := hreach.sound.valid _ _ hp
  have hw := hreach.sound.filed.wired _ _ hp
  have hholds := htrader.holds
  have hroom := htrader.funded.room (inSide aToB)
  have hx : 0 < x := hbuys.pos (hdeep.reserve_pos hn).1
  have hx' : x < 2 ^ 64 := by omega
  obtain ⟨portion, hportion⟩ := protocolPortion_accepted hv.terms hx'
  obtain ⟨hpiece, hgrowth⟩ := h.piece hportion hsmall hbuys
  obtain ⟨counts, tail, ctx, hctx⟩ := exists_context hreach hp aToB (openBoundary aToB)
  obtain ⟨r, ks, hsettle, hcascade, hout, hprice⟩ := settleSwap_accepted hreach hp hctx hx hx'
    hportion (hpiece.settleable hn hsparse hdeep hgrowth)
  -- what it pays is there
  have hle : r.amountOut ≤ (led.market rt accs.pool p).swappable (outSide aToB) :=
    hout ▸ hdeep.out_le hn (hpiece.afterFee_le.trans hgrowth) _
  have hreal : (led.market rt accs.pool p).swappable (outSide aToB) < 2 ^ 64 :=
    ((Nat.sub_le _ _).trans (Nat.sub_le _ _)).trans_lt (hw.real_lt (outSide aToB))
  have hpos : 0 < r.amountOut := hout ▸ hpiece.out_pos hn hsparse hdeep hcascade
  obtain ⟨-, ⟨a, b, hswappable, heq⟩, -⟩ := settleSwap_eq_ok hreach hp hsettle
  -- and its price is in a band
  obtain ⟨hprice0, hpricelt⟩ := hpiece.price hn hsparse hdeep hv hgrowth hcascade
  rw [← hprice] at hprice0 hpricelt
  obtain ⟨band, hband⟩ : ∃ band, bandIdForTrigger r.postPriceWad = .ok band :=
    ⟨_, bandIdForTrigger_eq_ok.mpr ⟨hprice0.ne', rfl⟩⟩
  obtain ⟨led', events, hi, hF', hbalance⟩ := processSwap_accepted ⟨accs, tail⟩ hreach
    htrader.notPda htrader.signs hp htrader.accounts htrader.funded hx.ne'
    ((Nat.le_add_right _ _).trans hholds)
    ⟨hsettle, hpos.ne', hle.trans_lt hreal, Nat.zero_le _⟩ ⟨a, b, hswappable, heq ▸ hle⟩ hband
    (checkBoundary_open hpricelt hband)
  exact ⟨tail, counts, led', events, hi, hF', hbalance⟩

/-- **What a piece leaves**: the rest can be swapped in pieces, and the input reserve has at most
doubled. -/
theorem Passable.after (hn : 0 < n) (h : Passable rt led accs p decimals aToB n (x + left))
    (hsmall : 16 * n * x ≤ (led.market rt accs.pool p).reserve (inSide aToB))
    (hbuys : (led.market rt accs.pool p).Buys aToB x)
    (hi : processSwap rt ⟨accs, tail⟩ x 0 aToB (openBoundary aToB) counts led = .ok (led', events))
    (hF' : accs.Funded rt led' accs.user decimals)
    (hpaidIn : led'.balance (accs.userToken (inSide aToB)) + x =
      led.balance (accs.userToken (inSide aToB))) :
    ∃ p', Passable rt led' accs p' decimals aToB n left ∧
      (led'.market rt accs.pool p').reserve (inSide aToB) ≤
        2 * (led.market rt accs.pool p).reserve (inSide aToB) := by
  obtain ⟨hreach, hp, hsparse, hdeep, htrader⟩ := id h
  obtain ⟨S, hv⟩ := hreach.sound.valid _ _ hp
  have hw := hreach.sound.filed.wired _ _ hp
  obtain ⟨p₀, p', f, ls, hswap, rfl, rfl, -, hpaid, -⟩ :=
    processSwap_refines hreach.sound.filed htrader.notPda (hreach.sound.valid _) hi
  obtain rfl := hswap.step.before.unique hp
  obtain ⟨q, q₁, supplied, htrade⟩ := hswap.trade
  have hholder : accs.user ≠ accs.pool := fun heq => htrader.notPda (heq ▸ hw.pda)
  have hpaid' : f.paid = f.amountOut := hpaid.trans (PoolAccounts.paidOut_of_ne
    (htrader.funded.userToken_ne hw htrader.accounts hholder _ _))
  have hholds := htrader.holds
  have hleft : left ≤ led'.balance (accs.userToken (inSide f.aToB)) := by omega
  have hmatch : p'.matchesAccounts accs = true := by
    obtain ⟨hvault, hmint⟩ := Pool.matchesAccounts_iff.mp htrader.accounts
    exact Pool.matchesAccounts_iff.mpr
      ⟨fun y => (Pool.vault_of_terms hswap.step.terms y).trans (hvault y),
        fun y => (Pool.mint_of_terms hswap.step.terms y).trans (hmint y)⟩
  refine ⟨p', ⟨hreach.swap htrader.notPda hi, hswap.step.after,
    hsparse.trade hv hn htrade hpaid', hdeep.trade hv htrade hpaid',
    ⟨htrader.signs, htrader.notPda, hmatch, hF', hleft⟩⟩, ?_⟩
  -- it paid in little, and what it liquidated weighs little
  obtain ⟨hportion, hpush⟩ := htrade.portion_eq
  obtain ⟨hpiece, -⟩ := h.piece hportion hsmall hbuys
  have hcascade := htrade.cascade
  rw [hpush] at hcascade
  obtain ⟨hseized, -⟩ := hpiece.weights hn hsparse hdeep hcascade
  have hself : 16 * f.amountIn ≤ 16 * n * f.amountIn := by
    rw [Nat.mul_assoc]
    exact Nat.mul_le_mul_left _ (Nat.le_mul_of_pos_left _ hn)
  simp only [pushOf] at hseized
  rw [htrade.reserve_in hv, inReserve]
  show (led.market rt accs.pool p₀).reserve (inSide f.aToB) +
    (led.market rt accs.pool p₀).seized ls.toFinset + (f.amountIn - f.portion) ≤
      2 * (led.market rt accs.pool p₀).reserve (inSide f.aToB)
  omega

end Step

/-- A piece of a large amount: between a sixty-fourth and a thirty-second of an `n`-th of the
reserve, with at least as much left. -/
theorem exists_cut {R : ℕ} (hn : 0 < n) (hR : 256 * n ≤ R) (hlarge : R < 16 * n * amountIn) :
    ∃ x left, amountIn = x + left ∧ 32 * n * x ≤ R ∧ R ≤ 64 * n * x ∧ R < 32 * n * left := by
  have hle := Nat.mul_div_le R (32 * n)
  have hlt := Nat.lt_mul_div_succ R (show 0 < 32 * n by omega)
  have hpos : 0 < R / (32 * n) := Nat.div_pos (by omega) (by omega)
  generalize R / (32 * n) = x at *
  have hone : 32 * n ≤ 32 * n * x := Nat.le_mul_of_pos_right _ hpos
  have hdouble : 32 * n * amountIn = 2 * (16 * n * amountIn) := by ring
  have hless : x ≤ amountIn := by
    refine Nat.le_of_mul_le_mul_left ?_ (show 0 < 32 * n by omega)
    omega
  obtain ⟨left, rfl⟩ := Nat.exists_eq_add_of_le hless
  rw [Nat.mul_add (32 * n)] at hdouble
  refine ⟨x, left, rfl, hle, ?_, by omega⟩
  calc R ≤ 2 * (32 * n * x) := by rw [Nat.mul_succ] at hlt; omega
    _ = 64 * n * x := by ring

/-- **The whole amount** can be swapped in pieces of a thirty-second of an `n`-th of the input
reserve, and a last one. Induction on the amount. -/
theorem Passable.splits (hn : 0 < n) (h : Passable rt led accs p decimals aToB n amountIn)
    (hbuys : (led.market rt accs.pool p).Buys aToB amountIn) :
    ∃ (xs : List ℕ) (led' : Ledger), (∀ x ∈ xs, 0 < x) ∧ xs.sum = amountIn ∧
      SwapsThrough rt accs.pool aToB led xs led' := by
  induction amountIn using Nat.strong_induction_on generalizing led p with
  | _ amountIn ih =>
    have hsig := h.trader.notPda
    have hinput := h.deep.input
    by_cases hsmall : 16 * n * amountIn ≤ (led.market rt accs.pool p).reserve (inSide aToB)
    · have hall : Passable rt led accs p decimals aToB n (amountIn + 0) := h
      obtain ⟨tail, counts, led', events, hi, -⟩ := hall.accepted hn hsmall hbuys
      refine ⟨[amountIn], led', fun x hx => ?_, List.sum_singleton, .cons hi rfl hsig (.nil led')⟩
      rw [List.mem_singleton] at hx
      rw [hx]
      exact hbuys.pos (h.deep.reserve_pos hn).1
    · obtain ⟨S, hv⟩ := h.reachable.sound.valid _ _ h.hasPool
      obtain ⟨-, houtput⟩ := h.deep.reserve_pos hn
      obtain ⟨x, left, rfl, hxle, hxge, hleft⟩ := exists_cut hn hinput (not_le.mp hsmall)
      have hbuys₁ := hv.buys hinput houtput hn hxge
      have hx := hbuys₁.pos (h.deep.reserve_pos hn).1
      have hsmall₁ : 16 * n * x ≤ (led.market rt accs.pool p).reserve (inSide aToB) :=
        (Nat.mul_le_mul_right x (Nat.mul_le_mul_right n (by norm_num))).trans hxle
      obtain ⟨tail, counts, led₁, events, hi, hF₁, hpaidIn⟩ := h.accepted hn hsmall₁ hbuys₁
      obtain ⟨p₁, h₁, hgrown⟩ := h.after hn hsmall₁ hbuys₁ hi hF₁ hpaidIn
      -- what is left is no dust in the reserves the piece leaves
      obtain ⟨S₁, hv₁⟩ := h₁.reachable.sound.valid _ _ h₁.hasPool
      have hbuys₂ := hv₁.buys h₁.deep.input (h₁.deep.reserve_pos hn).2 hn (x := left) (by
        have hdouble : 64 * n * left = 2 * (32 * n * left) := by ring
        omega)
      obtain ⟨xs, led', hpos, hsum, hrun⟩ := ih left (by omega) h₁ hbuys₂
      refine ⟨x :: xs, led', fun y hy => ?_, by rw [List.sum_cons, hsum], .cons hi rfl hsig hrun⟩
      rcases List.mem_cons.mp hy with rfl | hy
      · exact hx
      · exact hpos y hy

end WayThrough

/-- **When splitting is a recourse.** Where the loans are sparse, the reserves deep and the amount
no dust, a swap that somebody can pay for gets through in pieces. Where more than eight loans share
a trigger in reach, a swap as large as the input reserve that is rejected for the cap gets through
in no pieces. -/
theorem splitting_is_recourse {P : Pubkey} (h : Reachable rt led) (hp : led.HasPool rt P p)
    (aToB : Bool) (amountIn : ℕ) :
    (∀ (n : ℕ) (accs : PoolAccounts) (decimals : Side → ℕ), 0 < n →
      (led.market rt P p).Sparse aToB n → (led.market rt P p).Deep aToB n amountIn →
      (led.market rt P p).Buys aToB amountIn → accs.pool = P →
      Trader rt led accs p decimals aToB amountIn → Recourse rt led P aToB amountIn) ∧
    ∀ (D : Finset Pubkey) (trigger : ℕ), (led.market rt P p).Jammed aToB D trigger → 0 < amountIn →
      (led.market rt P p).reserve (inSide aToB) ≤ amountIn → CapReached rt led P aToB amountIn →
        ¬ Recourse rt led P aToB amountIn := by
  constructor
  · rintro n accs decimals hn hsparse hdeep hbuys rfl htrader -
    exact Passable.splits hn ⟨h, hp, hsparse, hdeep, htrader⟩ hbuys
  · intro D trigger hjammed hpos hlarge hcap hrecourse
    obtain ⟨xs, led', -, hsum, hrun⟩ := hrecourse hcap
    exact no_split_passes h hp hjammed (hsum ▸ hpos) (hsum ▸ hlarge) hrun

namespace Sandbox

/-- A pool and nine loans, eight of them with one trigger and one far from it. -/
def spread : List Act :=
  create ++ add 1_000_000_000 1_000_000_000 ::
    ((List.range 8).map fun nonce => lend nonce 0 10_000_000 7_000_000 64) ++
    [lend 8 0 10_000_000 3_000_000 63]

/-- The eight loans, and the one. -/
def near : List Pubkey := (List.range 8).map loan

/-- The one loan whose trigger is far from the others. -/
def far : Pubkey := loan 8

/-- The market of the nine loans. -/
def spreadMarket : Market := (after spread).market sandbox pool (poolState (after spread))

theorem near_triggers : ∀ k ∈ near, ∃ l, spreadMarket.loans k = some l ∧
    l.triggerDirection = TriggerDirection.onFall.toU8 ∧
      l.triggerPriceWad = 770_000_000_000_000_000 := by
  have hall : ∀ k ∈ near, triggersAt (after spread) 770_000_000_000_000_000 k = true := by
    decide +kernel
  intro k hk
  exact triggersAt_iff.mp (hall k hk)

theorem far_triggers : ∃ l, spreadMarket.loans far = some l ∧
    l.triggerDirection = TriggerDirection.onFall.toU8 ∧
      l.triggerPriceWad = 330_000_000_000_000_000 := by
  have hfar : triggersAt (after spread) 330_000_000_000_000_000 far = true := by decide +kernel
  exact triggersAt_iff.mp hfar

/-- There are no other loans. -/
theorem spread_loans {k : Pubkey} {l : Loan} (hl : spreadMarket.loans k = some l) :
    k ∈ near ∨ k = far := by
  obtain ⟨S, hv⟩ := (after_reachable spread).sound.valid _ _
    (@hasPool (after spread) (by decide +kernel))
  have hdomain : KeyedSum.IsDomain S spreadMarket.loans := hv.booked.domain
  have hcount : S.card = 9 := hv.booked.openLoans.symm.trans (by decide +kernel)
  have hsub : insert far near.toFinset ⊆ S := by
    intro j hj
    rw [Finset.mem_insert, List.mem_toFinset] at hj
    rcases hj with rfl | hj
    · obtain ⟨l', hl', -⟩ := far_triggers
      exact hdomain.mem_of_some hl'
    · obtain ⟨l', hl', -⟩ := near_triggers j hj
      exact hdomain.mem_of_some hl'
  have heq := Finset.eq_of_subset_of_card_le hsub (by rw [hcount]; decide +kernel)
  have hk := heq ▸ hdomain.mem_of_some hl
  rw [Finset.mem_insert, List.mem_toFinset] at hk
  exact hk.symm

/-- The eight loans are no more than a swap may liquidate, and so is the one. -/
theorem spread_sparse : spreadMarket.Sparse true 1 where
  imminent D hD := by
    have hsub : D ⊆ near.toFinset := by
      intro k hk
      obtain ⟨l, hl, -⟩ := hD.isOpen k hk
      rcases spread_loans hl with hnear | rfl
      · exact List.mem_toFinset.mpr hnear
      · obtain ⟨l', hl', -, htrigger⟩ := far_triggers
        have hliq := hD.near far hk l' hl'
        rw [htrigger] at hliq
        exact absurd hliq (by decide +kernel)
    refine ⟨(Finset.card_le_card hsub).trans (by decide +kernel), ?_, ?_⟩
    · exact (Nat.mul_le_mul_left _ (KeyedSum.total_le hsub)).trans (by decide +kernel)
    · exact (Nat.mul_le_mul_left _ (KeyedSum.total_le hsub)).trans (by decide +kernel)
  clustered D hD := by
    have hsub : D ⊆ near.toFinset ∨ D ⊆ {far} := by
      by_cases hfar : far ∈ D
      · refine .inr fun k hk => Finset.mem_singleton.mpr ?_
        obtain ⟨l, hl, -⟩ := hD.isOpen k hk
        rcases spread_loans hl with hnear | rfl
        · -- a near loan's trigger is more than twice the far one's
          obtain ⟨lj, hlj, -, hj⟩ := near_triggers k hnear
          obtain ⟨lk, hlk, -, hk'⟩ := far_triggers
          have hclose := hD.close k hk far hfar lj lk hlj hlk
          rw [hj, hk'] at hclose
          exact absurd hclose (by decide)
        · rfl
      · refine .inl fun k hk => List.mem_toFinset.mpr ?_
        obtain ⟨l, hl, -⟩ := hD.isOpen k hk
        exact (spread_loans hl).resolve_right fun heq => hfar (heq ▸ hk)
    rcases hsub with hsub | hsub
    · exact ⟨(Finset.card_le_card hsub).trans (by decide +kernel),
        (Nat.mul_le_mul_left _ (KeyedSum.total_le hsub)).trans (by decide +kernel)⟩
    · exact ⟨(Finset.card_le_card hsub).trans (by decide +kernel),
        (Nat.mul_le_mul_left _ (KeyedSum.total_le hsub)).trans (by decide +kernel)⟩

theorem spread_buys : spreadMarket.Buys true 1_000_000_000 := by
  rw [Buys]
  decide +kernel

theorem spread_deep : spreadMarket.Deep true 1 1_000_000_000 where
  input := by decide +kernel
  output := by decide +kernel
  input_word := by decide +kernel
  output_word := by decide +kernel

end Sandbox

theorem splitting_is_recourse_spread :
    CapReached sandbox (Sandbox.after Sandbox.spread) Sandbox.pool true 1_000_000_000 ∧
      ∃ (xs : List ℕ) (led' : Ledger), (∀ x ∈ xs, 0 < x) ∧ xs.sum = 1_000_000_000 ∧
        SwapsThrough sandbox Sandbox.pool true (Sandbox.after Sandbox.spread) xs led' := by
  have hp := @Sandbox.hasPool (Sandbox.after Sandbox.spread) (by decide +kernel)
  have hcap : CapReached sandbox (Sandbox.after Sandbox.spread) Sandbox.pool true 1_000_000_000 :=
    ⟨Sandbox.swapAccs (Sandbox.band 0 64 :: Sandbox.near ++ [Sandbox.band 0 63, Sandbox.far]), 0,
      [8, 1], rfl, Sandbox.swapAccs_user _, Checked.eq_error_of_failsWith (by decide +kernel)⟩
  have htrader : Trader sandbox (Sandbox.after Sandbox.spread) Sandbox.accs
      (Sandbox.poolState (Sandbox.after Sandbox.spread)) (fun _ => 6) true 1_000_000_000 :=
    ⟨rfl, Sandbox.not_isPda (by decide), by decide +kernel, Sandbox.funded (by decide +kernel),
      by decide +kernel⟩
  exact ⟨hcap, (splitting_is_recourse (Sandbox.after_reachable _) hp true 1_000_000_000).1 1
    Sandbox.accs (fun _ => 6) Nat.one_pos Sandbox.spread_sparse Sandbox.spread_deep
    Sandbox.spread_buys rfl htrader hcap⟩

end ChiefLiquidity
