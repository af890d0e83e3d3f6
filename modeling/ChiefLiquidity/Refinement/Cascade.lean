import ChiefLiquidity.Refinement.Context

/-!
# The liquidation loop

The loop of a swap scans the supplied loans of the market it started from, so the loans it
liquidates form a `Cascade`: its state is always the one these loans determine, and it ends where
nothing supplied is triggered.

## One loop, two descriptions

The loop keeps a list of the supplied loans, in which it marks those it liquidates, and a pool whose
totals shrink. The market has a set of loans `R` that are gone, and reserves as a function of `R`.
The invariant `CascadeAt` says that the list is the supplied one with the loans in `R` marked, and
the pool the one it started with, settled for `R`. A round that liquidates adds one key to `R`.

From the invariant every number the loop computes is the one the market gives to `R`: the quote is
`provisionalOut`, and the price `provisionalPrice`. So a loan the scan finds is one that fires, and
the loans in the order they were found form a cascade.

## The cap

The loop fails when the scan finds a ninth loan. What it returns is therefore a cascade of at most
eight loans at whose end nothing supplied fires.

## Main definitions

* `marked` — a supplied loan once the loans in `R` are liquidated
* `CascadeAt` — the loop has liquidated the loans `ks`

## Main results

* `markNextTriggered_eq_none`, `markNextTriggered_eq_some`, `markNextTriggered_first` — what the
  scan finds
* `CascadeAt.quoteRound`, `CascadeAt.liquidateRound` — one round
* `cascade_eq_ok` — the whole loop
-/

namespace ChiefLiquidity

open Market

/-! ### The scan -/

/-- The entry as the cascade carries it once the loans in `R` are liquidated. -/
def marked (R : Finset Pubkey) (c : LoanCtx) : LoanCtx :=
  { c with liquidated := c.loan ∈ R }

section Scan

variable {R : Finset Pubkey} {price : ℕ} {ctxs ls : List LoanCtx} {c hit : LoanCtx}

@[simp] theorem marked_loan : (marked R c).loan = c.loan := rfl

theorem marked_of_notMem (h : c.liquidated = false) (hR : c.loan ∉ R) : marked R c = c := by
  rw [marked]
  simp [hR, ← h]

theorem marked_empty (h : c.liquidated = false) : marked ∅ c = c :=
  marked_of_notMem h (Finset.notMem_empty _)

theorem marked_insert_of_ne {k : Pubkey} (h : c.loan ≠ k) : marked (insert k R) c = marked R c := by
  simp [marked, h]

/-- When the scan finds nothing, no entry that is left is triggered. -/
theorem markNextTriggered_eq_none (h : markNextTriggered price (ctxs.map (marked R)) = none)
    (hc : c ∈ ctxs) (hR : c.loan ∉ R) : isLiquidatable c.triggerWad c.direction price = false := by
  induction ctxs with
  | nil => cases hc
  | cons d ctxs ih =>
    simp only [List.map_cons, markNextTriggered] at h
    split at h
    · cases h
    · rename_i hmiss
      rcases List.mem_cons.mp hc with rfl | hc
      · simpa [marked, hR] using hmiss
      · exact ih (Option.map_eq_none_iff.mp h) hc

/-- When the scan finds an entry, it is one that is left and triggered, and it alone is marked. -/
theorem markNextTriggered_eq_some (hfresh : ∀ c ∈ ctxs, c.liquidated = false)
    (hnodup : (ctxs.map LoanCtx.loan).Nodup)
    (h : markNextTriggered price (ctxs.map (marked R)) = some (hit, ls)) :
    hit ∈ ctxs ∧ hit.loan ∉ R ∧ isLiquidatable hit.triggerWad hit.direction price = true ∧
      ls = ctxs.map (marked (insert hit.loan R)) := by
  induction ctxs generalizing ls with
  | nil => cases h
  | cons d ctxs ih =>
    obtain ⟨hd, hnodup⟩ := List.nodup_cons.mp hnodup
    have hne : ∀ c ∈ ctxs, c.loan ≠ d.loan := fun c hc heq =>
      hd (List.mem_map.mpr ⟨c, hc, heq⟩)
    simp only [List.map_cons, markNextTriggered] at h
    split at h
    · rename_i hfound
      obtain ⟨rfl, rfl⟩ := Prod.mk.inj (Option.some.inj h)
      simp only [marked, Bool.and_eq_true, Bool.not_eq_true', decide_eq_false_iff_not] at hfound
      have hd' : marked R d = d := marked_of_notMem (hfresh d (List.mem_cons_self ..)) hfound.1
      refine ⟨by rw [hd']; exact List.mem_cons_self .., hfound.1, hfound.2, ?_⟩
      have hrest : ctxs.map (marked R) = ctxs.map (marked (insert d.loan R)) :=
        List.map_congr_left fun c hc => (marked_insert_of_ne (hne c hc)).symm
      rw [marked_loan, List.map_cons, hrest]
      simp [marked]
    · obtain ⟨⟨hit', ls'⟩, hrest, heq⟩ := Option.map_eq_some_iff.mp h
      obtain ⟨rfl, hls⟩ := Prod.mk.inj heq
      obtain ⟨hmem, hR, htrig, hls'⟩ :=
        ih (fun c hc => hfresh c (List.mem_cons_of_mem _ hc)) hnodup hrest
      refine ⟨List.mem_cons_of_mem _ hmem, hR, htrig, ?_⟩
      rw [List.map_cons, marked_insert_of_ne (Ne.symm (hne _ hmem)), ← hls, ← hls']

/-- The scan finds the first entry that is left and triggered. -/
theorem markNextTriggered_first
    (h : markNextTriggered price (ctxs.map (marked R)) = some (hit, ls)) :
    ∃ pre c post, ctxs = pre ++ c :: post ∧ c.loan = hit.loan ∧
      ∀ d ∈ pre, d.loan ∉ R → isLiquidatable d.triggerWad d.direction price = false := by
  induction ctxs generalizing ls with
  | nil => cases h
  | cons d ctxs ih =>
    simp only [List.map_cons, markNextTriggered] at h
    split at h
    · obtain ⟨rfl, -⟩ := Prod.mk.inj (Option.some.inj h)
      exact ⟨[], d, ctxs, rfl, rfl, fun _ hd => by cases hd⟩
    · rename_i hmiss
      obtain ⟨⟨hit', ls'⟩, hrest, heq⟩ := Option.map_eq_some_iff.mp h
      obtain ⟨rfl, -⟩ := Prod.mk.inj heq
      obtain ⟨pre, c, post, rfl, hc, hpre⟩ := ih hrest
      refine ⟨d :: pre, c, post, rfl, hc, fun e he hR => ?_⟩
      rcases List.mem_cons.mp he with rfl | he
      · simpa [marked, hR] using hmiss
      · exact hpre e he hR

end Scan

/-! ### The loop -/

/-- How the swap pushes the price of a pool with this fee. -/
def SwapTerms.push (t : SwapTerms) (swapFeeBps : ℕ) : Push where
  aToB := t.aToB
  afterFee := inAfterFee t.amountIn swapFeeBps
  growth := t.inGrowth

/-- What the loop starts from: a valid market, a pool with its totals, the vault balances, and
entries for open loans of the direction, none of them twice. -/
structure CascadeSetup (m : Market) (S : Finset Pubkey) (p : Pool) (t : SwapTerms)
    (ctxs : List LoanCtx) : Prop where
  valid : m.Valid S
  collateral : ∀ x, p.collateral x = m.pool.collateral x
  debt : ∀ x, p.debt x = m.pool.debt x
  fees : ∀ x, p.fees x = m.pool.fees x
  realA : t.realA = m.real .a
  realB : t.realB = m.real .b
  supplies : ∀ c ∈ ctxs, ∃ b, Supplies m.loans (swapDirection t.aToB) b c.loan c
  nodup : (ctxs.map LoanCtx.loan).Nodup

/-- The loop has liquidated the loans `ks`. -/
structure CascadeAt (m : Market) (p : Pool) (t : SwapTerms) (ctxs : List LoanCtx)
    (ks : List Pubkey) (st : CascadeState) : Prop where
  run : Firing.Run (m.Fires (t.push p.swapFeeBps)) (ctxs.map LoanCtx.loan) ks
  loans : st.loans = ctxs.map (marked ks.toFinset)
  pool : st.pool = traded p t.aToB (m.seized ks.toFinset) (m.forgiven ks.toFinset) ks.length 0
  seized_le : m.seized ks.toFinset ≤ m.pool.collateral (inSide t.aToB)
  forgiven_le : m.forgiven ks.toFinset ≤ m.pool.debt (outSide t.aToB)
  accountedIn : (if t.aToB then st.accountedA else st.accountedB) =
    m.inReserve (t.push p.swapFeeBps) ks.toFinset
  accountedOut : (if t.aToB then st.accountedB else st.accountedA) =
    m.outReserve (t.push p.swapFeeBps) ks.toFinset

section Loop

variable {m : Market} {S : Finset Pubkey} {p p' : Pool} {t : SwapTerms} {ctxs ls : List LoanCtx}
  {ks : List Pubkey} {st st' : CascadeState} {hit : LoanCtx} {out price remaining : ℕ}
  {r : Settled}

theorem CascadeAt.cascade (h : CascadeAt m p t ctxs ks st) : m.Cascade (t.push p.swapFeeBps) ks :=
  h.run.chain

theorem CascadeAt.supplied (h : CascadeAt m p t ctxs ks st) {k : Pubkey} (hk : k ∈ ks) :
    k ∈ ctxs.map LoanCtx.loan := h.run.mem hk

theorem CascadeSetup.fresh (hs : CascadeSetup m S p t ctxs) {c : LoanCtx} (hc : c ∈ ctxs) :
    c.liquidated = false := by
  obtain ⟨_, _, _, -, -, -, -, h⟩ := hs.supplies c hc
  rw [h]
  rfl

@[simp] theorem traded_swapFeeBps {aToB : Bool} {c d n portion : ℕ} :
    (traded p aToB c d n portion).swapFeeBps = p.swapFeeBps := by
  cases aToB <;> rfl

@[simp] theorem traded_zero {aToB : Bool} : traded p aToB 0 0 0 0 = p := by
  cases aToB <;> rfl

theorem CascadeSetup.start (hs : CascadeSetup m S p t ctxs)
    {a b : ℕ} (ha : a = m.reserve .a) (hb : b = m.reserve .b) :
    CascadeAt m p t ctxs [] ⟨p, a, b, ctxs⟩ := by
  refine ⟨.nil, ?_, ?_, by simp [seized], by simp [forgiven], ?_, ?_⟩
  · have hid : ctxs.map (marked ∅) = ctxs := by
      conv_rhs => rw [← List.map_id ctxs]
      exact List.map_congr_left fun c hc => marked_empty (hs.fresh hc)
    rw [List.toFinset_nil, hid]
  · simp [seized, forgiven]
  · subst ha hb
    cases haToB : t.aToB <;> simp [inReserve, seized, SwapTerms.push, haToB, inSide]
  · subst ha hb
    cases haToB : t.aToB <;> simp [outReserve, forgiven, SwapTerms.push, haToB, outSide]

/-- **A round quotes** what the market provisionally pays and the price it would settle at. -/
theorem CascadeAt.quoteRound (h : CascadeAt m p t ctxs ks st)
    (hq : ChiefLiquidity.quoteRound t st = .ok (out, price)) :
    out = m.provisionalOut (t.push p.swapFeeBps) ks.toFinset ∧
      price = m.provisionalPrice (t.push p.swapFeeBps) ks.toFinset := by
  have hfee : st.pool.swapFeeBps = p.swapFeeBps := by rw [h.pool, traded_swapFeeBps]
  have hin := h.accountedIn
  have hout := h.accountedOut
  simp only [ChiefLiquidity.quoteRound, Checked.bind_eq_ok, require_eq_ok, hfee,
    Checked.pure_eq_ok, Prod.mk.injEq, postSwapPriceWad] at hq
  unfold provisionalPrice provisionalOut priceOf
  rw [← hin, ← hout]
  cases haToB : t.aToB <;> simp only [haToB, if_true, if_false, Bool.false_eq_true,
    Checked.bind_eq_ok, fits_eq_ok, checkedSub_eq_ok, priceBPerAWad_eq_ok] at hq ⊢
  · obtain ⟨_, -, _, hquote, _, ⟨_, ⟨-, rfl⟩, _, ⟨-, rfl⟩, -, -, -, rfl⟩, rfl, rfl⟩ := hq
    obtain ⟨-, -, -, -, rfl⟩ := cpmmQuoteOut_eq_ok hquote
    simp [SwapTerms.push, haToB]
  · obtain ⟨_, -, _, hquote, _, ⟨_, ⟨-, rfl⟩, _, ⟨-, rfl⟩, -, -, -, rfl⟩, rfl, rfl⟩ := hq
    obtain ⟨-, -, -, -, rfl⟩ := cpmmQuoteOut_eq_ok hquote
    simp [SwapTerms.push, haToB]

/-- Settling one more loan of the direction. -/
theorem traded_settled {aToB : Bool} {c d n c' d' : ℕ} :
    (traded p aToB c d n 0).settled (swapSides aToB) c' d' =
      traded p aToB (c + c') (d + d') (n + 1) 0 := by
  cases aToB <;> simp [traded, Pool.settled, swapSides, Nat.sub_sub]

theorem toFinset_snoc {k : Pubkey} : (ks ++ [k]).toFinset = insert k ks.toFinset := by
  ext j
  simp

/-- A supplied entry stands for an open loan with the sides the swap can trigger. -/
theorem CascadeSetup.loan_of_mem (hs : CascadeSetup m S p t ctxs) {c : LoanCtx} (hc : c ∈ ctxs) :
    ∃ l, m.loans c.loan = some l ∧ l.triggerDirection = (swapDirection t.aToB).toU8 ∧
      c = loanCtx c.loan l (swapDirection t.aToB) (swapSides t.aToB) := by
  obtain ⟨b, l, s, hl, -, hdir, hsides, hctx⟩ := hs.supplies c hc
  have hsound := sides_of_sound (s := swapSides t.aToB) (hs.valid.indexed.sound _ l hl)
    (by rw [swapSides_direction, hdir])
  obtain rfl : s = swapSides t.aToB := LoanSides.toU8_injective (hsides.symm.trans hsound)
  exact ⟨l, hl, hdir, hctx⟩

/-- **What the scan finds** is the first loan that is left and triggered. -/
theorem CascadeSetup.first (hs : CascadeSetup m S p t ctxs) {R : Finset Pubkey}
    (hprice : price = m.provisionalPrice (t.push p.swapFeeBps) R)
    (hscan : markNextTriggered price (ctxs.map (marked R)) = some (hit, ls)) :
    Firing.First (m.Fires (t.push p.swapFeeBps)) (ctxs.map LoanCtx.loan) R hit.loan := by
  obtain ⟨hmem, hR, htrig, -⟩ :=
    markNextTriggered_eq_some (fun c hc => hs.fresh hc) hs.nodup hscan
  obtain ⟨l, hl, hdir, hhit⟩ := hs.loan_of_mem hmem
  obtain ⟨pre, c, post, hctxs, hc, hpre⟩ := markNextTriggered_first hscan
  rw [hhit] at htrig
  refine ⟨hR, ⟨l, hl, hdir, hprice ▸ htrig⟩, pre.map LoanCtx.loan, post.map LoanCtx.loan,
    by rw [hctxs, List.map_append, List.map_cons, hc], fun j hj hjR => ?_⟩
  obtain ⟨d, hd, rfl⟩ := List.mem_map.mp hj
  obtain ⟨l', hl', -, heq⟩ := hs.loan_of_mem (hctxs ▸ List.mem_append_left _ hd)
  rintro ⟨l'', hl'', -, hliq⟩
  obtain rfl := Option.some.inj (hl'.symm.trans hl'')
  have hmiss := hpre d hd hjR
  rw [heq, hprice] at hmiss
  exact Bool.eq_false_iff.mp hmiss hliq

/-- The accounted reserves once the loans in `R` are gone. -/
theorem CascadeSetup.accounted (hs : CascadeSetup m S p t ctxs) {R : Finset Pubkey} {a b n fee : ℕ}
    (hseized : m.seized R ≤ m.pool.collateral (inSide t.aToB))
    (hforgiven : m.forgiven R ≤ m.pool.debt (outSide t.aToB))
    (hacc : (traded p t.aToB (m.seized R) (m.forgiven R) n 0).accounted t.realA t.realB =
      .ok (a, b)) :
    (if t.aToB then a else b) = m.inReserve (t.push fee) R ∧
      (if t.aToB then b else a) = m.outReserve (t.push fee) R := by
  obtain ⟨⟨-, rfl⟩, -, rfl⟩ := Pool.accounted_eq_ok.mp hacc
  have hsolvA := hs.valid.solvent .a
  have hsolvB := hs.valid.solvent .b
  have hcA := hs.collateral .a
  have hcB := hs.collateral .b
  have hdA := hs.debt .a
  have hdB := hs.debt .b
  have hfA := hs.fees .a
  have hfB := hs.fees .b
  have hrA := hs.realA
  have hrB := hs.realB
  clear hacc hs
  rcases t with ⟨aToB, amountIn, growth, realA, realB⟩
  unfold inReserve outReserve reserve swappable
  cases aToB <;>
  · simp only [SwapTerms.push, inSide, outSide, traded, if_true, if_false, Bool.false_eq_true,
      Pool.collateral, Pool.debt, Pool.fees] at *
    omega

/-- **A round liquidates** one more loan. -/
theorem CascadeAt.liquidateRound (hs : CascadeSetup m S p t ctxs) (h : CascadeAt m p t ctxs ks st)
    (hprice : price = m.provisionalPrice (t.push p.swapFeeBps) ks.toFinset)
    (hscan : markNextTriggered price st.loans = some (hit, ls))
    (hr : ChiefLiquidity.liquidateRound t st hit ls = .ok st') :
    CascadeAt m p t ctxs (ks ++ [hit.loan]) st' := by
  rw [h.loans] at hscan
  have hfirst := hs.first hprice hscan
  obtain ⟨hmem, hR, -, rfl⟩ :=
    markNextTriggered_eq_some (fun c hc => hs.fresh hc) hs.nodup hscan
  obtain ⟨l, hl, -, hhit⟩ := hs.loan_of_mem hmem
  generalize hit.loan = k at *
  subst hhit
  have hseized : m.seized (insert k ks.toFinset) = m.seized ks.toFinset + l.collateralAmount :=
    KeyedSum.total_cons hR hl
  have hforgiven : m.forgiven (insert k ks.toFinset) = m.forgiven ks.toFinset + l.debtPrincipal :=
    KeyedSum.total_cons hR hl
  simp only [ChiefLiquidity.liquidateRound, Checked.bind_eq_ok, Pool.settleLoan_eq_ok,
    Prod.exists, Checked.pure_eq_ok, h.pool, loanCtx, traded_settled] at hr
  obtain ⟨_, ⟨hc, hd, -, rfl⟩, a, b, hacc, rfl⟩ := hr
  simp only [traded_collateral, traded_debt, swapSides_collateralSide, swapSides_debtSide,
    if_true, hs.collateral, hs.debt] at hc hd
  have hle := h.seized_le
  have hle' := h.forgiven_le
  refine ⟨.snoc h.run hfirst, ?_, ?_, ?_, ?_, ?_, ?_⟩
  · rw [toFinset_snoc]
  · rw [toFinset_snoc, hseized, hforgiven, List.length_append, List.length_singleton]
  · rw [toFinset_snoc, hseized]
    omega
  · rw [toFinset_snoc, hforgiven]
    omega
  · rw [toFinset_snoc]
    rw [← hseized, ← hforgiven] at hacc
    exact (hs.accounted (by omega) (by omega) hacc).1
  · rw [toFinset_snoc]
    rw [← hseized, ← hforgiven] at hacc
    exact (hs.accounted (by omega) (by omega) hacc).2

/-- One round of the loop that liquidates a loan. -/
inductive Round (t : SwapTerms) : CascadeState → CascadeState → Prop where
  | liquidate {st st' : CascadeState} {out price : ℕ} {hit : LoanCtx} {ls : List LoanCtx} :
      ChiefLiquidity.quoteRound t st = .ok (out, price) →
      markNextTriggered price st.loans = some (hit, ls) →
      ChiefLiquidity.liquidateRound t st hit ls = .ok st' → Round t st st'

/-- **Every run of the loop** has liquidated some loans. -/
theorem CascadeAt.rounds (hs : CascadeSetup m S p t ctxs) (h : CascadeAt m p t ctxs ks st)
    (hrun : Relation.ReflTransGen (Round t) st st') : ∃ ks', CascadeAt m p t ctxs ks' st' := by
  induction hrun with
  | refl => exact ⟨ks, h⟩
  | tail _ hround ih =>
    obtain ⟨ks', h'⟩ := ih
    obtain ⟨hquote, hscan, hliq⟩ := hround
    exact ⟨_, h'.liquidateRound hs (h'.quoteRound hquote).2 hscan hliq⟩

/-- **The loop can always settle the loan it finds**: the totals have it, and what is left of them
is still in the vaults. -/
theorem CascadeAt.can_settle (hs : CascadeSetup m S p t ctxs) (h : CascadeAt m p t ctxs ks st)
    (hopen : p.openLoans = m.pool.openLoans)
    (hscan : markNextTriggered price st.loans = some (hit, ls)) :
    ∃ q a b, st.pool.settleLoan hit.sides hit.collateral hit.debtPrincipal = .ok q ∧
      q.swappable t.realA t.realB = .ok (a, b) := by
  rw [h.loans] at hscan
  obtain ⟨hmem, hR, -, -⟩ := markNextTriggered_eq_some (fun c hc => hs.fresh hc) hs.nodup hscan
  obtain ⟨l, hl, hdir, hhit⟩ := hs.loan_of_mem hmem
  generalize hit.loan = k at *
  subst hhit
  have hR' : ∀ j ∈ insert k ks.toFinset, ∃ l, m.loans j = some l ∧
      l.triggerDirection = (swapDirection t.aToB).toU8 := by
    intro j hj
    rcases Finset.mem_insert.mp hj with rfl | hj
    · exact ⟨l, hl, hdir⟩
    · exact open_of_cascade h.cascade (List.mem_toFinset.mp hj)
  obtain ⟨hseized, hforgiven, hcard⟩ := totals_ge hs.valid hR'
  rw [seized, KeyedSum.total_cons hR hl, ← seized] at hseized
  rw [forgiven, KeyedSum.total_cons hR hl, ← forgiven] at hforgiven
  rw [Finset.card_insert_of_notMem hR, List.toFinset_card_of_nodup h.cascade.nodup,
    ← hopen] at hcard
  have hsettle : st.pool.settleLoan (swapSides t.aToB) l.collateralAmount l.debtPrincipal =
      .ok (st.pool.settled (swapSides t.aToB) l.collateralAmount l.debtPrincipal) := by
    rw [Pool.settleLoan_eq_ok, h.pool, traded_collateral, traded_debt, swapSides_collateralSide,
      swapSides_debtSide, if_pos rfl, if_pos rfl, traded_openLoans, hs.collateral, hs.debt]
    exact ⟨by omega, by omega, by omega, rfl⟩
  have hcovered : ∀ x, (st.pool.settled (swapSides t.aToB) l.collateralAmount
      l.debtPrincipal).collateral x + (st.pool.settled (swapSides t.aToB) l.collateralAmount
      l.debtPrincipal).fees x ≤ m.real x := by
    intro x
    have hsolv := hs.valid.solvent x
    rw [Pool.settled_collateral, Pool.settled_fees, h.pool, traded_collateral, traded_fees,
      hs.collateral, hs.fees]
    split <;> split <;> omega
  exact ⟨_, _, _, hsettle, Pool.swappable_eq_ok.mpr
    ⟨⟨hs.realA ▸ hcovered .a, rfl⟩, hs.realB ▸ hcovered .b, rfl⟩⟩

/-- What the loop ends with. -/
structure CascadeEnd (m : Market) (p : Pool) (t : SwapTerms) (ctxs : List LoanCtx)
    (ks : List Pubkey) (r : Settled) : Prop where
  at_state : CascadeAt m p t ctxs ks r.state
  length_le : ks.length ≤ maxLiqPerSwap
  liqCount : r.liqCount = ks.length
  amountOut : r.amountOut = m.provisionalOut (t.push p.swapFeeBps) ks.toFinset
  price : r.postPriceWad = m.provisionalPrice (t.push p.swapFeeBps) ks.toFinset
  settled : ∀ c ∈ ctxs, c.loan ∉ ks →
    isLiquidatable c.triggerWad c.direction r.postPriceWad = false

/-- **The loop ends** where no loan that is left is triggered. -/
theorem CascadeEnd.stuck (hs : CascadeSetup m S p t ctxs) (h : CascadeEnd m p t ctxs ks r) :
    Firing.Stuck (m.Fires (t.push p.swapFeeBps)) (ctxs.map LoanCtx.loan) ks := by
  rintro _ hk hnot ⟨l, hl, -, hliq⟩
  obtain ⟨c, hc, rfl⟩ := List.mem_map.mp hk
  obtain ⟨l', hl', -, heq⟩ := hs.loan_of_mem hc
  obtain rfl := Option.some.inj (hl'.symm.trans hl)
  have hmiss := h.settled c hc hnot
  rw [heq, h.price] at hmiss
  exact Bool.eq_false_iff.mp hmiss hliq

/-- The loop ends when the scan finds nothing. -/
theorem CascadeAt.stop {n : ℕ} (h : CascadeAt m p t ctxs ks st)
    (hq : ChiefLiquidity.quoteRound t st = .ok (out, price))
    (hnone : markNextTriggered price st.loans = none) (hle : ks.length ≤ maxLiqPerSwap)
    (hn : n = ks.length) : CascadeEnd m p t ctxs ks ⟨st, out, price, n⟩ := by
  obtain ⟨hout, hprice⟩ := h.quoteRound hq
  rw [h.loans] at hnone
  exact ⟨h, hle, hn, hout, hprice, fun c hc hk =>
    markNextTriggered_eq_none hnone hc fun hmem => hk (List.mem_toFinset.mp hmem)⟩

/-- **The whole loop.** Induction on the liquidations left under the cap. -/
theorem cascade_eq_ok (hs : CascadeSetup m S p t ctxs) (h : CascadeAt m p t ctxs ks st)
    (hcap : ks.length + remaining = maxLiqPerSwap) (hr : cascade t remaining st = .ok r) :
    ∃ ks', CascadeEnd m p t ctxs ks' r := by
  induction remaining generalizing ks st with
  | zero =>
    rw [cascade] at hr
    simp only [Checked.bind_eq_ok, Prod.exists] at hr
    obtain ⟨out, price, hquote, hr⟩ := hr
    split at hr
    · rename_i hnone
      cases hr
      exact ⟨ks, h.stop hquote hnone (by omega) (by omega)⟩
    · cases hr
  | succ remaining ih =>
    rw [cascade] at hr
    simp only [Checked.bind_eq_ok, Prod.exists] at hr
    obtain ⟨out, price, hquote, hr⟩ := hr
    split at hr
    · rename_i hnone
      cases hr
      exact ⟨ks, h.stop hquote hnone (by omega) (by omega)⟩
    · rename_i hit ls hscan
      simp only [Checked.bind_eq_ok] at hr
      obtain ⟨st', hround, hr⟩ := hr
      exact ih (h.liquidateRound hs (h.quoteRound hquote).2 hscan hround) (by simp; omega) hr

end Loop

end ChiefLiquidity
