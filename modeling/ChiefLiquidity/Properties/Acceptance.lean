import ChiefLiquidity.Market.Sparse
import ChiefLiquidity.Properties.Insolvency
import ChiefLiquidity.Properties.Reference
import ChiefLiquidity.Properties.Repayment

/-!
# Swaps that are accepted

When the token accounts of a swap are in order, only its figures can make it fail. A complete
context always exists, the loop can settle every loan it finds, and what it has settled can be
persisted. So a swap is accepted whose chains of liquidations stay under the cap and whose output is
there.

## What can still fail

The figures of a swap are its input, its minimum, its boundary, and what they lead to. A swap fails
on its figures when more than eight loans would have to go, when the output rounds to zero or is
less than the minimum, when the vault does not have it, or when the price falls to zero or ends on
the wrong side of the boundary. Everything else that could fail does not, in a reachable state with
accounts in order: no subtraction of the loop or of the persisting runs below zero, and no product
leaves its word.

## A context for every boundary

The context that has everything is read off the market: all populated bands of the direction, each
with all of its open loans. It covers any boundary, so whoever can see the accounts can always call.

## Main definitions

* `Market.populated` — the context that has everything

## Main results

* `exists_context` — there is a complete context for every boundary
* `cascade_accepted`, `persistLiquidations_accepted` — the two loops
* `processSwap_accepted` — the whole instruction
-/

namespace ChiefLiquidity

open Ledger Market

variable {rt : Runtime} {led led' : Ledger} {P k : Pubkey} {p q : Pool} {S R : Finset Pubkey}
  {m : Market} {aToB : Bool} {dir : TriggerDirection}

/-! ### Quotes that fit -/

/-- A quote on reserves of 67 bits is computed without overflow. -/
theorem cpmmQuoteOut_of_lt {x rin rout fee : ℕ} (hx : 0 < x) (hx' : x < 2 ^ 64) (hin : 0 < rin)
    (hin' : rin < 2 ^ 67) (hout : 0 < rout) (hout' : rout < 2 ^ 67) (hfee : fee < bpsDenom) :
    cpmmQuoteOut x rin rout fee = .ok (ConstantProduct.quote (inAfterFee x fee) rin rout) := by
  have hscaled : x * (bpsDenom - fee) < 2 ^ 64 * 2 ^ 14 :=
    Nat.mul_lt_mul'' hx' ((Nat.sub_le _ _).trans_lt (by decide))
  have hafter : inAfterFee x fee < 2 ^ 78 := (Nat.div_le_self _ _).trans_lt (by omega)
  have hnum : inAfterFee x fee * rout < 2 ^ 78 * 2 ^ 67 := Nat.mul_lt_mul'' hafter hout'
  have hquote := ConstantProduct.quote_le (inAfterFee x fee) rin rout
  rw [inAfterFee] at hafter hnum hquote ⊢
  rw [cpmmQuoteOut, require_of hx.ne', require_of ⟨hin.ne', hout.ne'⟩, require_of hfee,
    fits_of_lt (hscaled.trans (by norm_num))]
  simp only [Checked.ok_bind]
  rw [fits_of_lt (hnum.trans (by norm_num)), Checked.ok_bind,
    fits_of_lt ((Nat.add_lt_add hin' hafter).trans (by norm_num)), Checked.ok_bind]
  exact fits_of_lt (hquote.trans_lt (hout'.trans (by norm_num)))

theorem priceBPerAWad_of_lt {a b : ℕ} (ha : 0 < a) (hb : b < 2 ^ 67) :
    priceBPerAWad a b = .ok (spotWad a b) := by
  have hnum : b * wad < 2 ^ 67 * 2 ^ 60 := Nat.mul_lt_mul'' hb (by decide)
  exact priceBPerAWad_eq_ok.mpr ⟨ha, hnum.trans (by norm_num),
    ((Nat.div_le_self _ _).trans_lt hnum).trans (by norm_num), rfl⟩

/-! ### The liquidation loop -/

section Loop

variable {t : SwapTerms} {ctxs ls : List LoanCtx} {ks : List Pubkey} {st : CascadeState}
  {hit : LoanCtx} {price remaining : ℕ}

/-- A round can quote. -/
theorem CascadeAt.quoteRound_accepted (h : CascadeAt m p t ctxs ks st)
    (hr : m.Settleable (t.push p.swapFeeBps)) (hfee : p.swapFeeBps < bpsDenom)
    (hx : 0 < t.amountIn) (hx' : t.amountIn < 2 ^ 64) :
    ∃ out price, ChiefLiquidity.quoteRound t st = .ok (out, price) := by
  have hin := h.accountedIn
  have hout := h.accountedOut
  have hseized := h.seized_le
  have hforgiven := hr.forgiven_lt ks h.cascade
  have hinpos := hr.input_pos
  have hinword := hr.input_word
  have houtword := hr.output_word
  have hfee' : st.pool.swapFeeBps = p.swapFeeBps := by rw [h.pool, traded_swapFeeBps]
  rw [inReserve] at hin
  rw [outReserve] at hout
  simp only [SwapTerms.push] at hin hout hforgiven hinpos hinword houtword
  -- what is left of this: two reserves of 67 bits, the input with room for the growth
  have hrpos : 0 < m.reserve (inSide t.aToB) + m.seized ks.toFinset := by omega
  have hrword : m.reserve (inSide t.aToB) + m.seized ks.toFinset + t.inGrowth < 2 ^ 67 := by omega
  have hopos : 0 < m.reserve (outSide t.aToB) - m.forgiven ks.toFinset := by omega
  have howord : m.reserve (outSide t.aToB) - m.forgiven ks.toFinset < 2 ^ 67 := by omega
  generalize m.reserve (inSide t.aToB) + m.seized ks.toFinset = r at *
  generalize m.reserve (outSide t.aToB) - m.forgiven ks.toFinset = o at *
  have hquote := cpmmQuoteOut_of_lt hx hx' hrpos (by omega) hopos howord hfee
  have hlt := ConstantProduct.quote_lt (f := inAfterFee t.amountIn p.swapFeeBps) hrpos hopos
  generalize ConstantProduct.quote (inAfterFee t.amountIn p.swapFeeBps) r o = out at *
  have hsub : checkedSub o out = .ok (o - out) := checkedSub_of_le hlt.le
  have hadd : fits 128 (r + t.inGrowth) = .ok (r + t.inGrowth) :=
    fits_of_lt (hrword.trans (by norm_num))
  cases haToB : t.aToB with
  | true =>
    rw [haToB, if_pos rfl] at hin hout
    refine ⟨out, spotWad (r + t.inGrowth) (o - out), ?_⟩
    rw [ChiefLiquidity.quoteRound, haToB, if_pos rfl, hin, hout, hfee']
    simp only [require_of (And.intro hrpos.ne' hopos.ne'), hquote, postSwapPriceWad, if_true, hadd,
      hsub, priceBPerAWad_of_lt (show 0 < r + t.inGrowth by omega)
        (show o - out < 2 ^ 67 by omega), Checked.ok_bind]
    rfl
  | false =>
    rw [haToB, if_neg Bool.false_ne_true] at hin hout
    refine ⟨out, spotWad (o - out) (r + t.inGrowth), ?_⟩
    rw [ChiefLiquidity.quoteRound, haToB, if_neg Bool.false_ne_true, hin, hout, hfee']
    simp only [require_of (And.intro hrpos.ne' hopos.ne'), hquote, postSwapPriceWad,
      Bool.false_eq_true, if_false, hadd, hsub, priceBPerAWad_of_lt (show 0 < o - out by omega)
        hrword, Checked.ok_bind]
    rfl

/-- A round can liquidate what it finds. -/
theorem CascadeAt.liquidateRound_accepted (hs : CascadeSetup m S p t ctxs)
    (h : CascadeAt m p t ctxs ks st) (hopen : p.openLoans = m.pool.openLoans)
    (hreal : ∀ x, m.real x < 2 ^ 64) (hdebt : ∀ x, m.pool.debt x < 2 ^ 67)
    (hscan : markNextTriggered price st.loans = some (hit, ls)) :
    ∃ st', ChiefLiquidity.liquidateRound t st hit ls = .ok st' := by
  obtain ⟨q, a, b, hsettle, hswappable⟩ := h.can_settle hs hopen hscan
  obtain ⟨⟨hA, -⟩, hB, -⟩ := Pool.swappable_eq_ok.mp hswappable
  have hle : ∀ x, q.debt x ≤ m.pool.debt x := by
    intro x
    obtain ⟨-, -, -, rfl⟩ := Pool.settleLoan_eq_ok.mp hsettle
    rw [Pool.settled_debt, h.pool, traded_debt, hs.debt]
    omega
  have hdebtA : q.totalDebtA ≤ m.pool.debt .a := hle .a
  have hdebtB : q.totalDebtB ≤ m.pool.debt .b := hle .b
  have hrealA := hreal .a
  have hrealB := hreal .b
  have hmA := hdebt .a
  have hmB := hdebt .b
  rw [← hs.realA] at hrealA
  rw [← hs.realB] at hrealB
  obtain ⟨a', b', haccounted⟩ : ∃ a' b', q.accounted t.realA t.realB = .ok (a', b') :=
    ⟨_, _, Pool.accounted_eq_ok.mpr ⟨⟨⟨hA, by omega⟩, rfl⟩, ⟨hB, by omega⟩, rfl⟩⟩
  refine ⟨⟨q, a', b', ls⟩, ?_⟩
  simp only [ChiefLiquidity.liquidateRound, hsettle, haccounted, Checked.ok_bind]
  rfl

/-- A round ends the loop or liquidates one loan. -/
theorem CascadeAt.round_accepted (hs : CascadeSetup m S p t ctxs) (h : CascadeAt m p t ctxs ks st)
    (hopen : p.openLoans = m.pool.openLoans) (hreal : ∀ x, m.real x < 2 ^ 64)
    (hdebt : ∀ x, m.pool.debt x < 2 ^ 67) (hr : m.Settleable (t.push p.swapFeeBps))
    (hfee : p.swapFeeBps < bpsDenom) (hx : 0 < t.amountIn) (hx' : t.amountIn < 2 ^ 64) :
    (∀ n, ∃ r, ChiefLiquidity.cascade t n st = .ok r) ∨
      ∃ key st', CascadeAt m p t ctxs (ks ++ [key]) st' ∧
        ∀ n, ChiefLiquidity.cascade t (n + 1) st = ChiefLiquidity.cascade t n st' := by
  obtain ⟨out, price, hquote⟩ := h.quoteRound_accepted hr hfee hx hx'
  rcases hscan : markNextTriggered price st.loans with _ | ⟨hit, ls⟩
  · refine .inl fun n => ⟨⟨st, out, price, maxLiqPerSwap - n⟩, ?_⟩
    rw [ChiefLiquidity.cascade, hquote, Checked.ok_bind]
    simp only [hscan]
    rfl
  · obtain ⟨st', hround⟩ := h.liquidateRound_accepted hs hopen hreal hdebt hscan
    have hnext := h.liquidateRound hs (h.quoteRound hquote).2 hscan hround
    refine .inr ⟨hit.loan, st', hnext, fun n => ?_⟩
    rw [ChiefLiquidity.cascade, hquote, Checked.ok_bind]
    simp only [hscan, hround, Checked.ok_bind]

/-- **The loop ends** when no chain of liquidations is longer than the cap. Induction on the
liquidations left: with none left, one more would make a chain that is too long. -/
theorem cascade_accepted (hs : CascadeSetup m S p t ctxs) (h : CascadeAt m p t ctxs ks st)
    (hopen : p.openLoans = m.pool.openLoans) (hreal : ∀ x, m.real x < 2 ^ 64)
    (hdebt : ∀ x, m.pool.debt x < 2 ^ 67) (hr : m.Settleable (t.push p.swapFeeBps))
    (hfee : p.swapFeeBps < bpsDenom) (hx : 0 < t.amountIn) (hx' : t.amountIn < 2 ^ 64)
    (hcap : ks.length + remaining = maxLiqPerSwap) : ∃ r, cascade t remaining st = .ok r := by
  induction remaining generalizing ks st with
  | zero =>
    obtain hend | ⟨key, st', hnext, -⟩ := h.round_accepted hs hopen hreal hdebt hr hfee hx hx'
    · exact hend 0
    · have hle := hr.length_le _ hnext.cascade
      rw [List.length_append, List.length_singleton] at hle
      omega
  | succ remaining ih =>
    obtain hend | ⟨key, st', hnext, hgoes⟩ := h.round_accepted hs hopen hreal hdebt hr hfee hx hx'
    · exact hend (remaining + 1)
    · rw [hgoes]
      exact ih hnext (by rw [List.length_append, List.length_singleton]; omega)

end Loop

/-! ### Persisting -/

section Persisting

variable {ctxs : List LoanCtx} {keys : List Pubkey} {gs : List Group} {g g' : Group}

/-- Open loans can get their tombstones. -/
theorem tombstoneLoans_accepted (hflags : Flags ctxs R keys) (hnodup : keys.Nodup)
    (hopen : ∀ k ∈ keys, ∃ l, led.openLoan rt P k = some l) :
    ∃ led' n events, tombstoneLoans ctxs keys led = .ok (led', n, events) := by
  induction keys generalizing led with
  | nil => exact ⟨led, 0, [], rfl⟩
  | cons key keys ih =>
    obtain ⟨hkey, hnodup⟩ := List.nodup_cons.mp hnodup
    obtain ⟨c, hfind, -⟩ := hflags key (List.mem_cons_self ..)
    have hflags' : Flags ctxs R keys := fun k hk => hflags k (List.mem_cons_of_mem _ hk)
    have hopen' : ∀ k ∈ keys, ∃ l, led.openLoan rt P k = some l :=
      fun k hk => hopen k (List.mem_cons_of_mem _ hk)
    obtain ⟨l, hl⟩ := hopen key (List.mem_cons_self ..)
    have hload : led.loadLoan key = .ok l :=
      loadLoan_eq_ok.mpr (congrArg Account.data (openLoan_eq_some.mp hl).1)
    rw [tombstoneLoans, okOr_eq_ok.mpr hfind, Checked.ok_bind]
    by_cases hliq : c.liquidated = true
    · rw [if_pos hliq, hload, Checked.ok_bind]
      have hother : ∀ k ∈ keys, ∃ l', (led.setData key (.loan (l.tombstone led.slot))).openLoan rt P
          k = some l' := by
        intro k hk
        obtain ⟨l', hl'⟩ := hopen' k hk
        have hne : k ≠ key := fun heq => hkey (heq ▸ hk)
        exact ⟨l', by rw [openLoan_congr (setData_accts_of_ne hne), hl']⟩
      obtain ⟨led', n, events, hrest⟩ := ih hflags' hnodup hother
      exact ⟨led', n + 1, _ :: events, Checked.bind_eq_ok.mpr ⟨_, hrest, rfl⟩⟩
    · rw [if_neg hliq]
      exact ih hflags' hnodup hopen'

/-- A band of the context that is ready to be settled: besides, its account counts what is supplied
of it, and it is on the scale if anything is. -/
structure Group.Whole (rt : Runtime) (led : Ledger) (P : Pubkey) (dir : TriggerDirection)
    (g : Group) : Prop extends g.Ready rt led P dir where
  full : led.bandCount rt P dir.toU8 g.bandId = some g.keys.length
  scale : ∀ k ∈ g.keys, g.bandId ≤ maxBandId

/-- Settling another band leaves it whole. -/
theorem Group.Whole.liquidated (hg' : g'.Whole rt led P dir) (hg : g.Ready rt led P dir)
    (hne : g.bandId ≠ g'.bandId) (h : Liquidated rt P (g.keys.toFinset ∩ R) led led') :
    g'.Whole rt led' P dir where
  toReady := hg'.toReady.liquidated hg hne h
  full := by
    rw [h.bandCount, hg'.full, hg.total_eq Finset.inter_subset_left,
      if_neg fun heq => hne heq.2.symm]
    rfl
  scale := hg'.scale

/-- **What the loop has settled can be persisted.** Induction on the bands: no more of a band is
liquidated than its account counts, and settling it leaves the others as they are. -/
theorem persistLiquidations_accepted (hkeyed : BandsKeyed rt led P)
    (hwhole : ∀ g ∈ gs, g.Whole rt led P dir) (hids : (gs.map Group.bandId).Nodup)
    (hflags : Flags ctxs R (gs.flatMap Group.keys)) :
    ∃ led' p' events, persistLiquidations ctxs dir.toU8 (gs.map Group.toBandCtx) led p =
      .ok (led', p', events) := by
  induction gs generalizing led p with
  | nil => exact ⟨led, p, [], rfl⟩
  | cons g gs ih =>
    have hg := hwhole g (List.mem_cons_self ..)
    obtain ⟨hgid, hids⟩ := List.nodup_cons.mp hids
    have hne : ∀ g' ∈ gs, g.bandId ≠ g'.bandId := fun g' hg' heq =>
      hgid (List.mem_map.mpr ⟨g', hg', heq.symm⟩)
    have hflags₁ : Flags ctxs R g.keys := fun k hk => hflags k (List.mem_append_left _ hk)
    have hflags₂ : Flags ctxs R (gs.flatMap Group.keys) :=
      fun k hk => hflags k (List.mem_append_right _ hk)
    obtain ⟨x, hx, hinit, hpool, hdir, hid, hcount⟩ := bandCount_eq_some.mp hg.full
    rw [hg.key] at hx
    obtain ⟨led₁, n, events, htomb⟩ := tombstoneLoans_accepted hflags₁ hg.nodup
      fun k hk => (hg.isOpen k hk).imp fun _ => And.left
    obtain ⟨rfl, hsame, hliq⟩ := liquidated_band hkeyed hg.toReady hflags₁ hx
      ⟨hinit, hpool, hdir, hid⟩ htomb
    have hle : (g.keys.toFinset ∩ R).card ≤ x.count := by
      rw [hcount]
      exact (Finset.card_le_card Finset.inter_subset_left).trans (List.toFinset_card_le _)
    rw [List.map_cons, persistLiquidations, Group.toBandCtx,
      loadBand_eq_ok.mpr (congrArg Account.data hx), Checked.ok_bind, htomb, Checked.ok_bind]
    have hwhole₁ : ∀ {led₂}, Liquidated rt P (g.keys.toFinset ∩ R) led led₂ →
        ∀ g' ∈ gs, g'.Whole rt led₂ P dir := fun hliq g' hg' =>
      (hwhole g' (List.mem_cons_of_mem _ hg')).liquidated hg.toReady (hne g' hg') hliq
    dsimp only
    split
    · rename_i hzero
      rw [hzero, Nat.sub_zero, LoanIndexBand.withCount_self, setData_self hsame] at hliq
      exact ih (hliq.bandsKeyed hkeyed) (hwhole₁ hliq) hids hflags₂
    · rename_i hpos
      obtain ⟨k, hk⟩ := Finset.card_pos.mp (Nat.pos_of_ne_zero hpos)
      have hscale := hg.scale k (List.mem_toFinset.mp (Finset.mem_inter.mp hk).1)
      obtain ⟨p₁, hunmark⟩ := p.unmarkBand_ok (d := dir)
        (n := x.count - (g.keys.toFinset ∩ R).card) hscale
      obtain ⟨led', p', events', hrest⟩ :=
        ih (p := p₁) (hliq.bandsKeyed hkeyed) (hwhole₁ hliq) hids hflags₂
      rw [checkedSub_of_le hle, Checked.ok_bind, hid, hunmark, Checked.ok_bind, hrest]
      exact ⟨led', p', events ++ events', rfl⟩

end Persisting

/-! ### The context -/

/-- The populated bands of a direction, with their open loans in ascending order. -/
def Market.populated (m : Market) (S : Finset Pubkey) (dir : TriggerDirection) :
    List (ℕ × List Pubkey) :=
  ((List.range (maxBandId + 1)).filter fun b => (m.band S dir b).Nonempty).map
    fun b => (b, (m.band S dir b).sort)

theorem Market.mem_populated {b : ℕ × List Pubkey} : b ∈ m.populated S dir ↔
    b.1 ≤ maxBandId ∧ (m.band S dir b.1).Nonempty ∧ b.2 = (m.band S dir b.1).sort := by
  rw [populated, List.mem_map]
  constructor
  · rintro ⟨c, hc, rfl⟩
    rw [List.mem_filter, List.mem_range, Nat.lt_succ_iff] at hc
    exact ⟨hc.1, of_decide_eq_true hc.2, rfl⟩
  · rintro ⟨hle, hne, hb⟩
    refine ⟨b.1, ?_, by rw [← hb]⟩
    rw [List.mem_filter, List.mem_range, Nat.lt_succ_iff]
    exact ⟨hle, decide_eq_true hne⟩

/-- Bands with all their open loans are groups that the ledger bears out. -/
theorem exists_groups {bands : List (ℕ × List Pubkey)} (hfiled : Filed rt led)
    (hv : (led.market rt P p).Valid S)
    (hexist : ∀ b ∈ bands, ∃ x, led.accts (bandKey rt P dir.toU8 b.1) = ⟨rt.programId, .band x⟩ ∧
      x.isInitialized = true ∧ x.pool = P ∧ x.direction = dir.toU8 ∧ x.bandId = b.1)
    (hasc : ∀ b ∈ bands, b.2.Pairwise (· < ·))
    (hloans : ∀ b ∈ bands, ∀ k, k ∈ b.2 ↔ ∃ l, led.openLoan rt P k = some l ∧
      l.triggerDirection = dir.toU8 ∧ l.bandId = b.1) :
    ∃ gs : List Group, (gs.map fun g => (g.bandId, g.keys)) = bands ∧
      ∀ g ∈ gs, g.Reads rt led P dir := by
  induction bands with
  | nil => exact ⟨[], rfl, fun _ hg => absurd hg List.not_mem_nil⟩
  | cons b bands ih =>
    obtain ⟨hb, hexist⟩ := List.forall_mem_cons.mp hexist
    obtain ⟨hbasc, hasc⟩ := List.forall_mem_cons.mp hasc
    obtain ⟨hbloans, hloans⟩ := List.forall_mem_cons.mp hloans
    obtain ⟨x, hk, hinit, hpool, hdir, hid⟩ := hb
    obtain ⟨g, hreads, -, hg, hkeys⟩ :=
      exists_group hfiled hv hk hinit hpool hdir hid hbasc hbloans
    obtain ⟨gs, rfl, hrest⟩ := ih hexist hasc hloans
    exact ⟨g :: gs, by rw [List.map_cons, hg, hkeys], List.forall_mem_cons.mpr ⟨hreads, hrest⟩⟩

/-- **A complete context is accepted.** -/
theorem CompleteContext.accepted {aToB : Bool} {bandBoundary : ℕ} {counts : List ℕ}
    {tail : List Pubkey} {bands : List (ℕ × List Pubkey)} (h : Reachable rt led)
    (hp : led.HasPool rt P p)
    (hc : CompleteContext rt led P aToB bandBoundary counts tail bands) :
    ∃ ctx, checkContext rt led P p aToB bandBoundary counts tail = .ok ctx := by
  have hfiled := h.sound.filed
  obtain ⟨S, hv⟩ := h.sound.valid P p hp
  obtain ⟨gs, rfl, hreads⟩ := exists_groups hfiled hv hc.exist hc.ascending hc.loans
  have hids : (gs.map fun g => (g.bandId, g.keys)).map Prod.fst = gs.map Group.bandId := by
    rw [List.map_map]
    rfl
  have htail : tail = gs.flatMap Group.tail := by
    rw [hc.tail_eq, List.flatMap_map]
    refine List.flatMap_congr fun g hg => ?_
    rw [Group.tail, (hreads g hg).key]
  have hcounts : counts = gs.map (·.keys.length) := by
    rw [hc.counts_eq, List.map_map]
    rfl
  refine ⟨_, (checkContext_eq_ok hfiled).mpr
    ⟨gs, ⟨htail, hcounts, hreads, hids ▸ hc.distinct⟩, fun b hlo hhi hbit => ?_, rfl⟩⟩
  obtain ⟨k, hk⟩ := members_pos.mp ((hv.indexed.bit _ b).mp hbit)
  obtain ⟨l, hl, hdir, rfl⟩ := (mem_band hv).mp hk
  have hreach := (inReach_iff (hv.indexed.bandId_le k l hl)).mpr ⟨hlo, hhi⟩
  exact hids ▸ hc.covered k l hl hdir hreach

/-- **There is a complete context** for every boundary: all populated bands of the direction. -/
theorem exists_context (h : Reachable rt led) (hp : led.HasPool rt P p) (aToB : Bool)
    (bandBoundary : ℕ) : ∃ counts tail ctx,
      checkContext rt led P p aToB bandBoundary counts tail = .ok ctx := by
  obtain ⟨S, hv⟩ := h.sound.valid P p hp
  set dir := swapDirection aToB with hdir
  set bands := (led.market rt P p).populated S dir with hbands
  have hids : bands.map Prod.fst = (List.range (maxBandId + 1)).filter
      fun b => ((led.market rt P p).band S dir b).Nonempty := by
    rw [hbands, populated, List.map_map]
    exact List.map_id _
  have hctx : CompleteContext rt led P aToB bandBoundary (bands.map fun b => b.2.length)
      (bands.flatMap fun b => bandKey rt P dir.toU8 b.1 :: b.2) bands := by
    refine ⟨?_, fun b hb => ?_, fun b hb => ?_, fun b hb k => ?_, rfl, rfl,
      fun k l hl hd _ => ?_⟩
    · rw [hids]
      exact List.nodup_range.filter _
    · obtain ⟨-, hne, -⟩ := mem_populated.mp hb
      have hsome := hv.indexed.bands_of_pos (members_pos.mpr hne)
      obtain ⟨x, hk, hinit, hpool, hd, hid, -⟩ := bandCount_eq_some.mp hsome
      exact ⟨x, hk, hinit, hpool, hd, hid⟩
    · obtain ⟨-, -, hkeys⟩ := mem_populated.mp hb
      rw [hkeys]
      exact (Finset.sortedLT_sort _).pairwise
    · obtain ⟨-, -, hkeys⟩ := mem_populated.mp hb
      rw [hkeys, Finset.mem_sort, mem_band hv]
      rfl
    · rw [hids, List.mem_filter, List.mem_range, Nat.lt_succ_iff]
      exact ⟨hv.indexed.bandId_le k l hl, decide_eq_true ⟨k, (mem_band hv).mpr ⟨l, hl, hd, rfl⟩⟩⟩
  obtain ⟨ctx, hctx⟩ := hctx.accepted h hp
  exact ⟨_, _, ctx, hctx⟩

/-! ### Settling -/

theorem protocolPortion_accepted {x : ℕ} (hp : StandardTerms p) (hx : x < 2 ^ 64) :
    ∃ portion, p.protocolPortion x = .ok portion := by
  rw [Pool.protocolPortion, hp.swapFee, hp.protocolFee, if_neg (by decide)]
  refine ⟨_, fits_of_lt ?_⟩
  rw [defaultSwapFeeBps, defaultProtocolFeeBps, bpsDenom]
  omega

theorem side_cases (aToB : Bool) (x : Side) : x = inSide aToB ∨ x = outSide aToB := by
  cases aToB <;> cases x <;> simp [inSide, outSide]

section Settling

variable {amountIn portion bandBoundary : ℕ} {counts : List ℕ} {tail : List Pubkey} {ctx : Context}

/-- **A swap settles** when its chains do. -/
theorem settleSwap_accepted (h : Reachable rt led) (hp : led.HasPool rt P p)
    (hctx : checkContext rt led P p aToB bandBoundary counts tail = .ok ctx) (hx : 0 < amountIn)
    (hx' : amountIn < 2 ^ 64) (hportion : p.protocolPortion amountIn = .ok portion)
    (hr : (led.market rt P p).Settleable ((led.market rt P p).pushOf aToB amountIn portion)) :
    ∃ r ks, settleSwap rt led P p aToB amountIn bandBoundary counts tail = .ok r ∧
      (led.market rt P p).Cascade ((led.market rt P p).pushOf aToB amountIn portion) ks ∧
      r.amountOut = (led.market rt P p).provisionalOut
        ((led.market rt P p).pushOf aToB amountIn portion) ks.toFinset ∧
      r.postPriceWad = (led.market rt P p).provisionalPrice
        ((led.market rt P p).pushOf aToB amountIn portion) ks.toFinset := by
  obtain ⟨S, hv⟩ := h.sound.valid P p hp
  have hw := h.sound.filed.wired P p hp
  obtain ⟨-, hacc, q, hbump⟩ := (h.sound.metered P p hp).accrues hv hw.real_lt led.slot
  have hq : (led.market rt P p).Accrued q := ⟨hbump⟩
  have hreserve : ∀ x, 0 < (led.market rt P p).reserve x ∧
      (led.market rt P p).reserve x < 2 ^ 67 := by
    have hin := hr.input_pos
    have hword := hr.input_word
    have hout := hr.forgiven_lt [] .nil
    have hword' := hr.output_word
    intro x
    rcases side_cases aToB x with rfl | rfl
    · exact ⟨hin, by simp only [pushOf] at hword; omega⟩
    · exact ⟨(Nat.zero_le _).trans_lt hout, hword'⟩
  have hreserves : (led.market rt P p).reserve .a ≠ 0 ∧ (led.market rt P p).reserve .b ≠ 0 :=
    ⟨(hreserve .a).1.ne', (hreserve .b).1.ne'⟩
  obtain ⟨q₁, hsample⟩ := (h.fitting hp).sample hq
    (priceBPerAWad_of_lt (hreserve .a).1 (hreserve .b).2) led.slot
  obtain ⟨ref, at', hq₁⟩ := sampleRefPrice_frame hsample
  have hterms : q₁.terms = p.terms := by
    rw [hq₁, Pool.withRefPrice_terms]
    exact hq.terms
  have hfee : q₁.swapFeeBps = p.swapFeeBps := Pool.swapFeeBps_of_terms hterms
  have hfee' : q₁.swapFeeBps < bpsDenom := by
    rw [hfee, show p.swapFeeBps = defaultSwapFeeBps from hv.terms.swapFee]
    decide
  obtain ⟨gs, hgs, -, rfl⟩ := (checkContext_eq_ok h.sound.filed).mp hctx
  set t : SwapTerms := ⟨aToB, amountIn, amountIn - portion, led.balance p.vaultA,
    led.balance p.vaultB⟩ with ht
  have hpush : t.push q₁.swapFeeBps = (led.market rt P p).pushOf aToB amountIn portion := by
    rw [hfee]
    rfl
  have hsetup : CascadeSetup (led.market rt P p) S q₁ t (gs.flatMap Group.loans) :=
    hgs.cascadeSetup hv hq hsample rfl rfl
  have hstart := hsetup.start rfl rfl
  have hcap : ([] : List Pubkey).length + maxLiqPerSwap = maxLiqPerSwap := Nat.zero_add _
  obtain ⟨r, hcascade⟩ := cascade_accepted hsetup hstart
    (by rw [hq₁, Pool.withRefPrice_openLoans, hq.openLoans]) hw.real_lt
    (fun x => (Nat.le_add_left _ _).trans_lt (hreserve x).2) (hpush ▸ hr) hfee' hx hx' hcap
  obtain ⟨ks, hend⟩ := cascade_eq_ok hsetup hstart (by simp) hcascade
  refine ⟨r, ks, ?_, hpush ▸ hend.at_state.cascade, hpush ▸ hend.amountOut, hpush ▸ hend.price⟩
  have hbump' : p.bumpIndexes (led.balance p.vaultA) (led.balance p.vaultB) led.slot = .ok q :=
    hbump
  have hacc' : q.accounted (led.balance p.vaultA) (led.balance p.vaultB) =
      .ok ((led.market rt P p).reserve .a, (led.market rt P p).reserve .b) := by
    rw [hq.accounted]
    exact hacc
  have hportion' : q₁.protocolPortion amountIn = .ok portion := by
    rw [protocolPortion_of_terms hterms, hportion]
  rw [settleSwap, hctx, Checked.ok_bind]
  simp only [hbump', hacc', require_of hreserves, hsample, require_of hfee', hportion',
    Checked.ok_bind]
  exact hcascade

end Settling

/-! ### The transfers -/

section Transfers

variable {accs : PoolAccounts} {holder : Pubkey} {decimals : Side → ℕ} {amountIn amountOut : ℕ}

/-- The accounts stay in order when nothing but records changes. -/
theorem PoolAccounts.Funded.of_records (hF : accs.Funded rt led holder decimals)
    (hw : Wired rt led accs.pool p) (hacc : p.matchesAccounts accs = true)
    (h : ∀ k, ¬ (led.accts k).data.Plain → led'.accts k = led.accts k) :
    accs.Funded rt led' holder decimals ∧
      ∀ x, led'.balance (accs.userToken x) = led.balance (accs.userToken x) := by
  have hmint : ∀ x, led'.accts (accs.mint x) = led.accts (accs.mint x) := by
    intro x
    obtain ⟨m, hm, -⟩ := hF.mint x
    exact h _ (by rw [hm]; exact id)
  have hvault : ∀ x, led'.accts (accs.vault x) = led.accts (accs.vault x) := by
    intro x
    obtain ⟨o, t, ht, -⟩ := accs.vault_account hw hacc x
    exact h _ (by rw [ht]; exact id)
  have huser : ∀ x, led'.accts (accs.userToken x) = led.accts (accs.userToken x) := by
    intro x
    obtain ⟨t, ht, -⟩ := hF.user x
    exact h _ (by rw [ht]; exact id)
  have hbalance : ∀ x, led'.balance (accs.userToken x) = led.balance (accs.userToken x) :=
    fun x => balance_congr (congrArg Account.data (huser x))
  refine ⟨⟨hF.program, fun x => hmint x ▸ hF.mint x, fun x => hvault x ▸ hF.vault x,
    fun x => huser x ▸ hF.user x, fun x => ?_⟩, hbalance⟩
  rw [hbalance, balance_congr (congrArg Account.data (hvault x))]
  exact hF.room x

/-- Liquidations change nothing but records. -/
theorem Liquidated.accts_eq (h : Liquidated rt P R led led')
    (hk : ¬ (led.accts k).data.Plain) : led'.accts k = led.accts k := by
  refine h.other (fun l hl => hk ?_) fun x hx => hk ?_
  · rw [hl]
    trivial
  · rw [hx]
    trivial

/-- **Both transfers are executed** when the user holds the input and the vault the output. -/
theorem swapTransfers_accepted (hF : accs.Funded rt led holder decimals)
    (hw : Wired rt led accs.pool p) (hacc : p.matchesAccounts accs = true)
    (hsig : ¬ rt.IsPda accs.user) (huser : accs.user = holder) (hsigned : accs.userIsSigner = true)
    (hterms : q.terms = p.terms) (hin : amountIn ≤ led.balance (accs.userToken (inSide aToB)))
    (hout : amountOut ≤ led.balance (accs.vault (outSide aToB))) :
    ∃ led', swapTransfers rt accs q aToB amountIn amountOut decimals led = .ok led' ∧
      accs.Funded rt led' holder decimals ∧
      led'.balance (accs.userToken (inSide aToB)) + amountIn =
        led.balance (accs.userToken (inSide aToB)) := by
  have hholder : holder ≠ accs.pool := fun heq => hsig (huser ▸ heq ▸ hw.pda)
  have hne := inSide_ne_outSide aToB
  obtain ⟨hvault, -⟩ := Pool.matchesAccounts_iff.mp hacc
  obtain ⟨l₁, hpayIn⟩ := payIn_accepted hF hw hacc huser hsigned hin
  obtain ⟨hmove, hbal, -⟩ := payIn_eq_ok hw hacc hsig hpayIn
  have hF₁ := hF.payIn hw hacc hholder hpayIn
  have hw₁ := hw.touched hmove.touched rfl
  have hout₁ : amountOut ≤ l₁.balance (accs.vault (outSide aToB)) := by
    rw [← hvault, hbal, if_neg hne.symm, hvault]
    exact hout
  have hsigns := signsFor_accepted hw hterms
  obtain ⟨led', hpayOut⟩ := payOut_accepted hF₁ hw₁ hacc hsigns hout₁
  refine ⟨led', ?_, hF₁.payOut hw₁ hacc hholder hpayOut, ?_⟩
  · rw [swapTransfers]
    cases aToB
    · exact Checked.bind_eq_ok.mpr ⟨l₁, hpayIn, hpayOut⟩
    · exact Checked.bind_eq_ok.mpr ⟨l₁, hpayIn, hpayOut⟩
  · have hpaid := (transferChecked_eq_ok hpayIn).2.2.2.1
    have hpaid' := (transferChecked_eq_ok hpayOut).2.2.2.1
    have hnot := hF.userToken_ne hw hacc hholder (inSide aToB)
    have hmoved : l₁.balance (accs.userToken (inSide aToB)) =
        led.balance (accs.userToken (inSide aToB)) - amountIn := by
      rw [hpaid, moved, if_pos rfl, if_neg (hnot _)]
    rw [hpaid', moved_of_ne (hnot _) (hF₁.userToken_side_ne hw₁ hacc hne), hmoved]
    omega

end Transfers

/-! ### The whole instruction -/

theorem Supplied.whole {counts : List ℕ} {tail : List Pubkey} {gs : List Group} {g : Group}
    (hgs : Supplied rt led P dir counts tail gs) (hv : (led.market rt P p).Valid S) (hg : g ∈ gs) :
    g.Whole rt led P dir where
  toReady := (hgs.reads g hg).ready
  full := (hgs.reads g hg).count
  scale k hk := by
    obtain ⟨l, hl, hband, -⟩ := (hgs.reads g hg).open_of_mem hk
    exact hband ▸ hv.indexed.bandId_le k l hl

theorem accrueFee_accepted {c d n portion : ℕ} (h : p.fees (inSide aToB) + portion < 2 ^ 64) :
    (traded p aToB c d n 0).accrueFee aToB portion = .ok (traded p aToB c d n portion) := by
  rw [Pool.accrueFee]
  split
  · cases aToB
    · have hfits : fits 64 ((traded p false c d n 0).protocolFeesB + portion) =
          .ok (p.protocolFeesB + portion) := fits_of_lt h
      simp only [Bool.false_eq_true, if_false, hfits, Checked.ok_bind]
      rfl
    · have hfits : fits 64 ((traded p true c d n 0).protocolFeesA + portion) =
          .ok (p.protocolFeesA + portion) := fits_of_lt h
      simp only [if_true, hfits, Checked.ok_bind]
      rfl
  · rename_i hzero
    rw [Nat.eq_zero_of_not_pos hzero]

section Swap

variable {accs : SwapAccounts} {decimals : Side → ℕ} {amountIn minOut bandBoundary band : ℕ}
  {counts : List ℕ} {r : Settled}

variable (accs) in
/-- **A swap is accepted** when its accounts are in order, it settles, what it pays is there, and
its price is on the claimed side of the boundary. It leaves the accounts in order. -/
theorem processSwap_accepted (h : Reachable rt led) (hsig : ¬ rt.IsPda accs.user)
    (hsigned : accs.userIsSigner = true) (hp : led.HasPool rt accs.pool p)
    (hacc : p.matchesAccounts accs.toPoolAccounts = true)
    (hF : accs.Funded rt led accs.user decimals) (hx : amountIn ≠ 0)
    (hholds : amountIn ≤ led.balance (accs.userToken (inSide aToB)))
    (hr : Settles rt led accs.pool p aToB amountIn minOut bandBoundary counts accs.tail r)
    (hcov : Covered led p aToB r) (hband : bandIdForTrigger r.postPriceWad = .ok band)
    (hbound : checkBoundary aToB band bandBoundary = .ok ()) :
    ∃ led' events, processSwap rt accs amountIn minOut aToB bandBoundary counts led =
        .ok (led', events) ∧
      accs.Funded rt led' accs.user decimals ∧
      led'.balance (accs.userToken (inSide aToB)) + amountIn =
        led.balance (accs.userToken (inSide aToB)) := by
  have hfiled := h.sound.filed
  obtain ⟨S, hv⟩ := h.sound.valid _ _ hp
  have hw := hfiled.wired _ _ hp
  obtain ⟨hvault, -⟩ := Pool.matchesAccounts_iff.mp hacc
  have hsettled := hr.settled
  simp only [settleSwap, Checked.bind_eq_ok, require_eq_ok, exists_const, Prod.exists] at hsettled
  obtain ⟨ctx, hctx, q, hbump, x, y, haccounted, hreserves, q₁, hsample, hfee, portion, hportion,
    hcascade⟩ := hsettled
  have hq : (led.market rt accs.pool p).Accrued q := ⟨hbump⟩
  obtain ⟨rfl, rfl⟩ := hq.reserve_eq haccounted
  obtain ⟨gs, hgs, -, rfl⟩ := (checkContext_eq_ok hfiled).mp hctx
  obtain ⟨ref, at', hq₁⟩ := sampleRefPrice_frame hsample
  have hterms : q₁.terms = p.terms := by
    rw [hq₁, Pool.withRefPrice_terms]
    exact hq.terms
  -- the loop, and what it leaves to be settled
  set t : SwapTerms := ⟨aToB, amountIn, amountIn - portion, led.balance p.vaultA,
    led.balance p.vaultB⟩ with ht
  have hsetup : CascadeSetup (led.market rt accs.pool p) S q₁ t (gs.flatMap Group.loans) :=
    hgs.cascadeSetup hv hq hsample rfl rfl
  obtain ⟨ks, hend⟩ := cascade_eq_ok hsetup (hsetup.start rfl rfl) (by simp) hcascade
  have hflags : Flags r.state.loans ks.toFinset (gs.flatMap Group.keys) := by
    rw [hend.at_state.loans, ← map_loan_flatMap hgs.reads]
    exact flags_marked
  have hfees : q₁.fees (inSide aToB) + portion < 2 ^ 64 := by
    have hsolv := hv.solvent (inSide aToB)
    have hroom := hF.room (inSide aToB)
    have hle := protocolPortion_le (hv.terms.of_terms hterms) hportion
    rw [market_real, hvault] at hsolv
    rw [hq₁, Pool.withRefPrice_fees, hq.fees]
    omega
  have hpool : r.state.pool = traded q₁ aToB ((led.market rt accs.pool p).seized ks.toFinset)
      ((led.market rt accs.pool p).forgiven ks.toFinset) ks.length 0 := hend.at_state.pool
  have haccrue := accrueFee_accepted (c := (led.market rt accs.pool p).seized ks.toFinset)
    (d := (led.market rt accs.pool p).forgiven ks.toFinset) (n := ks.length) hfees
  obtain ⟨led₁, q₂, events, hpersist⟩ := persistLiquidations_accepted (hfiled.bandsKeyed _)
    (p := traded q₁ aToB ((led.market rt accs.pool p).seized ks.toFinset)
      ((led.market rt accs.pool p).forgiven ks.toFinset) ks.length portion)
    (fun g hg => hgs.whole hv hg) hgs.nodup hflags
  obtain ⟨hliq, ⟨fall, rise, hq₂⟩, -⟩ := persistLiquidations_eq_ok (hfiled.bandsKeyed _)
    (fun g hg => (hgs.reads g hg).ready) hgs.nodup hflags hpersist
  -- the accounts are still in order after it, and after the transfers
  have hrecord := hliq.recordMove hfiled hp
  obtain ⟨hF₁, huser₁⟩ := hF.of_records hw hacc fun k hk => hliq.accts_eq hk
  have hw₁ := hw.touched hrecord.touched rfl
  obtain ⟨a, b, hswappable, hle⟩ := hcov
  have hout : r.amountOut ≤ led₁.balance (accs.vault (outSide aToB)) := by
    obtain ⟨⟨-, rfl⟩, -, rfl⟩ := Pool.swappable_eq_ok.mp hswappable
    rw [hrecord.balance, ← hvault]
    cases aToB
    · exact hle.trans ((Nat.sub_le _ _).trans (Nat.sub_le _ _))
    · exact hle.trans ((Nat.sub_le _ _).trans (Nat.sub_le _ _))
  obtain ⟨led₂, htransfers, hF₂, hbalance⟩ := swapTransfers_accepted (q := q₂) hF₁ hw₁ hacc hsig rfl
    hsigned (by rw [hq₂, Pool.withBitmaps_terms, traded_terms, hterms]) (huser₁ _ ▸ hholds) hout
  obtain ⟨hmove, -⟩ := swapTransfers_eq_ok hw₁ hacc hsig htransfers
  have hp₂ : led₂.HasPool rt accs.pool p := hmove.tokenOnly.hasPool (hrecord.hasPool hp)
  set led₃ := led₂.setData accs.pool (.pool (q₂.stamp led₂.slot)) with hled₃
  have hother : ∀ k, ¬ (led₂.accts k).data.Plain → led₃.accts k = led₂.accts k := by
    intro k hk
    refine setData_accts_of_ne ?_
    rintro rfl
    exact hk (by rw [hp₂.1]; trivial)
  obtain ⟨hF₃, huser₃⟩ := hF₂.of_records (hw₁.touched hmove.touched rfl) hacc hother
  refine ⟨led₃, events ++
    [.swapExecuted accs.pool accs.user aToB amountIn r.amountOut r.liqCount portion], ?_, hF₃, ?_⟩
  · rw [hpool] at hswappable
    simp only [ht] at hcascade
    simp only [processSwap, require_of hsigned, validate_accepted hF hp, require_of hx,
      loadPool_accepted hacc hp, hctx, readDecimals_accepted hF, readVaults_accepted hw hacc, hbump,
      haccounted, require_of hreserves, hsample, require_of hfee, hportion, hcascade,
      require_of hr.pos, fits_of_lt hr.fits, require_of hr.min, hpool, hswappable,
      require_of hle, haccrue, hband, hbound, hpersist, htransfers, Checked.ok_bind]
    rfl
  · rw [huser₃, hbalance, huser₁]

end Swap

end ChiefLiquidity
