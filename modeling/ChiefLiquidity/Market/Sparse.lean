import ChiefLiquidity.Market.Jam
import ChiefLiquidity.Market.Quotes

/-!
# Loans that let the price pass

The other side of `Jammed`. When only few and light loans sit near each other on the price scale, a
swap that is small against the reserves liquidates loans near the price and no others: what it pays
in and what it liquidates move the price too little to come to the next ones. And what it leaves is
as passable as before, so a large swap can be made in small pieces.

## The measure of nearness

Nearness is relative: one part in `n` of the price, with the swap at most a sixteenth of that
against the input reserve and the loans at most a quarter. The fractions are generous, and leave
room for the floors of the quote and of the fee.

## Retention

A small swap liquidates loans near the price only, of which there are at most eight. After it, the
price has moved by less than one part in `n`, so the loans that are now near were near each other
before. That is why both kinds of nearness are bounded: the second is what the first turns into.

## Main definitions

* `Imminent`, `Clustered` — loans near the price, and loans near each other
* `Sparse` — neither kind is more than a swap may liquidate
* `Calm` — no loan of the direction is past its trigger
* `Deep` — the reserves are there for an amount
* `Settleable`, `Piece` — pushes that settle, and small ones that are not dust

## Main results

* `Imminent.of_cascade`, `Sparse.cascade_length` — a small swap stays under the cap
* `Sparse.trade`, `Deep.trade` — and leaves the market passable
* `Piece.settleable`, `Piece.out_pos`, `Piece.price` — a piece settles
-/

namespace ConstantProduct

variable {f g r o s d n : ℕ}

/-- A trade of a sixteenth of an `n`-th of the input reserve, with a quarter of an `n`-th added to
the one reserve and taken from the other, moves the ratio of the reserves by less than one part in
`n`. -/
theorem rest_in_reach (hn : 0 < n) (hr : 0 < r) (hfg : f ≤ g) (hg : 16 * n * g ≤ r)
    (hs : 4 * n * s ≤ r) (hd : 4 * n * d ≤ o) :
    o * n * (r + s + g) ≤ rest f (r + s) (o - d) * (r * (n + 1)) := by
  have hpaid : 16 * n * quote f (r + s) (o - d) ≤ o := by
    refine Nat.le_of_mul_le_mul_right ?_ hr
    calc 16 * n * quote f (r + s) (o - d) * r
        ≤ 16 * n * (quote f (r + s) (o - d) * (r + s)) := by
          rw [Nat.mul_assoc]
          exact Nat.mul_le_mul_left _ (Nat.mul_le_mul_left _ (Nat.le_add_right r s))
      _ ≤ 16 * n * (f * (o - d)) := Nat.mul_le_mul_left _ (quote_mul_in_le _ _ _)
      _ ≤ 16 * n * (g * o) := by gcongr; omega
      _ = 16 * n * g * o := by ring
      _ ≤ r * o := Nat.mul_le_mul_right _ hg
      _ = o * r := Nat.mul_comm _ _
  have hd' : d ≤ o := (Nat.le_mul_of_pos_left d (by omega)).trans hd
  have hsum := rest_add_quote f (r + s) (o - d)
  have hrest : (16 * n) * o ≤ (16 * n) * rest f (r + s) (o - d) + 5 * o := by
    have hsplit : rest f (r + s) (o - d) + quote f (r + s) (o - d) + d = o := by omega
    calc (16 * n) * o = (16 * n) * rest f (r + s) (o - d) +
          (16 * n * quote f (r + s) (o - d) + 4 * (4 * n * d)) := by
            conv_lhs => rw [← hsplit]
            ring
      _ ≤ (16 * n) * rest f (r + s) (o - d) + 5 * o := by omega
  have hin : 16 * n * (r + s + g) ≤ (16 * n + 5) * r := by
    calc 16 * n * (r + s + g) = 16 * n * r + 4 * (4 * n * s) + 16 * n * g := by ring
      _ ≤ (16 * n + 5) * r := by rw [Nat.add_mul]; omega
  refine Nat.le_of_mul_le_mul_left ?_ (show 0 < 16 * n by omega)
  generalize rest f (r + s) (o - d) = e at *
  generalize r + s + g = i at *
  calc 16 * n * (o * n * i) = o * n * (16 * n * i) := by ring
    _ ≤ o * n * ((16 * n + 5) * r) := Nat.mul_le_mul_left _ hin
    _ ≤ (16 * n * e) * (r * (n + 1)) := by
        obtain ⟨j, rfl⟩ := Nat.exists_eq_succ_of_ne_zero hn.ne'
        nlinarith [Nat.mul_le_mul_right (r * (j + 1 + 1)) hrest, Nat.zero_le (o * r),
          Nat.zero_le (o * r * j)]
    _ = 16 * n * (e * (r * (n + 1))) := by ring

end ConstantProduct

namespace ChiefLiquidity.Market

variable {m m' : Market} {S D R : Finset Pubkey} {p p₁ : Pool} {f : SwapFigures} {t : Push}
  {supplied : Finset Pubkey} {ks : List Pubkey} {aToB : Bool} {n : ℕ} {k : Pubkey} {l : Loan}

/-- Open loans of the direction that are triggered once the price has moved on by one part in
`n`. -/
structure Imminent (m : Market) (aToB : Bool) (n : ℕ) (D : Finset Pubkey) : Prop where
  isOpen : ∀ k ∈ D, ∃ l, m.loans k = some l ∧ l.triggerDirection = (swapDirection aToB).toU8
  near : ∀ k ∈ D, ∀ l, m.loans k = some l →
    isLiquidatable l.triggerPriceWad (swapDirection aToB)
      (priceOf aToB (m.reserve (inSide aToB) * (n + 1)) (m.reserve (outSide aToB) * n)) = true

/-- Open loans of the direction whose triggers are within one part in `n` of each other. -/
structure Clustered (m : Market) (aToB : Bool) (n : ℕ) (D : Finset Pubkey) : Prop where
  isOpen : ∀ k ∈ D, ∃ l, m.loans k = some l ∧ l.triggerDirection = (swapDirection aToB).toU8
  close : ∀ j ∈ D, ∀ k ∈ D, ∀ lj lk, m.loans j = some lj → m.loans k = some lk →
    lj.triggerPriceWad * n ≤ lk.triggerPriceWad * (n + 1)

/-- Loans near the price, and loans near each other, are no more than a swap may liquidate, and they
weigh little against the reserves. -/
structure Sparse (m : Market) (aToB : Bool) (n : ℕ) : Prop where
  imminent : ∀ D, m.Imminent aToB n D → D.card ≤ maxLiqPerSwap ∧
    4 * n * m.seized D ≤ m.reserve (inSide aToB) ∧
    4 * n * m.forgiven D ≤ m.reserve (outSide aToB)
  clustered : ∀ D, m.Clustered aToB n D → D.card ≤ maxLiqPerSwap ∧
    4 * n * m.seized D ≤ m.reserve (inSide aToB)

/-! ### A small swap -/

/-- A small swap does not move the price by one part in `n`, whatever imminent loans it
liquidates. -/
theorem Sparse.price_in_reach (hs : m.Sparse t.aToB n) (hn : 0 < n)
    (hin : 0 < m.reserve (inSide t.aToB)) (hout : 0 < m.reserve (outSide t.aToB))
    (hle : t.afterFee ≤ t.growth) (hsmall : 16 * n * t.growth ≤ m.reserve (inSide t.aToB))
    (hR : m.Imminent t.aToB n R) :
    Further t.aToB (m.provisionalPrice t R)
      (priceOf t.aToB (m.reserve (inSide t.aToB) * (n + 1)) (m.reserve (outSide t.aToB) * n)) := by
  obtain ⟨-, hseized, hforgiven⟩ := hs.imminent R hR
  have hlt : m.forgiven R < m.reserve (outSide t.aToB) := by nlinarith
  have hreach := ConstantProduct.rest_in_reach hn hin hle hsmall hseized hforgiven
  rw [provisionalPrice]
  refine further_of_cross ?_ (by positivity) ?_ (by positivity) ?_
  · rw [inReserve]
    omega
  · exact ConstantProduct.rest_pos (by rw [inReserve]; omega) (Nat.sub_pos_of_lt hlt)
  · exact hreach

/-- **A small swap liquidates imminent loans only.** Induction on the cascade. -/
theorem Imminent.of_cascade (hs : m.Sparse t.aToB n) (hn : 0 < n)
    (hin : 0 < m.reserve (inSide t.aToB)) (hout : 0 < m.reserve (outSide t.aToB))
    (hle : t.afterFee ≤ t.growth) (hsmall : 16 * n * t.growth ≤ m.reserve (inSide t.aToB))
    (h : m.Cascade t ks) : m.Imminent t.aToB n ks.toFinset := by
  induction h with
  | nil => exact ⟨by simp, by simp⟩
  | @snoc ks k _ _ hfires ih =>
    obtain ⟨l, hl, hdir, hliq⟩ := hfires
    have hnear := isLiquidatable_of_further
      (hs.price_in_reach hn hin hout hle hsmall ih) hliq
    refine ⟨fun j hj => ?_, fun j hj lj hlj => ?_⟩
    · rw [List.mem_toFinset, List.mem_append, List.mem_singleton] at hj
      rcases hj with hj | rfl
      · exact ih.isOpen j (List.mem_toFinset.mpr hj)
      · exact ⟨l, hl, hdir⟩
    · rw [List.mem_toFinset, List.mem_append, List.mem_singleton] at hj
      rcases hj with hj | rfl
      · exact ih.near j (List.mem_toFinset.mpr hj) lj hlj
      · obtain rfl := Option.some.inj (hl.symm.trans hlj)
        exact hnear

/-- **A small swap stays under the cap.** -/
theorem Sparse.cascade_length (hs : m.Sparse t.aToB n) (hn : 0 < n)
    (hin : 0 < m.reserve (inSide t.aToB)) (hout : 0 < m.reserve (outSide t.aToB))
    (hle : t.afterFee ≤ t.growth) (hsmall : 16 * n * t.growth ≤ m.reserve (inSide t.aToB))
    (h : m.Cascade t ks) : ks.length ≤ maxLiqPerSwap := by
  rw [← List.toFinset_card_of_nodup h.nodup]
  exact (hs.imminent _ (.of_cascade hs hn hin hout hle hsmall h)).1

/-! ### What it leaves -/

/-- No open loan of the direction is past its trigger. -/
def Calm (m : Market) (aToB : Bool) : Prop :=
  ∀ k l, m.loans k = some l → l.triggerDirection = (swapDirection aToB).toU8 →
    isLiquidatable l.triggerPriceWad (swapDirection aToB) m.spot = false

/-- A trade that pays its output leaves no loan past its trigger. -/
theorem Trade.calm (hv : m.Valid S) (h : Trade m p p₁ f supplied ks m')
    (hpaid : f.paid = f.amountOut) : m'.Calm f.aToB := by
  intro k l hl hdir
  rw [h.loans_eq, KeyedSum.without_eq_some] at hl
  obtain ⟨hk, hl⟩ := hl
  rw [h.spot_eq_price hv hpaid]
  by_contra hliq
  refine h.closed hv k hk ⟨l, hl, hdir, ?_⟩
  rw [← h.price_eq]
  exact Bool.not_eq_false _ ▸ hliq

section Prices

variable {t inR outR : ℕ}

theorem triggered_onFall (hin : 0 < inR) :
    isLiquidatable t .onFall (spotWad inR outR) = true ↔ outR * wad < (t + 1) * inR := by
  rw [isLiquidatable_onFall, spotWad, ← Nat.lt_succ_iff, Nat.div_lt_iff_lt_mul hin]

theorem triggered_onRise (hout : 0 < outR) :
    isLiquidatable t .onRise (spotWad outR inR) = true ↔ t * outR ≤ inR * wad := by
  rw [isLiquidatable_onRise, spotWad, Nat.le_div_iff_mul_le hout]

end Prices

/-- **Loans near the price are near each other**, when none of them is past its trigger. -/
theorem Calm.clustered (hc : m.Calm aToB) (hn : 0 < n) (hin : 0 < m.reserve (inSide aToB))
    (hout : 0 < m.reserve (outSide aToB)) (hD : m.Imminent aToB n D) : m.Clustered aToB n D := by
  have hnot : ∀ k ∈ D, ∀ l, m.loans k = some l →
      ¬ isLiquidatable l.triggerPriceWad (swapDirection aToB)
        (priceOf aToB (m.reserve (inSide aToB)) (m.reserve (outSide aToB))) = true := by
    intro k hk l hl
    obtain ⟨l', hl', hdir⟩ := hD.isOpen k hk
    obtain rfl := Option.some.inj (hl.symm.trans hl')
    rw [← spot_eq_priceOf m aToB]
    exact Bool.eq_false_iff.mp (hc k l hl hdir)
  refine ⟨hD.isOpen, fun j hj k hk lj lk hlj hlk => ?_⟩
  have hnearj := hD.near j hj lj hlj
  have hneark := hD.near k hk lk hlk
  have hnotj := hnot j hj lj hlj
  have hnotk := hnot k hk lk hlk
  generalize m.reserve (inSide aToB) = r at *
  generalize m.reserve (outSide aToB) = o at *
  generalize lj.triggerPriceWad = tj at *
  generalize lk.triggerPriceWad = tk at *
  cases aToB with
  | true =>
    have hlt := (triggered_onFall (Nat.mul_pos hin (Nat.succ_pos n))).mp hneark
    have hle := not_lt.mp (mt (triggered_onFall hin).mpr hnotj)
    have hcross : (tj + 1) * n * r < (tk + 1) * (n + 1) * r := by
      calc (tj + 1) * n * r = (tj + 1) * r * n := by ring
        _ ≤ o * wad * n := Nat.mul_le_mul_right n hle
        _ = o * n * wad := by ring
        _ < (tk + 1) * (r * (n + 1)) := hlt
        _ = (tk + 1) * (n + 1) * r := by ring
    have hshort := Nat.lt_of_mul_lt_mul_right hcross
    rw [Nat.add_mul, Nat.add_mul] at hshort
    omega
  | false =>
    have hle := (triggered_onRise (Nat.mul_pos hout hn)).mp hnearj
    have hlt := not_le.mp (mt (triggered_onRise hout).mpr hnotk)
    refine Nat.le_of_mul_le_mul_right ?_ hout
    calc tj * n * o = tj * (o * n) := by ring
      _ ≤ r * (n + 1) * wad := hle
      _ = r * wad * (n + 1) := by ring
      _ ≤ tk * o * (n + 1) := Nat.mul_le_mul_right (n + 1) hlt.le
      _ = tk * (n + 1) * o := by ring

/-- **The debt of a loan that is not past its trigger** is worth less than its collateral. -/
theorem Calm.principal_le (hv : m.Valid S) (hc : m.Calm aToB)
    (hin : 0 < m.reserve (inSide aToB)) (hout : 0 < m.reserve (outSide aToB))
    (hl : m.loans k = some l) (hdir : l.triggerDirection = (swapDirection aToB).toU8) :
    m.reserve (inSide aToB) * l.debtPrincipal ≤ m.reserve (outSide aToB) * l.collateralAmount := by
  have hnot := Bool.eq_false_iff.mp (hc k l hl hdir)
  obtain ⟨sides, dir, hsides, hdir', htrig, -⟩ := hv.indexed.sound k l hl
  obtain ⟨hcpos, hdpos, rfl, ht⟩ := recomputeTrigger_eq_ok htrig
  obtain rfl : sides = swapSides aToB := by
    have hd := TriggerDirection.toU8_injective (hdir'.symm.trans hdir)
    cases sides <;> cases aToB <;> first | rfl | cases hd
  rw [hv.terms.liqRatio] at ht
  rw [spot_eq_priceOf m aToB, ht] at hnot
  generalize m.reserve (inSide aToB) = r at *
  generalize m.reserve (outSide aToB) = o at *
  generalize l.collateralAmount = c at *
  generalize l.debtPrincipal = d at *
  by_contra hlt
  rw [Nat.not_le] at hlt
  refine hnot ?_
  cases aToB with
  | true =>
    refine isLiquidatable_onFall.mpr (Rounding.div_le_div_of_cross hin
      (Nat.mul_pos hcpos (by decide)) ?_)
    show o * wad * (c * 10000) ≤ d * 11000 * wad * r
    calc o * wad * (c * 10000) = o * c * (10000 * wad) := by ring
      _ ≤ r * d * (11000 * wad) := Nat.mul_le_mul hlt.le (Nat.mul_le_mul_right _ (by decide))
      _ = d * 11000 * wad * r := by ring
  | false =>
    refine isLiquidatable_onRise.mpr (Rounding.div_le_div_of_cross
      (Nat.mul_pos hdpos (by decide)) hout ?_)
    show c * 10000 * wad * o ≤ r * wad * (d * 11000)
    calc c * 10000 * wad * o = o * c * (10000 * wad) := by ring
      _ ≤ r * d * (11000 * wad) := Nat.mul_le_mul hlt.le (Nat.mul_le_mul_right _ (by decide))
      _ = r * wad * (d * 11000) := by ring

/-- What becomes of the loans a trade leaves: nothing. -/
theorem Trade.loan_of_left (h : Trade m p p₁ f supplied ks m') (hl : m'.loans k = some l) :
    m.loans k = some l := by
  rw [h.loans_eq, KeyedSum.without_eq_some] at hl
  exact hl.2

/-- Loans that are left weigh what they did. -/
theorem Trade.total_of_left (h : Trade m p p₁ f supplied ks m')
    (hD : ∀ k ∈ D, ∃ l, m'.loans k = some l) (w : Loan → ℕ) :
    KeyedSum.total D m'.loans w = KeyedSum.total D m.loans w := by
  refine Finset.sum_congr rfl fun k hk => ?_
  obtain ⟨l, hl⟩ := hD k hk
  rw [KeyedSum.weightAt_of_some hl, KeyedSum.weightAt_of_some (h.loan_of_left hl)]

/-- **A trade leaves the loans as sparse as they were.** It takes some away, lets the input reserve
grow, and leaves none past its trigger. -/
theorem Sparse.trade (hv : m.Valid S) (hs : m.Sparse f.aToB n) (hn : 0 < n)
    (h : Trade m p p₁ f supplied ks m') (hpaid : f.paid = f.amountOut) :
    m'.Sparse f.aToB n := by
  have hgrows : m.reserve (inSide f.aToB) ≤ m'.reserve (inSide f.aToB) := by
    have hmoved := (h.reserves_moved hv).1
    omega
  have hclustered : ∀ D, m'.Clustered f.aToB n D → D.card ≤ maxLiqPerSwap ∧
      4 * n * m'.seized D ≤ m'.reserve (inSide f.aToB) := by
    intro D hD
    have hopen : ∀ k ∈ D, ∃ l, m'.loans k = some l := fun k hk => by
      obtain ⟨l, hl, -⟩ := hD.isOpen k hk
      exact ⟨l, hl⟩
    have hsame : ∀ k ∈ D, ∀ l, m.loans k = some l → m'.loans k = some l := by
      intro k hk l hl
      obtain ⟨l', hl'⟩ := hopen k hk
      rw [hl', ← hl, h.loan_of_left hl']
    have hbefore : m.Clustered f.aToB n D := by
      refine ⟨fun k hk => ?_, fun j hj k hk lj lk hlj hlk =>
        hD.close j hj k hk lj lk (hsame j hj lj hlj) (hsame k hk lk hlk)⟩
      obtain ⟨l, hl, hdir⟩ := hD.isOpen k hk
      exact ⟨l, h.loan_of_left hl, hdir⟩
    obtain ⟨hcard, hle⟩ := hs.clustered D hbefore
    refine ⟨hcard, ?_⟩
    rw [seized, h.total_of_left hopen, ← seized]
    exact hle.trans hgrows
  refine ⟨fun D hD => ?_, hclustered⟩
  have hin := h.leaves_reserves hv (inSide f.aToB)
  have hout := h.leaves_reserves hv (outSide f.aToB)
  have hcalm := h.calm hv hpaid
  obtain ⟨hcard, hseized⟩ := hclustered D (hcalm.clustered hn hin hout hD)
  refine ⟨hcard, hseized, ?_⟩
  have hworth : m'.reserve (inSide f.aToB) * m'.forgiven D ≤
      m'.reserve (outSide f.aToB) * m'.seized D := by
    refine KeyedSum.total_mul_le fun k hk l hl => ?_
    obtain ⟨l', hl', hdir⟩ := hD.isOpen k hk
    obtain rfl := Option.some.inj (hl.symm.trans hl')
    exact hcalm.principal_le (h.valid hv) hin hout hl hdir
  refine Nat.le_of_mul_le_mul_left ?_ hin
  calc m'.reserve (inSide f.aToB) * (4 * n * m'.forgiven D)
      = 4 * n * (m'.reserve (inSide f.aToB) * m'.forgiven D) := by ring
    _ ≤ 4 * n * (m'.reserve (outSide f.aToB) * m'.seized D) := Nat.mul_le_mul_left _ hworth
    _ = m'.reserve (outSide f.aToB) * (4 * n * m'.seized D) := by ring
    _ ≤ m'.reserve (outSide f.aToB) * m'.reserve (inSide f.aToB) := Nat.mul_le_mul_left _ hseized
    _ = m'.reserve (inSide f.aToB) * m'.reserve (outSide f.aToB) := Nat.mul_comm _ _

/-! ### How deep the reserves are -/

/-- The reserves are there for `amountIn`: the input reserve is not tiny, the output vault covers
the quote of the whole amount with something to spare, and nothing comes near the end of a word. -/
structure Deep (m : Market) (aToB : Bool) (n amountIn : ℕ) : Prop where
  input : 256 * n ≤ m.reserve (inSide aToB)
  output : ConstantProduct.quote amountIn (m.reserve (inSide aToB)) (m.reserve (outSide aToB)) +
    256 * n ≤ m.swappable (outSide aToB)
  input_word : m.reserve (inSide aToB) + amountIn + m.pool.collateral (inSide aToB) < 2 ^ 67
  output_word : m.reserve (outSide aToB) < 2 ^ 67

/-- **A trade leaves the reserves there for what remains of the amount**: trading in pieces pays no
more than one trade of the whole. -/
theorem Deep.trade {left : ℕ} (hv : m.Valid S) (hd : m.Deep f.aToB n (f.amountIn + left))
    (h : Trade m p p₁ f supplied ks m') (hpaid : f.paid = f.amountOut) :
    m'.Deep f.aToB n left := by
  have hin := h.reserve_in hv
  have hout := h.reserve_out hv
  have hafter := h.afterFee_le hv
  have ht := h.traded
  have hcoll := ht.collateral (inSide f.aToB)
  have hseized := h.seized_le
  have hle := h.amountOut_le
  have hswappable : m'.swappable (outSide f.aToB) = m.swappable (outSide f.aToB) - f.amountOut := by
    have hne := (inSide_ne_outSide f.aToB).symm
    have hc := ht.collateral (outSide f.aToB)
    have hfees := ht.fees (outSide f.aToB)
    have hreal := ht.real (outSide f.aToB)
    rw [if_neg hne] at hc hfees
    rw [if_neg hne, if_pos rfl, hpaid] at hreal
    rw [swappable, hreal, hfees, swappable]
    omega
  rw [if_pos rfl] at hcoll
  rw [hpaid] at hout
  have hq := h.amountOut_eq
  rw [inReserve] at hin
  rw [outReserve] at hout
  set t := f.push p.swapFeeBps with hpush
  have hside : t.aToB = f.aToB := rfl
  rw [hside] at hin hout
  have hrpos := h.reserve_pos (inSide f.aToB)
  have hinput := hd.input
  have houtput := hd.output
  have hword := hd.input_word
  have hword' := hd.output_word
  have hsr := swappable_le_reserve m (outSide f.aToB)
  -- the output is paid at no better than the price before
  have hfirst : f.amountOut * (m.reserve (inSide f.aToB) + t.afterFee) ≤
      t.afterFee * m.reserve (outSide f.aToB) := by
    rw [hq]
    refine (Nat.mul_le_mul_right _ (provisionalOut_le m t _ hrpos)).trans ?_
    exact ConstantProduct.quote_mul_le _ _ _
  have hturn : f.amountOut + ConstantProduct.quote left (m'.reserve (inSide f.aToB))
      (m'.reserve (outSide f.aToB)) ≤ ConstantProduct.quote (f.amountIn + left)
        (m.reserve (inSide f.aToB)) (m.reserve (outSide f.aToB)) := by
    calc f.amountOut + ConstantProduct.quote left (m'.reserve (inSide f.aToB))
          (m'.reserve (outSide f.aToB))
        ≤ f.amountOut + ConstantProduct.quote left (m.reserve (inSide f.aToB) + t.afterFee)
            (m.reserve (outSide f.aToB) - f.amountOut) :=
          Nat.add_le_add_left (ConstantProduct.quote_mono (by omega) (by omega) (by omega)) _
      _ ≤ ConstantProduct.quote (t.afterFee + left) (m.reserve (inSide f.aToB))
            (m.reserve (outSide f.aToB)) :=
          ConstantProduct.add_quote_le hrpos hfirst (hle.trans hsr)
      _ ≤ _ := ConstantProduct.quote_mono_in hrpos (by omega)
  refine ⟨by omega, by omega, by omega, by omega⟩

/-! ### Pieces -/

/-- The chains of a push stay under the cap and leave something of the output reserve, and the
reserves they come to are of 67 bits. -/
structure Settleable (m : Market) (t : Push) : Prop where
  length_le : ∀ ks, m.Cascade t ks → ks.length ≤ maxLiqPerSwap
  forgiven_lt : ∀ ks, m.Cascade t ks → m.forgiven ks.toFinset < m.reserve (outSide t.aToB)
  input_pos : 0 < m.reserve (inSide t.aToB)
  input_word : m.reserve (inSide t.aToB) + m.pool.collateral (inSide t.aToB) + t.growth < 2 ^ 67
  output_word : m.reserve (outSide t.aToB) < 2 ^ 67

/-- A push that is small against the input reserve, and buys more than one unit at the price
before it. -/
structure Piece (m : Market) (n : ℕ) (t : Push) : Prop where
  afterFee_le : t.afterFee ≤ t.growth
  small : 16 * n * t.growth ≤ m.reserve (inSide t.aToB)
  buys : 2 * m.reserve (inSide t.aToB) ≤ t.afterFee * m.reserve (outSide t.aToB)

/-- The push of a swap of this amount. -/
def pushOf (m : Market) (aToB : Bool) (amountIn portion : ℕ) : Push where
  aToB := aToB
  afterFee := inAfterFee amountIn m.pool.swapFeeBps
  growth := amountIn - portion

/-- The amount buys more than one unit at the present price, after the fee. -/
def Buys (m : Market) (aToB : Bool) (amountIn : ℕ) : Prop :=
  2 * m.reserve (inSide aToB) ≤
    inAfterFee amountIn m.pool.swapFeeBps * m.reserve (outSide aToB)

theorem Buys.pos {x : ℕ} (h : m.Buys aToB x) (hin : 0 < m.reserve (inSide aToB)) : 0 < x := by
  by_contra hzero
  rw [Nat.eq_zero_of_not_pos hzero, Buys, inAfterFee, Nat.zero_mul, Nat.zero_div, Nat.zero_mul] at h
  omega

/-- A swap of at most a sixteenth of an `n`-th of the input reserve is a piece. -/
theorem Valid.piece {x portion : ℕ} (hv : m.Valid S)
    (hportion : m.pool.protocolPortion x = .ok portion) (hbuys : m.Buys aToB x)
    (hsmall : 16 * n * x ≤ m.reserve (inSide aToB)) : m.Piece n (m.pushOf aToB x portion) :=
  ⟨afterFee_le_growth hv.terms hportion,
    (Nat.mul_le_mul_left _ (Nat.sub_le _ _)).trans hsmall, hbuys⟩

/-- An amount of a sixty-fourth of an `n`-th of a deep input reserve is not dust. -/
theorem Valid.buys {x : ℕ} (hv : m.Valid S) (hinput : 256 * n ≤ m.reserve (inSide aToB))
    (houtput : 256 * n ≤ m.reserve (outSide aToB)) (hn : 0 < n)
    (hlarge : m.reserve (inSide aToB) ≤ 64 * n * x) : m.Buys aToB x := by
  have hfour : 4 ≤ x := by
    by_contra hlt
    have hle : 64 * n * x ≤ 64 * n * 3 := Nat.mul_le_mul_left _ (by omega)
    omega
  have hafter : inAfterFee x m.pool.swapFeeBps = x * (10000 - 30) / 10000 := by
    rw [hv.terms.swapFee]
    rfl
  have hhalf : x ≤ 2 * inAfterFee x m.pool.swapFeeBps := by omega
  rw [Buys]
  generalize inAfterFee x m.pool.swapFeeBps = f at *
  calc 2 * m.reserve (inSide aToB) ≤ 2 * (64 * n * (2 * f)) :=
        Nat.mul_le_mul_left _ (hlarge.trans (Nat.mul_le_mul_left _ hhalf))
    _ = f * (256 * n) := by ring
    _ ≤ f * m.reserve (outSide aToB) := Nat.mul_le_mul_left _ houtput

theorem Deep.reserve_pos {amountIn : ℕ} (hd : m.Deep aToB n amountIn) (hn : 0 < n) :
    0 < m.reserve (inSide aToB) ∧ 256 * n ≤ m.reserve (outSide aToB) := by
  have hin := hd.input
  have hout := hd.output
  have hle := swappable_le_reserve m (outSide aToB)
  omega

section Piece

variable {amountIn : ℕ} (hn : 0 < n) (hs : m.Sparse t.aToB n) (hd : m.Deep t.aToB n amountIn)
  (ht : m.Piece n t)

include hn hs hd ht in
/-- What a piece liquidates is at most a quarter of the reserves. -/
theorem Piece.weights (h : m.Cascade t ks) :
    4 * m.seized ks.toFinset ≤ m.reserve (inSide t.aToB) ∧
      4 * m.forgiven ks.toFinset ≤ m.reserve (outSide t.aToB) := by
  obtain ⟨hin, hout⟩ := hd.reserve_pos hn
  obtain ⟨-, hseized, hforgiven⟩ := hs.imminent _
    (.of_cascade hs hn hin (by omega) ht.afterFee_le ht.small h)
  have hmul : ∀ w, 4 * w ≤ 4 * n * w := fun w => Nat.mul_le_mul_right w (by omega)
  exact ⟨(hmul _).trans hseized, (hmul _).trans hforgiven⟩

include hn ht in
theorem Piece.afterFee_small : 16 * t.afterFee ≤ m.reserve (inSide t.aToB) := by
  refine le_trans ?_ ht.small
  exact Nat.mul_le_mul (Nat.le_mul_of_pos_right _ hn) ht.afterFee_le

include hn hs hd ht in
/-- **A piece settles.** -/
theorem Piece.settleable (hle : t.growth ≤ amountIn) : m.Settleable t where
  length_le ks h := by
    obtain ⟨hin, hout⟩ := hd.reserve_pos hn
    exact hs.cascade_length hn hin (by omega) ht.afterFee_le ht.small h
  forgiven_lt ks h := by
    obtain ⟨-, hout⟩ := hd.reserve_pos hn
    have hweight := (ht.weights hn hs hd h).2
    omega
  input_pos := (hd.reserve_pos hn).1
  input_word := by
    have hword := hd.input_word
    omega
  output_word := hd.output_word

include hn hs hd ht in
/-- **A piece pays something.** -/
theorem Piece.out_pos (h : m.Cascade t ks) : 0 < m.provisionalOut t ks.toFinset := by
  obtain ⟨hin, hout⟩ := hd.reserve_pos hn
  obtain ⟨hseized, hforgiven⟩ := ht.weights hn hs hd h
  have hafter := ht.afterFee_small hn
  have hbuys := ht.buys
  rw [provisionalOut, inReserve, outReserve, ConstantProduct.quote]
  refine Nat.div_pos ?_ (by omega)
  have hout' : 3 * m.reserve (outSide t.aToB) ≤
      4 * (m.reserve (outSide t.aToB) - m.forgiven ks.toFinset) := by omega
  have hcross : t.afterFee * (3 * m.reserve (outSide t.aToB)) ≤
      t.afterFee * (4 * (m.reserve (outSide t.aToB) - m.forgiven ks.toFinset)) :=
    Nat.mul_le_mul_left _ hout'
  rw [Nat.mul_left_comm, Nat.mul_left_comm _ 4] at hcross
  omega

include hn hd in
/-- **What a push of no more than the amount pays is there.** -/
theorem Deep.out_le (hafter : t.afterFee ≤ amountIn) (R : Finset Pubkey) :
    m.provisionalOut t R ≤ m.swappable (outSide t.aToB) := by
  obtain ⟨hin, -⟩ := hd.reserve_pos hn
  have hout := hd.output
  have hquote := ConstantProduct.quote_mono_in (o := m.reserve (outSide t.aToB)) hin hafter
  exact (provisionalOut_le m t R hin).trans (by omega)

/-- A price of reserves that are not tiny and of 67 bits is a word that is not zero. -/
theorem spotWad_pos_lt {a b : ℕ} (ha : 0 < a) (ha' : a < 2 ^ 67) (hb : 148 ≤ b) (hb' : b < 2 ^ 67) :
    0 < spotWad a b ∧ spotWad a b < 2 ^ 127 := by
  have hlow : 148 * wad ≤ b * wad := Nat.mul_le_mul_right _ hb
  have hhigh : b * wad < 2 ^ 67 * 2 ^ 60 := Nat.mul_lt_mul'' hb' (by decide)
  have hword : 2 ^ 67 ≤ 148 * wad := by decide
  exact ⟨Nat.div_pos (by omega) ha, (Nat.div_le_self _ _).trans_lt (by omega)⟩

include hn hs hd ht in
/-- Most of the output reserve stays. -/
theorem Piece.rest_ge (h : m.Cascade t ks) :
    148 ≤ m.outReserve t ks.toFinset - m.provisionalOut t ks.toFinset := by
  obtain ⟨hin, hout⟩ := hd.reserve_pos hn
  have hforgiven := (ht.weights hn hs hd h).2
  have hafter := ht.afterFee_small hn
  have hprod := ConstantProduct.product_le t.afterFee (m.inReserve t ks.toFinset)
    (m.outReserve t ks.toFinset)
  rw [provisionalOut, ← ConstantProduct.rest]
  have hr : m.reserve (inSide t.aToB) ≤ m.inReserve t ks.toFinset := Nat.le_add_right _ _
  have ho : 192 ≤ m.outReserve t ks.toFinset := by
    rw [outReserve]
    omega
  generalize ConstantProduct.rest t.afterFee _ _ = e at *
  generalize m.inReserve t ks.toFinset = r at *
  generalize m.outReserve t ks.toFinset = o at *
  have hcross : r * (16 * o) ≤ r * (17 * e) := by
    calc r * (16 * o) = 16 * (r * o) := by ring
      _ ≤ 16 * ((r + t.afterFee) * e) := Nat.mul_le_mul_left _ hprod
      _ = (16 * r + 16 * t.afterFee) * e := by ring
      _ ≤ (16 * r + r) * e := Nat.mul_le_mul_right _ (by omega)
      _ = r * (17 * e) := by ring
  have hle := Nat.le_of_mul_le_mul_left hcross (by omega)
  omega

include hn hs hd ht in
/-- **The price it settles at** is a word that is not zero. -/
theorem Piece.price (hv : m.Valid S) (hle : t.growth ≤ amountIn) (h : m.Cascade t ks) :
    0 < m.provisionalPrice t ks.toFinset ∧ m.provisionalPrice t ks.toFinset < 2 ^ 127 := by
  obtain ⟨hseized, -, -⟩ := totals_ge hv fun k hk =>
    open_of_cascade h (List.mem_toFinset.mp hk)
  have hset := ht.settleable hn hs hd hle
  have hword := hset.input_word
  have hword' := hset.output_word
  have hinput := hd.input
  have hrest := ht.rest_ge hn hs hd h
  have hrest' : m.outReserve t ks.toFinset - m.provisionalOut t ks.toFinset < 2 ^ 67 := by
    rw [outReserve]
    omega
  have hin : 148 ≤ m.inReserve t ks.toFinset + t.growth := by
    rw [inReserve]
    omega
  have hin' : m.inReserve t ks.toFinset + t.growth < 2 ^ 67 := by
    rw [inReserve]
    omega
  rw [provisionalPrice, priceOf]
  split
  · exact spotWad_pos_lt (by omega) hin' hrest hrest'
  · exact spotWad_pos_lt (by omega) hrest' hin hin'

end Piece

end ChiefLiquidity.Market
