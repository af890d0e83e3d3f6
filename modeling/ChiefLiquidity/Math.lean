import ChiefLiquidity.Error
import ChiefLiquidity.ForMathlib.ConstantProduct
import ChiefLiquidity.ForMathlib.MovingAverage

/-!
# Fixed-point math

`math.rs`, function by function. Machine words are naturals; every `checked_` operation and
every narrowing is a `fits`, so a function here fails exactly where the Rust one returns an
error. `U256` products are `fits 256`.

Beside each function stands the one lemma the rest of the development uses about it: for a
fallible function, what it returned when it returned.

## Rounding

Every quotient is a floor, except where somebody is charged: the charge of a deposit (`mulDivCeil`)
and what is owed on a loan (`owedFromIndex`) are ceilings. A price is the floor of a quotient of
reserves, and a trigger the floor of a quotient of loan amounts, so the two are compared on the same
grid.

## Failure

A function returns `Result` if the Rust one can fail, and only then: `utilizationWad` and
`bumpIndexWad` saturate instead, and `isLiquidatable` compares. The numbers a fallible function
returns when it does not fail have names of their own (`borrowRateWad`, `spotWad`, `triggerWad`,
`inAfterFee`), so that the layers above can reason about them without the checks around them.

## Main definitions

* `mulDiv`, `isqrt` — integer helpers
* `utilizationWad`, `computeBorrowRateWadPerYear`, `bumpIndexWad`, `owedFromIndex` — interest
* `ltvBps`, `cpmmQuoteOut`, `priceBPerAWad` — pricing
* `recomputeTrigger`, `isLiquidatable`, `bandIdForTrigger` — liquidation triggers and bands
* `emaRefPriceWad` — the reference price
-/

namespace ChiefLiquidity

/-- WAD scale factor, `10^18`. -/
def wad : ℕ := 1_000_000_000_000_000_000

/-- 100% in basis points. -/
def bpsDenom : ℕ := 10_000

/-- Slots per year at 400 ms a slot. -/
def slotsPerYear : ℕ := 78_840_000

theorem wad_pos : 0 < wad := by norm_num [wad]

/-! ### Integer helpers -/

/-- The body of `isqrt_u128`'s loop. The estimate falls in every round that does not return, so
the first estimate is more than enough fuel. -/
def isqrtLoop (n : ℕ) : ℕ → ℕ → ℕ
  | 0, x => x
  | fuel + 1, x =>
    let y := (x + n / x) / 2
    if x ≤ y then x else isqrtLoop n fuel y

/-- `floor (sqrt n)` by Newton's method, seeded by the bit length of `n`. -/
def isqrt (n : ℕ) : ℕ :=
  if n = 0 then 0
  else
    let bits := Nat.log2 n + 1
    let x := 2 ^ ((bits + 1) / 2)
    isqrtLoop n x x

/-- `floor (a * b / c)` with a 256-bit intermediate. -/
def mulDiv (a b c : ℕ) : Result ℕ := do
  require (c ≠ 0) .mathOverflow
  let prod ← fits 256 (a * b)
  fits 128 (prod / c)

/-- `ceil (a * b / c)` with a 256-bit intermediate. -/
def mulDivCeil (a b c : ℕ) : Result ℕ := do
  require (c ≠ 0) .mathOverflow
  let prod ← fits 256 (a * b)
  fits 128 (Rounding.up prod c)

theorem mulDiv_eq_ok {a b c q : ℕ} :
    mulDiv a b c = .ok q ↔ c ≠ 0 ∧ a * b < 2 ^ 256 ∧ a * b / c < 2 ^ 128 ∧ q = a * b / c := by
  simp only [mulDiv, Checked.bind_eq_ok, require_eq_ok, fits_eq_ok]
  constructor
  · rintro ⟨_, hc, _, ⟨hab, rfl⟩, hq, rfl⟩
    exact ⟨hc, hab, hq, rfl⟩
  · rintro ⟨hc, hab, hq, rfl⟩
    exact ⟨(), hc, _, ⟨hab, rfl⟩, hq, rfl⟩

/-- The product of two machine words fits an intermediate of twice the width. -/
theorem mul_lt_of_words {a b : ℕ} (ha : a < 2 ^ 64) (hb : b < 2 ^ 64) : a * b < 2 ^ 128 :=
  (Nat.mul_lt_mul'' ha hb).trans_eq (by norm_num)

theorem mulDiv_of_lt {a b c : ℕ} (hc : c ≠ 0) (hab : a * b < 2 ^ 128) :
    mulDiv a b c = .ok (a * b / c) :=
  mulDiv_eq_ok.mpr ⟨hc, hab.trans (by norm_num), (Nat.div_le_self _ _).trans_lt hab, rfl⟩

theorem mulDivCeil_of_lt {a b c : ℕ} (hc : c ≠ 0) (hab : a * b < 2 ^ 128) :
    mulDivCeil a b c = .ok (Rounding.up (a * b) c) := by
  have hpos : 0 < c := Nat.pos_of_ne_zero hc
  have hup : Rounding.up (a * b) c ≤ a * b := Rounding.up_le hpos (Nat.le_mul_of_pos_right _ hpos)
  rw [mulDivCeil, require_of hc, fits_of_lt (hab.trans (by norm_num)), Checked.ok_bind,
    Checked.ok_bind, fits_of_lt (hup.trans_lt hab)]

theorem mulDivCeil_eq_ok {a b c q : ℕ} (h : mulDivCeil a b c = .ok q) :
    0 < c ∧ q = Rounding.up (a * b) c := by
  simp only [mulDivCeil, Checked.bind_eq_ok, require_eq_ok, fits_eq_ok] at h
  obtain ⟨_, hc, _, ⟨-, rfl⟩, -, rfl⟩ := h
  exact ⟨Nat.pos_of_ne_zero hc, rfl⟩

/-! ### Interest model -/

/-- Utilization, WAD-scaled: zero on an empty side, and capped at `wad`. -/
def utilizationWad (debt accounted : ℕ) : ℕ :=
  if accounted = 0 then 0
  else
    let util := if debt * wad < 2 ^ 256 then debt * wad / accounted else wad
    min (if util < 2 ^ 128 then util else wad) wad

/-- A rate in basis points as a WAD value. -/
def bpsToWad (bps : ℕ) : ℕ := bps * (wad / bpsDenom)

/-- The two-slope borrow rate, WAD per year, at the utilization `utilWad`. -/
def computeBorrowRateWadPerYear (utilWad baseBps slope1Bps slope2Bps kinkBps : ℕ) : Result ℕ := do
  let kinkWad := (← fits 128 (kinkBps * wad)) / bpsDenom
  require (kinkWad ≠ 0) .settingExceedsMaximum
  let base := bpsToWad baseBps
  let slope1 := bpsToWad slope1Bps
  let slope2 := bpsToWad slope2Bps
  if utilWad ≤ kinkWad then
    let inc ← mulDiv slope1 utilWad kinkWad
    fits 128 (base + inc)
  else
    let above := utilWad - kinkWad
    let span := wad - kinkWad
    let inc ← mulDiv slope2 above span
    let v ← fits 128 (base + slope1)
    fits 128 (v + inc)

/-- Hard ceiling for a borrow index, `2^64` WAD. -/
def indexCapWad : ℕ := wad * 2 ^ 64

/-- Linear bump of a borrow index over `slotsElapsed`, saturating at `indexCapWad`. -/
def bumpIndexWad (currentIndexWad rateWadPerYear slotsElapsed : ℕ) : ℕ :=
  if rateWadPerYear = 0 ∨ slotsElapsed = 0 ∨ indexCapWad ≤ currentIndexWad then currentIndexWad
  else if currentIndexWad * rateWadPerYear < 2 ^ 256 ∧
      currentIndexWad * rateWadPerYear * slotsElapsed < 2 ^ 256 then
    let num := currentIndexWad * rateWadPerYear * slotsElapsed
    let newIndex := min (currentIndexWad + num / (slotsPerYear * wad)) (2 ^ 256 - 1)
    if newIndex < 2 ^ 128 then min newIndex indexCapWad else indexCapWad
  else indexCapWad

theorem utilizationWad_le (debt accounted : ℕ) : utilizationWad debt accounted ≤ wad := by
  rw [utilizationWad]
  split
  · exact Nat.zero_le _
  · exact min_le_right _ _

/-- The rate `computeBorrowRateWadPerYear` returns whenever it returns one. -/
def borrowRateWad (utilWad baseBps slope1Bps slope2Bps kinkBps : ℕ) : ℕ :=
  let kinkWad := kinkBps * wad / bpsDenom
  if utilWad ≤ kinkWad then bpsToWad baseBps + bpsToWad slope1Bps * utilWad / kinkWad
  else bpsToWad baseBps + bpsToWad slope1Bps +
    bpsToWad slope2Bps * (utilWad - kinkWad) / (wad - kinkWad)

theorem bpsToWad_lt {bps : ℕ} (h : bps < 2 ^ 16) : bpsToWad bps < 2 ^ 63 := by
  rw [bpsToWad, show wad / bpsDenom = 100000000000000 by decide]
  omega

/-- **A sane curve has a rate** at every utilization. -/
theorem computeBorrowRateWadPerYear_eq {u base s₁ s₂ kink : ℕ} (hu : u ≤ wad) (hkink : 0 < kink)
    (hkink' : kink < bpsDenom) (hbase : base < 2 ^ 16) (h₁ : s₁ < 2 ^ 16) (h₂ : s₂ < 2 ^ 16) :
    computeBorrowRateWadPerYear u base s₁ s₂ kink = .ok (borrowRateWad u base s₁ s₂ kink) := by
  have hb := bpsToWad_lt hbase
  have hb₁ := bpsToWad_lt h₁
  have hb₂ := bpsToWad_lt h₂
  have hwad : wad < 2 ^ 60 := by decide
  have hk : kink * wad / bpsDenom = kink * 100000000000000 := by
    rw [show wad = 100000000000000 * bpsDenom by decide, ← Nat.mul_assoc]
    exact Nat.mul_div_cancel _ (by decide)
  have hpos : 0 < kink * wad / bpsDenom := by omega
  have hlt : kink * wad / bpsDenom < wad := by
    rw [hk, show wad = bpsDenom * 100000000000000 by decide]
    exact Nat.mul_lt_mul_of_pos_right hkink' (by decide)
  have hfit : kink * wad < 2 ^ 128 := by
    have : kink * wad ≤ bpsDenom * wad := Nat.mul_le_mul_right _ hkink'.le
    exact this.trans_lt (by decide)
  unfold computeBorrowRateWadPerYear borrowRateWad
  generalize bpsToWad base = b at *
  generalize bpsToWad s₁ = b₁ at *
  generalize bpsToWad s₂ = b₂ at *
  refine Checked.bind_eq_ok.mpr ⟨_, fits_of_lt hfit, ?_⟩
  refine Checked.bind_eq_ok.mpr ⟨(), require_of hpos.ne', ?_⟩
  dsimp only
  generalize kink * wad / bpsDenom = kw at *
  by_cases hle : u ≤ kw
  · have hprod : b₁ * u < 2 ^ 63 * 2 ^ 60 := Nat.mul_lt_mul'' hb₁ (hu.trans_lt hwad)
    have hdiv : b₁ * u / kw ≤ b₁ * u := Nat.div_le_self _ _
    rw [if_pos hle, if_pos hle]
    exact Checked.bind_eq_ok.mpr ⟨_, mulDiv_eq_ok.mpr ⟨hpos.ne', by omega, by omega, rfl⟩,
      fits_of_lt (by omega)⟩
  · have hprod : b₂ * (u - kw) < 2 ^ 63 * 2 ^ 60 :=
      Nat.mul_lt_mul'' hb₂ ((Nat.sub_le _ _).trans_lt (hu.trans_lt hwad))
    have hdiv : b₂ * (u - kw) / (wad - kw) ≤ b₂ * (u - kw) := Nat.div_le_self _ _
    rw [if_neg hle, if_neg hle]
    refine Checked.bind_eq_ok.mpr ⟨_, mulDiv_eq_ok.mpr ⟨by omega, by omega, by omega, rfl⟩, ?_⟩
    exact Checked.bind_eq_ok.mpr ⟨_, fits_of_lt (by omega), fits_of_lt (by omega)⟩

/-- **A bump multiplies by one plus the rate**, up to the cap. -/
theorem bumpIndexWad_eq {i r n : ℕ} (hi : i ≤ indexCapWad) :
    bumpIndexWad i r n = min (i + i * r * n / (slotsPerYear * wad)) indexCapWad := by
  have hcap : indexCapWad < 2 ^ 124 := by decide
  rw [bumpIndexWad]
  split
  · rename_i h
    rcases h with rfl | rfl | h
    · simp [hi]
    · simp [hi]
    · rw [min_eq_right (le_add_right h)]
      exact le_antisymm hi h
  · rename_i h
    have hr : 0 < r := Nat.pos_of_ne_zero fun h0 => h (Or.inl h0)
    have hn : 0 < n := Nat.pos_of_ne_zero fun h0 => h (Or.inr (Or.inl h0))
    split
    · rename_i hfit
      have hdiv : i * r * n / (slotsPerYear * wad) ≤ i * r * n := Nat.div_le_self _ _
      have hbig : i * r * n / (slotsPerYear * wad) < 2 ^ 255 := by
        rw [Nat.div_lt_iff_lt_mul (by decide)]
        exact hfit.2.trans (by decide)
      have hsum : min (i + i * r * n / (slotsPerYear * wad)) (2 ^ 256 - 1) =
          i + i * r * n / (slotsPerYear * wad) := min_eq_left (by omega)
      dsimp only
      rw [hsum]
      split
      · rfl
      · rw [min_eq_right (by omega)]
    · rename_i hfit
      have hbig : 2 ^ 256 ≤ i * r * n := by
        by_contra hlt
        have hle : i * r ≤ i * r * n := Nat.le_mul_of_pos_right _ hn
        exact hfit ⟨by omega, by omega⟩
      have hdiv : 2 ^ 256 / (slotsPerYear * wad) ≤ i * r * n / (slotsPerYear * wad) :=
        Nat.div_le_div_right hbig
      have hquot : indexCapWad ≤ 2 ^ 256 / (slotsPerYear * wad) := by decide
      omega

theorem le_bumpIndexWad {i r n : ℕ} (hi : i ≤ indexCapWad) : i ≤ bumpIndexWad i r n := by
  rw [bumpIndexWad_eq hi]
  exact le_min (Nat.le_add_right _ _) hi

theorem bumpIndexWad_le {i r n : ℕ} (hi : i ≤ indexCapWad) : bumpIndexWad i r n ≤ indexCapWad := by
  rw [bumpIndexWad_eq hi]
  exact min_le_right _ _

/-- Loan-to-value in basis points at the price `priceDen / priceNum` of the collateral. -/
def ltvBps (debtAmount collateralAmount priceNum priceDen : ℕ) : Result ℕ := do
  let denom ← fits 256 (collateralAmount * priceDen)
  require (denom ≠ 0) .mathOverflow
  let scaled ← fits 256 (debtAmount * bpsDenom)
  let num ← fits 256 (scaled * priceNum)
  fits 128 (num / denom)

/-- What is owed on `principal` once the index has moved from its snapshot, rounded up. -/
def owedFromIndex (principal snapshotIndexWad currentIndexWad : ℕ) : Result ℕ := do
  require (snapshotIndexWad ≠ 0) .mathOverflow
  require (snapshotIndexWad ≤ currentIndexWad) .mathUnderflow
  let prod ← fits 256 (principal * currentIndexWad)
  fits 128 (Rounding.up prod snapshotIndexWad)

theorem ltvBps_eq_ok {d c num den q : ℕ} (h : ltvBps d c num den = .ok q) :
    0 < c * den ∧ q = d * bpsDenom * num / (c * den) := by
  simp only [ltvBps, Checked.bind_eq_ok, require_eq_ok, fits_eq_ok] at h
  obtain ⟨_, ⟨-, rfl⟩, _, hden, _, ⟨-, rfl⟩, _, ⟨-, rfl⟩, -, rfl⟩ := h
  exact ⟨Nat.pos_of_ne_zero hden, rfl⟩

theorem owedFromIndex_eq_ok {p s i q : ℕ} (h : owedFromIndex p s i = .ok q) :
    0 < s ∧ s ≤ i ∧ q = Rounding.up (p * i) s := by
  simp only [owedFromIndex, Checked.bind_eq_ok, require_eq_ok, fits_eq_ok] at h
  obtain ⟨_, hs, _, hsi, _, ⟨-, rfl⟩, -, rfl⟩ := h
  exact ⟨Nat.pos_of_ne_zero hs, hsi, rfl⟩

/-- The index never falls, so nothing owed is ever below the principal. -/
theorem principal_le_owedFromIndex {p s i q : ℕ} (h : owedFromIndex p s i = .ok q) : p ≤ q := by
  obtain ⟨hs, hsi, rfl⟩ := owedFromIndex_eq_ok h
  have hle : p * s ≤ Rounding.up (p * i) s * s :=
    (Nat.mul_le_mul_left p hsi).trans (Rounding.le_up_mul hs _)
  exact Nat.le_of_mul_le_mul_right hle hs

/-! ### AMM quoting -/

/-- The part of the input the quote trades on: `amount_in` less the swap fee. -/
def inAfterFee (amountIn feeBps : ℕ) : ℕ := amountIn * (bpsDenom - feeBps) / bpsDenom

/-- Constant-product quote: output for `amountIn` against the given reserves. -/
def cpmmQuoteOut (amountIn reserveIn reserveOut feeBps : ℕ) : Result ℕ := do
  require (amountIn ≠ 0) .zeroAmount
  require (reserveIn ≠ 0 ∧ reserveOut ≠ 0) .zeroReserves
  require (feeBps < bpsDenom) .settingExceedsMaximum
  let scaled ← fits 256 (amountIn * (bpsDenom - feeBps))
  let afterFee := scaled / bpsDenom
  let numerator ← fits 256 (afterFee * reserveOut)
  let denominator ← fits 256 (reserveIn + afterFee)
  fits 128 (numerator / denominator)

/-- The mid-price `B per A` of the given accounted reserves, WAD-scaled. -/
def priceBPerAWad (accountedA accountedB : ℕ) : Result ℕ := do
  require (accountedA ≠ 0) .zeroReserves
  let num ← fits 256 (accountedB * wad)
  fits 128 (num / accountedA)

theorem cpmmQuoteOut_eq_ok {x rin rout fee out : ℕ} (h : cpmmQuoteOut x rin rout fee = .ok out) :
    0 < x ∧ 0 < rin ∧ 0 < rout ∧ fee < bpsDenom ∧
      out = ConstantProduct.quote (inAfterFee x fee) rin rout := by
  simp only [cpmmQuoteOut, Checked.bind_eq_ok, require_eq_ok, fits_eq_ok] at h
  obtain ⟨_, hx, _, ⟨hin, hout⟩, _, hfee, _, ⟨-, rfl⟩, _, ⟨-, rfl⟩, _, ⟨-, rfl⟩, -, rfl⟩ := h
  exact ⟨Nat.pos_of_ne_zero hx, Nat.pos_of_ne_zero hin, Nat.pos_of_ne_zero hout, hfee, rfl⟩

/-- The number `priceBPerAWad` returns whenever it returns one. -/
def spotWad (accountedA accountedB : ℕ) : ℕ := accountedB * wad / accountedA

theorem priceBPerAWad_eq_ok {a b p : ℕ} :
    priceBPerAWad a b = .ok p ↔
      0 < a ∧ b * wad < 2 ^ 256 ∧ spotWad a b < 2 ^ 128 ∧ p = spotWad a b := by
  simp only [priceBPerAWad, Checked.bind_eq_ok, require_eq_ok, fits_eq_ok, spotWad,
    Nat.pos_iff_ne_zero]
  constructor
  · rintro ⟨_, ha, _, ⟨hb, rfl⟩, hp, rfl⟩
    exact ⟨ha, hb, hp, rfl⟩
  · rintro ⟨ha, hb, hp, rfl⟩
    exact ⟨(), ha, _, ⟨hb, rfl⟩, hp, rfl⟩

/-! ### Liquidation trigger -/

/-- Which token is collateral and which is debt. -/
inductive LoanSides where
  | collateralA
  | collateralB
  deriving DecidableEq, Repr

/-- The byte a `Loan` account stores for its sides. -/
def LoanSides.toU8 : LoanSides → ℕ
  | .collateralA => 0
  | .collateralB => 1

/-- `LoanSides::from_u8`: read the byte back. -/
def LoanSides.fromU8 : ℕ → Result LoanSides
  | 0 => .ok .collateralA
  | 1 => .ok .collateralB
  | _ => .error (.custom .invalidSidesEncoding)

/-- Which way the pool price has to move for a loan to become liquidatable. -/
inductive TriggerDirection where
  | onFall
  | onRise
  deriving DecidableEq, Repr

/-- The byte a `Loan` or a band stores for its direction. -/
def TriggerDirection.toU8 : TriggerDirection → ℕ
  | .onFall => 0
  | .onRise => 1

/-- `TriggerDirection::from_u8`: read the byte back. -/
def TriggerDirection.fromU8 : ℕ → Result TriggerDirection
  | 0 => .ok .onFall
  | 1 => .ok .onRise
  | _ => .error (.custom .invalidSidesEncoding)

@[simp] theorem LoanSides.fromU8_toU8 (s : LoanSides) : LoanSides.fromU8 s.toU8 = .ok s := by
  cases s <;> rfl

@[simp] theorem TriggerDirection.fromU8_toU8 (d : TriggerDirection) :
    TriggerDirection.fromU8 d.toU8 = .ok d := by
  cases d <;> rfl

theorem LoanSides.fromU8_eq_ok {b : ℕ} {s : LoanSides} :
    LoanSides.fromU8 b = .ok s ↔ b = s.toU8 := by
  constructor
  · intro h
    match b with
    | 0 => cases h; rfl
    | 1 => cases h; rfl
    | n + 2 => cases h
  · rintro rfl
    exact s.fromU8_toU8

theorem TriggerDirection.toU8_injective : Function.Injective TriggerDirection.toU8 := by
  intro d e h
  cases d <;> cases e <;> first | rfl | cases h

theorem LoanSides.toU8_injective : Function.Injective LoanSides.toU8 := by
  intro d e h
  cases d <;> cases e <;> first | rfl | cases h

/-- The direction a loan with these sides triggers in: collateral A loses value as the price
falls, collateral B as it rises. -/
def LoanSides.direction : LoanSides → TriggerDirection
  | .collateralA => .onFall
  | .collateralB => .onRise

/-- The trigger price (B per A, WAD-scaled) and direction of a loan. -/
def recomputeTrigger (sides : LoanSides) (collateralAmount debtAmount liqRatioBps : ℕ) :
    Result (ℕ × TriggerDirection) := do
  require (collateralAmount ≠ 0) .zeroAmount
  require (debtAmount ≠ 0) .zeroAmount
  match sides with
  | .collateralA =>
    let scaled ← fits 256 (debtAmount * liqRatioBps)
    let num ← fits 256 (scaled * wad)
    let denom ← fits 256 (collateralAmount * bpsDenom)
    let trigger ← fits 128 (num / denom)
    return (trigger, .onFall)
  | .collateralB =>
    let scaled ← fits 256 (collateralAmount * bpsDenom)
    let num ← fits 256 (scaled * wad)
    let denom ← fits 256 (debtAmount * liqRatioBps)
    let trigger ← fits 128 (num / denom)
    return (trigger, .onRise)

/-- The quotient `recomputeTrigger` returns whenever it returns one. -/
def triggerWad (sides : LoanSides) (collateral debt liqRatioBps : ℕ) : ℕ :=
  match sides with
  | .collateralA => debt * liqRatioBps * wad / (collateral * bpsDenom)
  | .collateralB => collateral * bpsDenom * wad / (debt * liqRatioBps)

theorem recomputeTrigger_eq_ok {s : LoanSides} {c d r t : ℕ} {dir : TriggerDirection}
    (h : recomputeTrigger s c d r = .ok (t, dir)) :
    0 < c ∧ 0 < d ∧ dir = s.direction ∧ t = triggerWad s c d r := by
  simp only [recomputeTrigger, Checked.bind_eq_ok, require_eq_ok] at h
  obtain ⟨_, hc, _, hd, h⟩ := h
  refine ⟨Nat.pos_of_ne_zero hc, Nat.pos_of_ne_zero hd, ?_⟩
  cases s with
  | collateralA =>
    simp only [Checked.bind_eq_ok, fits_eq_ok, Checked.pure_eq_ok] at h
    obtain ⟨_, ⟨-, rfl⟩, _, ⟨-, rfl⟩, _, ⟨-, rfl⟩, _, ⟨-, rfl⟩, h⟩ := h
    cases h
    exact ⟨rfl, rfl⟩
  | collateralB =>
    simp only [Checked.bind_eq_ok, fits_eq_ok, Checked.pure_eq_ok] at h
    obtain ⟨_, ⟨-, rfl⟩, _, ⟨-, rfl⟩, _, ⟨-, rfl⟩, _, ⟨-, rfl⟩, h⟩ := h
    cases h
    exact ⟨rfl, rfl⟩

/-- Whether a loan with this trigger is liquidatable at the given price. -/
def isLiquidatable (triggerPriceWad : ℕ) (direction : TriggerDirection) (currentPriceWad : ℕ) :
    Bool :=
  match direction with
  | .onFall => currentPriceWad ≤ triggerPriceWad
  | .onRise => triggerPriceWad ≤ currentPriceWad

@[simp] theorem isLiquidatable_onFall {t p : ℕ} : isLiquidatable t .onFall p = true ↔ p ≤ t := by
  simp [isLiquidatable]

@[simp] theorem isLiquidatable_onRise {t p : ℕ} : isLiquidatable t .onRise p = true ↔ t ≤ p := by
  simp [isLiquidatable]

/-! ### Bands -/

/-- `band_id` of price one. -/
def bandOffset : ℕ := 64

/-- `floor (log2 wad)`. -/
def log2Wad : ℕ := 59

/-- The power-of-two band of a trigger price. -/
def bandIdForTrigger (triggerPriceWad : ℕ) : Result ℕ := do
  require (triggerPriceWad ≠ 0) .zeroAmount
  return Nat.log2 triggerPriceWad + bandOffset - log2Wad

theorem bandIdForTrigger_eq_ok {t b : ℕ} :
    bandIdForTrigger t = .ok b ↔ t ≠ 0 ∧ b = Nat.log2 t + 5 := by
  simp only [bandIdForTrigger, Checked.bind_eq_ok, require_eq_ok, Checked.pure_eq_ok, bandOffset,
    log2Wad, exists_const]
  exact and_congr_right fun _ => by omega

/-- **Bands are ordered like prices.** -/
theorem bandIdForTrigger_mono {s t a b : ℕ} (hs : bandIdForTrigger s = .ok a)
    (ht : bandIdForTrigger t = .ok b) (h : s ≤ t) : a ≤ b := by
  obtain ⟨hs0, rfl⟩ := bandIdForTrigger_eq_ok.mp hs
  obtain ⟨ht0, rfl⟩ := bandIdForTrigger_eq_ok.mp ht
  have : Nat.log2 s ≤ Nat.log2 t := (Nat.le_log2 ht0).mpr ((Nat.log2_self_le hs0).trans h)
  omega

/-! ### Reference price -/

/-- Smoothing window of the reference price, in slots. -/
def refPriceWindowSlots : ℕ := 150

/-- The reference price advanced toward the observed spot after `elapsedSlots`. -/
def emaRefPriceWad (prevRefWad spot elapsedSlots : ℕ) : Result ℕ :=
  if prevRefWad = 0 ∨ refPriceWindowSlots ≤ elapsedSlots then .ok spot
  else if prevRefWad ≤ spot then do
    let step ← mulDiv (spot - prevRefWad) elapsedSlots refPriceWindowSlots
    return prevRefWad + step
  else do
    let step ← mulDiv (prevRefWad - spot) elapsedSlots refPriceWindowSlots
    return prevRefWad - step

/-- Within the window, the reference price is a moving average. -/
theorem emaRefPriceWad_eq_ok {prev spot elapsed q : ℕ} (h0 : prev ≠ 0)
    (hw : elapsed < refPriceWindowSlots) (h : emaRefPriceWad prev spot elapsed = .ok q) :
    q = MovingAverage.step refPriceWindowSlots prev spot elapsed := by
  rw [emaRefPriceWad, if_neg (by omega)] at h
  rw [MovingAverage.step]
  split at h <;> rename_i hle
  · obtain ⟨_, hstep, hq⟩ := Checked.bind_eq_ok.mp h
    rw [if_pos hle, ← Checked.pure_eq_ok.mp hq, (mulDiv_eq_ok.mp hstep).2.2.2]
  · obtain ⟨_, hstep, hq⟩ := Checked.bind_eq_ok.mp h
    rw [if_neg hle, ← Checked.pure_eq_ok.mp hq, (mulDiv_eq_ok.mp hstep).2.2.2]

end ChiefLiquidity
