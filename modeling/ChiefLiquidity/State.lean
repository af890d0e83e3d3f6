import ChiefLiquidity.Math
import Mathlib.Data.Fintype.Pi

/-!
# Account state

`state.rs`: the three accounts the program owns, the reserve arithmetic of a pool, and the
band-presence bitmap. Padding and reserved bytes are left out; an all-zero account is the value
whose fields are all zero, which is what its bytes deserialize to.

## Sides and directions

The source keeps two fields for everything there is two of, and so do the records here. What is said
about both is said once, over `Side` and `TriggerDirection`: `Pool.debt`, `Pool.collateral`,
`Pool.fees`, `Pool.index` and `Pool.bitmapOf` read the field of a side. The functions of the program
keep the byte arguments of the source, and decode them where the source does.

## Parts of a pool

An instruction changes few fields of a pool at a time. The updates have names (`stamp`,
`withIndexes`, `withFees`, `withBitmaps`), each with its frame as simp lemmas, and `Pool.terms` is
what none of them touches: the identity of a pool and its economics. Statements about what stays the
same quantify over these parts, not over fields.

## Main definitions

* `Bitmap`, `bitmapSet`, `bitmapClear`, `bitmapIsSet`, `bitmapIterSetRange`
* `Pool`, with `Pool.swappable`, `Pool.accounted`, `Pool.refPriceAt`, `Pool.bumpIndexes`
* `Loan`, `LoanIndexBand`

## Main results

* `bitmapIsSet_of_set`, `bitmapIsSet_of_clear` — the bitmap is a set of band ids
* `Pool.accounted_eq_ok`, `Pool.bumpIndexes_frame` — what the accounting prologue computes, and
  that it leaves every total alone
-/

namespace ChiefLiquidity

/-- A 32-byte address, read as a big-endian number so that `<` is the byte order. -/
abbrev Pubkey := ℕ

/-- `Pubkey::default()`, thirty-two zero bytes. It is also the system program's address. -/
def defaultPubkey : Pubkey := 0

/-! ### Band-presence bitmap -/

/-- Sixteen bytes, one bit per band id. -/
abbrev Bitmap := Fin 16 → BitVec 8

/-- The highest band id the bitmap can hold. -/
def maxBandId : ℕ := 127

/-- The byte that holds the bit of `bandId`. -/
def bitmapByte (bandId : ℕ) (h : ¬ maxBandId < bandId) : Fin 16 :=
  ⟨bandId / 8, by unfold maxBandId at h; omega⟩

/-- `bitmap_set`: set the bit of a band, which has to be one the bitmap can hold. -/
def bitmapSet (bitmap : Bitmap) (bandId : ℕ) : Result Bitmap :=
  if h : maxBandId < bandId then .error (.custom .settingExceedsMaximum)
  else
    let byte := bitmapByte bandId h
    .ok (Function.update bitmap byte (bitmap byte ||| 1#8 <<< (bandId % 8)))

/-- `bitmap_clear`. -/
def bitmapClear (bitmap : Bitmap) (bandId : ℕ) : Result Bitmap :=
  if h : maxBandId < bandId then .error (.custom .settingExceedsMaximum)
  else
    let byte := bitmapByte bandId h
    .ok (Function.update bitmap byte (bitmap byte &&& ~~~(1#8 <<< (bandId % 8))))

/-- `bitmap_is_set`: a band the bitmap cannot hold has no bit set. -/
def bitmapIsSet (bitmap : Bitmap) (bandId : ℕ) : Bool :=
  if h : maxBandId < bandId then false
  else bitmap (bitmapByte bandId h) &&& 1#8 <<< (bandId % 8) ≠ 0

/-- The set bits with ids in `[lo, hi]`, `hi` clamped to `maxBandId`. -/
def bitmapIterSetRange (bitmap : Bitmap) (lo hi : ℕ) : List ℕ :=
  (List.range' lo (min hi maxBandId + 1 - lo)).filter (bitmapIsSet bitmap)

/-- A byte masked with one bit is nonzero exactly when that bit is set. -/
theorem byte_and_bit_ne_zero (x : BitVec 8) {i : ℕ} (hi : i < 8) :
    x &&& 1#8 <<< i ≠ 0 ↔ x.getLsbD i = true := by
  rw [show 1#8 <<< i = BitVec.twoPow 8 i from rfl, BitVec.and_twoPow]
  have hne : BitVec.twoPow 8 i ≠ 0#8 := fun h0 => by
    have := BitVec.getLsbD_twoPow (w := 8) i i
    rw [h0] at this
    simp [hi] at this
  by_cases hx : x.getLsbD i = true
  · rw [if_pos hx]
    exact ⟨fun _ => hx, fun _ => hne⟩
  · rw [if_neg hx]
    exact ⟨fun h => absurd rfl h, fun h => absurd h hx⟩

theorem bitmapIsSet_iff {bitmap : Bitmap} {b : ℕ} :
    bitmapIsSet bitmap b = true ↔
      ∃ h : ¬ maxBandId < b, (bitmap (bitmapByte b h)).getLsbD (b % 8) = true := by
  rw [bitmapIsSet]
  split
  · simp [*]
  · rename_i h
    rw [decide_eq_true_eq, byte_and_bit_ne_zero _ (Nat.mod_lt b (by norm_num))]
    exact ⟨fun hx => ⟨h, hx⟩, fun ⟨_, hx⟩ => hx⟩

theorem le_of_bitmapIsSet {bitmap : Bitmap} {b : ℕ} (h : bitmapIsSet bitmap b = true) :
    b ≤ maxBandId := by
  obtain ⟨hb, -⟩ := bitmapIsSet_iff.mp h
  exact Nat.not_lt.mp hb

theorem bitmapIsSet_zero (b : ℕ) : bitmapIsSet (fun _ => 0) b = false := by
  rw [Bool.eq_false_iff, Ne, bitmapIsSet_iff]
  rintro ⟨_, h⟩
  simp at h

/-- Two ids share a byte and a bit only when they are equal. -/
theorem bitmapByte_mod_inj {b c : ℕ} {hb : ¬ maxBandId < b} {hc : ¬ maxBandId < c}
    (hbyte : bitmapByte b hb = bitmapByte c hc) (hbit : b % 8 = c % 8) : b = c := by
  have : b / 8 = c / 8 := congrArg Fin.val hbyte
  omega

/-- **Setting a bit adds its id to the set.** -/
theorem bitmapIsSet_of_set {bitmap bitmap' : Bitmap} {b : ℕ} (h : bitmapSet bitmap b = .ok bitmap')
    (c : ℕ) : bitmapIsSet bitmap' c = true ↔ c = b ∨ bitmapIsSet bitmap c = true := by
  rw [bitmapSet] at h
  split at h
  · cases h
  rename_i hb
  cases h
  simp only [bitmapIsSet_iff]
  by_cases hc : maxBandId < c
  · have : c ≠ b := fun hcb => hb (hcb ▸ hc)
    simp [hc, this]
  simp only [hc, not_false_eq_true, exists_true_left]
  by_cases hbyte : bitmapByte c hc = bitmapByte b hb
  · rw [hbyte, Function.update_self, BitVec.getLsbD_or,
      show 1#8 <<< (b % 8) = BitVec.twoPow 8 (b % 8) from rfl, BitVec.getLsbD_twoPow]
    have hlt : b % 8 < 8 := Nat.mod_lt b (by norm_num)
    simp only [hlt, decide_true, Bool.true_and, Bool.or_eq_true, decide_eq_true_eq]
    constructor
    · rintro (h | h)
      · exact Or.inr h
      · exact Or.inl (bitmapByte_mod_inj hbyte h.symm)
    · rintro (rfl | h)
      · exact Or.inr rfl
      · exact Or.inl h
  · rw [Function.update_of_ne hbyte]
    have : c ≠ b := fun hcb => hbyte (by subst hcb; rfl)
    simp [this]

/-- **Clearing a bit removes its id from the set.** -/
theorem bitmapIsSet_of_clear {bitmap bitmap' : Bitmap} {b : ℕ}
    (h : bitmapClear bitmap b = .ok bitmap') (c : ℕ) :
    bitmapIsSet bitmap' c = true ↔ c ≠ b ∧ bitmapIsSet bitmap c = true := by
  rw [bitmapClear] at h
  split at h
  · cases h
  rename_i hb
  cases h
  simp only [bitmapIsSet_iff]
  by_cases hc : maxBandId < c
  · simp [hc]
  simp only [hc, not_false_eq_true, exists_true_left]
  by_cases hbyte : bitmapByte c hc = bitmapByte b hb
  · have hlt : c % 8 < 8 := Nat.mod_lt c (by norm_num)
    rw [hbyte, Function.update_self, BitVec.getLsbD_and, BitVec.getLsbD_not,
      show 1#8 <<< (b % 8) = BitVec.twoPow 8 (b % 8) from rfl, BitVec.getLsbD_twoPow]
    have hltb : b % 8 < 8 := Nat.mod_lt b (by norm_num)
    simp only [hlt, hltb, decide_true, Bool.true_and, Bool.and_eq_true, Bool.not_eq_true',
      decide_eq_false_iff_not]
    constructor
    · rintro ⟨hx, hne⟩
      exact ⟨fun hcb => hne (by rw [hcb]), hx⟩
    · rintro ⟨hne, hx⟩
      exact ⟨hx, fun hbit => hne (bitmapByte_mod_inj hbyte hbit.symm)⟩
  · rw [Function.update_of_ne hbyte]
    have : c ≠ b := fun hcb => hbyte (by subst hcb; rfl)
    simp [this]

/-- A bitmap is the set of its band ids. -/
theorem bitmap_ext {bitmap bitmap' : Bitmap}
    (h : ∀ b, bitmapIsSet bitmap b = bitmapIsSet bitmap' b) : bitmap = bitmap' := by
  funext byte
  refine BitVec.eq_of_getLsbD_eq fun i hi => ?_
  have hb : ¬ maxBandId < 8 * byte.val + i := by
    have := byte.isLt
    rw [maxBandId]
    omega
  have hbyte : bitmapByte (8 * byte.val + i) hb = byte := by
    refine Fin.ext ?_
    simp only [bitmapByte]
    omega
  have hmod : (8 * byte.val + i) % 8 = i := by omega
  have hbit := h (8 * byte.val + i)
  rw [Bool.eq_iff_iff, bitmapIsSet_iff, bitmapIsSet_iff] at hbit
  simp only [hb, not_false_eq_true, exists_true_left, hbyte, hmod] at hbit
  rwa [Bool.eq_iff_iff]

theorem le_of_bitmapSet {bitmap bitmap' : Bitmap} {b : ℕ} (h : bitmapSet bitmap b = .ok bitmap') :
    b ≤ maxBandId :=
  le_of_bitmapIsSet ((bitmapIsSet_of_set h b).mpr (Or.inl rfl))

theorem mem_bitmapIterSetRange {bitmap : Bitmap} {lo hi b : ℕ} :
    b ∈ bitmapIterSetRange bitmap lo hi ↔ lo ≤ b ∧ b ≤ hi ∧ bitmapIsSet bitmap b = true := by
  simp only [bitmapIterSetRange, List.mem_filter, List.mem_range'_1]
  constructor
  · rintro ⟨⟨hlo, hhi⟩, hb⟩
    exact ⟨hlo, by omega, hb⟩
  · rintro ⟨hlo, hhi, hb⟩
    have := le_of_bitmapIsSet hb
    exact ⟨⟨hlo, by omega⟩, hb⟩

/-! ### Pool -/

/-- `POOL_DISCRIMINATOR`, `LOAN_DISCRIMINATOR` and `LOAN_INDEX_BAND_DISCRIMINATOR`, read as
big-endian numbers. -/
def poolDiscriminator : ℕ := 0xa1c4e7123b8fd56e

/-- `LOAN_DISCRIMINATOR`. -/
def loanDiscriminator : ℕ := 0xb27e3ca0914d8e55

/-- `LOAN_INDEX_BAND_DISCRIMINATOR`. -/
def loanIndexBandDiscriminator : ℕ := 0xd4953a71682ec188

/-- The one curve kind, `CurveKind::Cpmm`. -/
def curveKindCpmm : ℕ := 0

/-- Per-pool state. The reserves themselves are the balances of the two vaults; the pool stores
only what is lent out of them, what is earmarked in them, and the protocol's share. -/
structure Pool where
  discriminator : ℕ
  mintA : Pubkey
  mintB : Pubkey
  vaultA : Pubkey
  vaultB : Pubkey
  lpMint : Pubkey
  authority : Pubkey
  poolBump : ℕ
  vaultABump : ℕ
  vaultBBump : ℕ
  lpMintBump : ℕ
  totalDebtA : ℕ
  totalDebtB : ℕ
  totalCollateralA : ℕ
  totalCollateralB : ℕ
  curveKind : ℕ
  swapFeeBps : ℕ
  protocolFeeBps : ℕ
  liqRatioBps : ℕ
  maxLtvBps : ℕ
  interestBaseBpsPerYear : ℕ
  interestSlope1BpsPerYear : ℕ
  interestSlope2BpsPerYear : ℕ
  interestKinkBps : ℕ
  borrowIndexAWad : ℕ
  borrowIndexBWad : ℕ
  lastIndexUpdateSlot : ℕ
  openLoans : ℕ
  nextLoanNonce : ℕ
  lastUpdateSlot : ℕ
  protocolFeesA : ℕ
  protocolFeesB : ℕ
  bandBitmapFall : Bitmap
  bandBitmapRise : Bitmap
  refPriceWad : ℕ
  refPriceSlot : ℕ
  deriving Inhabited

/-- The two tokens of a pool. -/
inductive Side where
  | a
  | b
  deriving DecidableEq, Repr

/-- The token a loan with these sides has posted. -/
def LoanSides.collateralSide : LoanSides → Side
  | .collateralA => .a
  | .collateralB => .b

/-- The token a loan with these sides owes. -/
def LoanSides.debtSide : LoanSides → Side
  | .collateralA => .b
  | .collateralB => .a

namespace Pool

/-- A `Pool` account whose bytes are all zero. -/
def zeroed : Pool := default

/-! The two copies of a per-side field as one function of the side. -/

/-- The mint of a side. -/
def mint (p : Pool) : Side → Pubkey
  | .a => p.mintA
  | .b => p.mintB

/-- The vault of a side. -/
def vault (p : Pool) : Side → Pubkey
  | .a => p.vaultA
  | .b => p.vaultB

/-- The principal lent out of a side. -/
def debt (p : Pool) : Side → ℕ
  | .a => p.totalDebtA
  | .b => p.totalDebtB

/-- The collateral posted into a side. -/
def collateral (p : Pool) : Side → ℕ
  | .a => p.totalCollateralA
  | .b => p.totalCollateralB

/-- The protocol's unclaimed share of a side. -/
def fees (p : Pool) : Side → ℕ
  | .a => p.protocolFeesA
  | .b => p.protocolFeesB

/-- The borrow index of the debt of a side. -/
def index (p : Pool) : Side → ℕ
  | .a => p.borrowIndexAWad
  | .b => p.borrowIndexBWad

/-- The bitmap of a direction. -/
def bitmapOf (p : Pool) : TriggerDirection → Bitmap
  | .onFall => p.bandBitmapFall
  | .onRise => p.bandBitmapRise

/-- What a pool is set up with and never changes: the pool with everything else erased. -/
def terms (p : Pool) : Pool := { p with
  totalDebtA := 0, totalDebtB := 0, totalCollateralA := 0, totalCollateralB := 0
  borrowIndexAWad := 0, borrowIndexBWad := 0, lastIndexUpdateSlot := 0, openLoans := 0
  nextLoanNonce := 0, lastUpdateSlot := 0, protocolFeesA := 0, protocolFeesB := 0
  bandBitmapFall := fun _ => 0, bandBitmapRise := fun _ => 0, refPriceWad := 0, refPriceSlot := 0 }

/-- What moves with time and price alone: the borrow indexes and the reference price, each with the
slot it is as of. -/
structure Meters where
  indexA : ℕ
  indexB : ℕ
  indexSlot : ℕ
  refPrice : ℕ
  refSlot : ℕ

/-- The meters of a pool. -/
def meters (p : Pool) : Meters :=
  ⟨p.borrowIndexAWad, p.borrowIndexBWad, p.lastIndexUpdateSlot, p.refPriceWad, p.refPriceSlot⟩

/-- `Pool::is_initialized`: whether the account carries the discriminator of a pool. -/
def isInitialized (p : Pool) : Bool := p.discriminator = poolDiscriminator

/-! Writes to a group of fields. -/

/-- `pool.last_update_slot = clock.slot`. -/
def stamp (p : Pool) (slot : ℕ) : Pool := { p with lastUpdateSlot := slot }

/-- Both borrow indexes, as of a slot. -/
def withIndexes (p : Pool) (indexA indexB slot : ℕ) : Pool := { p with
  borrowIndexAWad := indexA, borrowIndexBWad := indexB, lastIndexUpdateSlot := slot }

/-- The protocol's share of both sides. -/
def withFees (p : Pool) (feesA feesB : ℕ) : Pool := { p with
  protocolFeesA := feesA, protocolFeesB := feesB }

/-- The reference price, as of a slot. -/
def withRefPrice (p : Pool) (refPriceWad slot : ℕ) : Pool := { p with
  refPriceWad := refPriceWad, refPriceSlot := slot }

/-- The band bitmaps of both directions. -/
def withBitmaps (p : Pool) (fall rise : Bitmap) : Pool := { p with
  bandBitmapFall := fall, bandBitmapRise := rise }

@[simp] theorem stamp_collateral {p : Pool} {slot : ℕ} {x : Side} :
    (p.stamp slot).collateral x = p.collateral x := by cases x <;> rfl

@[simp] theorem stamp_debt {p : Pool} {slot : ℕ} {x : Side} :
    (p.stamp slot).debt x = p.debt x := by cases x <;> rfl

@[simp] theorem stamp_fees {p : Pool} {slot : ℕ} {x : Side} :
    (p.stamp slot).fees x = p.fees x := by cases x <;> rfl

@[simp] theorem stamp_bitmapOf {p : Pool} {slot : ℕ} {d : TriggerDirection} :
    (p.stamp slot).bitmapOf d = p.bitmapOf d := by cases d <;> rfl

@[simp] theorem stamp_terms {p : Pool} {slot : ℕ} : (p.stamp slot).terms = p.terms := rfl

@[simp] theorem stamp_openLoans {p : Pool} {slot : ℕ} :
    (p.stamp slot).openLoans = p.openLoans := rfl

@[simp] theorem stamp_meters {p : Pool} {slot : ℕ} : (p.stamp slot).meters = p.meters := rfl

@[simp] theorem withFees_meters {p : Pool} {a b : ℕ} : (p.withFees a b).meters = p.meters := rfl

@[simp] theorem withBitmaps_meters {p : Pool} {f r : Bitmap} :
    (p.withBitmaps f r).meters = p.meters := rfl

@[simp] theorem withIndexes_collateral {p : Pool} {a b slot : ℕ} {x : Side} :
    (p.withIndexes a b slot).collateral x = p.collateral x := by cases x <;> rfl

@[simp] theorem withIndexes_debt {p : Pool} {a b slot : ℕ} {x : Side} :
    (p.withIndexes a b slot).debt x = p.debt x := by cases x <;> rfl

@[simp] theorem withIndexes_fees {p : Pool} {a b slot : ℕ} {x : Side} :
    (p.withIndexes a b slot).fees x = p.fees x := by cases x <;> rfl

@[simp] theorem withIndexes_bitmapOf {p : Pool} {a b slot : ℕ} {d : TriggerDirection} :
    (p.withIndexes a b slot).bitmapOf d = p.bitmapOf d := by cases d <;> rfl

@[simp] theorem withIndexes_terms {p : Pool} {a b slot : ℕ} :
    (p.withIndexes a b slot).terms = p.terms := rfl

@[simp] theorem withIndexes_openLoans {p : Pool} {a b slot : ℕ} :
    (p.withIndexes a b slot).openLoans = p.openLoans := rfl

@[simp] theorem withFees_collateral {p : Pool} {a b : ℕ} {x : Side} :
    (p.withFees a b).collateral x = p.collateral x := by cases x <;> rfl

@[simp] theorem withFees_debt {p : Pool} {a b : ℕ} {x : Side} :
    (p.withFees a b).debt x = p.debt x := by cases x <;> rfl

@[simp] theorem withFees_bitmapOf {p : Pool} {a b : ℕ} {d : TriggerDirection} :
    (p.withFees a b).bitmapOf d = p.bitmapOf d := by cases d <;> rfl

@[simp] theorem withFees_terms {p : Pool} {a b : ℕ} : (p.withFees a b).terms = p.terms := rfl

@[simp] theorem withFees_openLoans {p : Pool} {a b : ℕ} :
    (p.withFees a b).openLoans = p.openLoans := rfl

@[simp] theorem withRefPrice_collateral {p : Pool} {a slot : ℕ} {x : Side} :
    (p.withRefPrice a slot).collateral x = p.collateral x := by cases x <;> rfl

@[simp] theorem withRefPrice_debt {p : Pool} {a slot : ℕ} {x : Side} :
    (p.withRefPrice a slot).debt x = p.debt x := by cases x <;> rfl

@[simp] theorem withRefPrice_fees {p : Pool} {a slot : ℕ} {x : Side} :
    (p.withRefPrice a slot).fees x = p.fees x := by cases x <;> rfl

@[simp] theorem withRefPrice_bitmapOf {p : Pool} {a slot : ℕ} {d : TriggerDirection} :
    (p.withRefPrice a slot).bitmapOf d = p.bitmapOf d := by cases d <;> rfl

@[simp] theorem withRefPrice_terms {p : Pool} {a slot : ℕ} :
    (p.withRefPrice a slot).terms = p.terms := rfl

@[simp] theorem withRefPrice_openLoans {p : Pool} {a slot : ℕ} :
    (p.withRefPrice a slot).openLoans = p.openLoans := rfl

@[simp] theorem withBitmaps_collateral {p : Pool} {f r : Bitmap} {x : Side} :
    (p.withBitmaps f r).collateral x = p.collateral x := by cases x <;> rfl

@[simp] theorem withBitmaps_debt {p : Pool} {f r : Bitmap} {x : Side} :
    (p.withBitmaps f r).debt x = p.debt x := by cases x <;> rfl

@[simp] theorem withBitmaps_fees {p : Pool} {f r : Bitmap} {x : Side} :
    (p.withBitmaps f r).fees x = p.fees x := by cases x <;> rfl

@[simp] theorem withBitmaps_terms {p : Pool} {f r : Bitmap} :
    (p.withBitmaps f r).terms = p.terms := rfl

@[simp] theorem withBitmaps_openLoans {p : Pool} {f r : Bitmap} :
    (p.withBitmaps f r).openLoans = p.openLoans := rfl

/-- LP-owned share of each side: the vault balance less collateral and protocol fees. -/
def swappable (p : Pool) (realA realB : ℕ) : Result (ℕ × ℕ) := do
  let a ← checkedSub (← checkedSub realA p.totalCollateralA) p.protocolFeesA
  let b ← checkedSub (← checkedSub realB p.totalCollateralB) p.protocolFeesB
  return (a, b)

/-- Accounted reserves: the LP-owned share plus what is lent out of it. -/
def accounted (p : Pool) (realA realB : ℕ) : Result (ℕ × ℕ) := do
  let (sA, sB) ← p.swappable realA realB
  let a ← fits 128 (sA + p.totalDebtA)
  let b ← fits 128 (sB + p.totalDebtB)
  return (a, b)

/-- The reference price as of `slot`, given the current accounted spot price. -/
def refPriceAt (p : Pool) (spot slot : ℕ) : Result ℕ :=
  if p.refPriceWad ≠ 0 ∧ slot = p.refPriceSlot then .ok p.refPriceWad
  else emaRefPriceWad p.refPriceWad spot (slot - p.refPriceSlot)

/-- The bitmap of a direction byte. -/
def bandBitmap (p : Pool) : ℕ → Result Bitmap
  | 0 => .ok p.bandBitmapFall
  | 1 => .ok p.bandBitmapRise
  | _ => .error (.custom .invalidSidesEncoding)

/-- The pool with the bitmap of a direction byte replaced, the write through `band_bitmap_mut`. -/
def setBandBitmap (p : Pool) (directionByte : ℕ) (bitmap : Bitmap) : Pool :=
  match directionByte with
  | 0 => p.withBitmaps bitmap p.bandBitmapRise
  | _ => p.withBitmaps p.bandBitmapFall bitmap

/-- `bitmap_set(pool.band_bitmap_mut(direction_byte)?, band_id)`. -/
def setBand (p : Pool) (directionByte bandId : ℕ) : Result Pool := do
  let bitmap ← bitmapSet (← p.bandBitmap directionByte) bandId
  return p.setBandBitmap directionByte bitmap

/-- `bitmap_clear(pool.band_bitmap_mut(direction_byte)?, band_id)`. -/
def clearBand (p : Pool) (directionByte bandId : ℕ) : Result Pool := do
  let bitmap ← bitmapClear (← p.bandBitmap directionByte) bandId
  return p.setBandBitmap directionByte bitmap

/-- Set the presence bit of a band that goes from empty to populated. -/
def markBand (p : Pool) (count directionByte bandId : ℕ) : Result Pool :=
  if count = 0 then p.setBand directionByte bandId else .ok p

/-- Clear the presence bit of a band whose count has dropped to zero. -/
def unmarkBand (p : Pool) (count directionByte bandId : ℕ) : Result Pool :=
  if count = 0 then p.clearBand directionByte bandId else .ok p

/-- Bump both borrow indexes to `currentSlot` at the rate of the current utilization. -/
def bumpIndexes (p : Pool) (realA realB currentSlot : ℕ) : Result Pool := do
  let slotsElapsed := currentSlot - p.lastIndexUpdateSlot
  if slotsElapsed = 0 then return p
  else
    let (accA, accB) ← p.accounted realA realB
    let utilA := utilizationWad p.totalDebtA accA
    let utilB := utilizationWad p.totalDebtB accB
    let rateA ← computeBorrowRateWadPerYear utilA p.interestBaseBpsPerYear
      p.interestSlope1BpsPerYear p.interestSlope2BpsPerYear p.interestKinkBps
    let rateB ← computeBorrowRateWadPerYear utilB p.interestBaseBpsPerYear
      p.interestSlope1BpsPerYear p.interestSlope2BpsPerYear p.interestKinkBps
    return p.withIndexes (bumpIndexWad p.borrowIndexAWad rateA slotsElapsed)
      (bumpIndexWad p.borrowIndexBWad rateB slotsElapsed) currentSlot

/-- The borrow index of the side a loan with this sides byte owes. -/
def borrowIndexForDebtSide (p : Pool) : ℕ → Result ℕ
  | 0 => .ok p.borrowIndexBWad
  | 1 => .ok p.borrowIndexAWad
  | _ => .error (.custom .invalidSidesEncoding)

/-- Take the collateral and the principal of a loan out of the totals of its sides. -/
def settleTotals (p : Pool) (sides : LoanSides) (collateralAmount debtPrincipal : ℕ) :
    Result Pool :=
  match sides with
  | .collateralA => do
    let totalCollateralA ← checkedSub p.totalCollateralA collateralAmount
    let totalDebtB ← checkedSub p.totalDebtB debtPrincipal
    return { p with totalCollateralA, totalDebtB }
  | .collateralB => do
    let totalCollateralB ← checkedSub p.totalCollateralB collateralAmount
    let totalDebtA ← checkedSub p.totalDebtA debtPrincipal
    return { p with totalCollateralB, totalDebtA }

/-- The accounting of a settlement: the totals, and one open loan less. -/
def settleLoan (p : Pool) (sides : LoanSides) (collateralAmount debtPrincipal : ℕ) :
    Result Pool := do
  let p ← p.settleTotals sides collateralAmount debtPrincipal
  let openLoans ← checkedSub p.openLoans 1
  return { p with openLoans }

/-- Put the collateral and the principal of a new loan into the totals of its sides. -/
def admitTotals (p : Pool) (sides : LoanSides) (collateralAmount debtAmount : ℕ) :
    Result Pool :=
  match sides with
  | .collateralA => do
    let totalCollateralA ← fits 128 (p.totalCollateralA + collateralAmount)
    let totalDebtB ← fits 128 (p.totalDebtB + debtAmount)
    return { p with totalCollateralA, totalDebtB }
  | .collateralB => do
    let totalCollateralB ← fits 128 (p.totalCollateralB + collateralAmount)
    let totalDebtA ← fits 128 (p.totalDebtA + debtAmount)
    return { p with totalCollateralB, totalDebtA }

/-- The accounting of a new loan: the totals and the two counters. -/
def admitLoan (p : Pool) (sides : LoanSides) (collateralAmount debtAmount : ℕ) : Result Pool := do
  let p ← p.admitTotals sides collateralAmount debtAmount
  let openLoans ← fits 64 (p.openLoans + 1)
  let nextLoanNonce ← fits 64 (p.nextLoanNonce + 1)
  return { p with openLoans, nextLoanNonce }

/-! What the accounting prologue of every instruction computes. -/

variable {p p' : Pool} {realA realB a b slot : ℕ}

theorem swappable_eq_ok :
    p.swappable realA realB = .ok (a, b) ↔
      (p.totalCollateralA + p.protocolFeesA ≤ realA ∧
        a = realA - p.totalCollateralA - p.protocolFeesA) ∧
      (p.totalCollateralB + p.protocolFeesB ≤ realB ∧
        b = realB - p.totalCollateralB - p.protocolFeesB) := by
  simp only [swappable, Checked.bind_eq_ok, checkedSub_eq_ok, Checked.pure_eq_ok, Prod.mk.injEq]
  constructor
  · rintro ⟨_, ⟨ha, rfl⟩, _, ⟨ha', rfl⟩, _, ⟨hb, rfl⟩, _, ⟨hb', rfl⟩, rfl, rfl⟩
    exact ⟨⟨by omega, rfl⟩, ⟨by omega, rfl⟩⟩
  · rintro ⟨⟨ha, rfl⟩, ⟨hb, rfl⟩⟩
    exact ⟨_, ⟨by omega, rfl⟩, _, ⟨by omega, rfl⟩, _, ⟨by omega, rfl⟩, _, ⟨by omega, rfl⟩, rfl, rfl⟩

theorem accounted_eq_ok :
    p.accounted realA realB = .ok (a, b) ↔
      ((p.totalCollateralA + p.protocolFeesA ≤ realA ∧ a < 2 ^ 128) ∧
        a = realA - p.totalCollateralA - p.protocolFeesA + p.totalDebtA) ∧
      ((p.totalCollateralB + p.protocolFeesB ≤ realB ∧ b < 2 ^ 128) ∧
        b = realB - p.totalCollateralB - p.protocolFeesB + p.totalDebtB) := by
  simp only [accounted, Checked.bind_eq_ok, fits_eq_ok, Checked.pure_eq_ok, Prod.mk.injEq,
    Prod.exists, swappable_eq_ok]
  constructor
  · rintro ⟨_, _, ⟨⟨ha, rfl⟩, ⟨hb, rfl⟩⟩, _, ⟨ha', rfl⟩, _, ⟨hb', rfl⟩, rfl, rfl⟩
    exact ⟨⟨⟨ha, ha'⟩, rfl⟩, ⟨hb, hb'⟩, rfl⟩
  · rintro ⟨⟨⟨ha, ha'⟩, rfl⟩, ⟨hb, hb'⟩, rfl⟩
    exact ⟨_, _, ⟨⟨ha, rfl⟩, ⟨hb, rfl⟩⟩, _, ⟨ha', rfl⟩, _, ⟨hb', rfl⟩, rfl, rfl⟩

/-- The borrow rate of a side with this debt and this accounted reserve. -/
def rateFor (p : Pool) (debt accounted : ℕ) : Result ℕ :=
  computeBorrowRateWadPerYear (utilizationWad debt accounted) p.interestBaseBpsPerYear
    p.interestSlope1BpsPerYear p.interestSlope2BpsPerYear p.interestKinkBps

/-- **Accrual** does nothing in the slot of the last one, and otherwise bumps both indexes at the
rates of the utilizations there are. -/
theorem bumpIndexes_eq_ok :
    p.bumpIndexes realA realB slot = .ok p' ↔
      (slot ≤ p.lastIndexUpdateSlot ∧ p' = p) ∨
      (p.lastIndexUpdateSlot < slot ∧ ∃ a b rateA rateB, p.accounted realA realB = .ok (a, b) ∧
        p.rateFor p.totalDebtA a = .ok rateA ∧ p.rateFor p.totalDebtB b = .ok rateB ∧
        p' = p.withIndexes
          (bumpIndexWad p.borrowIndexAWad rateA (slot - p.lastIndexUpdateSlot))
          (bumpIndexWad p.borrowIndexBWad rateB (slot - p.lastIndexUpdateSlot)) slot) := by
  simp only [bumpIndexes]
  split
  · rename_i h0
    rw [Checked.pure_eq_ok]
    constructor
    · rintro rfl
      exact Or.inl ⟨by omega, rfl⟩
    · rintro (⟨-, rfl⟩ | ⟨hlt, -⟩)
      · rfl
      · omega
  · rename_i h0
    simp only [Checked.bind_eq_ok, Checked.pure_eq_ok, Prod.exists]
    constructor
    · rintro ⟨a, b, hacc, rateA, hA, rateB, hB, rfl⟩
      exact Or.inr ⟨by omega, a, b, rateA, rateB, hacc, hA, hB, rfl⟩
    · rintro (⟨hle, -⟩ | ⟨-, a, b, rateA, rateB, hacc, hA, hB, rfl⟩)
      · omega
      · exact ⟨a, b, hacc, rateA, hA, rateB, hB, rfl⟩

/-- **Accrual touches the indexes and nothing else.** -/
theorem bumpIndexes_frame (h : p.bumpIndexes realA realB slot = .ok p') :
    ∃ indexA indexB last, p' = p.withIndexes indexA indexB last := by
  obtain ⟨-, rfl⟩ | ⟨-, _, _, _, _, -, -, -, rfl⟩ := bumpIndexes_eq_ok.mp h
  · exact ⟨p'.borrowIndexAWad, p'.borrowIndexBWad, p'.lastIndexUpdateSlot, rfl⟩
  · exact ⟨_, _, _, rfl⟩

/-! What settling and admitting a loan do to the totals of each side. -/

/-- The pool once a loan with these sides has left the totals. -/
def settled (p : Pool) (s : LoanSides) (c d : ℕ) : Pool :=
  match s with
  | .collateralA => { p with
      totalCollateralA := p.totalCollateralA - c, totalDebtB := p.totalDebtB - d
      openLoans := p.openLoans - 1 }
  | .collateralB => { p with
      totalCollateralB := p.totalCollateralB - c, totalDebtA := p.totalDebtA - d
      openLoans := p.openLoans - 1 }

/-- The pool once a loan with these sides has entered the totals. -/
def admitted (p : Pool) (s : LoanSides) (c d : ℕ) : Pool :=
  match s with
  | .collateralA => { p with
      totalCollateralA := p.totalCollateralA + c, totalDebtB := p.totalDebtB + d
      openLoans := p.openLoans + 1, nextLoanNonce := p.nextLoanNonce + 1 }
  | .collateralB => { p with
      totalCollateralB := p.totalCollateralB + c, totalDebtA := p.totalDebtA + d
      openLoans := p.openLoans + 1, nextLoanNonce := p.nextLoanNonce + 1 }

section Settlement

variable {s : LoanSides} {c d : ℕ} {x : Side}

theorem settleLoan_eq_ok :
    p.settleLoan s c d = .ok p' ↔
      c ≤ p.collateral s.collateralSide ∧ d ≤ p.debt s.debtSide ∧ 1 ≤ p.openLoans ∧
        p' = p.settled s c d := by
  cases s <;>
  · simp only [settleLoan, settleTotals, Checked.bind_eq_ok, checkedSub_eq_ok, Checked.pure_eq_ok,
      settled, collateral, debt, LoanSides.collateralSide, LoanSides.debtSide]
    constructor
    · rintro ⟨_, ⟨_, ⟨hc, rfl⟩, _, ⟨hd, rfl⟩, rfl⟩, _, ⟨hn, rfl⟩, rfl⟩
      exact ⟨hc, hd, hn, rfl⟩
    · rintro ⟨hc, hd, hn, rfl⟩
      exact ⟨_, ⟨_, ⟨hc, rfl⟩, _, ⟨hd, rfl⟩, rfl⟩, _, ⟨hn, rfl⟩, rfl⟩

theorem admitLoan_eq_ok (h : p.admitLoan s c d = .ok p') :
    p' = p.admitted s c d ∧ p.openLoans + 1 < 2 ^ 64 := by
  cases s <;>
  · simp only [admitLoan, admitTotals, Checked.bind_eq_ok, fits_eq_ok, Checked.pure_eq_ok] at h
    obtain ⟨_, ⟨_, ⟨-, rfl⟩, _, ⟨-, rfl⟩, rfl⟩, _, ⟨hn, rfl⟩, _, ⟨-, rfl⟩, rfl⟩ := h
    exact ⟨rfl, hn⟩

theorem settled_collateral :
    (p.settled s c d).collateral x = p.collateral x - if x = s.collateralSide then c else 0 := by
  cases s <;> cases x <;> rfl

theorem settled_debt :
    (p.settled s c d).debt x = p.debt x - if x = s.debtSide then d else 0 := by
  cases s <;> cases x <;> rfl

@[simp] theorem settled_fees : (p.settled s c d).fees x = p.fees x := by
  cases s <;> cases x <;> rfl

@[simp] theorem settled_bitmapOf {d : ℕ} {e : TriggerDirection} :
    (p.settled s c d).bitmapOf e = p.bitmapOf e := by
  cases s <;> cases e <;> rfl

@[simp] theorem settled_meters : (p.settled s c d).meters = p.meters := by cases s <;> rfl

@[simp] theorem admitted_meters : (p.admitted s c d).meters = p.meters := by cases s <;> rfl

@[simp] theorem settled_openLoans : (p.settled s c d).openLoans = p.openLoans - 1 := by
  cases s <;> rfl

theorem admitted_collateral :
    (p.admitted s c d).collateral x = p.collateral x + if x = s.collateralSide then c else 0 := by
  cases s <;> cases x <;> rfl

theorem admitted_debt :
    (p.admitted s c d).debt x = p.debt x + if x = s.debtSide then d else 0 := by
  cases s <;> cases x <;> rfl

@[simp] theorem admitted_fees : (p.admitted s c d).fees x = p.fees x := by
  cases s <;> cases x <;> rfl

@[simp] theorem admitted_bitmapOf {d : ℕ} {e : TriggerDirection} :
    (p.admitted s c d).bitmapOf e = p.bitmapOf e := by
  cases s <;> cases e <;> rfl

@[simp] theorem admitted_openLoans : (p.admitted s c d).openLoans = p.openLoans + 1 := by
  cases s <;> rfl

end Settlement

/-! ### Band bits -/

section BandBits

variable {d : TriggerDirection} {b n : ℕ}

@[simp] theorem bandBitmap_toU8 : p.bandBitmap d.toU8 = .ok (p.bitmapOf d) := by cases d <;> rfl

theorem setBandBitmap_eq (bitmap : Bitmap) :
    ∃ fall rise, p.setBandBitmap d.toU8 bitmap = p.withBitmaps fall rise := by
  cases d
  · exact ⟨_, p.bandBitmapRise, rfl⟩
  · exact ⟨p.bandBitmapFall, _, rfl⟩

theorem setBandBitmap_bitmapOf (bitmap : Bitmap) (e : TriggerDirection) :
    (p.setBandBitmap d.toU8 bitmap).bitmapOf e = if e = d then bitmap else p.bitmapOf e := by
  cases d <;> cases e <;> rfl

/-- Marking a band changes nothing but the bitmaps, in which it sets the bit of a band that was
empty. -/
theorem markBand_eq_ok (h : p.markBand n d.toU8 b = .ok p') :
    (∃ fall rise, p' = p.withBitmaps fall rise) ∧
      (n = 0 → b ≤ maxBandId) ∧
      ∀ e c, bitmapIsSet (p'.bitmapOf e) c = true ↔
        (n = 0 ∧ e = d ∧ c = b) ∨ bitmapIsSet (p.bitmapOf e) c = true := by
  rw [markBand] at h
  split at h
  · rename_i hn
    simp only [setBand, bandBitmap_toU8, Checked.bind_eq_ok, Checked.pure_eq_ok,
      Except.ok.injEq] at h
    obtain ⟨_, rfl, bitmap, hset, rfl⟩ := h
    refine ⟨setBandBitmap_eq bitmap, fun _ => le_of_bitmapSet hset, fun e c => ?_⟩
    rw [setBandBitmap_bitmapOf]
    by_cases he : e = d
    · subst he
      simp [hn, bitmapIsSet_of_set hset]
    · simp [he]
  · rename_i hn
    cases h
    exact ⟨⟨_, _, rfl⟩, fun h0 => absurd h0 hn, fun e c => by simp [hn]⟩

/-- Unmarking a band changes nothing but the bitmaps, in which it clears the bit of a band that is
empty now. -/
theorem unmarkBand_eq_ok (h : p.unmarkBand n d.toU8 b = .ok p') :
    (∃ fall rise, p' = p.withBitmaps fall rise) ∧
      ∀ e c, bitmapIsSet (p'.bitmapOf e) c = true ↔
        bitmapIsSet (p.bitmapOf e) c = true ∧ ¬ (n = 0 ∧ e = d ∧ c = b) := by
  rw [unmarkBand] at h
  split at h
  · rename_i hn
    simp only [clearBand, bandBitmap_toU8, Checked.bind_eq_ok, Checked.pure_eq_ok,
      Except.ok.injEq] at h
    obtain ⟨_, rfl, bitmap, hclear, rfl⟩ := h
    refine ⟨setBandBitmap_eq bitmap, fun e c => ?_⟩
    rw [setBandBitmap_bitmapOf]
    by_cases he : e = d
    · subst he
      simp [hn, bitmapIsSet_of_clear hclear, and_comm]
    · simp [he]
  · rename_i hn
    cases h
    exact ⟨⟨_, _, rfl⟩, fun e c => by simp [hn]⟩

theorem setBandBitmap_meters {d : ℕ} {bitmap : Bitmap} :
    (p.setBandBitmap d bitmap).meters = p.meters := by
  unfold setBandBitmap
  split <;> rfl

theorem markBand_meters {n d b : ℕ} (h : p.markBand n d b = .ok p') : p'.meters = p.meters := by
  rw [markBand] at h
  split at h
  · simp only [setBand, Checked.bind_eq_ok, Checked.pure_eq_ok] at h
    obtain ⟨_, -, _, -, rfl⟩ := h
    exact setBandBitmap_meters
  · cases h
    rfl

theorem unmarkBand_meters {n d b : ℕ} (h : p.unmarkBand n d b = .ok p') :
    p'.meters = p.meters := by
  rw [unmarkBand] at h
  split at h
  · simp only [clearBand, Checked.bind_eq_ok, Checked.pure_eq_ok] at h
    obtain ⟨_, -, _, -, rfl⟩ := h
    exact setBandBitmap_meters
  · cases h
    rfl

end BandBits

/-! ### Terms -/

@[simp] theorem settled_terms {s : LoanSides} {c d : ℕ} : (p.settled s c d).terms = p.terms := by
  cases s <;> rfl

@[simp] theorem admitted_terms {s : LoanSides} {c d : ℕ} : (p.admitted s c d).terms = p.terms := by
  cases s <;> rfl

@[simp] theorem setBandBitmap_terms {d : ℕ} {bitmap : Bitmap} :
    (p.setBandBitmap d bitmap).terms = p.terms := by
  unfold setBandBitmap
  split <;> rfl

theorem unmarkBand_terms {n d b : ℕ} (h : p.unmarkBand n d b = .ok p') : p'.terms = p.terms := by
  unfold unmarkBand at h
  split at h
  · simp only [clearBand, Checked.bind_eq_ok, Checked.pure_eq_ok] at h
    obtain ⟨_, -, _, -, rfl⟩ := h
    exact setBandBitmap_terms
  · cases h
    rfl

theorem isInitialized_of_terms (h : p'.terms = p.terms) : p'.isInitialized = p.isInitialized := by
  have : p'.terms.discriminator = p.terms.discriminator := by rw [h]
  unfold isInitialized
  rw [show p'.discriminator = p.discriminator from this]

theorem lpMint_of_terms (h : p'.terms = p.terms) : p'.lpMint = p.lpMint :=
  (congrArg Pool.lpMint h : p'.terms.lpMint = p.terms.lpMint)

theorem liqRatioBps_of_terms (h : p'.terms = p.terms) : p'.liqRatioBps = p.liqRatioBps :=
  (congrArg Pool.liqRatioBps h : p'.terms.liqRatioBps = p.terms.liqRatioBps)

theorem swapFeeBps_of_terms (h : p'.terms = p.terms) : p'.swapFeeBps = p.swapFeeBps :=
  (congrArg swapFeeBps h : p'.terms.swapFeeBps = p.terms.swapFeeBps)

theorem protocolFeeBps_of_terms (h : p'.terms = p.terms) : p'.protocolFeeBps = p.protocolFeeBps :=
  (congrArg protocolFeeBps h : p'.terms.protocolFeeBps = p.terms.protocolFeeBps)

theorem bumpIndexes_terms (h : p.bumpIndexes realA realB slot = .ok p') : p'.terms = p.terms := by
  obtain ⟨_, _, _, rfl⟩ := bumpIndexes_frame h
  rfl

theorem index_of_meters (h : p'.meters = p.meters) (x : Side) : p'.index x = p.index x := by
  cases x
  · exact congrArg Meters.indexA h
  · exact congrArg Meters.indexB h

theorem mint_of_terms (h : p'.terms = p.terms) (x : Side) : p'.mint x = p.mint x := by
  cases x
  · exact (congrArg Pool.mintA h : p'.terms.mintA = p.terms.mintA)
  · exact (congrArg Pool.mintB h : p'.terms.mintB = p.terms.mintB)

theorem vault_of_terms (h : p'.terms = p.terms) (x : Side) : p'.vault x = p.vault x := by
  cases x
  · exact (congrArg Pool.vaultA h : p'.terms.vaultA = p.terms.vaultA)
  · exact (congrArg Pool.vaultB h : p'.terms.vaultB = p.terms.vaultB)

theorem refPriceAt_of_sampled {spot : ℕ} (h0 : p.refPriceWad ≠ 0) (hs : slot = p.refPriceSlot) :
    p.refPriceAt spot slot = .ok p.refPriceWad :=
  if_pos ⟨h0, hs⟩

end Pool

/-! ### Loan -/

/-- One position. -/
structure Loan where
  discriminator : ℕ
  pool : Pubkey
  borrower : Pubkey
  nonce : ℕ
  bump : ℕ
  sides : ℕ
  collateralAmount : ℕ
  debtPrincipal : ℕ
  borrowIndexSnapshotWad : ℕ
  lastTouchSlot : ℕ
  triggerPriceWad : ℕ
  triggerDirection : ℕ
  status : ℕ
  bandId : ℕ
  openedSlot : ℕ
  closedSlot : ℕ
  deriving DecidableEq, Repr

namespace Loan

/-- `Loan::STATUS_OPEN`. -/
def statusOpen : ℕ := 0

/-- `Loan::STATUS_REPAID`, which no account keeps: a repaid loan is closed at once. -/
def statusRepaid : ℕ := 1

/-- `Loan::STATUS_LIQUIDATED`. -/
def statusLiquidated : ℕ := 2

/-- `Loan::is_initialized`. -/
def isInitialized (l : Loan) : Bool := l.discriminator = loanDiscriminator

/-- Whether the loan has been neither repaid nor liquidated. -/
def isOpen (l : Loan) : Bool := l.status = statusOpen

/-- Principal plus interest, given the current index of the loan's debt side. -/
def owed (l : Loan) (poolCurrentIndexWad : ℕ) : Result ℕ :=
  owedFromIndex l.debtPrincipal l.borrowIndexSnapshotWad poolCurrentIndexWad

/-- A `Loan` account whose bytes are all zero. -/
def zeroed : Loan :=
  { discriminator := 0, pool := 0, borrower := 0, nonce := 0, bump := 0, sides := 0,
    collateralAmount := 0, debtPrincipal := 0, borrowIndexSnapshotWad := 0, lastTouchSlot := 0,
    triggerPriceWad := 0, triggerDirection := 0, status := 0, bandId := 0, openedSlot := 0,
    closedSlot := 0 }

end Loan

/-! ### LoanIndexBand -/

/-- The membership counter of one `(pool, direction, band_id)` bucket. -/
structure LoanIndexBand where
  discriminator : ℕ
  pool : Pubkey
  bandId : ℕ
  direction : ℕ
  bump : ℕ
  count : ℕ
  deriving DecidableEq, Repr

namespace LoanIndexBand

/-- Hard cap on open loans per band. -/
def maxLoans : ℕ := 64

/-- `LoanIndexBand::is_initialized`. -/
def isInitialized (b : LoanIndexBand) : Bool := b.discriminator = loanIndexBandDiscriminator

/-- A band account whose bytes are all zero. -/
def zeroed : LoanIndexBand :=
  { discriminator := 0, pool := 0, bandId := 0, direction := 0, bump := 0, count := 0 }

/-- The band with its count replaced. -/
def withCount (b : LoanIndexBand) (count : ℕ) : LoanIndexBand := { b with count }

@[simp] theorem withCount_isInitialized {b : LoanIndexBand} {n : ℕ} :
    (b.withCount n).isInitialized = b.isInitialized := rfl

@[simp] theorem withCount_pool {b : LoanIndexBand} {n : ℕ} : (b.withCount n).pool = b.pool := rfl

@[simp] theorem withCount_direction {b : LoanIndexBand} {n : ℕ} :
    (b.withCount n).direction = b.direction := rfl

@[simp] theorem withCount_bandId {b : LoanIndexBand} {n : ℕ} :
    (b.withCount n).bandId = b.bandId := rfl

@[simp] theorem withCount_bump {b : LoanIndexBand} {n : ℕ} : (b.withCount n).bump = b.bump := rfl

@[simp] theorem withCount_count {b : LoanIndexBand} {n : ℕ} : (b.withCount n).count = n := rfl

@[simp] theorem withCount_withCount {b : LoanIndexBand} {m n : ℕ} :
    (b.withCount m).withCount n = b.withCount n := rfl

@[simp] theorem withCount_self {b : LoanIndexBand} : b.withCount b.count = b := rfl

end LoanIndexBand

end ChiefLiquidity
