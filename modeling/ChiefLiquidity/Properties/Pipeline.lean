import ChiefLiquidity.ForMathlib.Compounding
import ChiefLiquidity.Math

/-!
# The accrual pipeline

Interest goes through three stages: the utilization of a side, the rate of the curve there, and the
growth of the index at that rate. None of them can be played against the lenders. A stage never
falls when what goes into it rises, across the kink and up to the cap, and cutting the time into
many accruals loses one index unit for each at the most.

## Composing floors

Each stage rounds down, and a floor of a monotone function is monotone, so each stage is monotone by
itself. The one place where that is not immediate is the kink of the rate curve, where one linear
piece ends and another begins: at the kink both have the same value, and the second is not below the
first beyond it.

## Accruing often

An accrual in two parts compounds, which gives more, and rounds twice, which gives less. The first
is never negative and the second is less than one index unit, so a pool that is touched every slot
loses at most one unit of its index for each touch against one that is touched once.

## Main definitions

* `accrueIndex` — the three stages in turn

## Main results

* `bumpIndexWad_eq_step` — the index grows by capped compounding
* `dust_accruals_lose_little` — accruing more often
* `utilizationWad_mono`, `borrowRateWad_mono`, `bumpIndexWad_mono` — the stages are monotone
* `accrual_pipeline_monotone` — and so is what they make up
-/

namespace ChiefLiquidity

variable {i i' r r' n n' u u' d d' a a' base slope1 slope2 kink : ℕ} {slots : List ℕ}

/-! ### Accruing more often -/

/-- **The index grows by capped compounding.** -/
theorem bumpIndexWad_eq_step (hi : i ≤ indexCapWad) :
    bumpIndexWad i r n = Compounding.step (slotsPerYear * wad) indexCapWad (r * n) i := by
  rw [bumpIndexWad_eq hi, Compounding.step, Nat.mul_assoc]

/-- And so does an index that is bumped repeatedly. -/
theorem foldl_bumpIndexWad (hi : i ≤ indexCapWad) :
    slots.foldl (fun i n => bumpIndexWad i r n) i =
      Compounding.steps (slotsPerYear * wad) indexCapWad (slots.map (r * ·)) i := by
  induction slots generalizing i with
  | nil => rfl
  | cons n slots ih =>
    rw [List.foldl_cons, List.map_cons, Compounding.steps_cons, ← bumpIndexWad_eq_step hi]
    exact ih (bumpIndexWad_le hi)

/-- **Dust accruals cannot stall interest.** An index that is bumped over a list of slot counts ends
at most one unit for each accrual but the first below the index bumped once over all the slots, and
it stays under the cap. -/
theorem dust_accruals_lose_little (index rate : ℕ) (slots : List ℕ) (hindex : index ≤ indexCapWad) :
    bumpIndexWad index rate slots.sum - (slots.length - 1) ≤
        slots.foldl (fun index n => bumpIndexWad index rate n) index ∧
      slots.foldl (fun index n => bumpIndexWad index rate n) index ≤ indexCapWad := by
  have hunits : 0 < slotsPerYear * wad := by decide
  have hsum : (slots.map (rate * ·)).sum = rate * slots.sum := by
    simpa using List.sum_map_mul_left slots id rate
  have honce : Compounding.step (slotsPerYear * wad) indexCapWad (slots.map (rate * ·)).sum index ≤
      Compounding.steps (slotsPerYear * wad) indexCapWad (slots.map (rate * ·)) index +
        ((slots.map (rate * ·)).length - 1) := Compounding.step_sum_le hunits hindex
  rw [hsum, ← bumpIndexWad_eq_step hindex, List.length_map] at honce
  rw [foldl_bumpIndexWad hindex]
  exact ⟨Nat.sub_le_iff_le_add.mpr honce, Compounding.steps_le hindex⟩

theorem dust_accruals_lose_little_daily :
    bumpIndexWad wad (bpsToWad 1000) 648000 - 2 ≤
      [216000, 216000, 216000].foldl (fun index n => bumpIndexWad index (bpsToWad 1000) n) wad :=
  (dust_accruals_lose_little wad (bpsToWad 1000) [216000, 216000, 216000] (by decide)).1

/-! ### The stages are monotone -/

/-- **Utilization** rises with the debt, and as the reserve falls. -/
theorem utilizationWad_mono (hd : d ≤ d') (ha : a' ≤ a) (hle : d' ≤ a') :
    utilizationWad d a ≤ utilizationWad d' a' := by
  rcases Nat.eq_zero_or_pos a' with rfl | hpos
  · obtain rfl : d' = 0 := Nat.le_zero.mp hle
    obtain rfl : d = 0 := Nat.le_zero.mp hd
    simp [utilizationWad]
  · have hquot : d * wad / a ≤ d' * wad / a' := by
      refine Rounding.div_le_div_of_cross (hpos.trans_le ha) hpos ?_
      exact Nat.mul_le_mul (Nat.mul_le_mul_right _ hd) ha
    have hprod : d * wad ≤ d' * wad := Nat.mul_le_mul_right _ hd
    have hword : wad < 2 ^ 128 := by decide
    have ha0 : a ≠ 0 := by omega
    unfold utilizationWad
    rw [if_neg ha0, if_neg hpos.ne']
    generalize d * wad = x at *
    generalize d' * wad = x' at *
    dsimp only
    split_ifs <;> omega

/-- The kink is inside the range of the utilization. -/
theorem kinkWad_between (hkink : 0 < kink) (hkink' : kink < bpsDenom) :
    0 < kink * wad / bpsDenom ∧ kink * wad / bpsDenom < wad := by
  have hk : kink * wad / bpsDenom = kink * (wad / bpsDenom) :=
    Nat.mul_div_assoc kink (by decide)
  rw [hk, show wad / bpsDenom = 100000000000000 by decide]
  unfold wad bpsDenom at *
  omega

/-- **The rate** rises with the utilization. The two branches of the curve meet at the kink: below
it the first slope is not used up, and above it nothing is taken back. -/
theorem borrowRateWad_mono (huu : u ≤ u') :
    borrowRateWad u base slope1 slope2 kink ≤ borrowRateWad u' base slope1 slope2 kink := by
  unfold borrowRateWad
  generalize kink * wad / bpsDenom = k
  dsimp only
  by_cases hu' : u' ≤ k
  · rw [if_pos (huu.trans hu'), if_pos hu']
    exact Nat.add_le_add_left (Nat.div_le_div_right (Nat.mul_le_mul_left _ huu)) _
  · rw [if_neg hu']
    by_cases hu : u ≤ k
    · have hfirst : bpsToWad slope1 * u / k ≤ bpsToWad slope1 := by
        refine Nat.div_le_of_le_mul ?_
        rw [Nat.mul_comm k]
        exact Nat.mul_le_mul_left _ hu
      rw [if_pos hu]
      exact (Nat.add_le_add_left hfirst _).trans (Nat.le_add_right _ _)
    · rw [if_neg hu]
      refine Nat.add_le_add_left (Nat.div_le_div_right (Nat.mul_le_mul_left _ ?_)) _
      exact Nat.sub_le_sub_right huu k

/-- The rate at no utilization is the base, and at full utilization both slopes are added to it. -/
theorem borrowRateWad_ends (hkink : 0 < kink) (hkink' : kink < bpsDenom) :
    borrowRateWad 0 base slope1 slope2 kink = bpsToWad base ∧
      borrowRateWad wad base slope1 slope2 kink =
        bpsToWad base + bpsToWad slope1 + bpsToWad slope2 := by
  obtain ⟨-, hlt⟩ := kinkWad_between hkink hkink'
  constructor
  · rw [borrowRateWad, if_pos (Nat.zero_le _), Nat.mul_zero, Nat.zero_div, Nat.add_zero]
  · rw [borrowRateWad, if_neg (not_le.mpr hlt), Nat.mul_div_cancel _ (Nat.sub_pos_of_lt hlt)]

/-- **The index** rises with its start, the rate and the time. Past the cap it stays. -/
theorem bumpIndexWad_mono (hi : i ≤ i') (hr : r ≤ r') (hn : n ≤ n') :
    bumpIndexWad i r n ≤ bumpIndexWad i' r' n' := by
  by_cases hcap : i' ≤ indexCapWad
  · rw [bumpIndexWad_eq_step hcap, bumpIndexWad_eq_step (hi.trans hcap)]
    exact Compounding.step_mono hi (Nat.mul_le_mul hr hn)
  · have hstay : ∀ {j s k : ℕ}, indexCapWad ≤ j → bumpIndexWad j s k = j := by
      intro j s k hj
      rw [bumpIndexWad, if_pos (Or.inr (Or.inr hj))]
    have hcap' : indexCapWad ≤ i' := Nat.le_of_not_le hcap
    rw [hstay hcap']
    by_cases hlow : i ≤ indexCapWad
    · exact (bumpIndexWad_le hlow).trans hcap'
    · rw [hstay (Nat.le_of_not_le hlow)]
      exact hi

/-! ### The pipeline -/

/-- The index of a side with this debt and accounted reserve after `slots` at one rate: the
utilization, the rate there, and the bump. -/
def accrueIndex (baseBps slope1Bps slope2Bps kinkBps debt accounted index slots : ℕ) :
    Result ℕ := do
  let rate ← computeBorrowRateWadPerYear (utilizationWad debt accounted) baseBps slope1Bps slope2Bps
    kinkBps
  return bumpIndexWad index rate slots

/-- **The accrual pipeline is monotone**, for every curve with a kink inside the range. More debt or
less reserve, more time and a higher start never lower the index, and the rate is never below the
base or above the base and both slopes. -/
theorem accrual_pipeline_monotone (hkink : 1 ≤ kink) (hkink' : kink ≤ 9999) (hbase : base < 2 ^ 16)
    (hslope1 : slope1 < 2 ^ 16) (hslope2 : slope2 < 2 ^ 16) :
    (∀ debt debt' accounted accounted' index index' slots slots', debt ≤ debt' →
      accounted' ≤ accounted → debt' ≤ accounted' → index ≤ index' → slots ≤ slots' →
      ∃ bumped bumped',
        accrueIndex base slope1 slope2 kink debt accounted index slots = .ok bumped ∧
        accrueIndex base slope1 slope2 kink debt' accounted' index' slots' = .ok bumped' ∧
        bumped ≤ bumped') ∧
    ∀ debt accounted, ∃ rate,
      computeBorrowRateWadPerYear (utilizationWad debt accounted) base slope1 slope2 kink =
        .ok rate ∧ bpsToWad base ≤ rate ∧
          rate ≤ bpsToWad base + bpsToWad slope1 + bpsToWad slope2 := by
  have hlt : kink < bpsDenom := Nat.lt_succ_of_le hkink'
  have hrate := fun debt accounted => computeBorrowRateWadPerYear_eq
    (utilizationWad_le debt accounted) hkink hlt hbase hslope1 hslope2
  constructor
  · intro debt debt' accounted accounted' index index' slots slots' hd ha hle hi hn
    have hutil := utilizationWad_mono hd ha hle
    refine ⟨_, _, Checked.bind_eq_ok.mpr ⟨_, hrate debt accounted, rfl⟩,
      Checked.bind_eq_ok.mpr ⟨_, hrate debt' accounted', rfl⟩, ?_⟩
    exact bumpIndexWad_mono hi (borrowRateWad_mono hutil) hn
  · intro debt accounted
    obtain ⟨hzero, hfull⟩ := @borrowRateWad_ends base slope1 slope2 kink hkink hlt
    refine ⟨_, hrate debt accounted, ?_, ?_⟩
    · rw [← hzero]
      exact borrowRateWad_mono (Nat.zero_le _)
    · rw [← hfull]
      exact borrowRateWad_mono (utilizationWad_le _ _)

theorem accrual_pipeline_monotone_default : ∃ bumped bumped',
    accrueIndex 0 400 30000 8000 700 1000 wad 216000 = .ok bumped ∧
      accrueIndex 0 400 30000 8000 900 1000 wad 216000 = .ok bumped' ∧ bumped ≤ bumped' := by
  obtain ⟨hmono, -⟩ := @accrual_pipeline_monotone 0 400 30000 8000 (by decide) (by decide)
    (by decide) (by decide) (by decide)
  exact hmono 700 900 1000 1000 wad wad 216000 216000 (by decide) (by decide) (by decide)
    (by decide) (by decide)

end ChiefLiquidity
