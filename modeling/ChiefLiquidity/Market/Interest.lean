import ChiefLiquidity.Market.Reserves

/-!
# Interest

Every move that touches debts or reserves first bumps both borrow indexes to the current slot, at
the rates of the utilizations before it. The indexes never fall and never pass their cap, so what
is owed on a loan is always defined, is at least the principal, and never falls.

The same invariant keeps every sum the accounting prologue computes within its word: a pool has
fewer than `2 ^ 64` loans, each with a principal below `2 ^ 64`.

## Why a bound on the principals

The prologue adds the debt of a side to what is in its vault, in 128 bits. The vault holds less than
`2 ^ 64`, so the debt must not come near `2 ^ 128`. A principal is an argument of 64 bits when a
loan is opened, and the number of open loans is a 64-bit counter, so their sum stays below `2 ^
128`, and with a vault on top it is still a word of that size.

## Saturation

An index grows by capped compounding: a step that would take it past `2 ^ 64` WAD leaves it there.
So the products in which an index appears fit their 256-bit intermediates, and a snapshot divides by
at least one WAD.

## Main definitions

* `Metered` — the invariant
* `Metered.reserve_lt` — the accounted reserves fit a word

## Main results

* `Accrued.bumped` — what accrual does to the indexes
* `Move.meters` — where the meters of a market come from
* `Move.metered` — the invariant survives every move
* `Metered.accrues` — the accounting prologue never fails
-/

namespace ChiefLiquidity.Market

variable {m m' : Market} {S : Finset Pubkey} {p p₁ : Pool} {k : Pubkey} {l : Loan}
  {s : LoanSides} {lp paid owed : ℕ} {share paidOut amount : Side → ℕ} {f : SwapFigures}
  {supplied : Finset Pubkey} {ks : List Pubkey} {x : Side}

/-- The indexes are in range and as of a past slot, the snapshots of the open loans are behind
them, and the loans and their number are machine words. -/
structure Metered (m : Market) : Prop where
  clock : m.pool.lastIndexUpdateSlot ≤ m.slot
  wad_le : ∀ x, wad ≤ m.pool.index x
  le_cap : ∀ x, m.pool.index x ≤ indexCapWad
  snapshot : ∀ (k : Pubkey) (l : Loan) (s : LoanSides), m.loans k = some l → l.sides = s.toU8 →
    wad ≤ l.borrowIndexSnapshotWad ∧ l.borrowIndexSnapshotWad ≤ m.pool.index s.debtSide
  principal : ∀ (k : Pubkey) (l : Loan), m.loans k = some l → l.debtPrincipal < 2 ^ 64
  openLoans : m.pool.openLoans < 2 ^ 64

/-! ### Accrual -/

/-- **Accrual bumps both indexes to now**, each at the rate of its side's utilization before. -/
theorem Accrued.bumped (h : m.Accrued p) :
    (m.slot ≤ m.pool.lastIndexUpdateSlot ∧ p = m.pool) ∨
      (m.pool.lastIndexUpdateSlot < m.slot ∧ p.lastIndexUpdateSlot = m.slot ∧
        ∀ x, ∃ rate, m.pool.rateFor (m.pool.debt x) (m.reserve x) = .ok rate ∧
          p.index x = bumpIndexWad (m.pool.index x) rate
            (m.slot - m.pool.lastIndexUpdateSlot)) := by
  obtain h | ⟨hlt, a, b, rateA, rateB, hacc, hA, hB, rfl⟩ := Pool.bumpIndexes_eq_ok.mp h.bump
  · exact Or.inl h
  · obtain ⟨⟨-, rfl⟩, -, rfl⟩ := Pool.accounted_eq_ok.mp hacc
    refine Or.inr ⟨hlt, rfl, fun x => ?_⟩
    cases x
    · exact ⟨rateA, hA, rfl⟩
    · exact ⟨rateB, hB, rfl⟩

theorem Accrued.le_index (h : m.Accrued p) (hm : m.Metered) (x : Side) :
    m.pool.index x ≤ p.index x := by
  obtain ⟨-, rfl⟩ | ⟨-, -, hbump⟩ := h.bumped
  · exact le_refl _
  · obtain ⟨rate, -, hx⟩ := hbump x
    rw [hx]
    exact le_bumpIndexWad (hm.le_cap x)

theorem Accrued.index_le (h : m.Accrued p) (hm : m.Metered) (x : Side) :
    p.index x ≤ indexCapWad := by
  obtain ⟨-, rfl⟩ | ⟨-, -, hbump⟩ := h.bumped
  · exact hm.le_cap x
  · obtain ⟨rate, -, hx⟩ := hbump x
    rw [hx]
    exact bumpIndexWad_le (hm.le_cap x)

/-- After accrual the indexes are as of now. -/
theorem Accrued.clock_eq (h : m.Accrued p) (hm : m.Metered) : p.lastIndexUpdateSlot = m.slot := by
  obtain ⟨hle, rfl⟩ | ⟨-, heq, -⟩ := h.bumped
  · exact le_antisymm hm.clock hle
  · exact heq

/-! ### The meters of a market after a move -/

theorem Deposit.meters (h : Deposit m p amount lp m') : m'.pool.meters = p.meters := by
  rw [h.after]
  exact Pool.stamp_meters

theorem Withdraw.meters (h : Withdraw m p lp share paidOut m') : m'.pool.meters = p.meters := by
  rw [h.after]
  exact Pool.stamp_meters

theorem Borrow.meters (h : Borrow m p k l s paid m') : m'.pool.meters = p.meters := by
  obtain ⟨n, p', -, -, hmark, hafter⟩ := h.after
  rw [hafter, Pool.stamp_meters, Pool.admitted_meters]
  exact Pool.markBand_meters hmark

theorem Repay.meters (h : Repay m p k l s owed paid m') : m'.pool.meters = p.meters := by
  obtain ⟨n, p', -, hunmark, hafter⟩ := h.after
  rw [hafter, Pool.unmarkBand_meters hunmark, Pool.stamp_meters, Pool.settled_meters]

theorem ClaimFees.meters (h : ClaimFees m m') : m'.pool.meters = m.pool.meters := by
  rw [h.after]
  exact Pool.stamp_meters.trans Pool.withFees_meters

theorem Trade.meters (h : Trade m p p₁ f supplied ks m') : m'.pool.meters = p₁.meters := by
  obtain ⟨fall, rise, hpool⟩ := h.pool_eq
  rw [hpool, Pool.stamp_meters, Pool.withBitmaps_meters, traded_meters]

theorem DriftMove.meters (h : DriftMove m m') : m'.pool.meters = m.pool.meters := by rw [h.pool]

/-- A trade samples the reference price and leaves the indexes as they accrued. -/
theorem Trade.indexes (h : Trade m p p₁ f supplied ks m') :
    (∀ x, m'.pool.index x = p.index x) ∧
      m'.pool.lastIndexUpdateSlot = p.lastIndexUpdateSlot := by
  have hmeters := h.meters
  obtain ⟨_, _, rfl⟩ := sampleRefPrice_frame h.sample
  exact ⟨fun x => by rw [Pool.index_of_meters hmeters]; cases x <;> rfl,
    congrArg Pool.Meters.indexSlot hmeters⟩

/-- **Indexes move by accrual alone**: after a move they are those of the pool before it, or of that
pool after accrual. -/
theorem Move.indexes (h : Move m ks m') : ∃ p, (p = m.pool ∨ m.Accrued p) ∧
    (∀ x, m'.pool.index x = p.index x) ∧
      m'.pool.lastIndexUpdateSlot = p.lastIndexUpdateSlot := by
  have hof : ∀ {p : Pool}, m'.pool.meters = p.meters → (∀ x, m'.pool.index x = p.index x) ∧
      m'.pool.lastIndexUpdateSlot = p.lastIndexUpdateSlot := fun hmeters =>
    ⟨Pool.index_of_meters hmeters, congrArg Pool.Meters.indexSlot hmeters⟩
  cases h with
  | deposit h => exact ⟨_, Or.inr h.accrued, hof h.meters⟩
  | withdraw h => exact ⟨_, Or.inr h.accrued, hof h.meters⟩
  | borrow h => exact ⟨_, Or.inr h.accrued, hof h.meters⟩
  | repay h => exact ⟨_, Or.inr h.accrued, hof h.meters⟩
  | claimFees h => exact ⟨_, Or.inl rfl, hof h.meters⟩
  | trade h => exact ⟨_, Or.inr h.accrued, h.indexes⟩
  | drift h => exact ⟨_, Or.inl rfl, hof h.meters⟩

/-! ### Slots and loans -/

theorem Move.slot_le (h : Move m ks m') : m.slot ≤ m'.slot := by
  cases h with
  | deposit h => rw [h.after]
  | withdraw h => rw [h.after]
  | borrow h =>
    obtain ⟨_, _, -, -, -, hafter⟩ := h.after
    rw [hafter]
  | repay h =>
    obtain ⟨_, _, -, -, hafter⟩ := h.after
    rw [hafter]
  | claimFees h => rw [h.after]
  | trade h => rw [h.slot_eq]
  | drift h => exact h.slot

/-- **A loan that is open after a move was open before it, unchanged**, unless the move is the
borrow that opened it. -/
theorem Move.loan_of_mem (hv : m.Valid S) (h : Move m ks m') (hl : m'.loans k = some l) :
    m.loans k = some l ∨ ∃ p s paid, Borrow m p k l s paid m' := by
  cases h with
  | deposit h => exact Or.inl (by rwa [h.after] at hl)
  | withdraw h => exact Or.inl (by rwa [h.after] at hl)
  | @borrow p j lj s paid _ h =>
    rw [(h.borrowed hv).loans] at hl
    by_cases hjk : k = j
    · subst hjk
      rw [Function.update_self] at hl
      obtain rfl := Option.some.inj hl
      exact Or.inr ⟨p, s, paid, h⟩
    · rw [Function.update_of_ne hjk] at hl
      exact Or.inl hl
  | repay h =>
    rw [(h.repaid hv).loans, KeyedSum.without_eq_some] at hl
    exact Or.inl hl.2
  | claimFees h => exact Or.inl (by rwa [h.after] at hl)
  | trade h =>
    rw [h.loans_eq, KeyedSum.without_eq_some] at hl
    exact Or.inl hl.2
  | drift h => exact Or.inl (by rwa [h.loans] at hl)

/-- The snapshot of a new loan is the index of its debt side after accrual. -/
theorem Borrow.snapshot_eq (h : Borrow m p k l s paid m') :
    l.borrowIndexSnapshotWad = p.index s.debtSide := by
  have hsnap := h.snapshot
  rw [h.sides] at hsnap
  cases s <;> exact (Except.ok.inj hsnap).symm

/-- What a pool lends is in its vault. -/
theorem Borrow.principal_le (h : Borrow m p k l s paid m') :
    l.debtPrincipal ≤ m.real s.debtSide := by
  have hcov : l.debtPrincipal ≤ m.real s.debtSide - m.pool.collateral s.debtSide -
    m.pool.fees s.debtSide := h.covered
  omega

theorem Move.openLoans_lt (hv : m.Valid S) (hm : m.Metered) (h : Move m ks m') :
    m'.pool.openLoans < 2 ^ 64 := by
  have hopen := hm.openLoans
  cases h with
  | deposit h =>
    rw [h.after]
    exact h.accrued.openLoans.symm ▸ hopen
  | withdraw h =>
    rw [h.after]
    exact h.accrued.openLoans.symm ▸ hopen
  | borrow h =>
    have hcounter := h.counter
    rw [(h.borrowed hv).openLoans, ← h.accrued.openLoans]
    exact hcounter
  | repay h =>
    have := (h.repaid hv).openLoans
    omega
  | claimFees h =>
    rw [h.after]
    exact hopen
  | trade h =>
    rw [h.traded.openLoans]
    omega
  | drift h =>
    rw [h.pool]
    exact hopen

/-- **The indexes never fall.** -/
theorem Move.le_index (hm : m.Metered) (h : Move m ks m') (x : Side) :
    m.pool.index x ≤ m'.pool.index x := by
  obtain ⟨p, hp, hindex, -⟩ := h.indexes
  rw [hindex]
  rcases hp with rfl | hp
  · exact le_refl _
  · exact hp.le_index hm x

/-- **A loan that is open before and after a move is unchanged.** -/
theorem Move.loan_eq {l' : Loan} (hv : m.Valid S) (h : Move m ks m') (hl : m.loans k = some l)
    (hl' : m'.loans k = some l') : l' = l := by
  rcases h.loan_of_mem hv hl' with hold | ⟨p, s, paid, hb⟩
  · exact Option.some.inj (hold.symm.trans hl)
  · rw [hb.free] at hl
    cases hl

/-- **The meters stay in range** in every move of a market whose vaults hold machine words. -/
theorem Move.metered (hv : m.Valid S) (hm : m.Metered) (hreal : ∀ x, m.real x < 2 ^ 64)
    (h : Move m ks m') : m'.Metered := by
  obtain ⟨p, hp, hindex, hclock⟩ := h.indexes
  have hle := h.le_index hm
  have hslot : p.lastIndexUpdateSlot ≤ m.slot := by
    rcases hp with rfl | hp
    · exact hm.clock
    · exact (hp.clock_eq hm).le
  refine ⟨hclock ▸ hslot.trans h.slot_le, fun x => (hm.wad_le x).trans (hle x), fun x => ?_,
    fun k l s hl hs => ?_, fun k l hl => ?_, h.openLoans_lt hv hm⟩
  · rw [hindex]
    rcases hp with rfl | hp
    · exact hm.le_cap x
    · exact hp.index_le hm x
  · rcases h.loan_of_mem hv hl with hold | ⟨q, t, paid, hb⟩
    · exact ⟨(hm.snapshot k l s hold hs).1, (hm.snapshot k l s hold hs).2.trans (hle _)⟩
    · obtain rfl : s = t := LoanSides.toU8_injective (hs.symm.trans hb.sides)
      rw [hb.snapshot_eq, Pool.index_of_meters hb.meters]
      exact ⟨(hm.wad_le _).trans (hb.accrued.le_index hm _), le_refl _⟩
  · rcases h.loan_of_mem hv hl with hold | ⟨q, t, paid, hb⟩
    · exact hm.principal k l hold
    · exact hb.principal_le.trans_lt (hreal _)

/-- A new market's meters are in range. -/
theorem New.metered (h : m.New) : m.Metered where
  clock := h.clock.le
  wad_le x := (h.index x).ge
  le_cap x := by
    rw [h.index]
    decide
  snapshot k l s hl := absurd (h.valid.booked.domain.mem_of_some hl) (Finset.notMem_empty k)
  principal k l hl := absurd (h.valid.booked.domain.mem_of_some hl) (Finset.notMem_empty k)
  openLoans := by
    rw [h.valid.booked.openLoans]
    decide

/-! ### The accounting prologue never fails -/

/-- The debt of a side is the sum of fewer than `2 ^ 64` machine words. -/
theorem Metered.debt_le (hv : m.Valid S) (hm : m.Metered) (x : Side) :
    m.pool.debt x ≤ (2 ^ 64 - 1) * (2 ^ 64 - 1) := by
  obtain ⟨s, rfl⟩ : ∃ s : LoanSides, s.debtSide = x := by
    cases x
    · exact ⟨.collateralB, rfl⟩
    · exact ⟨.collateralA, rfl⟩
  have hweight : ∀ k ∈ S, ∀ l, m.loans k = some l →
      1 * Loan.principalFor s l ≤ (2 ^ 64 - 1) * 1 := by
    intro k _ l hl
    have hlt := hm.principal k l hl
    rw [Loan.principalFor]
    split <;> omega
  have hle := KeyedSum.total_mul_le (u := fun _ => 1) hweight
  have hcard : KeyedSum.total S m.loans (fun _ => 1) = S.card :=
    KeyedSum.total_eq_card fun k hk => by
      obtain ⟨l, hl⟩ := Option.isSome_iff_exists.mp ((hv.booked.domain k).mp hk)
      exact ⟨l, hl, rfl⟩
  have hopen := hm.openLoans
  rw [hv.booked.openLoans] at hopen
  rw [hcard, ← hv.booked.debt, Nat.one_mul] at hle
  exact hle.trans (Nat.mul_le_mul_left _ (by omega))

/-- **The accounted reserves fit a 128-bit word.** -/
theorem Metered.reserve_lt (hv : m.Valid S) (hm : m.Metered) (hreal : ∀ x, m.real x < 2 ^ 64)
    (x : Side) : m.reserve x < 2 ^ 128 := by
  have hdebt := hm.debt_le hv x
  have hr := hreal x
  rw [reserve_def]
  omega

/-- There is a borrow rate at every utilization. -/
theorem StandardTerms.rateFor_ok (h : StandardTerms p) (debt accounted : ℕ) :
    ∃ rate, p.rateFor debt accounted = .ok rate := by
  rw [Pool.rateFor, h.base, h.slope1, h.slope2, h.kink]
  exact ⟨_, computeBorrowRateWadPerYear_eq (utilizationWad_le _ _) (by decide) (by decide)
    (by decide) (by decide) (by decide)⟩

/-- **The accounting prologue never fails**, at any slot. -/
theorem Metered.accrues (hv : m.Valid S) (hm : m.Metered) (hreal : ∀ x, m.real x < 2 ^ 64)
    (slot : ℕ) :
    m.pool.swappable (m.real .a) (m.real .b) = .ok (m.swappable .a, m.swappable .b) ∧
      m.pool.accounted (m.real .a) (m.real .b) = .ok (m.reserve .a, m.reserve .b) ∧
      ∃ p, m.pool.bumpIndexes (m.real .a) (m.real .b) slot = .ok p := by
  have hacc : m.pool.accounted (m.real .a) (m.real .b) = .ok (m.reserve .a, m.reserve .b) :=
    Pool.accounted_eq_ok.mpr ⟨⟨⟨hv.solvent .a, hm.reserve_lt hv hreal .a⟩, rfl⟩,
      ⟨hv.solvent .b, hm.reserve_lt hv hreal .b⟩, rfl⟩
  refine ⟨Pool.swappable_eq_ok.mpr ⟨⟨hv.solvent .a, rfl⟩, hv.solvent .b, rfl⟩, hacc, ?_⟩
  obtain ⟨rateA, hA⟩ := hv.terms.rateFor_ok m.pool.totalDebtA (m.reserve .a)
  obtain ⟨rateB, hB⟩ := hv.terms.rateFor_ok m.pool.totalDebtB (m.reserve .b)
  by_cases hslot : slot ≤ m.pool.lastIndexUpdateSlot
  · exact ⟨_, Pool.bumpIndexes_eq_ok.mpr (Or.inl ⟨hslot, rfl⟩)⟩
  · exact ⟨_, Pool.bumpIndexes_eq_ok.mpr (Or.inr ⟨by omega, _, _, rateA, rateB, hacc, hA, hB, rfl⟩)⟩

/-! ### What is owed -/

/-- **What is owed on an open loan is defined**, at every index the side can reach. -/
theorem Metered.owed_ok (hm : m.Metered) (hl : m.loans k = some l) (hs : l.sides = s.toU8)
    {index : ℕ} (hle : m.pool.index s.debtSide ≤ index) (hcap : index ≤ indexCapWad) :
    l.owed index = .ok (Rounding.up (l.debtPrincipal * index) l.borrowIndexSnapshotWad) := by
  obtain ⟨hwad, hsnap⟩ := hm.snapshot k l s hl hs
  have hprincipal := hm.principal k l hl
  have hpos : 0 < l.borrowIndexSnapshotWad := wad_pos.trans_le hwad
  have hprod : l.debtPrincipal * index ≤ (2 ^ 64 - 1) * (wad * 2 ^ 64) :=
    Nat.mul_le_mul (by omega) hcap
  have hup : Rounding.up (l.debtPrincipal * index) l.borrowIndexSnapshotWad ≤
      (2 ^ 64 - 1) * 2 ^ 64 := by
    refine Rounding.up_le hpos (hprod.trans ?_)
    rw [Nat.mul_comm wad, ← Nat.mul_assoc]
    exact Nat.mul_le_mul_left _ hwad
  rw [Loan.owed, owedFromIndex]
  refine Checked.bind_eq_ok.mpr ⟨(), require_of hpos.ne', ?_⟩
  refine Checked.bind_eq_ok.mpr ⟨(), require_of (hsnap.trans hle), ?_⟩
  refine Checked.bind_eq_ok.mpr ⟨_, fits_of_lt ?_, fits_of_lt ?_⟩
  · exact hprod.trans_lt (by decide)
  · exact hup.trans_lt (by decide)

end ChiefLiquidity.Market
