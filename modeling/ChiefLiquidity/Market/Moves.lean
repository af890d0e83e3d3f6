import ChiefLiquidity.Market.Invariants

/-!
# Every move keeps a valid market valid

One lemma per move. The set of open loans is unchanged by the moves of liquidity and fees, gains
one loan in a `Borrow`, and loses the settled ones in a `Repay` and a `Trade`.

## How the invariants are carried

A market is valid for a set of keys, those of its open loans. Each lemma here gives the set after
the move from the one before it: the same for liquidity and fees, with one key inserted for a new
loan, without the settled ones for a repayment or a swap. The four parts of validity are kept for
different reasons, and each has its own lemma in the module before: the terms because no move writes
them, the vaults because what is paid out is covered, the books because totals and loans change
together, and the index because counts and bits change with them.

## Main results

* `Borrow.valid`, `Repay.valid`, `Trade.valid`
* `Move.valid`
-/

namespace ChiefLiquidity.Market

open KeyedSum

variable {m m' : Market} {S : Finset Pubkey} {p p₁ : Pool} {k : Pubkey} {l : Loan}
  {s : LoanSides} {lp paid owed : ℕ} {share paidOut amount : Side → ℕ} {f : SwapFigures}
  {supplied : Finset Pubkey} {ks : List Pubkey}

/-! ### Liquidity and fees -/

theorem Deposit.valid (hv : m.Valid S) (h : Deposit m p amount lp m') : m'.Valid S := by
  have hbook : SameBook m m' := by
    apply h.accrued.sameBook <;> rw [h.after]
  refine hv.of_sameBook hbook fun x => ?_
  have := hv.solvent x
  have hfees : m'.pool.fees x = m.pool.fees x := by
    rw [h.after, Pool.stamp_fees, h.accrued.fees]
  rw [hbook.collateral, hfees, h.after]
  exact this.trans (Nat.le_add_right _ _)

theorem Withdraw.valid (hv : m.Valid S) (h : Withdraw m p lp share paidOut m') : m'.Valid S := by
  have hbook : SameBook m m' := by
    apply h.accrued.sameBook <;> rw [h.after]
  refine hv.of_sameBook hbook fun x => ?_
  have hsolv := hv.solvent x
  have hfees : m'.pool.fees x = m.pool.fees x := by
    rw [h.after, Pool.stamp_fees, h.accrued.fees]
  have hcov : share x ≤ m.real x - m.pool.collateral x - m.pool.fees x := h.covered x
  have hreal : m'.real x = m.real x - paidOut x := by rw [h.after]
  have hpaid := h.paid_eq x
  rw [hbook.collateral, hfees, hreal]
  omega

theorem ClaimFees.sameBook (h : ClaimFees m m') : SameBook m m' := by
  refine ⟨?_, fun x => ?_, fun x => ?_, ?_, fun d => ?_, ?_, ?_⟩ <;> simp [h.after]

/-- A claim empties the fees of both sides, and pays them out of the vaults. -/
theorem ClaimFees.fees (h : ClaimFees m m') (x : Side) :
    m'.pool.fees x = 0 ∧ m'.real x = m.real x - m.pool.fees x := by
  rw [h.after]
  cases x <;> exact ⟨rfl, rfl⟩

theorem ClaimFees.valid (hv : m.Valid S) (h : ClaimFees m m') : m'.Valid S := by
  refine hv.of_sameBook h.sameBook fun x => ?_
  have hsolv := hv.solvent x
  obtain ⟨hfees, hreal⟩ := h.fees x
  rw [h.sameBook.collateral, hfees, hreal]
  omega

theorem DriftMove.sameBook (h : DriftMove m m') : SameBook m m' where
  terms := by rw [h.pool]
  collateral x := by rw [h.pool]
  debt x := by rw [h.pool]
  openLoans := by rw [h.pool]
  bitmapOf d := by rw [h.pool]
  loans := h.loans
  bands := h.bands

theorem DriftMove.valid (hv : m.Valid S) (h : DriftMove m m') : m'.Valid S := by
  refine hv.of_sameBook h.sameBook fun x => ?_
  rw [h.pool]
  exact (hv.solvent x).trans (h.real x)

/-! ### Opening a loan -/

theorem collateralSide_inj {s t : LoanSides} : s.collateralSide = t.collateralSide ↔ s = t := by
  cases s <;> cases t <;> simp [LoanSides.collateralSide]

theorem debtSide_inj {s t : LoanSides} : s.debtSide = t.debtSide ↔ s = t := by
  cases s <;> cases t <;> simp [LoanSides.debtSide]

theorem debtSide_ne_collateralSide (s : LoanSides) : s.debtSide ≠ s.collateralSide := by
  cases s <;> simp [LoanSides.debtSide, LoanSides.collateralSide]

theorem collateralFor_eq (hl : l.sides = s.toU8) (t : LoanSides) :
    l.collateralFor t = if t.collateralSide = s.collateralSide then l.collateralAmount else 0 := by
  simp only [Loan.collateralFor, hl, collateralSide_inj, LoanSides.toU8_injective.eq_iff,
    eq_comm (a := t)]

theorem principalFor_eq (hl : l.sides = s.toU8) (t : LoanSides) :
    l.principalFor t = if t.debtSide = s.debtSide then l.debtPrincipal else 0 := by
  simp only [Loan.principalFor, hl, debtSide_inj, LoanSides.toU8_injective.eq_iff,
    eq_comm (a := t)]

/-- What a `Borrow` does to each part of the market, its band account counting `n` before. -/
structure Borrowed (m : Market) (S : Finset Pubkey) (k : Pubkey) (l : Loan) (s : LoanSides)
    (paid : ℕ) (m' : Market) : Prop where
  terms : m'.pool.terms = m.pool.terms
  collateral : ∀ x, m'.pool.collateral x =
    m.pool.collateral x + if x = s.collateralSide then l.collateralAmount else 0
  debt : ∀ x, m'.pool.debt x = m.pool.debt x + if x = s.debtSide then l.debtPrincipal else 0
  fees : ∀ x, m'.pool.fees x = m.pool.fees x
  openLoans : m'.pool.openLoans = m.pool.openLoans + 1
  count_lt : m.members S s.direction l.bandId < LoanIndexBand.maxLoans
  bandId_le : l.bandId ≤ maxBandId
  bits : ∀ d b, bitmapIsSet (m'.pool.bitmapOf d) b = true ↔
    (m.members S s.direction l.bandId = 0 ∧ d = s.direction ∧ b = l.bandId) ∨
      bitmapIsSet (m.pool.bitmapOf d) b = true
  bands : m'.bands =
    setBandCount m.bands s.direction.toU8 l.bandId (m.members S s.direction l.bandId + 1)
  loans : m'.loans = Function.update m.loans k (some l)
  real : ∀ x, m'.real x = m.real x + (if x = s.collateralSide then l.collateralAmount else 0) -
    if x = s.debtSide then paid else 0

theorem Borrow.borrowed (hv : m.Valid S) (h : Borrow m p k l s paid m') :
    Borrowed m S k l s paid m' := by
  obtain ⟨n, p', hn, hlt, hmark, hafter⟩ := h.after
  rw [h.direction] at hn hmark hafter
  obtain rfl : n = m.members S s.direction l.bandId :=
    hn.trans (hv.indexed.getD_eq s.direction l.bandId)
  obtain ⟨⟨fall, rise, rfl⟩, hle, hbits⟩ := Pool.markBand_eq_ok hmark
  obtain ⟨iA, iB, last, hp⟩ := h.accrued.frame
  refine ⟨?_, fun x => ?_, fun x => ?_, fun x => ?_, ?_, hlt, ?_, fun d b => ?_, ?_, ?_,
    fun x => ?_⟩
  · simp [hafter, h.accrued.terms]
  · simp [hafter, Pool.admitted_collateral, h.accrued.collateral]
  · simp [hafter, Pool.admitted_debt, h.accrued.debt]
  · simp [hafter, h.accrued.fees]
  · simp [hafter, h.accrued.openLoans]
  · -- an empty band's bit was set just now, and a band with members holds a loan already
    rcases Nat.eq_zero_or_pos (m.members S s.direction l.bandId) with h0 | hpos
    · exact hle h0
    · obtain ⟨j, lj, hj, hw⟩ := (total_pos_iff hv.booked.domain).mp hpos
      have hb := hv.indexed.bandId_le j lj hj
      rw [Loan.inBand] at hw
      split at hw
      · rename_i hband
        rwa [hband.2] at hb
      · omega
  · rw [← h.accrued.bitmapOf, ← hbits d b, hafter, Pool.stamp_bitmapOf, Pool.admitted_bitmapOf]
  · rw [hafter]
  · rw [hafter]
  · rw [hafter]

theorem Borrow.booked (hv : m.Valid S) (h : Borrow m p k l s paid m') :
    m'.Booked (insert k S) := by
  have hb := h.borrowed hv
  have hkS : k ∉ S := fun hk => by simpa [h.free] using (hv.booked.domain k).mp hk
  refine ⟨?_, fun t => ?_, fun t => ?_, ?_⟩
  · rw [hb.loans]
    exact hv.booked.domain.update k l
  · rw [hb.collateral, hb.loans, total_insert hv.booked.domain h.free, hv.booked.collateral t,
      collateralFor_eq h.sides]
  · rw [hb.debt, hb.loans, total_insert hv.booked.domain h.free, hv.booked.debt t,
      principalFor_eq h.sides]
  · rw [hb.openLoans, Finset.card_insert_of_notMem hkS, hv.booked.openLoans]

theorem Borrow.indexed (hv : m.Valid S) (h : Borrow m p k l s paid m') :
    m'.Indexed (insert k S) := by
  have hb := h.borrowed hv
  have hratio : p.liqRatioBps = m'.pool.liqRatioBps :=
    Pool.liqRatioBps_of_terms (h.accrued.terms.trans hb.terms.symm)
  have hratio' : m.pool.liqRatioBps = m'.pool.liqRatioBps :=
    Pool.liqRatioBps_of_terms hb.terms.symm
  have hmembers : ∀ d b, m'.members (insert k S) d b =
      m.members S d b + if d = s.direction ∧ b = l.bandId then 1 else 0 := by
    intro d b
    rw [members, hb.loans, total_insert hv.booked.domain h.free, members, Loan.inBand, h.direction]
    simp only [TriggerDirection.toU8_injective.eq_iff, eq_comm (a := s.direction),
      eq_comm (a := l.bandId)]
  have hloan : ∀ j lj, m'.loans j = some lj → (j = k ∧ lj = l) ∨ m.loans j = some lj := by
    intro j lj hj
    rw [hb.loans] at hj
    by_cases hjk : j = k
    · subst hjk
      rw [Function.update_self] at hj
      exact Or.inl ⟨rfl, (Option.some.inj hj).symm⟩
    · rw [Function.update_of_ne hjk] at hj
      exact Or.inr hj
  refine ⟨fun j lj hj => ?_, fun j lj hj => ?_, fun d b => ?_, fun d b n hn => ?_,
    fun d b hpos => ?_⟩
  · rcases hloan j lj hj with ⟨-, rfl⟩ | hj
    · rw [← hratio]
      exact ⟨s, s.direction, h.sides, h.direction, h.trigger, h.band⟩
    · rw [← hratio']
      exact hv.indexed.sound j lj hj
  · rcases hloan j lj hj with ⟨-, rfl⟩ | hj
    · exact hb.bandId_le
    · exact hv.indexed.bandId_le j lj hj
  · rw [hb.bits, hmembers, hv.indexed.bit]
    by_cases hband : d = s.direction ∧ b = l.bandId
    · obtain ⟨rfl, rfl⟩ := hband
      simp only [and_self, and_true, if_true]
      omega
    · simp [hband]
  · rw [hb.bands, setBandCount] at hn
    rw [hmembers]
    by_cases hband : d = s.direction ∧ b = l.bandId
    · obtain ⟨rfl, rfl⟩ := hband
      simp only [and_self, if_true, Option.some.injEq] at hn ⊢
      have := hb.count_lt
      omega
    · rw [if_neg (by rwa [TriggerDirection.toU8_injective.eq_iff])] at hn
      rw [if_neg hband]
      exact hv.indexed.count d b n hn
  · rw [hmembers] at hpos
    rw [hb.bands, setBandCount]
    split
    · rfl
    · rename_i hband
      rw [TriggerDirection.toU8_injective.eq_iff] at hband
      rw [if_neg hband] at hpos
      exact hv.indexed.allocated d b hpos

theorem Borrow.valid (hv : m.Valid S) (h : Borrow m p k l s paid m') :
    m'.Valid (insert k S) where
  terms := hv.terms.of_terms (h.borrowed hv).terms
  solvent x := by
    have hb := h.borrowed hv
    have hsolv := hv.solvent x
    have hcov : l.debtPrincipal ≤ m.real s.debtSide - m.pool.collateral s.debtSide -
      m.pool.fees s.debtSide := h.covered
    have hpaid := h.paid_eq
    rw [hb.collateral, hb.fees, hb.real]
    by_cases hd : x = s.debtSide
    · subst hd
      rw [if_neg (debtSide_ne_collateralSide s), if_pos rfl]
      omega
    · rw [if_neg hd]
      omega
  booked := h.booked hv
  indexed := h.indexed hv

/-! ### Repaying a loan -/

/-- What a `Repay` does to each part of the market. -/
structure Repaid (m : Market) (k : Pubkey) (l : Loan) (s : LoanSides) (owed paid : ℕ)
    (m' : Market) : Prop where
  terms : m'.pool.terms = m.pool.terms
  collateral : ∀ x, m'.pool.collateral x +
    (if x = s.collateralSide then l.collateralAmount else 0) = m.pool.collateral x
  debt : ∀ x, m'.pool.debt x + (if x = s.debtSide then l.debtPrincipal else 0) = m.pool.debt x
  fees : ∀ x, m'.pool.fees x = m.pool.fees x
  openLoans : m'.pool.openLoans + 1 = m.pool.openLoans
  bits : ∀ d b, bitmapIsSet (m'.pool.bitmapOf d) b = true ↔
    bitmapIsSet (m.pool.bitmapOf d) b = true ∧
      ¬ (m'.bands d.toU8 b = some 0 ∧ d = s.direction ∧ b = l.bandId)
  bands : ∀ d b, m'.bands d b = (m.bands d b).map fun n => n - total {k} m.loans (Loan.inBand d b)
  loans : m'.loans = without {k} m.loans
  real : ∀ x, m'.real x = m.real x + (if x = s.debtSide then owed else 0) -
    if x = s.collateralSide then paid else 0

theorem Repay.direction (hv : m.Valid S) (h : Repay m p k l s owed paid m') :
    l.triggerDirection = s.direction.toU8 := by
  obtain ⟨t, d, ht, hd, htrig, -⟩ := hv.indexed.sound k l h.loan
  obtain ⟨-, -, rfl, -⟩ := recomputeTrigger_eq_ok htrig
  obtain rfl : s = t := LoanSides.toU8_injective (h.sides.symm.trans ht)
  exact hd

theorem Repay.repaid (hv : m.Valid S) (h : Repay m p k l s owed paid m') :
    Repaid m k l s owed paid m' := by
  have hdir := h.direction hv
  obtain ⟨n, p', hn, hunmark, hafter⟩ := h.after
  rw [hdir] at hn hunmark hafter
  obtain ⟨⟨fall, rise, rfl⟩, hbits⟩ := Pool.unmarkBand_eq_ok hunmark
  obtain ⟨hc, hd, ho, -⟩ := Pool.settleLoan_eq_ok.mp h.settle
  refine ⟨?_, fun x => ?_, fun x => ?_, fun x => ?_, ?_, fun d b => ?_, fun d b => ?_, ?_,
    fun x => ?_⟩
  · simp [hafter, h.accrued.terms]
  · simp only [hafter, Pool.withBitmaps_collateral, Pool.stamp_collateral,
      Pool.settled_collateral, ← h.accrued.collateral]
    split
    · rename_i hxs
      subst hxs
      omega
    · omega
  · simp only [hafter, Pool.withBitmaps_debt, Pool.stamp_debt, Pool.settled_debt,
      ← h.accrued.debt]
    split
    · rename_i hxs
      subst hxs
      omega
    · omega
  · simp [hafter, h.accrued.fees]
  · simp only [hafter, Pool.withBitmaps_openLoans, Pool.stamp_openLoans, Pool.settled_openLoans,
      ← h.accrued.openLoans]
    omega
  · simp only [hafter]
    rw [hbits d b, Pool.stamp_bitmapOf, Pool.settled_bitmapOf, h.accrued.bitmapOf]
    refine and_congr_right fun _ => not_congr ⟨fun ⟨h0, hd, hb⟩ => ?_, fun ⟨h0, hd, hb⟩ => ?_⟩
    · subst hd hb
      exact ⟨by simp [setBandCount, h0], rfl, rfl⟩
    · subst hd hb
      simp only [setBandCount, and_self, if_true, Option.some.injEq] at h0
      exact ⟨h0, rfl, rfl⟩
  · simp only [hafter, total_singleton h.loan, Loan.inBand, hdir, setBandCount]
    by_cases hband : d = s.direction.toU8 ∧ b = l.bandId
    · obtain ⟨rfl, rfl⟩ := hband
      simp [hn]
    · rw [if_neg hband, if_neg (fun hc => hband ⟨hc.1.symm, hc.2.symm⟩)]
      simp
  · rw [hafter]
  · rw [hafter]

theorem Repay.valid (hv : m.Valid S) (h : Repay m p k l s owed paid m') :
    m'.Valid (S \ {k}) := by
  have hr := h.repaid hv
  have hR : {k} ⊆ S := Finset.singleton_subset_iff.mpr (hv.booked.domain.mem_of_some h.loan)
  refine ⟨hv.terms.of_terms hr.terms, fun x => ?_, hv.booked.remove hR hr.loans (fun t => ?_)
    (fun t => ?_) ?_, hv.indexed.remove hR hr.loans ?_ hr.bands fun d b => ?_⟩
  · have hsolv := hv.solvent x
    have hc := hr.collateral x
    have hpaid := h.paid_eq
    rw [hr.fees, hr.real]
    by_cases hx : x = s.collateralSide
    · subst hx
      rw [if_neg (debtSide_ne_collateralSide s).symm, if_pos rfl]
      rw [if_pos rfl] at hc
      omega
    · rw [if_neg hx] at hc ⊢
      omega
  · rw [total_singleton h.loan, collateralFor_eq h.sides]
    exact hr.collateral _
  · rw [total_singleton h.loan, principalFor_eq h.sides]
    exact hr.debt _
  · rw [Finset.card_singleton]
    exact hr.openLoans
  · exact Pool.liqRatioBps_of_terms hr.terms
  · rw [hr.bits, total_singleton h.loan, Loan.inBand, h.direction hv]
    refine and_congr_right fun _ => not_congr ⟨fun ⟨h0, hd, hb⟩ => ?_, fun ⟨hw, h0⟩ => ?_⟩
    · subst hd hb
      simp [h0]
    · split at hw
      · rename_i hband
        exact ⟨h0, (TriggerDirection.toU8_injective hband.1).symm, hband.2.symm⟩
      · omega

end ChiefLiquidity.Market
