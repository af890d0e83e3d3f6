import ChiefLiquidity.Market.Interest
import ChiefLiquidity.Market.Reserves

/-!
# Loans within a slot

Interest is due once a slot: whoever comes second in a slot accrues nothing. So a loan that is
repaid in the slot it was opened in leaves the market as it was, and moves of different loans in
one slot can be made in either order.

## What commutes

Two loan moves of one slot add to the same totals, and additions commute. They may share a band,
whose count they both change, and its bit, which depends on the count alone. Each of them reads the
terms and the indexes of the pool, which neither changes after the first accrual of the slot, and
its own loan.

So either order gives the same market, and in particular a repayment straight after the opening
takes everything back: the count to what it was, the bit with it, and the totals.

## What does not come back

The nonce and the stamp of the last update belong to the pool record and are not undone. They decide
nothing that the program checks.

## Main definitions

* `Lends` — what opening and repaying a loan have in common

## Main results

* `Pool.eq_of_parts` — what a pool consists of
* `Accrued.eq_of_clock` — accrual is over for the slot
* `Borrow.repay_undoes`
* `Lends.commute` — either order
-/

namespace ChiefLiquidity

/-- **A pool is its parts**: its terms and its meters, its totals and its bitmaps. -/
theorem Pool.eq_of_parts {p p' : Pool} (hterms : p'.terms = p.terms)
    (hmeters : p'.meters = p.meters) (hcollateral : ∀ x, p'.collateral x = p.collateral x)
    (hdebt : ∀ x, p'.debt x = p.debt x) (hfees : ∀ x, p'.fees x = p.fees x)
    (hopen : p'.openLoans = p.openLoans)
    (hbits : ∀ d b, bitmapIsSet (p'.bitmapOf d) b = true ↔ bitmapIsSet (p.bitmapOf d) b = true)
    (hnonce : p'.nextLoanNonce = p.nextLoanNonce)
    (hstamp : p'.lastUpdateSlot = p.lastUpdateSlot) : p' = p := by
  have hbitmap : ∀ d, p'.bitmapOf d = p.bitmapOf d := fun d =>
    bitmap_ext fun b => Bool.eq_iff_iff.mpr (hbits d b)
  have hca := hcollateral .a
  have hcb := hcollateral .b
  have hda := hdebt .a
  have hdb := hdebt .b
  have hfa := hfees .a
  have hfb := hfees .b
  have hfall := hbitmap .onFall
  have hrise := hbitmap .onRise
  cases p
  cases p'
  simp only [terms, meters, collateral, debt, fees, bitmapOf, mk.injEq, Meters.mk.injEq] at *
  grind

/-- The pool with one more nonce handed out. -/
def Pool.nonceTaken (p : Pool) : Pool := { p with nextLoanNonce := p.nextLoanNonce + 1 }

namespace Market

variable {m m₁ m₂ : Market} {S : Finset Pubkey} {p q : Pool} {k : Pubkey} {l l' : Loan}
  {s s' : LoanSides} {paid paid' owed : ℕ}

/-! ### Accrual is over for the slot -/

theorem Accrued.eq_of_clock (h : m.Accrued p) (hclock : m.slot ≤ m.pool.lastIndexUpdateSlot) :
    p = m.pool := by
  obtain ⟨-, heq⟩ | ⟨hlt, -, -⟩ := h.bumped
  · exact heq
  · omega

theorem clock_of_meters {p p' : Pool} (h : p'.meters = p.meters) :
    p'.lastIndexUpdateSlot = p.lastIndexUpdateSlot := congrArg Pool.Meters.indexSlot h

/-! ### What the moves of a loan write besides the book -/

theorem Borrow.slot (h : Borrow m p k l s paid m₁) : m₁.slot = m.slot := by
  obtain ⟨_, _, -, -, -, hafter⟩ := h.after
  rw [hafter]

theorem Repay.slot (h : Repay m p k l s owed paid m₁) : m₁.slot = m.slot := by
  obtain ⟨_, _, -, -, hafter⟩ := h.after
  rw [hafter]

theorem Accrued.nonce (h : m.Accrued p) : p.nextLoanNonce = m.pool.nextLoanNonce := by
  obtain ⟨_, _, _, rfl⟩ := h.frame
  rfl

theorem admitted_nonce (p : Pool) (s : LoanSides) (c d : ℕ) :
    (p.admitted s c d).nextLoanNonce = p.nextLoanNonce + 1 := by
  cases s <;> rfl

theorem settled_nonce (p : Pool) (s : LoanSides) (c d : ℕ) :
    (p.settled s c d).nextLoanNonce = p.nextLoanNonce := by
  cases s <;> rfl

theorem Borrow.stamped (h : Borrow m p k l s paid m₁) :
    m₁.pool.lastUpdateSlot = m.slot ∧ m₁.pool.nextLoanNonce = m.pool.nextLoanNonce + 1 := by
  obtain ⟨_, p', -, -, hmark, hafter⟩ := h.after
  rw [h.direction] at hmark
  obtain ⟨⟨fall, rise, hp'⟩, -⟩ := Pool.markBand_eq_ok hmark
  have hpool : m₁.pool = (p'.admitted s l.collateralAmount l.debtPrincipal).stamp m.slot := by
    rw [hafter]
  rw [hpool, ← h.accrued.nonce]
  refine ⟨rfl, (admitted_nonce p' s _ _).trans ?_⟩
  rw [hp']
  rfl

theorem Repay.stamped (hv : m.Valid S) (h : Repay m p k l s owed paid m₁) :
    m₁.pool.lastUpdateSlot = m.slot ∧ m₁.pool.nextLoanNonce = m.pool.nextLoanNonce := by
  obtain ⟨_, p', -, hunmark, hafter⟩ := h.after
  rw [h.direction hv] at hunmark
  obtain ⟨⟨fall, rise, hp'⟩, -⟩ := Pool.unmarkBand_eq_ok hunmark
  have hpool : m₁.pool = p' := by rw [hafter]
  rw [hpool, hp', ← h.accrued.nonce]
  exact ⟨rfl, settled_nonce p s _ _⟩

/-! ### Opening and repaying -/

section SameSlot

variable (h : Borrow m p k l s paid m₁) (hr : Repay m₁ q k l s owed paid' m₂)
include h hr

/-- The index is the snapshot still, so what is owed is the principal. -/
theorem Borrow.owed_at_once (hm : m.Metered) : q = m₁.pool ∧ owed = l.debtPrincipal := by
  have hclock : m₁.pool.lastIndexUpdateSlot = m.slot :=
    (clock_of_meters h.meters).trans (h.accrued.clock_eq hm)
  obtain rfl : q = m₁.pool := hr.accrued.eq_of_clock (by rw [h.slot, hclock])
  refine ⟨rfl, ?_⟩
  obtain ⟨index, hindex, howed⟩ := hr.interest
  obtain ⟨hpos, -, rfl⟩ := owedFromIndex_eq_ok howed
  have hindex' : index = l.borrowIndexSnapshotWad := by
    rw [h.snapshot_eq, ← Pool.index_of_meters h.meters]
    rw [h.sides] at hindex
    cases s <;> exact (Except.ok.inj hindex).symm
  rw [hindex', Rounding.up_mul_self hpos]

/-- Of the bands, only the account of the loan's own band may be new. -/
theorem Borrow.bands_undone (hv : m.Valid S) (d b : ℕ) : m₂.bands d b =
    if d = s.direction.toU8 ∧ b = l.bandId then some (m.members S s.direction l.bandId)
    else m.bands d b := by
  have hb := h.borrowed hv
  have hloan : m₁.loans k = some l := by rw [hb.loans, Function.update_self]
  rw [(hr.repaid (h.valid hv)).bands, hb.bands, setBandCount, KeyedSum.total_singleton hloan,
    Loan.inBand, h.direction]
  by_cases hband : d = s.direction.toU8 ∧ b = l.bandId
  · rw [if_pos hband, if_pos hband, if_pos ⟨hband.1.symm, hband.2.symm⟩]
    rfl
  · rw [if_neg hband, if_neg hband, if_neg fun hc => hband ⟨hc.1.symm, hc.2.symm⟩]
    simp

/-- The pool is as it was after accrual, but for the count of nonces. -/
theorem Borrow.pool_undone (hv : m.Valid S) (hm : m.Metered) :
    m₂.pool = (p.stamp m.slot).nonceTaken := by
  obtain ⟨rfl, -⟩ := h.owed_at_once hr hm
  have hb := h.borrowed hv
  have hv₁ := h.valid hv
  have hrep := hr.repaid hv₁
  refine Pool.eq_of_parts ?_ ?_ (fun x => ?_) (fun x => ?_) (fun x => ?_) ?_ (fun d b => ?_) ?_ ?_
  · exact (hrep.terms.trans hb.terms).trans h.accrued.terms.symm
  · exact hr.meters.trans h.meters
  · have hin := hb.collateral x
    have hout := hrep.collateral x
    have hstart := h.accrued.collateral x
    change m₂.pool.collateral x = p.collateral x
    omega
  · have hin := hb.debt x
    have hout := hrep.debt x
    have hstart := h.accrued.debt x
    change m₂.pool.debt x = p.debt x
    omega
  · exact ((hrep.fees x).trans (hb.fees x)).trans (h.accrued.fees x).symm
  · have hin := hb.openLoans
    have hout := hrep.openLoans
    have hstart := h.accrued.openLoans
    change m₂.pool.openLoans = p.openLoans
    omega
  · change bitmapIsSet (m₂.pool.bitmapOf d) b = true ↔ bitmapIsSet (p.bitmapOf d) b = true
    rw [h.accrued.bitmapOf, hrep.bits, hb.bits, h.bands_undone hr hv]
    simp only [TriggerDirection.toU8_injective.eq_iff]
    have hbit := hv.indexed.bit s.direction l.bandId
    by_cases hband : d = s.direction ∧ b = l.bandId
    · obtain ⟨rfl, rfl⟩ := hband
      simp only [and_self, if_true, Option.some.injEq, and_true, hbit]
      omega
    · simp only [hband, and_false, false_or, not_false_eq_true, and_true]
  · change m₂.pool.nextLoanNonce = p.nextLoanNonce + 1
    rw [(hr.stamped hv₁).2, h.stamped.2, h.accrued.nonce]
  · exact (hr.stamped hv₁).1.trans h.slot

end SameSlot

/-- **A loan repaid in the slot it was opened in leaves no trace** but in the count of nonces, and
costs nothing. -/
theorem Borrow.repay_undoes (hv : m.Valid S) (hm : m.Metered) (h : Borrow m p k l s paid m₁)
    (hr : Repay m₁ q k l' s' owed paid' m₂) :
    l' = l ∧ s' = s ∧ owed = l.debtPrincipal ∧
      m₂.pool = (p.stamp m.slot).nonceTaken ∧ m₂.loans = m.loans ∧
      ∀ d b n, m.bands d b = some n → m₂.bands d b = some n := by
  have hb := h.borrowed hv
  have hloan : m₁.loans k = some l := by rw [hb.loans, Function.update_self]
  obtain rfl : l' = l := Option.some.inj (hr.loan.symm.trans hloan)
  obtain rfl : s' = s := LoanSides.toU8_injective (hr.sides.symm.trans h.sides)
  obtain ⟨-, howed⟩ := h.owed_at_once hr hm
  refine ⟨rfl, rfl, howed, h.pool_undone hr hv hm, ?_, fun d b n hn => ?_⟩
  · rw [(hr.repaid (h.valid hv)).loans, hb.loans]
    funext j
    by_cases hj : j = k
    · subst hj
      simp [KeyedSum.without, h.free]
    · simp [KeyedSum.without, hj]
  · rw [h.bands_undone hr hv]
    split
    · rename_i hband
      rw [hband.1, hband.2] at hn
      have hcount := hv.indexed.getD_eq s'.direction l'.bandId
      rw [hn] at hcount
      exact congrArg some hcount.symm
    · exact hn

/-! ### Either order -/

/-- One loan more, or one less. -/
def sign (opens : Bool) : ℤ := if opens then 1 else -1

/-- What opening a loan and repaying it have in common: the totals, the count of the band and the
number of loans change by the loan, one way or the other. -/
structure Lends (m : Market) (p : Pool) (k : Pubkey) (l : Loan) (s : LoanSides) (opens : Bool)
    (m' : Market) : Prop where
  accrued : m.Accrued p
  terms : m'.pool.terms = m.pool.terms
  meters : m'.pool.meters = p.meters
  collateral : ∀ x, (m'.pool.collateral x : ℤ) = m.pool.collateral x +
    if x = s.collateralSide then sign opens * l.collateralAmount else 0
  debt : ∀ x, (m'.pool.debt x : ℤ) = m.pool.debt x +
    if x = s.debtSide then sign opens * l.debtPrincipal else 0
  fees : ∀ x, m'.pool.fees x = m.pool.fees x
  openLoans : (m'.pool.openLoans : ℤ) = m.pool.openLoans + sign opens
  nonce : m'.pool.nextLoanNonce = m.pool.nextLoanNonce + if opens then 1 else 0
  stamp : m'.pool.lastUpdateSlot = m.slot
  loans : m'.loans = Function.update m.loans k (if opens then some l else none)
  band : ∃ n : ℕ, m'.bands = setBandCount m.bands l.triggerDirection l.bandId n ∧
    (n : ℤ) = (m.bands l.triggerDirection l.bandId).getD 0 + sign opens
  slot : m'.slot = m.slot

theorem Borrow.lends (hv : m.Valid S) (h : Borrow m p k l s paid m₁) :
    Lends m p k l s true m₁ := by
  have hb := h.borrowed hv
  obtain ⟨n, _, hn, -, -, hafter⟩ := h.after
  refine ⟨h.accrued, hb.terms, h.meters, fun x => ?_, fun x => ?_, hb.fees, ?_, h.stamped.2,
    h.stamped.1, hb.loans, ⟨n + 1, by rw [hafter], ?_⟩, h.slot⟩
  · rw [hb.collateral]
    split <;> simp [sign]
  · rw [hb.debt]
    split <;> simp [sign]
  · rw [hb.openLoans]
    rfl
  · rw [← hn]
    rfl

theorem Repay.lends (hv : m.Valid S) (h : Repay m p k l s owed paid m₁) :
    Lends m p k l s false m₁ := by
  have hr := h.repaid hv
  obtain ⟨n, _, hn, -, hafter⟩ := h.after
  refine ⟨h.accrued, hr.terms, h.meters, fun x => ?_, fun x => ?_, hr.fees, ?_, (h.stamped hv).2,
    (h.stamped hv).1, ?_, ⟨n, by rw [hafter], ?_⟩, h.slot⟩
  · have hx := hr.collateral x
    by_cases hside : x = s.collateralSide
    · rw [if_pos hside] at hx ⊢
      rw [← hx]
      simp [sign]
    · rw [if_neg hside] at hx ⊢
      rw [← hx]
      simp
  · have hx := hr.debt x
    by_cases hside : x = s.debtSide
    · rw [if_pos hside] at hx ⊢
      rw [← hx]
      simp [sign]
    · rw [if_neg hside] at hx ⊢
      rw [← hx]
      simp
  · rw [← hr.openLoans]
    simp [sign]
  · rw [hr.loans]
    funext j
    by_cases hj : j = k
    · subst hj
      simp [KeyedSum.without]
    · simp [KeyedSum.without, hj]
  · rw [hn]
    simp [sign]

section Commute

variable {m₁₂ m₂₁ : Market} {S₁₂ S₂₁ : Finset Pubkey} {q₁ q₂ : Pool} {k₁ k₂ : Pubkey} {l₁ l₂ : Loan}
  {s₁ s₂ : LoanSides} {opens₁ opens₂ : Bool}

/-- Bits tell which bands the open loans are in. -/
theorem Valid.bit_iff (hv : m.Valid S) (d : TriggerDirection) (b : ℕ) :
    bitmapIsSet (m.pool.bitmapOf d) b = true ↔
      ∃ k l, m.loans k = some l ∧ 0 < Loan.inBand d.toU8 b l := by
  rw [hv.indexed.bit, members, KeyedSum.total_pos_iff hv.booked.domain]

/-- Counts that are written at the same band add up, and others do not meet. -/
theorem setBandCount_comm {bands : ℕ → ℕ → Option ℕ} {d₁ b₁ d₂ b₂ n₁ n₂ n₁' n₂' : ℕ} {δ₁ δ₂ : ℤ}
    (h₁ : (n₁ : ℤ) = (bands d₁ b₁).getD 0 + δ₁) (h₂ : (n₂ : ℤ) = (bands d₂ b₂).getD 0 + δ₂)
    (h₁' : (n₁' : ℤ) = (setBandCount bands d₂ b₂ n₂ d₁ b₁).getD 0 + δ₁)
    (h₂' : (n₂' : ℤ) = (setBandCount bands d₁ b₁ n₁ d₂ b₂).getD 0 + δ₂) :
    setBandCount (setBandCount bands d₁ b₁ n₁) d₂ b₂ n₂' =
      setBandCount (setBandCount bands d₂ b₂ n₂) d₁ b₁ n₁' := by
  funext d b
  by_cases hsame : d₁ = d₂ ∧ b₁ = b₂
  · obtain ⟨rfl, rfl⟩ := hsame
    simp only [setBandCount, and_self, if_true, Option.getD_some] at h₁' h₂' ⊢
    split
    · congr 1
      omega
    · rfl
  · have hsame' : ¬ (d₂ = d₁ ∧ b₂ = b₁) := fun h => hsame ⟨h.1.symm, h.2.symm⟩
    simp only [setBandCount, if_neg hsame, if_neg hsame'] at h₁' h₂' ⊢
    by_cases hd₁ : d = d₁ ∧ b = b₁
    · have hd₂ : ¬ (d = d₂ ∧ b = b₂) := fun h =>
        hsame ⟨hd₁.1.symm.trans h.1, hd₁.2.symm.trans h.2⟩
      rw [if_pos hd₁, if_neg hd₂, if_pos hd₁]
      congr 1
      omega
    · rw [if_neg hd₁, if_neg hd₁]
      split
      · congr 1
        omega
      · rfl

/-- **Loans in either order.** Moves of different loans in one slot end in the same pool, with the
same loans and the same counts. -/
theorem Lends.commute (h₁ : Lends m p k₁ l₁ s₁ opens₁ m₁) (h₁₂ : Lends m₁ q₂ k₂ l₂ s₂ opens₂ m₁₂)
    (h₂ : Lends m p k₂ l₂ s₂ opens₂ m₂) (h₂₁ : Lends m₂ q₁ k₁ l₁ s₁ opens₁ m₂₁)
    (hmeters₁₂ : q₂.meters = p.meters) (hmeters₂₁ : q₁.meters = p.meters) (hne : k₁ ≠ k₂)
    (hv₁₂ : m₁₂.Valid S₁₂) (hv₂₁ : m₂₁.Valid S₂₁) :
    m₁₂.pool = m₂₁.pool ∧ m₁₂.loans = m₂₁.loans ∧ m₁₂.bands = m₂₁.bands := by
  have hloans : m₁₂.loans = m₂₁.loans := by
    rw [h₁₂.loans, h₁.loans, h₂₁.loans, h₂.loans]
    exact Function.update_comm hne _ _ _
  refine ⟨Pool.eq_of_parts ?_ ?_ (fun x => ?_) (fun x => ?_) (fun x => ?_) ?_ (fun d b => ?_) ?_ ?_,
    hloans, ?_⟩
  · rw [h₁₂.terms, h₁.terms, h₂₁.terms, h₂.terms]
  · rw [h₁₂.meters, h₂₁.meters, hmeters₁₂, hmeters₂₁]
  · zify
    rw [h₁₂.collateral, h₁.collateral, h₂₁.collateral, h₂.collateral]
    ring
  · zify
    rw [h₁₂.debt, h₁.debt, h₂₁.debt, h₂.debt]
    ring
  · rw [h₁₂.fees, h₁.fees, h₂₁.fees, h₂.fees]
  · zify
    rw [h₁₂.openLoans, h₁.openLoans, h₂₁.openLoans, h₂.openLoans]
    ring
  · rw [hv₁₂.bit_iff, hv₂₁.bit_iff, hloans]
  · rw [h₁₂.nonce, h₁.nonce, h₂₁.nonce, h₂.nonce]
    ring
  · rw [h₁₂.stamp, h₂₁.stamp, h₁.slot, h₂.slot]
  · obtain ⟨n₁, hbands₁, hn₁⟩ := h₁.band
    obtain ⟨n₂, hbands₂, hn₂⟩ := h₂.band
    obtain ⟨n₁₂, hbands₁₂, hn₁₂⟩ := h₁₂.band
    obtain ⟨n₂₁, hbands₂₁, hn₂₁⟩ := h₂₁.band
    rw [hbands₁] at hbands₁₂ hn₁₂
    rw [hbands₂] at hbands₂₁ hn₂₁
    rw [hbands₁₂, hbands₂₁]
    exact setBandCount_comm hn₁ hn₂ hn₂₁ hn₁₂

end Commute

end Market

end ChiefLiquidity
