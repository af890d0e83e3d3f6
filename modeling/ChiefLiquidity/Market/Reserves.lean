import ChiefLiquidity.Market.Trade

/-!
# What every move does to the reserves

The accounted reserve of a side is what the vault holds for the LPs plus what is lent out of it.
One lemma per move says what becomes of both reserves. Collateral that comes and goes, principal
that is lent and repaid, and fees that are set aside and claimed do not show in them.

## How the lemmas read

The two terms of a reserve change together: principal that leaves the vault enters the debt, and
what is posted or set aside enters the vault and is taken off again. The lemmas say what is left
when these have cancelled. A swap is the only move with two of them, one for each side, and the only
one that forgives a debt. `DriftMove.reserve_le` is an inequality, because tokens may be sent to a
vault from outside.

All subtractions are of naturals. That none of them is cut off at zero is where solvency is used.

## Main results

* `Deposit.reserve`, `Withdraw.reserve`, `Borrow.reserve`, `Repay.reserve`, `ClaimFees.reserve`,
  `Trade.reserve_in`, `Trade.reserve_out`, `DriftMove.reserve_le`
-/

namespace ChiefLiquidity.Market

variable {m m' : Market} {S : Finset Pubkey} {p p₁ : Pool} {k : Pubkey} {l : Loan}
  {s : LoanSides} {lp paid owed : ℕ} {share paidOut amount : Side → ℕ} {f : SwapFigures}
  {supplied : Finset Pubkey} {ks : List Pubkey} {x : Side}

/-- A reserve in terms of the balance and the totals it is made of. -/
theorem reserve_eq_of {r c g d : ℕ} (hreal : m.real x = r) (hcoll : m.pool.collateral x = c)
    (hfees : m.pool.fees x = g) (hdebt : m.pool.debt x = d) : m.reserve x = r - c - g + d := by
  rw [reserve, swappable, hreal, hcoll, hfees, hdebt]

theorem reserve_def (m : Market) (x : Side) :
    m.reserve x = m.real x - m.pool.collateral x - m.pool.fees x + m.pool.debt x := rfl

theorem swappable_le_reserve (m : Market) (x : Side) : m.swappable x ≤ m.reserve x :=
  Nat.le_add_right _ _

/-- **A deposit** adds its amounts. -/
theorem Deposit.reserve (hv : m.Valid S) (h : Deposit m p amount lp m') (x : Side) :
    m'.reserve x = m.reserve x + amount x := by
  have hbook : SameBook m m' := by
    apply h.accrued.sameBook <;> rw [h.after]
  have hfees : m'.pool.fees x = m.pool.fees x := by
    rw [h.after, Pool.stamp_fees, h.accrued.fees]
  have hreal : m'.real x = m.real x + amount x := by rw [h.after]
  have hsolv := hv.solvent x
  rw [reserve_eq_of hreal (hbook.collateral x) hfees (hbook.debt x), reserve_def]
  omega

/-- **A withdrawal** takes what it pays. -/
theorem Withdraw.reserve (h : Withdraw m p lp share paidOut m') (x : Side) :
    m'.reserve x + paidOut x = m.reserve x := by
  have hbook : SameBook m m' := by
    apply h.accrued.sameBook <;> rw [h.after]
  have hfees : m'.pool.fees x = m.pool.fees x := by
    rw [h.after, Pool.stamp_fees, h.accrued.fees]
  have hreal : m'.real x = m.real x - paidOut x := by rw [h.after]
  have hcov : share x ≤ m.real x - m.pool.collateral x - m.pool.fees x := h.covered x
  have hpaid := h.paid_eq x
  rw [reserve_eq_of hreal (hbook.collateral x) hfees (hbook.debt x), reserve_def]
  omega

/-- **A borrow** adds what it lends and takes what it pays: nothing, unless the principal was sent
back to the vault. -/
theorem Borrow.reserve (hv : m.Valid S) (h : Borrow m p k l s paid m') (x : Side) :
    m'.reserve x = m.reserve x + if x = s.debtSide then l.debtPrincipal - paid else 0 := by
  have hb := h.borrowed hv
  have hsolv := hv.solvent x
  have hcov : l.debtPrincipal ≤ m.real s.debtSide - m.pool.collateral s.debtSide -
    m.pool.fees s.debtSide := h.covered
  have hpaid := h.paid_eq
  rw [reserve_eq_of (hb.real x) (hb.collateral x) (hb.fees x) (hb.debt x), reserve_def]
  by_cases hd : x = s.debtSide
  · subst hd
    rw [if_pos rfl, if_pos rfl, if_pos rfl, if_neg (debtSide_ne_collateralSide s)]
    omega
  · rw [if_neg hd, if_neg hd, if_neg hd]
    split <;> omega

/-- What is owed on a loan is at least its principal. -/
theorem Repay.principal_le (h : Repay m p k l s owed paid m') : l.debtPrincipal ≤ owed := by
  obtain ⟨_, -, howed⟩ := h.interest
  exact principal_le_owedFromIndex howed

/-- **A repayment** adds the interest, and the collateral if it was sent back to the vault. -/
theorem Repay.reserve (hv : m.Valid S) (h : Repay m p k l s owed paid m') (x : Side) :
    m'.reserve x = m.reserve x + (if x = s.debtSide then owed - l.debtPrincipal else 0) +
      if x = s.collateralSide then l.collateralAmount - paid else 0 := by
  have hr := h.repaid hv
  have hsolv := hv.solvent x
  have hc := hr.collateral x
  have hd := hr.debt x
  have hpaid := h.paid_eq
  have howed := h.principal_le
  rw [reserve_eq_of (hr.real x) rfl (hr.fees x) rfl, reserve_def]
  by_cases hx : x = s.collateralSide
  · subst hx
    rw [if_pos rfl] at hc
    rw [if_neg (debtSide_ne_collateralSide s).symm] at hd
    rw [if_neg (debtSide_ne_collateralSide s).symm, if_neg (debtSide_ne_collateralSide s).symm,
      if_pos rfl, if_pos rfl]
    omega
  · rw [if_neg hx] at hc ⊢
    split at hd <;> rw [if_neg hx] <;> split <;> first | omega | contradiction

/-- **A fee claim** takes only what was set aside. -/
theorem ClaimFees.reserve (h : ClaimFees m m') (x : Side) : m'.reserve x = m.reserve x := by
  have hfees : m'.pool.fees x = 0 := by rw [h.after]; cases x <;> rfl
  have hreal : m'.real x = m.real x - m.pool.fees x := by rw [h.after]
  rw [reserve_eq_of hreal (h.sameBook.collateral x) hfees (h.sameBook.debt x), reserve_def]
  omega

/-- **A trade, on the input side**: the collateral it seizes becomes the LPs', and so does the
input but for the protocol's portion. -/
theorem Trade.reserve_in (hv : m.Valid S) (h : Trade m p p₁ f supplied ks m') :
    m'.reserve (inSide f.aToB) =
      m.inReserve (f.push p.swapFeeBps) ks.toFinset + (f.amountIn - f.portion) := by
  have ht := h.traded
  have hsolv := hv.solvent (inSide f.aToB)
  have hc := ht.collateral (inSide f.aToB)
  have hd := ht.debt (inSide f.aToB)
  have hreal := ht.real (inSide f.aToB)
  have hfees := ht.fees (inSide f.aToB)
  have hportion := h.portion_le hv
  have hne := inSide_ne_outSide f.aToB
  rw [if_pos rfl] at hc hfees
  rw [if_neg hne] at hd
  rw [if_pos rfl, if_neg hne] at hreal
  have hpush : (f.push p.swapFeeBps).aToB = f.aToB := rfl
  rw [reserve_eq_of hreal rfl hfees rfl, inReserve, hpush, reserve_def]
  omega

/-- **A trade, on the output side**: the LPs forgive the debt of the loans it liquidates, and pay
the output. -/
theorem Trade.reserve_out (hv : m.Valid S) (h : Trade m p p₁ f supplied ks m') :
    m'.reserve (outSide f.aToB) =
      m.outReserve (f.push p.swapFeeBps) ks.toFinset - f.paid := by
  have ht := h.traded
  have hc := ht.collateral (outSide f.aToB)
  have hd := ht.debt (outSide f.aToB)
  have hreal := ht.real (outSide f.aToB)
  have hfees := ht.fees (outSide f.aToB)
  have hsolv := hv.solvent (outSide f.aToB)
  have hle : f.amountOut ≤ m.real (outSide f.aToB) - m.pool.collateral (outSide f.aToB) -
    m.pool.fees (outSide f.aToB) := h.amountOut_le
  have hpaid := h.paid_eq
  have hforgiven := h.forgiven_le
  have hne := (inSide_ne_outSide f.aToB).symm
  rw [if_neg hne] at hc hfees
  rw [if_pos rfl] at hd
  rw [if_pos rfl, if_neg hne] at hreal
  have hpush : (f.push p.swapFeeBps).aToB = f.aToB := rfl
  rw [reserve_eq_of hreal rfl hfees rfl, outReserve, hpush, reserve_def]
  omega

/-- **Drift** can only add. -/
theorem DriftMove.reserve_le (h : DriftMove m m') (x : Side) : m.reserve x ≤ m'.reserve x := by
  have hreal := h.real x
  rw [reserve_def, reserve_def, h.pool]
  omega

end ChiefLiquidity.Market
