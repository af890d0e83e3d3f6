import ChiefLiquidity.Market.Value

/-!
# Live pools stay live

A pool that has LP tokens has something of both sides. A first deposit brings more than enough, a
partial withdrawal takes less than everything since it rounds down, and the output of a swap is less
than the reserve it is paid from, however many debts were forgiven out of it before.

The supply itself never falls to a small number: a first deposit mints at least the minimum, and a
withdrawal leaves nothing or at least that.

## Live and floored

Two different things are said of the supply. `Live` is about the reserves: if there are LP tokens,
there is something on both sides, whoever burned, sent or traded what. `Floored` is about the
supply: it is zero or at least the minimum. The first holds of all runs. The second fails when
somebody burns LP tokens past the program, because the token program lets every holder do that, and
it is then up to `RemoveLiquidity` to accept a supply it would not have left itself.

## The last withdrawal

A withdrawal of the whole supply takes everything that is not lent out. It is accepted only when
nothing is lent out, since the share is computed on the accounted reserves and paid from the vaults.

## Main definitions

* `Live` — the reserves of a pool with LP tokens
* `Floored` — the supply of a pool nobody burned from directly

## Main results

* `Move.live`, `New.live`
* `Deposit.floored`, `Withdraw.floored`, `New.floored`
* `Withdraw.share_of_all` — a withdrawal of the whole supply
-/

namespace ChiefLiquidity

/-- **A first deposit** takes what was offered, at least the minimum of both tokens, and mints at
least the minimum supply. -/
theorem deriveDeposit_first {maxA maxB accA accB a b lp : ℕ}
    (h : deriveDeposit maxA maxB accA accB 0 = .ok (a, b, lp)) :
    minFirstDeposit ≤ a ∧ minFirstDeposit ≤ b ∧ minimumLiquidity ≤ lp := by
  rw [deriveDeposit, if_pos rfl] at h
  simp only [Checked.bind_eq_ok, require_eq_ok, Checked.pure_eq_ok, Prod.mk.injEq,
    exists_const] at h
  obtain ⟨hmin, _, -, hlp, rfl, rfl, rfl⟩ := h
  exact ⟨by omega, by omega, hlp⟩

theorem checkSupplyFloor_eq_ok {supply lp : ℕ} {u : Unit} :
    checkSupplyFloor supply lp = .ok u ↔ lp ≤ supply ∧
      ¬ (minimumLiquidity ≤ supply ∧ supply - lp ≠ 0 ∧ supply - lp < minimumLiquidity) := by
  simp only [checkSupplyFloor, Checked.bind_eq_ok, checkedSub_eq_ok, require_eq_ok]
  constructor
  · rintro ⟨_, ⟨hle, rfl⟩, hfloor⟩
    exact ⟨hle, hfloor⟩
  · rintro ⟨hle, hfloor⟩
    exact ⟨_, ⟨hle, rfl⟩, hfloor⟩

namespace Market

variable {m m' : Market} {S : Finset Pubkey} {p p₁ : Pool} {k : Pubkey} {l : Loan}
  {s : LoanSides} {lp paid owed : ℕ} {share paidOut amount : Side → ℕ} {f : SwapFigures}
  {supplied : Finset Pubkey} {ks : List Pubkey}

/-! ### The reserves of a live pool -/

/-- A pool with LP tokens has something of both sides. -/
def Live (m : Market) : Prop := 0 < m.supply → ∀ x, 0 < m.reserve x

theorem Live.of_le (hlive : m.Live) (hreserve : ∀ x, m.reserve x ≤ m'.reserve x)
    (hsupply : m'.supply ≤ m.supply) : m'.Live := fun hS x =>
  (hlive (hS.trans_le hsupply) x).trans_le (hreserve x)

theorem Deposit.live (hv : m.Valid S) (h : Deposit m p amount lp m') (hlive : m.Live) :
    m'.Live := by
  intro _ x
  rw [h.reserve hv]
  rcases Nat.eq_zero_or_pos m.supply with hzero | hpos
  · obtain ⟨maxA, maxB, hcharged⟩ := h.charged
    rw [hzero] at hcharged
    obtain ⟨hA, hB, -⟩ := deriveDeposit_first hcharged
    have hmin : 0 < minFirstDeposit := by decide
    cases x <;> omega
  · exact Nat.add_pos_left (hlive hpos x) _

/-- A withdrawal that leaves LP tokens leaves something of both sides. -/
theorem Withdraw.live (h : Withdraw m p lp share paidOut m') (hlive : m.Live) : m'.Live := by
  intro hS x
  have hsupply : m'.supply = m.supply - lp := by rw [h.after]
  have hpos : 0 < m.supply := by omega
  have hlt : paidOut x < m.reserve x := by
    refine (h.paid_le x).trans_lt (Nat.div_lt_of_lt_mul ?_)
    exact Nat.mul_lt_mul_of_pos_right (by omega) (hlive hpos x)
  have hreserve := h.reserve x
  omega

/-- A swap leaves something of both sides, live or not. -/
theorem Trade.live (hv : m.Valid S) (h : Trade m p p₁ f supplied ks m') (x : Side) :
    0 < m'.reserve x := by
  have hin : 0 < m'.reserve (inSide f.aToB) := by
    rw [h.reserve_in hv]
    exact Nat.add_pos_left (h.inReserve_pos _) _
  have hout : 0 < m'.reserve (outSide f.aToB) := by
    have hlt := h.amountOut_lt
    have hpaid := h.paid_eq
    rw [h.reserve_out hv]
    omega
  generalize f.aToB = aToB at hin hout
  cases aToB <;> cases x <;> assumption

/-- **Every move keeps a live pool live.** -/
theorem Move.live (hv : m.Valid S) (h : Move m ks m') (hlive : m.Live) : m'.Live := by
  cases h with
  | deposit h => exact h.live hv hlive
  | withdraw h => exact h.live hlive
  | borrow h =>
    refine hlive.of_le (fun x => ?_) ?_
    · rw [h.reserve hv]
      exact Nat.le_add_right _ _
    · obtain ⟨_, _, -, -, -, hafter⟩ := h.after
      rw [hafter]
  | repay h =>
    refine hlive.of_le (fun x => ?_) ?_
    · rw [h.reserve hv, Nat.add_assoc]
      exact Nat.le_add_right _ _
    · obtain ⟨_, _, -, -, hafter⟩ := h.after
      rw [hafter]
  | claimFees h =>
    refine hlive.of_le (fun x => (h.reserve x).ge) ?_
    rw [h.after]
  | trade h => exact fun _ => h.live hv
  | drift h => exact hlive.of_le h.reserve_le h.supply

theorem New.live (h : m.New) : m.Live := fun hS => by
  rw [h.supply] at hS
  exact absurd hS (lt_irrefl 0)

/-! ### The supply -/

/-- A supply that is zero or at least the minimum. -/
def Floored (m : Market) : Prop := m.supply = 0 ∨ minimumLiquidity ≤ m.supply

theorem Floored.of_eq (hfloor : m.Floored) (h : m'.supply = m.supply) : m'.Floored := by
  rw [Floored, h]
  exact hfloor

theorem Deposit.floored (h : Deposit m p amount lp m') (hfloor : m.Floored) : m'.Floored := by
  have hsupply : m'.supply = m.supply + lp := by rw [h.after]
  rw [Floored, hsupply]
  rcases hfloor with hzero | hmin
  · obtain ⟨maxA, maxB, hcharged⟩ := h.charged
    rw [hzero] at hcharged
    obtain ⟨-, -, hlp⟩ := deriveDeposit_first hcharged
    omega
  · exact Or.inr (Nat.le_add_right_of_le hmin)

theorem Withdraw.floored (h : Withdraw m p lp share paidOut m') (hfloor : m.Floored) :
    m'.Floored := by
  have hsupply : m'.supply = m.supply - lp := by rw [h.after]
  obtain ⟨-, hcheck⟩ := checkSupplyFloor_eq_ok.mp h.floor
  have hlp := h.lp_le
  rw [Floored] at hfloor
  rw [Floored, hsupply]
  omega

theorem New.floored (h : m.New) : m.Floored := Or.inl h.supply

/-! ### The last withdrawal -/

/-- A market without debt is one without loans, since every loan has a principal. -/
theorem Valid.no_loans_iff (hv : m.Valid S) :
    (∀ k, m.loans k = none) ↔ ∀ x, m.pool.debt x = 0 := by
  constructor
  · intro hnone x
    obtain ⟨s, rfl⟩ : ∃ s : LoanSides, s.debtSide = x := by
      cases x
      · exact ⟨.collateralB, rfl⟩
      · exact ⟨.collateralA, rfl⟩
    rw [hv.booked.debt]
    by_contra hne
    obtain ⟨k, l, hl, -⟩ := (KeyedSum.total_pos_iff hv.booked.domain).mp (Nat.pos_of_ne_zero hne)
    rw [hnone] at hl
    cases hl
  · intro hzero k
    rw [Option.eq_none_iff_forall_ne_some]
    intro l hl
    obtain ⟨s, _, hs, -, htrigger, -⟩ := hv.indexed.sound k l hl
    obtain ⟨-, hpos, -⟩ := recomputeTrigger_eq_ok htrigger
    have hle := KeyedSum.le_total (w := Loan.principalFor s) hv.booked.domain hl
    rw [← hv.booked.debt, hzero, Loan.principalFor, if_pos hs] at hle
    omega

/-- Without loans the reserves are what is in the vaults but for the fees. -/
theorem Valid.reserve_of_no_loans (hv : m.Valid S) (h : ∀ k, m.loans k = none) (x : Side) :
    m.reserve x = m.swappable x ∧ m.pool.collateral x = 0 := by
  have hdebt := hv.no_loans_iff.mp h x
  refine ⟨by rw [reserve, hdebt, Nat.add_zero], ?_⟩
  obtain ⟨s, rfl⟩ : ∃ s : LoanSides, s.collateralSide = x := by
    cases x
    · exact ⟨.collateralA, rfl⟩
    · exact ⟨.collateralB, rfl⟩
  rw [hv.booked.collateral]
  by_contra hne
  obtain ⟨k, l, hl, -⟩ := (KeyedSum.total_pos_iff hv.booked.domain).mp (Nat.pos_of_ne_zero hne)
  rw [h] at hl
  cases hl

/-- **Withdrawing everything** takes all of both reserves, so nothing of them may be lent. -/
theorem Withdraw.share_of_all (h : Withdraw m p m.supply share paidOut m') (x : Side) :
    share x = m.reserve x ∧ m.pool.debt x = 0 := by
  obtain ⟨hS, ha, hb⟩ := withdrawalAmounts_eq_ok h.shares
  have hshare : share x = m.reserve x := by
    cases x
    · rw [ha, Nat.mul_div_cancel_left _ (Nat.pos_of_ne_zero hS)]
    · rw [hb, Nat.mul_div_cancel_left _ (Nat.pos_of_ne_zero hS)]
  have hcovered := h.covered x
  rw [hshare, Market.reserve] at hcovered
  exact ⟨hshare, by omega⟩

end Market

end ChiefLiquidity
