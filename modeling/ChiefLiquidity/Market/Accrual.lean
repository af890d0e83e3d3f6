import ChiefLiquidity.Market.Interest

/-!
# What is charged for the time that has passed

A move either brings both borrow indexes up to the current slot, at the rates of the utilizations it
finds, or leaves the debts and the accounted reserves as they are. So the utilizations do not change
while interest on them is outstanding.

## Why both cases are needed

The instructions that change a debt or a reserve start with the accounting prologue, so they charge
first and change afterwards. A fee claim and the moves of other pools run no prologue, and change no
debt and no accounted reserve either: what a claim takes out of the vault was not counted. The one
thing that changes a reserve without charging is a transfer into a vault from elsewhere, which is
why the results on runs exclude it by name.

`Pool.Advanced` names the reserves the rates were taken at. In a run these are the reserves of the
state before the move, and, since nothing but a charging move changes them, of every state since the
last charge.

## Main definitions

* `Pool.Advanced` — the indexes of one pool are those of another, brought up to a slot
* `Market.Kept` — debts, reserves and indexes are as they were
* `Market.Charges` — one or the other

## Main results

* `Move.charges_or_drift` — every move charges, unless nothing touched the pool
-/

namespace ChiefLiquidity

/-- The borrow indexes of `p'` are those of `p` brought up to `slot`, each at the rate of its side's
debt against these accounted reserves. -/
structure Pool.Advanced (p p' : Pool) (accounted : Side → ℕ) (slot : ℕ) : Prop where
  clock : p'.lastIndexUpdateSlot = slot
  index : ∀ x, ∃ rate, p.rateFor (p.debt x) (accounted x) = .ok rate ∧
    p'.index x = bumpIndexWad (p.index x) rate (slot - p.lastIndexUpdateSlot)

theorem bumpIndexWad_zero_slots (index rate : ℕ) : bumpIndexWad index rate 0 = index :=
  if_pos (Or.inr (Or.inl rfl))

namespace Market

variable {m m' : Market} {S : Finset Pubkey} {p p₁ : Pool} {k : Pubkey} {l : Loan}
  {s : LoanSides} {lp paid owed : ℕ} {share paidOut amount : Side → ℕ} {f : SwapFigures}
  {supplied : Finset Pubkey} {ks : List Pubkey} {x : Side}

/-- The debts, the accounted reserves and the indexes are as they were. -/
structure Kept (m m' : Market) : Prop where
  index : ∀ x, m'.pool.index x = m.pool.index x
  clock : m'.pool.lastIndexUpdateSlot = m.pool.lastIndexUpdateSlot
  debt : ∀ x, m'.pool.debt x = m.pool.debt x
  reserve : ∀ x, m'.reserve x = m.reserve x

theorem Kept.trans {m'' : Market} (h : Kept m m') (h' : Kept m' m'') : Kept m m'' where
  index x := (h'.index x).trans (h.index x)
  clock := h'.clock.trans h.clock
  debt x := (h'.debt x).trans (h.debt x)
  reserve x := (h'.reserve x).trans (h.reserve x)

/-- Either the indexes were brought up to now, or nothing was changed that interest depends on. -/
inductive Charges (m m' : Market) : Prop where
  | advanced : m.pool.Advanced m'.pool m.reserve m.slot → m'.slot = m.slot → Charges m m'
  | kept : Kept m m' → Charges m m'

/-- Accrual brings the indexes up to now. -/
theorem Accrued.advanced (hv : m.Valid S) (hm : m.Metered) (h : m.Accrued p) :
    m.pool.Advanced p m.reserve m.slot := by
  refine ⟨h.clock_eq hm, fun x => ?_⟩
  obtain ⟨hle, rfl⟩ | ⟨-, -, hbump⟩ := h.bumped
  · obtain ⟨rate, hrate⟩ := hv.terms.rateFor_ok (m.pool.debt x) (m.reserve x)
    refine ⟨rate, hrate, ?_⟩
    rw [Nat.sub_eq_zero_of_le hle, bumpIndexWad_zero_slots]
  · exact hbump x

/-- A move whose indexes are those of its accrual has charged for the time that has passed. -/
theorem Accrued.charges (hv : m.Valid S) (hm : m.Metered) (h : m.Accrued p)
    (hindex : ∀ x, m'.pool.index x = p.index x)
    (hclock : m'.pool.lastIndexUpdateSlot = p.lastIndexUpdateSlot) (hslot : m'.slot = m.slot) :
    Charges m m' := by
  have hadv := h.advanced hv hm
  refine .advanced ⟨hclock.trans hadv.clock, fun x => ?_⟩ hslot
  rw [hindex]
  exact hadv.index x

theorem Accrued.charges_of_meters (hv : m.Valid S) (hm : m.Metered) (h : m.Accrued p)
    (hmeters : m'.pool.meters = p.meters) (hslot : m'.slot = m.slot) : Charges m m' :=
  h.charges hv hm (Pool.index_of_meters hmeters) (congrArg Pool.Meters.indexSlot hmeters) hslot

section Moves

variable (hv : m.Valid S) (hm : m.Metered)

include hv hm

theorem Deposit.charges (h : Deposit m p amount lp m') : Charges m m' :=
  h.accrued.charges_of_meters hv hm h.meters (by rw [h.after])

theorem Withdraw.charges (h : Withdraw m p lp share paidOut m') : Charges m m' :=
  h.accrued.charges_of_meters hv hm h.meters (by rw [h.after])

theorem Borrow.charges (h : Borrow m p k l s paid m') : Charges m m' := by
  obtain ⟨_, _, -, -, -, hafter⟩ := h.after
  exact h.accrued.charges_of_meters hv hm h.meters (by rw [hafter])

theorem Repay.charges (h : Repay m p k l s owed paid m') : Charges m m' := by
  obtain ⟨_, _, -, -, hafter⟩ := h.after
  exact h.accrued.charges_of_meters hv hm h.meters (by rw [hafter])

theorem Trade.charges (h : Trade m p p₁ f supplied ks m') : Charges m m' :=
  h.accrued.charges hv hm h.indexes.1 h.indexes.2 h.slot_eq

end Moves

/-- Fees are claimed without accrual, and no utilization shows it: what leaves the vault had been
set aside. -/
theorem ClaimFees.charges (h : ClaimFees m m') : Charges m m' :=
  .kept ⟨Pool.index_of_meters h.meters, congrArg Pool.Meters.indexSlot h.meters,
    h.sameBook.debt, h.reserve⟩

/-- Nothing that touches the pool changes anything, as long as the balances stay. -/
theorem DriftMove.charges (h : DriftMove m m') (hreal : ∀ x, m'.real x = m.real x) :
    Charges m m' :=
  .kept ⟨fun x => by rw [h.pool], by rw [h.pool], h.sameBook.debt, fun x => by
    rw [reserve_def, reserve_def, hreal, h.pool]⟩

/-- **Every move charges for the time that has passed, or leaves the utilizations alone**, but for
tokens that arrive from outside. -/
theorem Move.charges_or_drift (hv : m.Valid S) (hm : m.Metered) (h : Move m ks m') :
    Charges m m' ∨ DriftMove m m' := by
  cases h with
  | deposit h => exact Or.inl (h.charges hv hm)
  | withdraw h => exact Or.inl (h.charges hv hm)
  | borrow h => exact Or.inl (h.charges hv hm)
  | repay h => exact Or.inl (h.charges hv hm)
  | claimFees h => exact Or.inl h.charges
  | trade h => exact Or.inl (h.charges hv hm)
  | drift h => exact Or.inr h

end Market

end ChiefLiquidity
