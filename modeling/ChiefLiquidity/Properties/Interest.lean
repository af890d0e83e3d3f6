import ChiefLiquidity.Properties.Shares

/-!
# Interest

The accounting prologue of every instruction succeeds in every reachable state and at any slot. The
borrow indexes start at one, never fall and never pass their cap, and what is owed on an open loan
is always defined, starts at the principal and never falls.

## Never fails

The prologue divides by indexes and adds up products; a failure of it would lock a pool for good,
since every instruction on reserves begins with it. That it does not fail follows from bounds that
every move keeps, at any later slot, however long the pool has been left alone: an index that
reaches its cap stays there.

## Owed

What is owed is the principal, grown by the index since the snapshot and rounded up. As the index
never falls, the amount is at least the principal at the start and never falls either. It is defined
as long as the loan is open, and that is until the borrower repays it or a swap liquidates it.

## Main definitions

* `WhileOpen` — a step that leaves a loan open

## Main results

* `prologue_never_fails`
* `interest_only_grows`
-/

namespace ChiefLiquidity

open Ledger Market

variable {rt : Runtime} {led led' : Ledger} {P k : Pubkey} {p p' : Pool} {l : Loan}

/-! ### The accounting prologue -/

/-- **The accounting prologue never fails**, whatever the slot. -/
theorem prologue_never_fails (h : Reachable rt led) (hp : led.HasPool rt P p) (slot : ℕ) :
    (∃ swappable, p.swappable (led.balance p.vaultA) (led.balance p.vaultB) = .ok swappable) ∧
      (∃ accounted, p.accounted (led.balance p.vaultA) (led.balance p.vaultB) = .ok accounted) ∧
      ∃ q, p.bumpIndexes (led.balance p.vaultA) (led.balance p.vaultB) slot = .ok q := by
  have hsound := h.sound
  obtain ⟨S, hv⟩ := hsound.valid P p hp
  obtain ⟨hsw, hacc, hbump⟩ :=
    (hsound.metered P p hp).accrues hv (hsound.filed.wired P p hp).real_lt slot
  exact ⟨⟨_, hsw⟩, ⟨_, hacc⟩, hbump⟩

theorem prologue_never_fails_busy :
    ∃ q, (Sandbox.poolState (Sandbox.after Sandbox.busy)).bumpIndexes
      ((Sandbox.after Sandbox.busy).balance (Sandbox.poolState (Sandbox.after Sandbox.busy)).vaultA)
      ((Sandbox.after Sandbox.busy).balance (Sandbox.poolState (Sandbox.after Sandbox.busy)).vaultB)
      (2 ^ 64 - 1) = .ok q :=
  (prologue_never_fails (Sandbox.after_reachable Sandbox.busy)
    (Sandbox.hasPool (by decide +kernel)) (2 ^ 64 - 1)).2.2

/-! ### Indexes and debts -/

/-- A step that leaves the loan of the pool `P` at `k` open. -/
structure WhileOpen (rt : Runtime) (P k : Pubkey) (led led' : Ledger) : Prop where
  step : Step rt led led'
  isOpen : ∃ l, led'.openLoan rt P k = some l

theorem WhileOpen.steps (h : Relation.ReflTransGen (WhileOpen rt P k) led led') :
    Relation.ReflTransGen (Step rt) led led' :=
  Relation.ReflTransGen.mono (fun _ _ hs => hs.step) _ _ h

/-- The indexes never fall along a run. -/
theorem index_le_of_run (h : Reachable rt led) (hp : led.HasPool rt P p)
    (hrun : Relation.ReflTransGen (Step rt) led led') :
    ∃ p', led'.HasPool rt P p' ∧ ∀ x, p.index x ≤ p'.index x := by
  induction hrun with
  | refl => exact ⟨p, hp, fun _ => le_refl _⟩
  | tail hrun hstep ih =>
    obtain ⟨q, hq, hle⟩ := ih
    have hsound := (h.run hrun).sound
    obtain ⟨q', ks, hq', hmove, -⟩ := hstep.move hsound hq
    exact ⟨q', hq', fun x => (hle x).trans (hmove.le_index (hsound.metered P q hq) x)⟩

/-- An open loan is unchanged as long as it stays open. -/
theorem openLoan_eq_of_run (h : Reachable rt led) (hp : led.HasPool rt P p)
    (hl : led.openLoan rt P k = some l)
    (hrun : Relation.ReflTransGen (WhileOpen rt P k) led led') :
    led'.openLoan rt P k = some l := by
  induction hrun with
  | refl => exact hl
  | @tail mid last hrun hopen ih =>
    have hsteps := WhileOpen.steps hrun
    have hsound := (h.run hsteps).sound
    obtain ⟨q, hq, -⟩ := index_le_of_run h hp hsteps
    obtain ⟨q', ks, hq', hmove, -⟩ := hopen.step.move hsound hq
    obtain ⟨S, hv⟩ := hsound.valid P q hq
    obtain ⟨l', hl'⟩ := hopen.isOpen
    have heq : l' = l := hmove.loan_eq hv ih hl'
    exact heq ▸ hl'

/-- What is owed at an index, in closed form. -/
theorem owed_of_open (h : Reachable rt led) (hp : led.HasPool rt P p)
    (hl : led.openLoan rt P k = some l) {s : LoanSides} (hs : l.sides = s.toU8) {index : ℕ}
    (hle : p.index s.debtSide ≤ index) (hcap : index ≤ indexCapWad) :
    l.owed index = .ok (Rounding.up (l.debtPrincipal * index) l.borrowIndexSnapshotWad) :=
  (h.sound.metered P p hp).owed_ok hl hs hle hcap

/-- **Indexes and debts only grow.** A new pool has both indexes at one. Along every run they never
fall, and they never pass their cap. What is owed on an open loan is defined at every index from the
present one to the cap, is at least the principal, and is just that while the index is where it was
when the loan was opened. It never falls while the loan stays open. -/
theorem interest_only_grows (h : Reachable rt led) :
    (∀ led' p', Step rt led led' → (∀ p, ¬ led.HasPool rt P p) → led'.HasPool rt P p' →
      ∀ x, p'.index x = wad) ∧
    ∀ p, led.HasPool rt P p →
      (∀ led', Relation.ReflTransGen (Step rt) led led' → ∃ p', led'.HasPool rt P p' ∧
        ∀ x, p.index x ≤ p'.index x ∧ p'.index x ≤ indexCapWad) ∧
      (∀ k l, led.openLoan rt P k = some l → ∃ s : LoanSides, l.sides = s.toU8 ∧
        wad ≤ l.borrowIndexSnapshotWad ∧ l.borrowIndexSnapshotWad ≤ p.index s.debtSide ∧
        ∀ index, p.index s.debtSide ≤ index → index ≤ indexCapWad →
          ∃ owed, l.owed index = .ok owed ∧ l.debtPrincipal ≤ owed ∧
            (index = l.borrowIndexSnapshotWad → owed = l.debtPrincipal)) ∧
      (∀ led' p' k l, Step rt led led' → led'.HasPool rt P p' → led.openLoan rt P k = none →
        led'.openLoan rt P k = some l →
          ∃ s : LoanSides, l.sides = s.toU8 ∧ l.borrowIndexSnapshotWad = p'.index s.debtSide) ∧
      ∀ led' k l, led.openLoan rt P k = some l →
        Relation.ReflTransGen (WhileOpen rt P k) led led' →
          ∃ (p' : Pool) (s : LoanSides) (owed owed' : ℕ),
            led'.HasPool rt P p' ∧ led'.openLoan rt P k = some l ∧
            l.sides = s.toU8 ∧ l.owed (p.index s.debtSide) = .ok owed ∧
            l.owed (p'.index s.debtSide) = .ok owed' ∧ owed ≤ owed' := by
  have hsound := h.sound
  refine ⟨fun led' p' hstep hno hp' => (hstep.new hsound hp' hno).index, fun p hp =>
    ⟨fun led' hrun => ?_, fun k l hl => ?_, fun led' p' k l hstep hp' hnone hl => ?_,
      fun led' k l hl hrun => ?_⟩⟩
  · obtain ⟨p', hp', hle⟩ := index_le_of_run h hp hrun
    exact ⟨p', hp', fun x => ⟨hle x, ((h.run hrun).sound.metered P p' hp').le_cap x⟩⟩
  · obtain ⟨S, hv⟩ := hsound.valid P p hp
    obtain ⟨s, _, hs, -⟩ := hv.indexed.sound k l hl
    obtain ⟨hwad, hsnap⟩ := (hsound.metered P p hp).snapshot k l s hl hs
    refine ⟨s, hs, hwad, hsnap, fun index hle hcap => ?_⟩
    have howed := owed_of_open h hp hl hs hle hcap
    refine ⟨_, howed, principal_le_owedFromIndex howed, fun heq => ?_⟩
    rw [heq, Rounding.up_mul_self (wad_pos.trans_le hwad)]
  · obtain ⟨S, hv⟩ := hsound.valid P p hp
    obtain ⟨q, ks, hq, hmove, -⟩ := hstep.move hsound hp
    obtain rfl := hq.unique hp'
    rcases hmove.loan_of_mem hv hl with hold | ⟨_, s, paid, hb⟩
    · exact absurd (hnone.symm.trans hold) (by simp)
    · exact ⟨s, hb.sides, hb.snapshot_eq.trans (Pool.index_of_meters hb.meters _).symm⟩
  · have hsteps := WhileOpen.steps hrun
    obtain ⟨p', hp', hle⟩ := index_le_of_run h hp hsteps
    have hl' := openLoan_eq_of_run h hp hl hrun
    obtain ⟨S, hv⟩ := hsound.valid P p hp
    obtain ⟨s, _, hs, -⟩ := hv.indexed.sound k l hl
    have hmetered := hsound.metered P p hp
    have hpos := wad_pos.trans_le (hmetered.snapshot k l s hl hs).1
    have hcap' := ((h.run hsteps).sound.metered P p' hp').le_cap s.debtSide
    exact ⟨p', s, _, _, hp', hl', hs, owed_of_open h hp hl hs le_rfl (hmetered.le_cap _),
      owed_of_open h hp hl hs (hle _) hcap',
      Rounding.up_mono hpos (Nat.mul_le_mul_left _ (hle _))⟩

namespace Sandbox

/-- A pool that has lent to a loan for a long time. -/
def late : Ledger := waited 10_000_000 (after busy)

/-- A deposit, which charges the loan with that time. -/
def deposit : Instruction := .addLiquidity { accs with lpMint, userLp } 10_000 10_000 0

theorem late_reachable : Reachable sandbox late :=
  (after_reachable busy).step (waited_step (after_reachable busy))

theorem lt_late : (after busy).slot < late.slot := lt_waited_slot (by decide)

/-- What the loan with this nonce owes at the index of a side, when it is open. -/
def owes (led : Ledger) (nonce : ℕ) (x : Side) : Option ℕ := do
  let l ← led.openLoan sandbox pool (loan nonce)
  (l.owed ((poolState led).index x)).toOption

end Sandbox

/-- A deposit charges an open loan with ten million slots. -/
theorem interest_only_grows_charged :
    ∃ (led' : Ledger) (events : List Event) (p' : Pool) (l : Loan) (s : LoanSides)
      (owed owed' : ℕ),
      processInstruction sandbox Sandbox.deposit Sandbox.late = .ok (led', events) ∧
      led'.HasPool sandbox Sandbox.pool p' ∧
      (∀ x, (Sandbox.poolState Sandbox.late).index x ≤ p'.index x ∧ p'.index x ≤ indexCapWad) ∧
      led'.openLoan sandbox Sandbox.pool (Sandbox.loan 1) = some l ∧ l.sides = s.toU8 ∧
      l.owed ((Sandbox.poolState Sandbox.late).index s.debtSide) = .ok owed ∧
      l.owed (p'.index s.debtSide) = .ok owed' ∧ owed ≤ owed' ∧
      Sandbox.owes Sandbox.late 1 .a = some 100_001 ∧ Sandbox.owes led' 1 .a = some 100_015 := by
  obtain ⟨⟨led', events⟩, hi, htest⟩ := Checked.exists_of_any
    (x := processInstruction sandbox Sandbox.deposit Sandbox.late)
    (fun o => Sandbox.isLive o.1 && Sandbox.isOpen o.1 (Sandbox.loan 1) &&
      (Sandbox.owes o.1 1 .a = some 100_015 : Bool)) (by decide +kernel)
  simp only [Bool.and_eq_true, decide_eq_true_eq] at htest
  obtain ⟨⟨hlive, hopen⟩, howes⟩ := htest
  have hstep : Step sandbox Sandbox.late led' := .instruction Sandbox.deposit
    (by rintro _ ⟨⟩; exact Sandbox.not_isPda (by decide)) hi
  obtain ⟨l, hl⟩ := Option.isSome_iff_exists.mp
    (show Sandbox.isOpen Sandbox.late (Sandbox.loan 1) = true by decide +kernel)
  obtain ⟨-, hall⟩ := interest_only_grows Sandbox.late_reachable
  obtain ⟨hindex, -, -, hloan⟩ := hall _ (Sandbox.hasPool (by decide +kernel))
  obtain ⟨p₁, hp₁, hgrow⟩ := hindex led' (.single hstep)
  obtain ⟨p', s, owed, owed', hp', hl', hs, howed, howed', hle⟩ := hloan led' _ l hl
    (.single ⟨hstep, Option.isSome_iff_exists.mp hopen⟩)
  obtain rfl := hp₁.unique hp'
  exact ⟨led', events, p₁, l, s, owed, owed', hi, hp₁, hgrow, hl', hs, howed, howed', hle,
    by decide +kernel, howes⟩

end ChiefLiquidity
