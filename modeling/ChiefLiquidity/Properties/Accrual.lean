import ChiefLiquidity.Market.Accrual
import ChiefLiquidity.Properties.Supply

/-!
# No retroactive interest

An instruction that changes a debt or an accounted reserve of its pool has first brought both borrow
indexes up to the current slot, at the utilizations it found. So, as long as no tokens are sent to
the vaults from elsewhere, the utilizations at which an interval is charged are those that were in
force while it passed.

## What retroactive would mean

The rate of an interval depends on the utilizations. If an instruction changed a debt first and
accrued afterwards, the whole interval since the last accrual would be charged at a utilization that
was not there. That cannot happen through the program.

It can happen past it. Tokens sent to a vault are a donation to the LPs, which raises the accounted
reserve of its side at once, while the next accrual charges the interval before at the lowered
utilization. The steps of a run are therefore asked to be undisturbed by such transfers, and by
nothing else: other pools, other users and burned LP tokens are allowed.

## Main definitions

* `Undisturbed` — a step in which nobody else sends tokens to the vaults of a pool

## Main results

* `Undisturbed.charges`, `reserves_in_force` — one step, and a run
* `no_retroactive_interest`
-/

namespace ChiefLiquidity

open Ledger Market

variable {rt : Runtime} {led led' : Ledger} {P : Pubkey} {p p' : Pool} {i : Instruction}
  {events : List Event}

/-! ### One step -/

/-- An instruction charges the pool it is about for the time that has passed, or leaves its
utilizations alone. -/
theorem Made.charges (h : Sound rt led) (hmade : Made rt led led' P i) (hp : led.HasPool rt P p)
    (hp' : led'.HasPool rt P p') : Charges (led.market rt P p) (led'.market rt P p') := by
  obtain ⟨S, hv⟩ := h.valid P p hp
  have hm := h.metered P p hp
  have hsame : ∀ {m m' : Market}, m' = m → Charges m m' := by
    rintro m _ rfl
    exact .kept ⟨fun _ => rfl, rfl, fun _ => rfl, fun _ => rfl⟩
  cases hmade with
  | initializePool hno => exact absurd hp (hno p)
  | addLiquidity hstep hmove =>
    obtain rfl := hstep.before.unique hp
    obtain rfl := hstep.after.unique hp'
    exact hmove.charges hv hm
  | removeLiquidity hstep hmove =>
    obtain rfl := hstep.before.unique hp
    obtain rfl := hstep.after.unique hp'
    exact hmove.charges hv hm
  | openLoan hstep hmove =>
    obtain rfl := hstep.before.unique hp
    obtain rfl := hstep.after.unique hp'
    exact hmove.charges hv hm
  | repayLoan hstep hmove =>
    obtain rfl := hstep.before.unique hp
    obtain rfl := hstep.after.unique hp'
    exact hmove.charges hv hm
  | claimProtocolFees hstep hmove =>
    obtain rfl := hstep.before.unique hp
    obtain rfl := hstep.after.unique hp'
    rcases hmove with heq | hmove
    · exact hsame heq
    · exact hmove.charges
  | claimLiquidatedRent hstep heq =>
    obtain rfl := hstep.before.unique hp
    obtain rfl := hstep.after.unique hp'
    exact hsame heq
  | swap hswap =>
    obtain rfl := hswap.step.before.unique hp
    obtain rfl := hswap.step.after.unique hp'
    obtain ⟨_, _, _, htrade⟩ := hswap.trade
    exact htrade.charges hv hm

/-- A step in which nobody else sends tokens to the vaults of the pool `P`. -/
inductive Undisturbed (rt : Runtime) (P : Pubkey) : Ledger → Ledger → Prop where
  | instruction {led led' : Ledger} {events : List Event} (i : Instruction)
      (hsig : ∀ k ∈ i.user, ¬ rt.IsPda k) : P ∈ i.pool →
      processInstruction rt i led = .ok (led', events) → Undisturbed rt P led led'
  | elsewhere {led led' : Ledger} : Step rt led led' →
      (∀ p x, led.HasPool rt P p → led'.balance (p.vault x) = led.balance (p.vault x)) →
      Undisturbed rt P led led'

theorem Undisturbed.step (h : Undisturbed rt P led led') : Step rt led led' := by
  cases h with
  | instruction i hsig _ hi => exact .instruction i hsig hi
  | elsewhere hstep => exact hstep

theorem Undisturbed.steps (h : Relation.ReflTransGen (Undisturbed rt P) led led') :
    Relation.ReflTransGen (Step rt) led led' :=
  Relation.ReflTransGen.mono (fun _ _ hs => hs.step) _ _ h

/-- **An undisturbed step charges** for the time that has passed, or leaves the utilizations
alone. -/
theorem Undisturbed.charges (h : Sound rt led) (hstep : Undisturbed rt P led led')
    (hp : led.HasPool rt P p) :
    ∃ p', led'.HasPool rt P p' ∧ Charges (led.market rt P p) (led'.market rt P p') := by
  obtain ⟨S, hv⟩ := h.valid P p hp
  obtain ⟨p', ks, hp', hmove, -⟩ := hstep.step.move h hp
  refine ⟨p', hp', ?_⟩
  cases hstep with
  | instruction i hsig hP hi => exact (processInstruction_made_at h hsig hP hi).charges h hp hp'
  | elsewhere hs hbal =>
    rcases hmove.charges_or_drift hv (h.metered P p hp) with hcharges | hdrift
    · exact hcharges
    · refine hdrift.charges fun x => ?_
      have hpool : p' = p := hdrift.pool
      rw [market_real, market_real, hpool, hbal p x hp]

/-- What an instruction that does not name the pool can do to it: send tokens to its vaults. -/
theorem other_instruction (h : Sound rt led) (hsig : ∀ k ∈ i.user, ¬ rt.IsPda k) (hP : P ∉ i.pool)
    (hi : processInstruction rt i led = .ok (led', events)) (hp : led.HasPool rt P p) :
    led'.HasPool rt P p ∧ (∀ x, led.balance (p.vault x) ≤ led'.balance (p.vault x)) ∧
      (i.pool = none → led'.balance = led.balance) := by
  obtain ⟨Q, hmade⟩ := processInstruction_made h hsig hi
  have hdrift : led'.HasPool rt P p ∧ ∀ x, led.balance (p.vault x) ≤ led'.balance (p.vault x) := by
    by_cases hQ : P = Q
    · -- only a claim of rent is about a pool it does not name
      subst hQ
      cases hmade with
      | claimLiquidatedRent hstep heq =>
        obtain rfl := hstep.before.unique hp
        exact ⟨hstep.after, fun x => (congrFun (congrArg Market.real heq) x).ge⟩
      | _ => exact absurd rfl hP
    · have htouched := hmade.effect.touched
      exact ⟨htouched.hasPool hQ hp, (htouched.drift hQ (h.filed.wired P p hp)).real⟩
  refine ⟨hdrift.1, hdrift.2, fun hnone => ?_⟩
  cases i with
  | claimLiquidatedRent accs => exact processClaimLiquidatedRent_balance hi
  | _ => cases hnone

/-! ### Runs -/

/-- The reserves of a pool that has not been charged for everything that has passed are those it
had when it was last up to date, or later. -/
theorem reserves_in_force {led₁ led₂ led₃ : Ledger} {p₁ p₃ : Pool} (h : Reachable rt led₁)
    (hp₁ : led₁.HasPool rt P p₁) (hpass : Undisturbed rt P led₁ led₂)
    (hslot : led₁.slot < led₂.slot) (hrun : Relation.ReflTransGen (Undisturbed rt P) led₂ led₃)
    (hp₃ : led₃.HasPool rt P p₃) (hdue : p₃.lastIndexUpdateSlot ≤ led₁.slot) :
    Kept (led₁.market rt P p₁) (led₃.market rt P p₃) := by
  induction hrun generalizing p₃ with
  | refl =>
    obtain ⟨p', hp', hcharges⟩ := hpass.charges h.sound hp₁
    obtain rfl := hp'.unique hp₃
    cases hcharges with
    | advanced _ hsame => exact absurd hsame hslot.ne'
    | kept hkept => exact hkept
  | @tail mid last hrun hstep ih =>
    have hreach₂ := h.step hpass.step
    have hreach := hreach₂.run (Undisturbed.steps hrun)
    obtain ⟨q, hq⟩ := h.hasPool hp₁ (.head hpass.step (Undisturbed.steps hrun))
    obtain ⟨p', hp', hcharges⟩ := hstep.charges hreach.sound hq
    obtain rfl := hp'.unique hp₃
    cases hcharges with
    | advanced hadv =>
      -- the pool would be up to date as of a slot after the interval began
      have hclock : p'.lastIndexUpdateSlot = mid.slot := hadv.clock
      have hle := hreach₂.slot_le (Undisturbed.steps hrun)
      omega
    | kept hkept =>
      have hclock : p'.lastIndexUpdateSlot = q.lastIndexUpdateSlot := hkept.clock
      exact (ih hq (hclock ▸ hdue)).trans hkept

/-- The two accounted reserves of a market as the program computes them. -/
theorem Sound.accounted_of (h : Sound rt led) (hp : led.HasPool rt P p) {r : Side → ℕ}
    (hr : ∀ x, (led.market rt P p).reserve x = r x) : led.accounted p = .ok (r .a, r .b) := by
  rw [h.accounted hp, hr, hr]

/-- **No retroactive interest.** An accepted instruction that changes a debt or an accounted reserve
of its pool has brought both borrow indexes up to the current slot, at the rates of the debts and
reserves before it. Now let time pass in a run in which nobody else sends tokens to the vaults. As
long as it has not been charged, debts and reserves stay what they were when it began to pass. And
every step after that leaves the indexes alone, or brings them up to its slot at the rates of these
debts and reserves. -/
theorem no_retroactive_interest (h : Reachable rt led) (hp : led.HasPool rt P p) :
    (∀ i events led', (∀ k ∈ i.user, ¬ rt.IsPda k) → P ∈ i.pool →
      processInstruction rt i led = .ok (led', events) →
        ∃ (p' : Pool) (r r' : Side → ℕ), led'.HasPool rt P p' ∧
          led.accounted p = .ok (r .a, r .b) ∧ led'.accounted p' = .ok (r' .a, r' .b) ∧
          ((∃ x, p'.debt x ≠ p.debt x ∨ r' x ≠ r x) → p.Advanced p' r led.slot)) ∧
    (∀ i events led', (∀ k ∈ i.user, ¬ rt.IsPda k) → P ∉ i.pool →
      processInstruction rt i led = .ok (led', events) →
        led'.HasPool rt P p ∧ (∀ x, led.balance (p.vault x) ≤ led'.balance (p.vault x)) ∧
          (i.pool = none → led'.balance = led.balance)) ∧
    ∀ led₁ p₁ led₂ led₃ p₃, Relation.ReflTransGen (Undisturbed rt P) led led₁ →
      led₁.HasPool rt P p₁ → Undisturbed rt P led₁ led₂ → led₁.slot < led₂.slot →
      Relation.ReflTransGen (Undisturbed rt P) led₂ led₃ → led₃.HasPool rt P p₃ →
      p₃.lastIndexUpdateSlot ≤ led₁.slot →
        ∃ r : Side → ℕ, led₁.accounted p₁ = .ok (r .a, r .b) ∧
          led₃.accounted p₃ = .ok (r .a, r .b) ∧ (∀ x, p₃.debt x = p₁.debt x) ∧
          p₃.lastIndexUpdateSlot = p₁.lastIndexUpdateSlot ∧
          ∀ led₄, Undisturbed rt P led₃ led₄ → ∃ p₄, led₄.HasPool rt P p₄ ∧
            (p₃.Advanced p₄ r led₃.slot ∨
              (∀ x, p₄.index x = p₃.index x) ∧
                p₄.lastIndexUpdateSlot = p₃.lastIndexUpdateSlot) := by
  have hsound := h.sound
  refine ⟨fun i events led' hsig hP hi => ?_,
    fun i events led' hsig hP hi => other_instruction hsound hsig hP hi hp,
    fun led₁ p₁ led₂ led₃ p₃ hrun hp₁ hpass hslot hrest hp₃ hdue => ?_⟩
  · have hstep : Step rt led led' := .instruction i hsig hi
    obtain ⟨p', hp'⟩ := h.hasPool hp (.single hstep)
    refine ⟨p', _, _, hp', hsound.accounted hp, (h.step hstep).sound.accounted hp',
      fun ⟨x, hx⟩ => ?_⟩
    cases (processInstruction_made_at hsound hsig hP hi).charges hsound hp hp' with
    | advanced hadv => exact hadv
    | kept hkept =>
      rcases hx with hx | hx
      · exact absurd (hkept.debt x) hx
      · exact absurd (hkept.reserve x) hx
  · have hreach₁ := h.run (Undisturbed.steps hrun)
    have hreach₃ := (hreach₁.step hpass.step).run (Undisturbed.steps hrest)
    have hkept := reserves_in_force hreach₁ hp₁ hpass hslot hrest hp₃ hdue
    refine ⟨_, hreach₁.sound.accounted hp₁, hreach₃.sound.accounted_of hp₃ hkept.reserve,
      hkept.debt, hkept.clock, fun led₄ hstep => ?_⟩
    obtain ⟨p₄, hp₄, hcharges⟩ := hstep.charges hreach₃.sound hp₃
    refine ⟨p₄, hp₄, ?_⟩
    cases hcharges with
    | advanced hadv => exact Or.inl (funext hkept.reserve ▸ hadv)
    | kept hkept' => exact Or.inr ⟨hkept'.index, hkept'.clock⟩

/-- A deposit changes the reserves, and charges the time before it at the reserves before it, which
are those the time began with. -/
theorem no_retroactive_interest_charged :
    ∃ (led' : Ledger) (events : List Event) (p' : Pool) (r : Side → ℕ),
      processInstruction sandbox Sandbox.deposit Sandbox.late = .ok (led', events) ∧
      led'.HasPool sandbox Sandbox.pool p' ∧
      (Sandbox.after Sandbox.busy).accounted
        (Sandbox.poolState (Sandbox.after Sandbox.busy)) = .ok (r .a, r .b) ∧
      (Sandbox.poolState Sandbox.late).Advanced p' r Sandbox.late.slot ∧
      p'.lastIndexUpdateSlot ≠ (Sandbox.poolState Sandbox.late).lastIndexUpdateSlot := by
  have hreach := Sandbox.after_reachable Sandbox.busy
  have hp : (Sandbox.after Sandbox.busy).HasPool sandbox Sandbox.pool _ :=
    Sandbox.hasPool (by decide +kernel)
  have hlate : Sandbox.late.HasPool sandbox Sandbox.pool (Sandbox.poolState Sandbox.late) :=
    Sandbox.hasPool (by decide +kernel)
  have hpass : Undisturbed sandbox Sandbox.pool (Sandbox.after Sandbox.busy) Sandbox.late :=
    .elsewhere (Sandbox.waited_step hreach) fun _ _ _ => Sandbox.waited_balance
  obtain ⟨⟨led', events⟩, hi, htest⟩ := Checked.exists_of_any
    (x := processInstruction sandbox Sandbox.deposit Sandbox.late)
    (fun o => Sandbox.isLive o.1 && decide ((Sandbox.poolState o.1).lastIndexUpdateSlot ≠
      (Sandbox.poolState Sandbox.late).lastIndexUpdateSlot)) (by decide +kernel)
  rw [Bool.and_eq_true, decide_eq_true_eq] at htest
  obtain ⟨hlive, hclock⟩ := htest
  have hsig : ∀ k ∈ Sandbox.deposit.user, ¬ sandbox.IsPda k := by
    rintro _ ⟨⟩
    exact Sandbox.not_isPda (by decide)
  obtain ⟨-, -, hall⟩ := no_retroactive_interest hreach hp
  have hdue : (Sandbox.poolState Sandbox.late).lastIndexUpdateSlot ≤
      (Sandbox.after Sandbox.busy).slot := by
    decide +kernel
  obtain ⟨r, hr, hr', -, -, hcharges⟩ := hall _ _ Sandbox.late _ _ .refl hp hpass Sandbox.lt_late
    .refl hlate hdue
  obtain ⟨p', hp', hadvanced | ⟨-, hkept⟩⟩ := hcharges led'
    (.instruction Sandbox.deposit hsig rfl hi)
  · obtain rfl := hp'.unique (Sandbox.hasPool hlive)
    exact ⟨led', events, _, r, hi, hp', hr, hadvanced, hclock⟩
  · obtain rfl := hp'.unique (Sandbox.hasPool hlive)
    exact absurd hkept hclock

end ChiefLiquidity
