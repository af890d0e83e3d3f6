import ChiefLiquidity.Properties.Interest

/-!
# Live pools

A pool with LP tokens has something of both sides, whatever has been traded, liquidated, withdrawn,
burned or sent to it. And as long as nobody burns LP tokens past the program, a pool has either no
LP tokens or at least the minimum.

## The branches that are never taken

Two processors have a branch for reserves of zero. In a live pool it is not taken, and a pool with
LP tokens is live in every reachable state; `AvoidsZeroReserves` says so of the processors
themselves, for every ledger that a run leads to.

The minimum supply is promised for runs in which nobody burns LP tokens past the program. Such burns
belong to the holder and cannot be prevented; after one the supply may be any number, but the
reserves are still there.

## Main definitions

* `BurnFree` — a step in which no LP tokens are burned past the program
* `AvoidsZeroReserves` — a computation that does not end in a zero-reserve branch

## Main results

* `live_pools_stay_live`
-/

namespace ChiefLiquidity

open Ledger Market

variable {rt : Runtime} {genesis led led' : Ledger} {P k : Pubkey} {p p' : Pool}

/-- A step in which no mint at an address of the program loses supply outside the program. -/
inductive BurnFree (rt : Runtime) : Ledger → Ledger → Prop where
  | instruction {led led' events} (i : Instruction) (hsig : ∀ k ∈ i.user, ¬ rt.IsPda k) :
      processInstruction rt i led = .ok (led', events) → BurnFree rt led led'
  | outside {led led' : Ledger} : Outside rt led led' →
      (∀ k, rt.IsPda k → led.mintSupply k ≤ led'.mintSupply k) → BurnFree rt led led'

theorem BurnFree.step (h : BurnFree rt led led') : Step rt led led' := by
  cases h with
  | instruction i hsig hi => exact .instruction i hsig hi
  | outside hout => exact .outside hout

theorem BurnFree.steps (h : Relation.ReflTransGen (BurnFree rt) led led') :
    Relation.ReflTransGen (Step rt) led led' :=
  Relation.ReflTransGen.mono (fun _ _ hs => hs.step) _ _ h

/-- The instruction about a pool keeps its supply off the numbers below the minimum. -/
theorem Made.floored {i : Instruction} (h : Made rt led led' P i) (hp : led.HasPool rt P p)
    (hp' : led'.HasPool rt P p') (hfloor : (led.market rt P p).Floored) :
    (led'.market rt P p').Floored := by
  cases h with
  | initializePool hno => exact absurd hp (hno p)
  | addLiquidity hstep hmove =>
    obtain rfl := hstep.before.unique hp
    obtain rfl := hstep.after.unique hp'
    exact hmove.floored hfloor
  | removeLiquidity hstep hmove =>
    obtain rfl := hstep.before.unique hp
    obtain rfl := hstep.after.unique hp'
    exact hmove.floored hfloor
  | openLoan hstep hmove =>
    obtain rfl := hstep.before.unique hp
    obtain rfl := hstep.after.unique hp'
    obtain ⟨_, _, -, -, -, hafter⟩ := hmove.after
    exact hfloor.of_eq (by rw [hafter])
  | repayLoan hstep hmove =>
    obtain rfl := hstep.before.unique hp
    obtain rfl := hstep.after.unique hp'
    obtain ⟨_, _, -, -, hafter⟩ := hmove.after
    exact hfloor.of_eq (by rw [hafter])
  | claimProtocolFees hstep hmove =>
    obtain rfl := hstep.before.unique hp
    obtain rfl := hstep.after.unique hp'
    rcases hmove with heq | hmove
    · exact hfloor.of_eq (by rw [heq])
    · exact hfloor.of_eq (by rw [hmove.after])
  | claimLiquidatedRent hstep heq =>
    obtain rfl := hstep.before.unique hp
    obtain rfl := hstep.after.unique hp'
    exact hfloor.of_eq (by rw [heq])
  | swap hswap =>
    obtain rfl := hswap.step.before.unique hp
    obtain rfl := hswap.step.after.unique hp'
    obtain ⟨_, _, _, htrade⟩ := hswap.trade
    exact hfloor.of_eq htrade.supply_eq

/-- **One step without burns** keeps the supplies off the numbers below the minimum. -/
theorem BurnFree.floored (h : Sound rt led) (hstep : BurnFree rt led led')
    (hfloor : ∀ P p, led.HasPool rt P p → (led.market rt P p).Floored)
    (hp' : led'.HasPool rt P p') : (led'.market rt P p').Floored := by
  by_cases hold : ∃ p, led.HasPool rt P p
  · obtain ⟨p, hp⟩ := hold
    have hw := h.filed.wired P p hp
    cases hstep with
    | outside hout hburn =>
      obtain rfl := (hout.hasPool h.filed hp).unique hp'
      exact (hfloor P p hp).of_eq
        ((hout.drift h.filed hw).supply.antisymm (hburn _ hw.lpMint_pda))
    | instruction i hsig hi =>
      obtain ⟨Q, hmade⟩ := processInstruction_made h hsig hi
      by_cases hQ : P = Q
      · subst hQ
        exact hmade.floored hp hp' (hfloor P p hp)
      · have htouched := hmade.effect.touched
        obtain rfl := (htouched.hasPool hQ hp).unique hp'
        exact (hfloor P p hp).of_eq (htouched.mintSupply hQ hw)
  · exact (hstep.step.new h hp' fun p hp => hold ⟨p, hp⟩).floored

/-- Along a run without burns no supply is positive and below the minimum. -/
theorem floored_of_run (hgen : Genesis rt genesis)
    (hrun : Relation.ReflTransGen (BurnFree rt) genesis led) :
    ∀ P p, led.HasPool rt P p → (led.market rt P p).Floored := by
  induction hrun with
  | refl => exact fun P p hp => absurd hp (hgen.no_pool P p)
  | tail hrun hstep ih =>
    intro P p hp
    exact hstep.floored (hgen.sound.run (BurnFree.steps hrun)) ih hp

/-! ### The zero-reserve branches -/

section Branches

open Checked

/-- A computation that does not end in a zero-reserve branch. -/
abbrev AvoidsZeroReserves {α : Type} (x : Result α) : Prop :=
  FailsOnly (· ≠ ProgramError.custom .zeroReserves) x

variable {accs : PoolAccounts} {q : Pool} {n a b maxA maxB supply decimals amount : ℕ} {x : Side}

theorem require_avoids {c : Prop} [Decidable c] {e : LiquidityError} (h : e ≠ .zeroReserves) :
    AvoidsZeroReserves (require c e) := .ensure fun heq => h (ProgramError.custom.inj heq)

theorem fits_avoids {w : ℕ} : AvoidsZeroReserves (fits w n) := .narrow (by decide)

theorem checkedSub_avoids : AvoidsZeroReserves (checkedSub a b) := .sub (by decide)

theorem mulDiv_avoids : AvoidsZeroReserves (mulDiv a b n) :=
  .bind (require_avoids (by decide)) fun _ _ => .bind fits_avoids fun _ _ => fits_avoids

theorem mulDivCeil_avoids : AvoidsZeroReserves (mulDivCeil a b n) :=
  .bind (require_avoids (by decide)) fun _ _ => .bind fits_avoids fun _ _ => fits_avoids

theorem readMintDecimals_avoids : AvoidsZeroReserves (led.readMintDecimals k) := by
  rw [readMintDecimals]
  split
  · exact .ok
  · exact .error (by decide)

theorem readMintSupply_avoids : AvoidsZeroReserves (led.readMintSupply k) := by
  rw [readMintSupply]
  split
  · exact .ok
  · exact .error (by decide)

theorem readTokenAmount_avoids : AvoidsZeroReserves (led.readTokenAmount k) := by
  rw [readTokenAmount]
  split
  · exact .ok
  · exact .error (by decide)

theorem validate_avoids : AvoidsZeroReserves (accs.validate rt led) :=
  .bind (require_avoids (by decide)) fun _ _ => .bind (require_avoids (by decide)) fun _ _ =>
    require_avoids (by decide)

theorem loadPool_avoids : AvoidsZeroReserves (accs.loadPool led) := by
  refine .bind ?_ fun _ _ => .bind (require_avoids (by decide)) fun _ _ =>
    .bind (require_avoids (by decide)) fun _ _ => .pure
  rw [Ledger.loadPool]
  split
  · exact .ok
  · exact .error (by decide)

theorem readDecimals_avoids : AvoidsZeroReserves (accs.readDecimals led) :=
  .bind readMintDecimals_avoids fun _ _ => .bind readMintDecimals_avoids fun _ _ => .pure

theorem readVaults_avoids : AvoidsZeroReserves (accs.readVaults led) :=
  .bind readTokenAmount_avoids fun _ _ => .bind readTokenAmount_avoids fun _ _ => .pure

/-- The token program has errors of its own. -/
theorem tokens_avoid {program : Pubkey} {call : TokenCall} :
    AvoidsZeroReserves (rt.tokens.run program call led) := by
  rintro e he rfl
  exact rt.tokens.foreign he

/-- The deposit formula has no zero-reserve branch where there is something of both sides. -/
theorem deriveDeposit_avoids (ha : a ≠ 0) (hb : b ≠ 0) :
    AvoidsZeroReserves (deriveDeposit maxA maxB a b supply) := by
  refine .ite (fun _ => ?_) fun _ => ?_
  · exact .bind (require_avoids (by decide)) fun _ _ => .bind fits_avoids fun _ _ =>
      .bind (require_avoids (by decide)) fun _ _ => .pure
  · rw [require_of ⟨ha, hb⟩, Checked.ok_bind]
    refine .bind ?_ fun _ _ => .bind (require_avoids (by decide)) fun _ _ =>
      .bind mulDiv_avoids fun _ _ => .bind mulDiv_avoids fun _ _ =>
      .bind (require_avoids (by decide)) fun _ _ => .bind mulDivCeil_avoids fun _ _ =>
      .bind mulDivCeil_avoids fun _ _ => .pure
    exact .bind mulDiv_avoids fun _ _ =>
      .ite (fun _ => .pure) fun _ => .bind mulDiv_avoids fun _ _ => .pure

theorem withdrawalAmounts_avoids : AvoidsZeroReserves (withdrawalAmounts amount a b supply) :=
  .bind mulDiv_avoids fun _ _ => .bind mulDiv_avoids fun _ _ =>
    .bind (require_avoids (by decide)) fun _ _ => .pure

/-- What an instruction on a live pool goes on with after its opening: the accrued pool, and
reserves that are not zero. -/
theorem opening_live (h : Reachable rt led) {u : Unit} (hvalid : accs.validate rt led = .ok u)
    (hload : accs.loadPool led = .ok p) (hreads : accs.readVaults led = .ok (a, b))
    (hS : 0 < led.mintSupply p.lpMint) :
    ∃ q accA accB sA sB, p.bumpIndexes a b led.slot = .ok q ∧ q.accounted a b = .ok (accA, accB) ∧
      q.swappable a b = .ok (sA, sB) ∧ accA ≠ 0 ∧ accB ≠ 0 := by
  obtain ⟨hp, hacc⟩ := hasPool_of_load hvalid hload
  obtain ⟨rfl, rfl⟩ := real_of_read rt accs.pool hacc hreads
  obtain ⟨S, hv⟩ := h.sound.valid _ p hp
  have hw := h.sound.filed.wired _ p hp
  obtain ⟨hsw, haccounted, q, hbump⟩ := (h.sound.metered _ p hp).accrues hv hw.real_lt led.slot
  have haccrued : (led.market rt accs.pool p).Accrued q := ⟨hbump⟩
  have hlive := h.sound.live _ p hp hS
  exact ⟨q, _, _, _, _, hbump, (haccrued.accounted _ _).trans haccounted,
    (haccrued.swappable _ _).trans hsw, (hlive .a).ne', (hlive .b).ne'⟩

theorem processAddLiquidity_avoids {accs : LiquidityAccounts} {minLp : ℕ} (h : Reachable rt led)
    (hp : led.HasPool rt accs.pool p) (hS : 0 < led.mintSupply p.lpMint) :
    AvoidsZeroReserves (processAddLiquidity rt accs maxA maxB minLp led) := by
  refine .bind (require_avoids (by decide)) fun _ _ => .bind validate_avoids fun _ hvalid =>
    .bind (require_avoids (by decide)) fun _ _ => .bind loadPool_avoids fun p₀ hload =>
    .bind (require_avoids (by decide)) fun _ _ => .bind readDecimals_avoids fun _ _ =>
    .bind readMintDecimals_avoids fun _ _ => .bind readMintSupply_avoids fun _ _ =>
    .bind readVaults_avoids fun ⟨realA, realB⟩ hreads => ?_
  obtain rfl := (hasPool_of_load hvalid hload).1.unique hp
  obtain ⟨q, accA, accB, _, _, hbump, hacc, -, hA, hB⟩ := opening_live h hvalid hload hreads hS
  simp only [hbump, hacc, Checked.ok_bind]
  exact .bind (deriveDeposit_avoids hA hB) fun _ _ => .bind fits_avoids fun _ _ =>
    .bind fits_avoids fun _ _ => .bind fits_avoids fun _ _ =>
    .bind (require_avoids (by decide)) fun _ _ => .bind tokens_avoid fun _ _ =>
    .bind tokens_avoid fun _ _ => .bind tokens_avoid fun _ _ => .pure

theorem processRemoveLiquidity_avoids {accs : LiquidityAccounts} {lp minA minB : ℕ}
    (h : Reachable rt led) (hp : led.HasPool rt accs.pool p) (hS : 0 < led.mintSupply p.lpMint) :
    AvoidsZeroReserves (processRemoveLiquidity rt accs lp minA minB led) := by
  refine .bind (require_avoids (by decide)) fun _ _ => .bind validate_avoids fun _ hvalid =>
    .bind (require_avoids (by decide)) fun _ _ => .bind loadPool_avoids fun p₀ hload =>
    .bind (require_avoids (by decide)) fun _ hlp => .bind readDecimals_avoids fun _ _ =>
    .bind readMintDecimals_avoids fun _ _ => .bind readMintSupply_avoids fun supply hread =>
    .bind readVaults_avoids fun ⟨realA, realB⟩ hreads => ?_
  obtain rfl := (hasPool_of_load hvalid hload).1.unique hp
  obtain ⟨q, accA, accB, _, _, hbump, hacc, hsw, -, -⟩ := opening_live h hvalid hload hreads hS
  obtain rfl : led.mintSupply p₀.lpMint = supply :=
    supply_of_read rt accs.pool (require_eq_ok.mp hlp) hread
  simp only [require_of hS.ne', Checked.ok_bind]
  refine .bind (require_avoids (by decide)) fun _ _ => .bind ?_ fun _ _ => ?_
  · exact .bind checkedSub_avoids fun _ _ => require_avoids (by decide)
  simp only [hbump, hacc, hsw, Checked.ok_bind]
  exact .bind withdrawalAmounts_avoids fun _ _ => .bind fits_avoids fun _ _ =>
    .bind fits_avoids fun _ _ => .bind (require_avoids (by decide)) fun _ _ =>
    .bind (require_avoids (by decide)) fun _ _ => .bind tokens_avoid fun _ _ =>
    .bind tokens_avoid fun _ _ => .bind tokens_avoid fun _ _ => .pure

end Branches

/-- **Live pools stay live.** In every reachable state a pool with LP tokens has accounted reserves
of at least one on both sides, so that no deposit and no withdrawal ends in a zero-reserve branch.
Along a run without direct burns its supply is zero or at least the minimum. -/
theorem live_pools_stay_live (rt : Runtime) :
    (∀ led P p, Reachable rt led → led.HasPool rt P p → 0 < led.mintSupply p.lpMint →
      (∃ a b, led.accounted p = .ok (a, b) ∧ 1 ≤ a ∧ 1 ≤ b) ∧
      ∀ accs : LiquidityAccounts, accs.pool = P →
        (∀ maxA maxB minLp, processAddLiquidity rt accs maxA maxB minLp led ≠
          .error (.custom .zeroReserves)) ∧
        ∀ lp minA minB, processRemoveLiquidity rt accs lp minA minB led ≠
          .error (.custom .zeroReserves)) ∧
    ∀ genesis led P p, Genesis rt genesis → Relation.ReflTransGen (BurnFree rt) genesis led →
      led.HasPool rt P p →
        led.mintSupply p.lpMint = 0 ∨ minimumLiquidity ≤ led.mintSupply p.lpMint := by
  refine ⟨fun led P p h hp hS => ⟨?_, ?_⟩, fun genesis led P p hgen hrun hp => ?_⟩
  · have hlive := h.sound.live P p hp hS
    exact ⟨_, _, h.sound.accounted hp, hlive .a, hlive .b⟩
  · rintro accs rfl
    exact ⟨fun _ _ _ hfail => processAddLiquidity_avoids h hp hS _ hfail rfl,
      fun _ _ _ hfail => processRemoveLiquidity_avoids h hp hS _ hfail rfl⟩
  · exact floored_of_run hgen hrun P p hp

/-- No line of a script burns LP tokens past the program. -/
theorem Scripted.burnFree (h : Scripted rt led led') : BurnFree rt led led' := by
  cases h with
  | instruction i hsig hi => exact .instruction i hsig hi
  | outside hout hsame =>
    refine .outside hout fun k hk => ?_
    rw [mintSupply_congr (congrArg Account.data (hsame k hk))]

theorem live_pools_stay_live_busy :
    (∃ a b, (Sandbox.after Sandbox.busy).accounted
      (Sandbox.poolState (Sandbox.after Sandbox.busy)) = .ok (a, b) ∧ 1 ≤ a ∧ 1 ≤ b) ∧
    processAddLiquidity sandbox { Sandbox.accs with lpMint := Sandbox.lpMint, userLp := 0 } 1 1 0
      (Sandbox.after Sandbox.busy) ≠ .error (.custom .zeroReserves) ∧
    ((Sandbox.after Sandbox.busy).mintSupply
        (Sandbox.poolState (Sandbox.after Sandbox.busy)).lpMint = 0 ∨
      minimumLiquidity ≤ (Sandbox.after Sandbox.busy).mintSupply
        (Sandbox.poolState (Sandbox.after Sandbox.busy)).lpMint) := by
  obtain ⟨hreserves, hfloor⟩ := live_pools_stay_live sandbox
  have hp : (Sandbox.after Sandbox.busy).HasPool sandbox Sandbox.pool _ :=
    Sandbox.hasPool (by decide +kernel)
  obtain ⟨hlive, hbranches⟩ := hreserves _ _ _ (Sandbox.after_reachable Sandbox.busy) hp
    (by decide +kernel)
  exact ⟨hlive, (hbranches _ rfl).1 1 1 0, hfloor _ _ _ _ Sandbox.genesis_genesis
    (Relation.ReflTransGen.mono (fun _ _ hs => hs.burnFree) _ _
      (Sandbox.after_run Sandbox.busy)) hp⟩

end ChiefLiquidity
