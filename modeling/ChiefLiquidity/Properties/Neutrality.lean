import ChiefLiquidity.Market.Neutrality
import ChiefLiquidity.Properties.Reference

/-!
# What drives liquidation besides swaps

Fee and rent claims and new loans move neither reserve, as long as what they pay leaves the vaults.
A repayment adds its interest to one side, which takes loans of the other direction closer to
liquidation. Adding and removing liquidity keeps the ratio of the reserves but for the rounding,
which can be enough.

## What is compared

A loan is safe in a state if it is not liquidatable at the accounted spot price. A step keeps safe
what was safe, for the loans that stay open. Where a condition on the loan is needed, it is one on
the loan and the reserves before the step: for a scaling of the reserves the loan must be safe with
one token counted against it.

## What is left out

A repayment moves the price by its interest. So does the rounding of a small deposit into a small
pool, and a payment out that never leaves the vault. `loans_endangered` has a state and a call for
each, in which a safe loan becomes liquidatable, so none of the exclusions can be dropped.

## Main definitions

* `KeepsSafe` — no loan that stays open becomes liquidatable
* `Loan.SafeRounded` — a loan is safe with one token of rounding counted against it
* `AlwaysKeepSafe`, `Endangers` — instructions that keep every loan safe, and one that does not

## Main results

* `only_swaps_drive_liquidation` — what keeps loans safe besides swaps
* `loans_endangered` — what does not
-/

namespace ChiefLiquidity

open Ledger Market

variable {rt : Runtime} {led led' : Ledger} {P k : Pubkey} {p p' : Pool} {l : Loan}
  {events : List Event} {also : ℕ → ℕ → Loan → Prop}

/-- The loans of the pool `P` that stay open, are not liquidatable at the accounted spot price
before and also meet a condition on the reserves before, are not liquidatable at the accounted spot
price after. -/
def KeepsSafe (rt : Runtime) (P : Pubkey) (led led' : Ledger) (also : ℕ → ℕ → Loan → Prop) : Prop :=
  ∀ p p' a b a' b' k l, led.HasPool rt P p → led'.HasPool rt P p' →
    led.accounted p = .ok (a, b) → led'.accounted p' = .ok (a', b') →
    led.openLoan rt P k = some l → led'.openLoan rt P k = some l →
    l.SafeAt a b → also a b l → l.SafeAt a' b'

/-- The loan is not liquidatable at reserves that are `S'` to `S` of these, one token of either of
them lost or gained in the rounding. -/
def Loan.SafeRounded (l : Loan) (S S' a b : ℕ) : Prop :=
  l.SafeAt (a * S' + S) (b * S') ∧ l.SafeAt (a * S') (b * S' + S)

/-- The user's accounts are not the vaults: what is paid out leaves them. -/
def PoolAccounts.PaysOut (accs : PoolAccounts) : Prop := ∀ x, accs.userToken x ≠ accs.vault x

theorem PoolAccounts.PaysOut.paidOut {accs : PoolAccounts} (h : accs.PaysOut) (x : Side)
    (amount : ℕ) : accs.paidOut x amount = amount := accs.paidOut_of_ne (h x)

/-- The same in terms of the markets. -/
theorem keepsSafe_of_market (h : Sound rt led) (h' : Sound rt led') (hp : led.HasPool rt P p)
    (hp' : led'.HasPool rt P p')
    (hsafe : ∀ k l, led.openLoan rt P k = some l →
      l.SafeAt ((led.market rt P p).reserve .a) ((led.market rt P p).reserve .b) →
      also ((led.market rt P p).reserve .a) ((led.market rt P p).reserve .b) l →
      l.SafeAt ((led'.market rt P p').reserve .a) ((led'.market rt P p').reserve .b)) :
    KeepsSafe rt P led led' also := by
  intro q q' a b a' b' k l hq hq' hacc hacc' hl _ hbefore halso
  obtain rfl := hq.unique hp
  obtain rfl := hq'.unique hp'
  rw [h.accounted hq] at hacc
  rw [h'.accounted hq'] at hacc'
  obtain ⟨rfl, rfl⟩ := Prod.mk.inj (Except.ok.inj hacc)
  obtain ⟨rfl, rfl⟩ := Prod.mk.inj (Except.ok.inj hacc')
  exact hsafe k l hl hbefore halso

/-- Reserves that stay keep every loan safe. -/
theorem keepsSafe_of_reserve (h : Sound rt led) (h' : Sound rt led') (hp : led.HasPool rt P p)
    (hp' : led'.HasPool rt P p')
    (hreserve : ∀ x, (led'.market rt P p').reserve x = (led.market rt P p).reserve x) :
    KeepsSafe rt P led led' also := by
  refine keepsSafe_of_market h h' hp hp' fun k l _ hsafe _ => ?_
  rw [hreserve, hreserve]
  exact hsafe

/-- Reserves that are scaled keep every loan safe that is safe against the rounding. -/
theorem keepsSafe_of_scaled (h : Sound rt led) (h' : Sound rt led') (hp : led.HasPool rt P p)
    (hp' : led'.HasPool rt P p') (hlp : p'.lpMint = p.lpMint) (hS : 0 < led.mintSupply p.lpMint)
    (hscaled : ∀ x, Scaled (led.mintSupply p.lpMint) (led'.mintSupply p.lpMint)
      ((led.market rt P p).reserve x) ((led'.market rt P p').reserve x)) :
    KeepsSafe rt P led led' fun a b l =>
      l.SafeRounded (led.mintSupply p.lpMint) (led'.mintSupply p.lpMint) a b := by
  refine keepsSafe_of_market h h' hp hp' fun k l _ _ halso => ?_
  obtain ⟨halsoA, halsoB⟩ := halso
  refine .of_scaled hS (h.live P p hp hS .a) (hscaled .a) (hscaled .b) (fun hS' => ?_) halsoA halsoB
  exact h'.live P p' hp' (by rwa [market_supply, hlp]) .a

/-! ### Instruction by instruction -/

section Instructions

/-- An accepted instruction on the pool leaves a sound ledger, and is one of the moves. -/
theorem Reachable.made {i : Instruction} (h : Reachable rt led)
    (hi : processInstruction rt i led = .ok (led', events)) (hP : P ∈ i.pool)
    (hsig : ∀ k ∈ i.user, ¬ rt.IsPda k) : Sound rt led' ∧ Made rt led led' P i :=
  ⟨(h.step (.instruction i hsig hi)).sound, processInstruction_made_at h.sound hsig hP hi⟩

theorem signed_of_user {user : Pubkey} (hsig : ¬ rt.IsPda user) :
    ∀ k ∈ some user, ¬ rt.IsPda k := by
  rintro _ ⟨⟩
  exact hsig

theorem claimProtocolFees_keepsSafe {accs : ClaimFeesAccounts} (h : Reachable rt led)
    (hp : led.HasPool rt P p) (hP : accs.pool = P)
    (hi : processClaimProtocolFees rt accs led = .ok (led', events)) :
    KeepsSafe rt P led led' fun _ _ _ => True := by
  have hi' : processInstruction rt (.claimProtocolFees accs) led = .ok (led', events) := hi
  obtain ⟨hsound', hmade⟩ := h.made hi' (congrArg some hP) (by rintro _ ⟨⟩)
  cases hmade with
  | claimProtocolFees hstep hmove =>
    obtain rfl := hstep.before.unique hp
    refine keepsSafe_of_reserve h.sound hsound' hp hstep.after fun x => ?_
    rcases hmove with heq | hmove
    · rw [heq]
    · exact hmove.reserve x

theorem claimLiquidatedRent_keepsSafe {accs : ClaimRentAccounts} (h : Reachable rt led)
    (hp : led.HasPool rt P p) (hsig : ¬ rt.IsPda accs.borrower)
    (hi : processClaimLiquidatedRent rt accs led = .ok (led', events)) :
    KeepsSafe rt P led led' fun _ _ _ => True := by
  have hi' : processInstruction rt (.claimLiquidatedRent accs) led = .ok (led', events) := hi
  have hsigned : ∀ k ∈ (Instruction.claimLiquidatedRent accs).user, ¬ rt.IsPda k :=
    signed_of_user hsig
  have hstep : Step rt led led' := .instruction _ hsigned hi'
  obtain ⟨hp', -, hbal⟩ := other_instruction h.sound hsigned (by rintro ⟨⟩) hi' hp
  refine keepsSafe_of_reserve h.sound (h.step hstep).sound hp hp' fun x => ?_
  rw [reserve_def, reserve_def, market_real, market_real, hbal rfl]
  rfl

theorem openLoan_keepsSafe {accs : LoanAccounts} {sidesByte c d nonce : ℕ} (h : Reachable rt led)
    (hp : led.HasPool rt P p) (hP : accs.pool = P) (hsig : ¬ rt.IsPda accs.user)
    (hout : accs.PaysOut)
    (hi : processOpenLoan rt accs sidesByte c d nonce led = .ok (led', events)) :
    KeepsSafe rt P led led' fun _ _ _ => True := by
  have hi' : processInstruction rt (.openLoan accs sidesByte c d nonce) led =
      .ok (led', events) := hi
  obtain ⟨S, hv⟩ := h.sound.valid P p hp
  obtain ⟨hsound', hmade⟩ := h.made hi' (congrArg some hP) (signed_of_user hsig)
  cases hmade with
  | openLoan hstep hmove =>
    obtain rfl := hstep.before.unique hp
    rw [hout.paidOut] at hmove
    exact keepsSafe_of_reserve h.sound hsound' hp hstep.after (hmove.reserve_eq hv)

/-- The interest of a repayment stays on the debt side, which is no danger to loans with the same
sides. -/
theorem repayLoan_keepsSafe {accs : LoanAccounts} (h : Reachable rt led) (hp : led.HasPool rt P p)
    (hP : accs.pool = P) (hsig : ¬ rt.IsPda accs.user) (hout : accs.PaysOut)
    (hi : processRepayLoan rt accs led = .ok (led', events)) :
    ∃ (p' : Pool) (l₀ : Loan) (s : LoanSides) (owed : ℕ),
      led'.HasPool rt P p' ∧ led.openLoan rt P accs.loan = some l₀ ∧
      l₀.sides = s.toU8 ∧ l₀.owed (p'.index s.debtSide) = .ok owed ∧
      (KeepsSafe rt P led led' fun _ _ l => l.sides = s.toU8) ∧
      (owed = l₀.debtPrincipal → KeepsSafe rt P led led' fun _ _ _ => True) := by
  have hi' : processInstruction rt (.repayLoan accs) led = .ok (led', events) := hi
  obtain ⟨S, hv⟩ := h.sound.valid P p hp
  obtain ⟨hsound', hmade⟩ := h.made hi' (congrArg some hP) (signed_of_user hsig)
  cases hmade with
  | @repayLoan _ _ p' _ l₀ s owed hstep hmove =>
    obtain rfl := hstep.before.unique hp
    rw [hout.paidOut] at hmove
    have hreserve := hmove.reserve_eq hv
    refine ⟨p', l₀, s, owed, hstep.after, hmove.loan, hmove.sides, hmove.owed_eq,
      keepsSafe_of_market h.sound hsound' hp hstep.after fun k l hl hsafe hsides => ?_,
      fun howed => keepsSafe_of_reserve h.sound hsound' hp hstep.after fun x => ?_⟩
    · refine safeAt_of_debt_le (hv.direction_eq hl hsides) ?_ ?_ (hv.debtSide_pos hl hsides) hsafe
      · rw [hreserve, if_neg (debtSide_ne_collateralSide s).symm, Nat.add_zero]
      · rw [hreserve]
        exact Nat.le_add_right _ _
    · rw [hreserve, howed, Nat.sub_self, ite_self, Nat.add_zero]

theorem addLiquidity_keepsSafe {accs : LiquidityAccounts} {maxA maxB minLp : ℕ}
    (h : Reachable rt led) (hp : led.HasPool rt P p) (hP : accs.pool = P)
    (hsig : ¬ rt.IsPda accs.user) (hS : 0 < led.mintSupply p.lpMint)
    (hi : processAddLiquidity rt accs maxA maxB minLp led = .ok (led', events)) :
    KeepsSafe rt P led led' fun a b l =>
      l.SafeRounded (led.mintSupply p.lpMint) (led'.mintSupply p.lpMint) a b := by
  have hi' : processInstruction rt (.addLiquidity accs maxA maxB minLp) led =
      .ok (led', events) := hi
  obtain ⟨S, hv⟩ := h.sound.valid P p hp
  obtain ⟨hsound', hmade⟩ := h.made hi' (congrArg some hP) (signed_of_user hsig)
  cases hmade with
  | addLiquidity hstep hmove =>
    obtain rfl := hstep.before.unique hp
    have hlp := Pool.lpMint_of_terms hstep.terms
    have hscaled := hmove.scaled hv hS
    rw [market_supply, market_supply, hlp] at hscaled
    exact keepsSafe_of_scaled h.sound hsound' hp hstep.after hlp hS hscaled

theorem removeLiquidity_keepsSafe {accs : LiquidityAccounts} {lp minA minB : ℕ}
    (h : Reachable rt led) (hp : led.HasPool rt P p) (hP : accs.pool = P)
    (hsig : ¬ rt.IsPda accs.user) (hout : accs.PaysOut)
    (hi : processRemoveLiquidity rt accs lp minA minB led = .ok (led', events)) :
    KeepsSafe rt P led led' fun a b l =>
      l.SafeRounded (led.mintSupply p.lpMint) (led'.mintSupply p.lpMint) a b := by
  have hi' : processInstruction rt (.removeLiquidity accs lp minA minB) led =
      .ok (led', events) := hi
  obtain ⟨hsound', hmade⟩ := h.made hi' (congrArg some hP) (signed_of_user hsig)
  cases hmade with
  | removeLiquidity hstep hmove =>
    obtain rfl := hstep.before.unique hp
    have hlp := Pool.lpMint_of_terms hstep.terms
    simp only [hout.paidOut] at hmove
    have hS : 0 < led.mintSupply _ := hmove.lp_pos.trans_le hmove.lp_le
    have hscaled := hmove.scaled
    rw [market_supply, market_supply, hlp] at hscaled
    exact keepsSafe_of_scaled h.sound hsound' hp hstep.after hlp hS hscaled

end Instructions

theorem safeAt_of_direction {a b : ℕ} {d : TriggerDirection} (hd : l.triggerDirection = d.toU8)
    (h : isLiquidatable l.triggerPriceWad d (spotWad a b) = false) : l.SafeAt a b := by
  intro d' hd'
  obtain rfl : d = d' := TriggerDirection.toU8_injective (hd.symm.trans hd')
  exact h

namespace Sandbox

/-- Two loans of one band, left to accrue. -/
def twins : List Act :=
  create ++ [add 1000000 1000000, lend 0 1 200000 100000 65, lend 1 1 200000 100000 65,
    .wait 1000000]

/-- Whether the loan at `k` is safe, and stays open and as it is. -/
def keeps (led led' : Ledger) (k : Pubkey) (d : TriggerDirection) : Bool :=
  isLive led' &&
    match led.openLoan sandbox pool k, led'.openLoan sandbox pool k,
      led.accounted (poolState led), led'.accounted (poolState led') with
    | some l, some l', .ok (a, b), .ok _ =>
      l = l' ∧ l.triggerDirection = d.toU8 ∧
        isLiquidatable l.triggerPriceWad d (spotWad a b) = false
    | _, _, _, _ => false

theorem of_keeps {k : Pubkey} {d : TriggerDirection} (h : keeps led led' k d = true) :
    isLive led' = true ∧ ∃ l a b a' b', led.openLoan sandbox pool k = some l ∧
      led'.openLoan sandbox pool k = some l ∧ led.accounted (poolState led) = .ok (a, b) ∧
      led'.accounted (poolState led') = .ok (a', b') ∧ l.triggerDirection = d.toU8 ∧
      isLiquidatable l.triggerPriceWad d (spotWad a b) = false := by
  rw [keeps, Bool.and_eq_true] at h
  obtain ⟨hlive, h⟩ := h
  split at h
  · rename_i l l' a b r hl hl' hacc hacc'
    obtain ⟨rfl, hd, hbefore⟩ := of_decide_eq_true h
    exact ⟨hlive, l, a, b, r.1, r.2, hl, hl', hacc, hacc', hd, hbefore⟩
  · cases h

/-- Two open loans with the same sides. -/
theorem sides_eq {j k : Pubkey} {l l' : Loan}
    (h : (led.openLoan sandbox pool j).map Loan.sides =
      (led.openLoan sandbox pool k).map Loan.sides)
    (hl : led.openLoan sandbox pool j = some l) (hl' : led.openLoan sandbox pool k = some l') :
    l.sides = l'.sides := by
  rw [hl, hl', Option.map_some, Option.map_some] at h
  exact Option.some.inj h

end Sandbox

/-- **What keeps loans safe besides swaps.** Claims of fees and of rent, and new loans whose
principal leaves the vault, keep every loan of the pool safe that stays open. A repayment whose
collateral leaves the vault keeps the loans with the sides of the repaid one safe, and all loans if
no interest was owed. Adding liquidity to a pool that has some, and removing liquidity that leaves
the vaults, keep every loan safe that is safe with one token of rounding counted against it. -/
theorem only_swaps_drive_liquidation (h : Reachable rt led) (hp : led.HasPool rt P p) :
    (∀ (accs : ClaimFeesAccounts) led' events, accs.pool = P →
      processClaimProtocolFees rt accs led = .ok (led', events) →
        KeepsSafe rt P led led' fun _ _ _ => True) ∧
    (∀ accs led' events, ¬ rt.IsPda accs.borrower →
      processClaimLiquidatedRent rt accs led = .ok (led', events) →
        KeepsSafe rt P led led' fun _ _ _ => True) ∧
    (∀ accs sidesByte c d nonce led' events, accs.pool = P → ¬ rt.IsPda accs.user →
      accs.PaysOut → processOpenLoan rt accs sidesByte c d nonce led = .ok (led', events) →
        KeepsSafe rt P led led' fun _ _ _ => True) ∧
    (∀ (accs : LoanAccounts) led' events, accs.pool = P → ¬ rt.IsPda accs.user → accs.PaysOut →
      processRepayLoan rt accs led = .ok (led', events) →
        ∃ (p' : Pool) (l₀ : Loan) (s : LoanSides) (owed : ℕ),
          led'.HasPool rt P p' ∧ led.openLoan rt P accs.loan = some l₀ ∧
          l₀.sides = s.toU8 ∧ l₀.owed (p'.index s.debtSide) = .ok owed ∧
          (KeepsSafe rt P led led' fun _ _ l => l.sides = s.toU8) ∧
          (owed = l₀.debtPrincipal → KeepsSafe rt P led led' fun _ _ _ => True)) ∧
    (∀ accs maxA maxB minLp led' events, accs.pool = P → ¬ rt.IsPda accs.user →
      0 < led.mintSupply p.lpMint →
      processAddLiquidity rt accs maxA maxB minLp led = .ok (led', events) →
        KeepsSafe rt P led led' fun a b l =>
          l.SafeRounded (led.mintSupply p.lpMint) (led'.mintSupply p.lpMint) a b) ∧
    ∀ accs lp minA minB led' events, accs.pool = P → ¬ rt.IsPda accs.user → accs.PaysOut →
      processRemoveLiquidity rt accs lp minA minB led = .ok (led', events) →
        KeepsSafe rt P led led' fun a b l =>
          l.SafeRounded (led.mintSupply p.lpMint) (led'.mintSupply p.lpMint) a b := by
  refine ⟨?_, ?_, ?_, ?_, ?_, ?_⟩
  · intro accs led' events hP hi
    exact claimProtocolFees_keepsSafe h hp hP hi
  · intro accs led' events hsig hi
    exact claimLiquidatedRent_keepsSafe h hp hsig hi
  · intro accs sidesByte c d nonce led' events hP hsig hout hi
    exact openLoan_keepsSafe h hp hP hsig hout hi
  · intro accs led' events hP hsig hout hi
    exact repayLoan_keepsSafe h hp hP hsig hout hi
  · intro accs maxA maxB minLp led' events hP hsig hS hi
    exact addLiquidity_keepsSafe h hp hP hsig hS hi
  · intro accs lp minA minB led' events hP hsig hout hi
    exact removeLiquidity_keepsSafe h hp hP hsig hout hi

/-- A loan is repaid with interest, and the other loan of its band stays safe. -/
theorem only_swaps_drive_liquidation_twins :
    ∃ (led' : Ledger) (l : Loan) (a' b' : ℕ),
      (Sandbox.after Sandbox.twins).openLoan sandbox Sandbox.pool (Sandbox.loan 1) = some l ∧
      led'.openLoan sandbox Sandbox.pool (Sandbox.loan 1) = some l ∧
      led'.openLoan sandbox Sandbox.pool (Sandbox.loan 0) = none ∧
      led'.accounted (Sandbox.poolState led') = .ok (a', b') ∧ l.SafeAt a' b' := by
  obtain ⟨⟨led', events⟩, hi, htest⟩ := Checked.exists_of_any
    (x := processRepayLoan sandbox (Sandbox.loanAccs 0 1 65) (Sandbox.after Sandbox.twins))
    (fun o => Sandbox.keeps (Sandbox.after Sandbox.twins) o.1 (Sandbox.loan 1) .onRise &&
      !Sandbox.isOpen o.1 (Sandbox.loan 0)) (by decide +kernel)
  rw [Bool.and_eq_true, Bool.not_eq_true'] at htest
  obtain ⟨hkeeps, hrepaid⟩ := htest
  obtain ⟨hlive, l, a, b, a', b', hl, hl', hacc, hacc', hd, hbefore⟩ := Sandbox.of_keeps hkeeps
  have hp := @Sandbox.hasPool (Sandbox.after Sandbox.twins) (by decide +kernel)
  obtain ⟨-, -, -, hrepay, -⟩ := only_swaps_drive_liquidation
    (Sandbox.after_reachable Sandbox.twins) hp
  obtain ⟨_, l₀, s, _, -, hl₀, hs, -, hkeep, -⟩ := hrepay _ led' events rfl
    (Sandbox.loanAccs_user 0 1 65) (fun x => by cases x <;> decide) hi
  -- both loans have the same sides
  have hsides : l.sides = l₀.sides := Sandbox.sides_eq (by decide +kernel) hl hl₀
  have hnone := Option.isNone_iff_eq_none.mp (Option.isSome_eq_false_iff.mp hrepaid)
  exact ⟨led', l, a', b', hl, hl', hnone, hacc',
    hkeep _ _ a b a' b' _ l hp (Sandbox.hasPool hlive) hacc hacc' hl hl'
      (safeAt_of_direction hd hbefore) (hsides.trans hs)⟩

/-! ### What does not keep loans safe -/

/-- The instructions of this kind keep every loan of every pool safe. -/
def AlwaysKeepSafe (kind : Instruction → Prop) : Prop :=
  ∀ (rt : Runtime) (i : Instruction) (P : Pubkey) (led led' : Ledger) (events : List Event),
    kind i → Reachable rt led → (∀ k ∈ i.user, ¬ rt.IsPda k) →
      processInstruction rt i led = .ok (led', events) → KeepsSafe rt P led led' fun _ _ _ => True

/-- In this reachable state the instruction is accepted, and does not keep every loan of the pool
safe that also meets a condition on the reserves before and the ledger after. -/
def Endangers (rt : Runtime) (P : Pubkey) (led : Ledger) (i : Instruction)
    (also : Ledger → ℕ → ℕ → Loan → Prop) : Prop :=
  Reachable rt led ∧ (∀ k ∈ i.user, ¬ rt.IsPda k) ∧ ∃ led' events,
    processInstruction rt i led = .ok (led', events) ∧ ¬ KeepsSafe rt P led led' (also led')

theorem Endangers.not_alwaysKeepSafe {kind : Instruction → Prop} {i : Instruction}
    (h : Endangers rt P led i fun _ _ _ _ => True) (hkind : kind i) : ¬ AlwaysKeepSafe kind := by
  intro hclaim
  obtain ⟨hreach, hsig, led', events, hi, hnot⟩ := h
  exact hnot (hclaim rt i P led led' events hkind hreach hsig hi)

namespace Sandbox

/-- Whether the loan at `k`, safe before, does not stay safe, and meets a condition. -/
def endangers (led led' : Ledger) (k : Pubkey) (d : TriggerDirection)
    (also : ℕ → ℕ → Loan → Bool) : Bool :=
  keeps led led' k d &&
    match led.openLoan sandbox pool k, led.accounted (poolState led),
      led'.accounted (poolState led') with
    | some l, .ok (a, b), .ok (a', b') =>
      also a b l && isLiquidatable l.triggerPriceWad d (spotWad a' b')
    | _, _, _ => false

/-- Whether a loan is safe with one token of rounding counted against it. -/
def safeRounded (d : TriggerDirection) (S S' a b : ℕ) (l : Loan) : Bool :=
  !isLiquidatable l.triggerPriceWad d (spotWad (a * S' + S) (b * S')) &&
    !isLiquidatable l.triggerPriceWad d (spotWad (a * S') (b * S' + S))

theorem safeRounded_of {d : TriggerDirection} {S S' a b : ℕ} (hd : l.triggerDirection = d.toU8)
    (h : safeRounded d S S' a b l = true) : l.SafeRounded S S' a b := by
  rw [safeRounded, Bool.and_eq_true, Bool.not_eq_true', Bool.not_eq_true'] at h
  exact ⟨safeAt_of_direction hd h.1, safeAt_of_direction hd h.2⟩

theorem not_keepsSafe {k : Pubkey} {d : TriggerDirection} {test : ℕ → ℕ → Loan → Bool}
    (hlive : isLive led = true)
    (htest : ∀ a b l, l.triggerDirection = d.toU8 → test a b l = true → also a b l)
    (h : endangers led led' k d test = true) : ¬ KeepsSafe sandbox pool led led' also := by
  intro hkeep
  rw [endangers, Bool.and_eq_true] at h
  obtain ⟨hkeeps, h⟩ := h
  obtain ⟨hlive', l, a, b, a', b', hl, hl', hacc, hacc', hd, hbefore⟩ := of_keeps hkeeps
  simp only [hl, hacc, hacc', Bool.and_eq_true] at h
  obtain ⟨halso, hafter⟩ := h
  have hsafe := hkeep _ _ a b a' b' k l (hasPool hlive) (hasPool hlive') hacc hacc' hl hl'
    (safeAt_of_direction hd hbefore) (htest a b l hd halso) d hd
  exact Bool.false_ne_true (hsafe.symm.trans hafter)

/-- One call shows that an instruction endangers a loan. -/
theorem endangers_of {i : Instruction} {k : Pubkey} {d : TriggerDirection}
    {also : Ledger → ℕ → ℕ → Loan → Prop} (test : Ledger → ℕ → ℕ → Loan → Bool)
    (hreach : Reachable sandbox led) (hlive : isLive led = true)
    (huser : i.user.all isUser = true)
    (htest : ∀ led' a b l, l.triggerDirection = d.toU8 → test led' a b l = true → also led' a b l)
    (h : (processInstruction sandbox i led).toOption.any
      (fun o => endangers led o.1 k d (test o.1)) = true) : Endangers sandbox pool led i also := by
  obtain ⟨⟨led', events⟩, hi, hendangers⟩ := Checked.exists_of_any _ h
  refine ⟨hreach, fun k hk => ?_, led', events, hi, not_keepsSafe hlive (htest led') hendangers⟩
  rw [Option.mem_def.mp hk] at huser
  exact not_isPda huser

/-- Two loans of a whole reserve each, left to accrue for years. -/
def overdue : List Act :=
  create ++ [add 1000000 1000000, lend 0 0 1000000 700000 64, lend 1 1 1000000 800000 64,
    .wait 1600000000]

/-- Remove liquidity. -/
def remove (lp : ℕ) : Act := .call (.removeLiquidity { accs with lpMint, userLp } lp 0 0)

/-- A pool of some two thousand tokens, whose price is just above the trigger of its loan. -/
def narrow : List Act :=
  create ++ [add 1000000 1000000, remove 998000, lend 0 0 700 450 64,
    swap 379 true 0 [1] [band 0 64, loan 0], remove 137]

/-- A loan of most of a reserve. -/
def borrowed : List Act := create ++ [add 1000000 1000000, lend 1 1 1000000 800000 64]

/-- A loan with a low trigger and one with a high trigger, of the same sides. -/
def stacked : List Act :=
  create ++ [add 1000000 1000000, lend 0 0 1000000 200000 62, lend 1 0 200000 140000 64]

/-- The accounts of an instruction about liquidity. -/
def lpAccs : LiquidityAccounts := { accs with lpMint, userLp }

/-- The same with the vault in the place of the user's account of `mintB`. -/
def intoVaultB : LiquidityAccounts :=
  { toPoolAccounts := { accs with userB := vaultB }, lpMint, userLp }

/-- The accounts of a repayment that returns the collateral to the vault. -/
def intoVaultA : LoanAccounts :=
  { toPoolAccounts := { accs with userA := vaultA }, loan := loan 0, band := band 0 62 }

/-- The accounts of a loan whose principal is paid to the vault. -/
def lentToVaultB : LoanAccounts :=
  { toPoolAccounts := { accs with userB := vaultB }, loan := loan 0, band := band 0 64 }

end Sandbox

/-- **What does not keep loans safe.** A repayment leaves its interest on one side. Adding and
removing liquidity rounds. A principal that is paid to the vault it comes from stays in the
reserve. -/
theorem loans_endangered :
    (¬ AlwaysKeepSafe fun i => ∃ accs, i = .repayLoan accs ∧ accs.PaysOut) ∧
    (¬ AlwaysKeepSafe fun i => ∃ accs lp minA minB,
      i = .removeLiquidity accs lp minA minB ∧ accs.PaysOut) ∧
    (¬ AlwaysKeepSafe fun i => ∃ accs maxA maxB minLp, i = .addLiquidity accs maxA maxB minLp) ∧
    (¬ AlwaysKeepSafe fun i => ∃ accs sides c d nonce, i = .openLoan accs sides c d nonce) ∧
    -- the first deposit into a pool whose LP tokens have been burnt sets a new price
    (Sandbox.burned (Sandbox.after Sandbox.borrowed)).mintSupply Sandbox.lpMint = 0 ∧
    Endangers sandbox Sandbox.pool (Sandbox.burned (Sandbox.after Sandbox.borrowed))
      (.addLiquidity Sandbox.lpAccs 1000000 2000000 0) (fun _ _ _ _ => True) ∧
    -- what is removed or returned into a vault stays in the reserve of that side only
    Endangers sandbox Sandbox.pool (Sandbox.after Sandbox.borrowed)
      (.removeLiquidity Sandbox.intoVaultB 150000 0 0) (fun led' a b l => l.SafeRounded
        ((Sandbox.after Sandbox.borrowed).mintSupply Sandbox.lpMint)
        (led'.mintSupply Sandbox.lpMint) a b) ∧
    Endangers sandbox Sandbox.pool (Sandbox.after Sandbox.stacked)
      (.repayLoan Sandbox.intoVaultA) (fun _ _ _ l => l.sides = LoanSides.collateralA.toU8) := by
  have hout : Sandbox.accs.PaysOut := fun x => by cases x <;> decide
  have hreach := Sandbox.after_reachable
  have hrepay : Endangers sandbox Sandbox.pool (Sandbox.after Sandbox.overdue)
      (.repayLoan (Sandbox.loanAccs 0 0 64)) fun _ _ _ _ => True :=
    Sandbox.endangers_of (k := Sandbox.loan 1) (d := .onRise) (fun _ _ _ _ => true) (hreach _)
      (by decide +kernel) rfl (fun _ _ _ _ _ _ => trivial) (by decide +kernel)
  have hremove : Endangers sandbox Sandbox.pool (Sandbox.after Sandbox.narrow)
      (.removeLiquidity Sandbox.lpAccs 62 0 0) fun _ _ _ _ => True :=
    Sandbox.endangers_of (k := Sandbox.loan 0) (d := .onFall) (fun _ _ _ _ => true) (hreach _)
      (by decide +kernel) rfl (fun _ _ _ _ _ _ => trivial) (by decide +kernel)
  have hadd : Endangers sandbox Sandbox.pool (Sandbox.after Sandbox.narrow)
      (.addLiquidity Sandbox.lpAccs 460 1000000 0) fun _ _ _ _ => True :=
    Sandbox.endangers_of (k := Sandbox.loan 0) (d := .onFall) (fun _ _ _ _ => true) (hreach _)
      (by decide +kernel) rfl (fun _ _ _ _ _ _ => trivial) (by decide +kernel)
  have hlend : Endangers sandbox Sandbox.pool (Sandbox.after Sandbox.borrowed)
      (.openLoan Sandbox.lentToVaultB 0 1000000 700000 0) fun _ _ _ _ => True :=
    Sandbox.endangers_of (k := Sandbox.loan 1) (d := .onRise) (fun _ _ _ _ => true) (hreach _)
      (by decide +kernel) rfl (fun _ _ _ _ _ _ => trivial) (by decide +kernel)
  refine ⟨hrepay.not_alwaysKeepSafe ⟨_, rfl, hout⟩,
    hremove.not_alwaysKeepSafe ⟨_, _, _, _, rfl, hout⟩,
    hadd.not_alwaysKeepSafe ⟨_, _, _, _, rfl⟩, hlend.not_alwaysKeepSafe ⟨_, _, _, _, _, rfl⟩,
    by decide +kernel, ?_, ?_, ?_⟩
  · exact Sandbox.endangers_of (k := Sandbox.loan 1) (d := .onRise) (fun _ _ _ _ => true)
      ((hreach _).step (Sandbox.burned_step (hreach _))) (by decide +kernel) rfl
      (fun _ _ _ _ _ _ => trivial) (by decide +kernel)
  · exact Sandbox.endangers_of (k := Sandbox.loan 1) (d := .onRise)
      (fun led' a b l => Sandbox.safeRounded .onRise
        ((Sandbox.after Sandbox.borrowed).mintSupply Sandbox.lpMint)
        (led'.mintSupply Sandbox.lpMint) a b l)
      (hreach _) (by decide +kernel) rfl (fun _ _ _ _ hd h => Sandbox.safeRounded_of hd h)
      (by decide +kernel)
  · exact Sandbox.endangers_of (k := Sandbox.loan 1) (d := .onFall)
      (fun _ _ _ l => l.sides = LoanSides.collateralA.toU8) (hreach _) (by decide +kernel) rfl
      (fun _ _ _ _ _ h => of_decide_eq_true h) (by decide +kernel)

end ChiefLiquidity
