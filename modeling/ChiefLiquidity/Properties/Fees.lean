import ChiefLiquidity.Properties.Accrual
import ChiefLiquidity.Properties.Repayment

/-!
# The protocol's share of the fees

Every accepted swap adds its skim to the fees of its input side, and nothing else does; a claim
empties both. So what has been claimed and what is still there make up all the skims of a run.

## Two floors

The fee of an input is a floor, and the protocol's share of the fee another. The share is taken from
the input side before the reserves grow, so it never counts as a reserve, and an LP is not paid it
by mistake. What a quote withholds from the input is at least the share.

## A ledger

A history is a run together with the instructions accepted in it. Along a history the skims of a
side are what was claimed of it and what is still there. The statement is an equation, so it also
says that nothing else feeds the fees, and that claims take all of them.

## Main definitions

* `Call`, `History` — a run with the instructions accepted in it
* `Call.claimed`, `Call.skimmed` — what an instruction pays out of, and adds to, the fees of a side
* `Pool.skim` — the two floors of the skim

## Main results

* `protocol_fee_ledger` — the ledger of the fees, and that they can always be claimed
-/

namespace ChiefLiquidity

open Ledger Market

variable {rt : Runtime} {led led' led₁ led₂ : Ledger} {P : Pubkey} {p p' : Pool} {x : Side}
  {i : Instruction} {events : List Event}

/-! ### Histories -/

/-- An accepted instruction, with the ledgers before and after it. -/
structure Call where
  instruction : Instruction
  before : Ledger
  after : Ledger

/-- A run of the chain, with the instructions accepted in it. -/
inductive History (rt : Runtime) (led : Ledger) : List Call → Ledger → Prop where
  | nil : History rt led [] led
  | call {calls : List Call} {led₁ led₂ : Ledger} {events : List Event} (i : Instruction)
      (hsig : ∀ k ∈ i.user, ¬ rt.IsPda k) : History rt led calls led₁ →
      processInstruction rt i led₁ = .ok (led₂, events) →
      History rt led (calls ++ [⟨i, led₁, led₂⟩]) led₂
  | outside {calls : List Call} {led₁ led₂ : Ledger} : History rt led calls led₁ →
      Outside rt led₁ led₂ → History rt led calls led₂

variable {calls : List Call}

/-- A history is a run. -/
theorem History.run (h : History rt led calls led') :
    Relation.ReflTransGen (Step rt) led led' := by
  induction h with
  | nil => exact .refl
  | call i hsig _ hi ih => exact ih.tail (.instruction i hsig hi)
  | outside _ hout ih => exact ih.tail (.outside hout)

/-- Every run has a history. -/
theorem exists_history (h : Relation.ReflTransGen (Step rt) led led') :
    ∃ calls, History rt led calls led' := by
  induction h with
  | refl => exact ⟨[], .nil⟩
  | tail _ hstep ih =>
    obtain ⟨calls, hcalls⟩ := ih
    cases hstep with
    | instruction i hsig hi => exact ⟨_, hcalls.call i hsig hi⟩
    | outside hout => exact ⟨calls, hcalls.outside hout⟩

/-! ### Skims and claims -/

/-- The protocol's share of the fee on this input. -/
def Pool.skim (p : Pool) (amountIn : ℕ) : ℕ :=
  amountIn * p.swapFeeBps / bpsDenom * p.protocolFeeBps / p.swapFeeBps

/-- What a call takes out of a vault of the pool `P` if it claims its fees. -/
def Call.claimed (P : Pubkey) (p : Pool) (x : Side) (c : Call) : ℕ :=
  match c.instruction with
  | .claimProtocolFees accs =>
    if accs.pool = P then c.before.balance (p.vault x) - c.after.balance (p.vault x) else 0
  | _ => 0

/-- The skim of a call if it swaps this side in the pool `P` for the other. -/
def Call.skimmed (P : Pubkey) (p : Pool) (x : Side) (c : Call) : ℕ :=
  match c.instruction with
  | .swap accs amountIn _ aToB _ _ =>
    if accs.pool = P ∧ inSide aToB = x then p.skim amountIn else 0
  | _ => 0

theorem claimed_of_terms (h : p'.terms = p.terms) : Call.claimed P p' x = Call.claimed P p x := by
  funext c
  simp only [Call.claimed, Pool.vault_of_terms h]

theorem skim_of_terms (h : p'.terms = p.terms) (amountIn : ℕ) :
    p'.skim amountIn = p.skim amountIn := by
  have hfee : p'.terms.protocolFeeBps = p.terms.protocolFeeBps := by rw [h]
  rw [Pool.skim, Pool.skim, Pool.swapFeeBps_of_terms h,
    show p'.protocolFeeBps = p.protocolFeeBps from hfee]

theorem skimmed_of_terms (h : p'.terms = p.terms) : Call.skimmed P p' x = Call.skimmed P p x := by
  funext c
  simp only [Call.skimmed, skim_of_terms h]

/-- The share a swap computes is the skim. -/
theorem protocolPortion_skim {amountIn portion : ℕ}
    (h : p.protocolPortion amountIn = .ok portion) : portion = p.skim amountIn := by
  rw [Pool.protocolPortion] at h
  split at h
  · rename_i hzero
    cases h
    rcases hzero with hfee | hfee <;> simp [Pool.skim, hfee]
  · exact (fits_eq_ok.mp h).2

/-- The skim is part of what a quote withholds from the input. -/
theorem skim_add_inAfterFee_le (h : StandardTerms p) (amountIn : ℕ) :
    p.skim amountIn + inAfterFee amountIn p.swapFeeBps ≤ amountIn := by
  rw [Pool.skim, inAfterFee, h.swapFee, h.protocolFee]
  norm_num [defaultSwapFeeBps, defaultProtocolFeeBps, bpsDenom]
  omega

/-! ### The ledger -/

/-- Calls about other pools do not count. -/
theorem claimed_eq_zero (hP : P ∉ i.pool) :
    Call.claimed P p x ⟨i, led, led'⟩ = 0 ∧ Call.skimmed P p x ⟨i, led, led'⟩ = 0 := by
  cases i with
  | claimProtocolFees accs => exact ⟨if_neg fun h => hP (congrArg some h), rfl⟩
  | swap accs => exact ⟨rfl, if_neg fun h => hP (congrArg some h.1)⟩
  | _ => exact ⟨rfl, rfl⟩

/-- **What an accepted instruction does to the fees** of a pool: it takes out what it claims, and
adds its skim. -/
theorem Call.books (h : Sound rt led) (hsig : ∀ k ∈ i.user, ¬ rt.IsPda k)
    (hi : processInstruction rt i led = .ok (led', events)) (hp : led.HasPool rt P p) :
    ∃ p', led'.HasPool rt P p' ∧ p'.terms = p.terms ∧ ∀ x,
      Call.claimed P p x ⟨i, led, led'⟩ + p'.fees x =
        p.fees x + Call.skimmed P p x ⟨i, led, led'⟩ := by
  by_cases hP : P ∈ i.pool
  swap
  · obtain ⟨hp', -, -⟩ := other_instruction h hsig hP hi hp
    refine ⟨p, hp', rfl, fun x => ?_⟩
    obtain ⟨hclaimed, hskimmed⟩ : Call.claimed P p x ⟨i, led, led'⟩ = 0 ∧
        Call.skimmed P p x ⟨i, led, led'⟩ = 0 := claimed_eq_zero hP
    rw [hclaimed, hskimmed, Nat.zero_add, Nat.add_zero]
  obtain ⟨S, hv⟩ := h.valid P p hp
  cases processInstruction_made_at h hsig hP hi with
  | initializePool hno => exact absurd hp (hno p)
  | addLiquidity hstep hmove =>
    obtain rfl := hstep.before.unique hp
    refine ⟨_, hstep.after, hstep.terms, fun x => ?_⟩
    have hfees := congrArg (fun m : Market => m.pool.fees x) hmove.after
    rw [Pool.stamp_fees, hmove.accrued.fees] at hfees
    exact (Nat.zero_add _).trans hfees
  | removeLiquidity hstep hmove =>
    obtain rfl := hstep.before.unique hp
    refine ⟨_, hstep.after, hstep.terms, fun x => ?_⟩
    have hfees := congrArg (fun m : Market => m.pool.fees x) hmove.after
    rw [Pool.stamp_fees, hmove.accrued.fees] at hfees
    exact (Nat.zero_add _).trans hfees
  | openLoan hstep hmove =>
    obtain rfl := hstep.before.unique hp
    exact ⟨_, hstep.after, hstep.terms, fun x =>
      (Nat.zero_add _).trans ((hmove.borrowed hv).fees x)⟩
  | repayLoan hstep hmove =>
    obtain rfl := hstep.before.unique hp
    exact ⟨_, hstep.after, hstep.terms, fun x =>
      (Nat.zero_add _).trans ((hmove.repaid hv).fees x)⟩
  | @claimProtocolFees accs _ p' hstep hmove =>
    obtain rfl := hp.unique hstep.before
    refine ⟨p', hstep.after, hstep.terms, fun x => ?_⟩
    have hclaimed : Call.claimed accs.pool p x ⟨.claimProtocolFees accs, led, led'⟩ =
        led.balance (p.vault x) - led'.balance (p.vault x) := if_pos rfl
    refine (congrArg (· + _) hclaimed).trans ?_
    rcases hmove with heq | hclaim
    · obtain rfl : p' = p := congrArg Market.pool heq
      have hreal : led'.balance (p'.vault x) = led.balance (p'.vault x) :=
        congrFun (congrArg Market.real heq) x
      rw [hreal, Nat.sub_self]
      exact Nat.zero_add _
    · obtain ⟨hfees, hreal⟩ := hclaim.fees x
      rw [market_real, market_real, Pool.vault_of_terms hstep.terms] at hreal
      have hcovered : p.fees x ≤ led.balance (p.vault x) := hclaim.covered x
      rw [hreal, show p'.fees x = 0 from hfees]
      exact Nat.sub_sub_self hcovered
  | claimLiquidatedRent hstep heq => cases hP
  | swap hswap hdir hin hpaid =>
    obtain rfl := hp.unique hswap.step.before
    refine ⟨_, hswap.step.after, hswap.step.terms, fun x => ?_⟩
    obtain ⟨_, _, _, htrade⟩ := hswap.trade
    have hfees := htrade.traded.fees x
    have hportion := protocolPortion_skim htrade.portion_eq.1
    rw [hportion, hdir, hin] at hfees
    refine (Nat.zero_add _).trans (hfees.trans (congrArg (p.fees x + ·) ?_))
    simp only [Call.skimmed, true_and, eq_comm]
    rfl

/-- Before there is a pool nothing is claimed or skimmed of it. -/
theorem Call.before_pool (h : Sound rt led) (hsig : ∀ k ∈ i.user, ¬ rt.IsPda k)
    (hi : processInstruction rt i led = .ok (led', events)) (hno : ∀ p, ¬ led.HasPool rt P p) :
    Call.claimed P p x ⟨i, led, led'⟩ = 0 ∧ Call.skimmed P p x ⟨i, led, led'⟩ = 0 := by
  by_cases hP : P ∈ i.pool
  swap
  · exact claimed_eq_zero hP
  cases processInstruction_made_at h hsig hP hi with
  | initializePool => exact ⟨rfl, rfl⟩
  | claimProtocolFees hstep => exact absurd hstep.before (hno _)
  | swap hswap => exact absurd hswap.step.before (hno _)
  | _ => exact ⟨rfl, rfl⟩

/-- The fees of a pool after a history: all that was skimmed, less all that was claimed. -/
def Accounted (rt : Runtime) (P : Pubkey) (calls : List Call) (led : Ledger) : Prop :=
  (∀ p, led.HasPool rt P p → ∀ x,
    (calls.map (Call.claimed P p x)).sum + p.fees x = (calls.map (Call.skimmed P p x)).sum) ∧
  ((∀ p, ¬ led.HasPool rt P p) → ∀ p x,
    (calls.map (Call.claimed P p x)).sum = 0 ∧ (calls.map (Call.skimmed P p x)).sum = 0)

/-- An instruction keeps the fees accounted for. -/
theorem Accounted.call (h : Sound rt led) (hacc : Accounted rt P calls led)
    (hsig : ∀ k ∈ i.user, ¬ rt.IsPda k)
    (hi : processInstruction rt i led = .ok (led', events)) :
    Accounted rt P (calls ++ [⟨i, led, led'⟩]) led' := by
  have hstep : Step rt led led' := .instruction i hsig hi
  simp only [Accounted, List.map_append, List.map_cons, List.map_nil, List.sum_append,
    List.sum_cons, List.sum_nil, Nat.add_zero]
  by_cases hbefore : ∃ p, led.HasPool rt P p
  · obtain ⟨p, hp⟩ := hbefore
    obtain ⟨p', hp', hterms, hbooks⟩ := Call.books h hsig hi hp
    refine ⟨fun q hq x => ?_, fun hno => absurd hp' (hno p')⟩
    obtain rfl := hq.unique hp'
    rw [claimed_of_terms hterms, skimmed_of_terms hterms]
    have hsums := hacc.1 p hp x
    have hbook := hbooks x
    omega
  · have hno : ∀ p, ¬ led.HasPool rt P p := fun p hp => hbefore ⟨p, hp⟩
    have hzero : ∀ p x, _ := fun p x => Call.before_pool (p := p) (x := x) h hsig hi hno
    have hsums := hacc.2 hno
    refine ⟨fun q hq x => ?_, fun _ q x => ?_⟩
    · have hfees : q.fees x = 0 := (hstep.new h hq hno).fees x
      rw [(hzero q x).1, (hzero q x).2, (hsums q x).1, (hsums q x).2, hfees]
    · rw [(hzero q x).1, (hzero q x).2, (hsums q x).1, (hsums q x).2]
      exact ⟨rfl, rfl⟩

/-- **The fees of every pool are accounted for** after every history. -/
theorem History.accounted (hg : Genesis rt led) (h : History rt led calls led') :
    Accounted rt P calls led' := by
  induction h with
  | nil => exact ⟨fun p hp => absurd hp (hg.no_pool P p), fun _ _ _ => ⟨rfl, rfl⟩⟩
  | call i hsig hrest hi ih => exact ih.call (hg.sound.run hrest.run) hsig hi
  | @outside _ led₁ led₂ hrest hout ih =>
    have hfiled := (hg.sound.run hrest.run).filed
    exact ⟨fun p hp => ih.1 p (hout.hasPool_inv hp),
      fun hno => ih.2 fun p hp => hno p (hout.hasPool hfiled hp)⟩

/-! ### Claiming -/

section Claiming

variable {accs : ClaimFeesAccounts} {decimals : Side → ℕ}

/-- The fees of a side are paid out to an account that is in order. -/
theorem payFee_accepted (hF : accs.Funded rt led protocolFeeRecipient decimals)
    (hw : Wired rt led accs.pool p) (hacc : p.matchesAccounts accs = true)
    (hcovered : p.fees x ≤ led.balance (accs.vault x)) :
    ∃ led', payFee rt accs p led x (decimals x) = .ok led' ∧
      accs.Funded rt led' protocolFeeRecipient decimals := by
  have hholder : protocolFeeRecipient ≠ accs.pool := by
    obtain ⟨s, hs⟩ := hw.pda
    intro heq
    exact rt.find_ne_recipient s (hs.trans heq.symm)
  rw [payFee]
  split
  · obtain ⟨led', hout⟩ := payOut_accepted hF hw hacc (signsFor_accepted hw rfl) hcovered
    exact ⟨led', hout, hF.payOut hw hacc hholder hout⟩
  · exact ⟨led, rfl, hF⟩

/-- **A claim to accounts of the recipient is accepted.** -/
theorem processClaimProtocolFees_accepted (h : Reachable rt led)
    (hp : led.HasPool rt accs.pool p) (hacc : p.matchesAccounts accs = true)
    (hF : accs.Funded rt led protocolFeeRecipient decimals) :
    ∃ outcome, processClaimProtocolFees rt accs led = .ok outcome := by
  obtain ⟨S, hv⟩ := h.sound.valid _ _ hp
  have hw := h.sound.filed.wired _ _ hp
  obtain ⟨hvault, -⟩ := Pool.matchesAccounts_iff.mp hacc
  obtain ⟨tA, htA, -, hoA, -⟩ := hF.user .a
  obtain ⟨tB, htB, -, hoB, -⟩ := hF.user .b
  have hreadA : led.readTokenOwner accs.userA = .ok protocolFeeRecipient :=
    readTokenOwner_eq_ok.mpr ⟨tA, congrArg Account.data htA, hoA⟩
  have hreadB : led.readTokenOwner accs.userB = .ok protocolFeeRecipient :=
    readTokenOwner_eq_ok.mpr ⟨tB, congrArg Account.data htB, hoB⟩
  have hcovered : ∀ x, p.fees x ≤ led.balance (p.vault x) := fun x =>
    (Nat.le_add_left _ _).trans (hv.solvent x)
  obtain ⟨led₁, hfeeA, hF₁⟩ := payFee_accepted hF hw hacc (hvault .a ▸ hcovered .a)
  obtain ⟨hmove, -, hbal, -⟩ :=
    payFee_eq_ok (x := .a) hw hacc (hw.vault_ne_of_owner hreadA .a) hfeeA
  obtain ⟨led₂, hfeeB, -⟩ := payFee_accepted hF₁ (hw.touched hmove.touched rfl) hacc
    (show p.fees .b ≤ led₁.balance (accs.vault .b) by
      rw [← hvault, hbal, if_neg (by decide)]
      exact hcovered .b)
  simp only [processClaimProtocolFees, validate_accepted hF hp, hreadA, hreadB,
    loadPool_accepted hacc hp, Checked.ok_bind]
  rw [require_of ⟨trivial, trivial⟩, Checked.ok_bind]
  split
  · exact ⟨_, rfl⟩
  · simp only [readDecimals_accepted hF, hfeeA, hfeeB, Checked.ok_bind]
    exact ⟨_, rfl⟩

/-- A claim leaves everything that is the LPs' alone. -/
theorem claim_keeps_reserves (h : Reachable rt led) (hp : led.HasPool rt accs.pool p)
    (hi : processClaimProtocolFees rt accs led = .ok (led', events)) :
    ∃ p', led'.HasPool rt accs.pool p' ∧
      p'.swappable (led'.balance p'.vaultA) (led'.balance p'.vaultB) =
        p.swappable (led.balance p.vaultA) (led.balance p.vaultB) ∧
      led'.accounted p' = led.accounted p := by
  have hafter : Reachable rt led' := h.step (.instruction (.claimProtocolFees accs) nofun hi)
  obtain ⟨_, p', hstep, hmove⟩ := processClaimProtocolFees_refines h.sound.filed hi
  obtain rfl := hp.unique hstep.before
  have hp' := hstep.after
  have hswappable : ∀ {led : Ledger} {p : Pool}, Reachable rt led → led.HasPool rt accs.pool p →
      p.swappable (led.balance p.vaultA) (led.balance p.vaultB) =
        .ok ((led.market rt accs.pool p).swappable .a,
          (led.market rt accs.pool p).swappable .b) := by
    intro led p h hp
    obtain ⟨S, hv⟩ := h.sound.valid _ _ hp
    have hreal := (h.sound.filed.wired _ _ hp).real_lt
    exact ((h.sound.metered _ _ hp).accrues hv hreal 0).1
  have hsame : ∀ x, (led'.market rt accs.pool p').swappable x =
      (led.market rt accs.pool p).swappable x ∧
      (led'.market rt accs.pool p').reserve x = (led.market rt accs.pool p).reserve x := by
    intro x
    rcases hmove with heq | hclaim
    · rw [heq]
      exact ⟨rfl, rfl⟩
    · have hreserve := hclaim.reserve x
      have hdebt := hclaim.sameBook.debt x
      refine ⟨?_, hreserve⟩
      simp only [reserve] at hreserve
      omega
  refine ⟨p', hp', ?_, ?_⟩
  · rw [hswappable hafter hp', hswappable h hp, (hsame .a).1, (hsame .b).1]
  · rw [hafter.sound.accounted hp', h.sound.accounted hp, (hsame .a).2, (hsame .b).2]

end Claiming

/-- **The protocol's fees.** After every history of the chain, what claims have paid out of a vault
of the pool and the fees that are still there make up the skims of the swaps that brought this side
in, each of them within what the quote withheld. And the fees can always be claimed into accounts of
the recipient, which leaves everything that is the LPs' alone. -/
theorem protocol_fee_ledger {genesis : Ledger} (hg : Genesis rt genesis)
    (hrun : History rt genesis calls led) (hp : led.HasPool rt P p) :
    (∀ x, (calls.map (Call.claimed P p x)).sum + p.fees x =
      (calls.map (Call.skimmed P p x)).sum) ∧
    (∀ amountIn, p.skim amountIn + inAfterFee amountIn p.swapFeeBps ≤ amountIn) ∧
    ∀ (accs : ClaimFeesAccounts) (decimals : Side → ℕ), accs.pool = P →
      p.matchesAccounts accs = true → accs.Funded rt led protocolFeeRecipient decimals →
      ∃ led' events p', processClaimProtocolFees rt accs led = .ok (led', events) ∧
        led'.HasPool rt P p' ∧
        p'.swappable (led'.balance p'.vaultA) (led'.balance p'.vaultB) =
          p.swappable (led.balance p.vaultA) (led.balance p.vaultB) ∧
        led'.accounted p' = led.accounted p := by
  have h : Reachable rt led := ⟨genesis, hg, hrun.run⟩
  obtain ⟨S, hv⟩ := h.sound.valid _ _ hp
  refine ⟨(hrun.accounted hg).1 p hp, skim_add_inAfterFee_le hv.terms, fun accs decimals hpool hacc
    hF => ?_⟩
  subst hpool
  obtain ⟨⟨led', events⟩, hi⟩ := processClaimProtocolFees_accepted h hp hacc hF
  obtain ⟨p', hp', hswappable, haccounted⟩ := claim_keeps_reserves h hp hi
  exact ⟨led', events, p', hi, hp', hswappable, haccounted⟩

namespace Sandbox

/-- The accounts of a claim. -/
def claimAccs : ClaimFeesAccounts := { accs with userA := 60, userB := 62 }

/-- A pool whose fees have been claimed between two swaps. -/
def skimmed : List Act :=
  create ++ [add 1_000_000 1_000_000, .openToken 60 mintA protocolFeeRecipient,
    .openToken 62 mintB protocolFeeRecipient, swap 100_000 true 63 [] [],
    .call (.claimProtocolFees claimAccs), swap 50_000 true 63 [] []]

end Sandbox

theorem protocol_fee_ledger_skimmed :
    (Sandbox.poolState (Sandbox.after Sandbox.skimmed)).fees .a = 25 ∧
    (∃ calls, History sandbox Sandbox.genesis calls (Sandbox.after Sandbox.skimmed) ∧
      (calls.map (Call.claimed Sandbox.pool
        (Sandbox.poolState (Sandbox.after Sandbox.skimmed)) .a)).sum +
        (Sandbox.poolState (Sandbox.after Sandbox.skimmed)).fees .a =
        (calls.map (Call.skimmed Sandbox.pool
          (Sandbox.poolState (Sandbox.after Sandbox.skimmed)) .a)).sum) ∧
    ∃ led' events, processClaimProtocolFees sandbox Sandbox.claimAccs
      (Sandbox.after Sandbox.skimmed) = .ok (led', events) := by
  have hp : (Sandbox.after Sandbox.skimmed).HasPool sandbox Sandbox.pool _ :=
    Sandbox.hasPool (by decide +kernel)
  obtain ⟨calls, hcalls⟩ := exists_history (Relation.ReflTransGen.mono (fun _ _ hs => hs.step) _ _
    (Sandbox.after_run Sandbox.skimmed))
  obtain ⟨hsums, -, hclaim⟩ := protocol_fee_ledger Sandbox.genesis_genesis hcalls hp
  obtain ⟨led', events, -, hi, -⟩ := hclaim Sandbox.claimAccs (fun _ => 6) rfl (by decide +kernel)
    (Sandbox.funded (by decide +kernel))
  exact ⟨by decide +kernel, ⟨calls, hcalls, hsums .a⟩, led', events, hi⟩

end ChiefLiquidity
