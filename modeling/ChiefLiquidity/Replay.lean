import ChiefLiquidity.Refinement.Run
import ChiefLiquidity.SplToken
import Mathlib.Data.Nat.Pairing

/-!
# Replaying a script

Everything in this development computes, so a run of the program can be written down as a script
and replayed. The states a replay ends in are reachable. The sandbox is a runtime to replay scripts
in: its addresses are a coding of the seeds, all of them odd, and its users have even addresses.

## What replays are for

The results of this development are about all runs. A replay is one of them, and serves two ends: a
statement that fails is refuted by a run that can be recomputed, and a statement with hypotheses is
shown not to be empty by a run in which they hold. Nothing general is concluded from a replay.

## Why replays are believed

A script is evaluated by the kernel, with the processors themselves and not with some other
description of them. `replay_run` says that whatever a script leads to, steps of the chain lead to:
its calls are instructions of users, its waits are slots that pass, and its new token accounts are
opened outside the program.

## Main definitions

* `Act`, `replay` — scripts of calls, waits and new token accounts
* `Scripted` — what happens in a script
* `sandbox`, `Sandbox.genesis` — a runtime, and two mints with one rich user

## Main results

* `replay_run`, `Reachable.scripted` — a replay is a run, and ends in a reachable state
* `Sandbox.after_run`, `Sandbox.after_reachable` — so do the replays in the sandbox
-/

namespace ChiefLiquidity

/-! ### Scripts -/

/-- A line of a script: an instruction that has to be accepted, slots that pass, or a user that
opens a token account. -/
inductive Act where
  | call (i : Instruction)
  | wait (slots : ℕ)
  | openToken (k mint owner : Pubkey)

/-- What a line of a script makes of the ledger. `isUser` recognizes addresses of users. -/
def Act.run (rt : Runtime) (isUser : Pubkey → Bool) (led : Ledger) : Act → Result Ledger
  | .call i => do
    require (i.user.all isUser) .missingRequiredSigner
    let (led, _) ← processInstruction rt i led
    return led
  | .wait slots => .ok { led with slot := led.slot + slots }
  | .openToken k mint owner => do
    require (isUser k) .missingRequiredSigner
    return led.setAccount k ⟨rt.token2022Id, .token (.opened mint owner false)⟩

/-- All lines of a script, one after the other. -/
def replay (rt : Runtime) (isUser : Pubkey → Bool) : List Act → Ledger → Result Ledger
  | [], led => .ok led
  | act :: acts, led => do
    let led ← act.run rt isUser led
    replay rt isUser acts led

section Reachable

variable {rt : Runtime} {isUser : Pubkey → Bool} {led led' : Ledger} {act : Act}

/-- What happens in a script: accepted instructions, and steps outside that leave the addresses of
the program alone. -/
inductive Scripted (rt : Runtime) : Ledger → Ledger → Prop where
  | instruction {led led' events} (i : Instruction) (hsig : ∀ k ∈ i.user, ¬ rt.IsPda k) :
      processInstruction rt i led = .ok (led', events) → Scripted rt led led'
  | outside {led led' : Ledger} : Outside rt led led' →
      (∀ k, rt.IsPda k → led'.accts k = led.accts k) → Scripted rt led led'

theorem Scripted.step (h : Scripted rt led led') : Step rt led led' := by
  cases h with
  | instruction i hsig hi => exact .instruction i hsig hi
  | outside hout => exact .outside hout

theorem Act.run_scripted (hfresh : ∀ k, ¬ rt.IsPda k → (led.accts k).owner = rt.programId →
      (led.accts k).data.Blank) (huser : ∀ k, isUser k = true → ¬ rt.IsPda k)
    (h : act.run rt isUser led = .ok led') : Scripted rt led led' := by
  cases act with
  | call i =>
    simp only [Act.run, Checked.bind_eq_ok, require_eq_ok, exists_const, Prod.exists,
      Checked.pure_eq_ok] at h
    obtain ⟨hall, _, events, hi, rfl⟩ := h
    refine .instruction i (fun k hk => huser k ?_) hi
    rw [Option.mem_def] at hk
    simpa [hk] using hall
  | wait slots =>
    cases h
    exact .outside ⟨Nat.le_add_right _ _, fun k _ => .same _, fun k hk hk' => hfresh k hk hk'⟩
      fun _ _ => rfl
  | openToken a mint owner =>
    simp only [Act.run, Checked.bind_eq_ok, require_eq_ok, exists_const, Checked.pure_eq_ok] at h
    obtain ⟨ha, rfl⟩ := h
    have hne : ∀ k, rt.IsPda k → k ≠ a := fun k hk hka => huser a ha (hka ▸ hk)
    refine .outside ⟨le_rfl, fun k hk => ?_, fun k hk howner => ?_⟩
      fun k hk => Ledger.setAccount_accts_of_ne (hne k hk)
    · rw [Ledger.setAccount_accts_of_ne (hne k hk)]
      exact .same _
    · by_cases hka : k = a
      · rw [hka, Ledger.setAccount_accts_self]
        trivial
      · rw [Ledger.setAccount_accts_of_ne hka] at howner ⊢
        exact hfresh k hk howner

/-- **A replay is a run of a script.** -/
theorem replay_run {acts : List Act} (huser : ∀ k, isUser k = true → ¬ rt.IsPda k)
    (h : Reachable rt led) (hrun : replay rt isUser acts led = .ok led') :
    Relation.ReflTransGen (Scripted rt) led led' := by
  induction acts generalizing led with
  | nil =>
    cases hrun
    exact .refl
  | cons act acts ih =>
    simp only [replay, Checked.bind_eq_ok] at hrun
    obtain ⟨led₁, hact, hrest⟩ := hrun
    have hfiled := h.sound.filed
    have hfresh : ∀ k, ¬ rt.IsPda k → (led.accts k).owner = rt.programId →
        (led.accts k).data.Blank := by
      intro k hk howner
      by_contra hlive
      exact hk (hfiled.isPda_of_live howner hlive)
    have hstep := Act.run_scripted hfresh huser hact
    exact .head hstep (ih (h.step hstep.step) hrest)

/-- **What a script makes of a reachable state is reachable.** -/
theorem Reachable.scripted (h : Reachable rt led)
    (hrun : Relation.ReflTransGen (Scripted rt) led led') : Reachable rt led' :=
  h.run (Relation.ReflTransGen.mono (fun _ _ hs => hs.step) _ _ hrun)

end Reachable

/-! ### The sandbox -/

/-- A coding of the seeds. -/
def Seeds.code : Seeds → ℕ
  | .pool a b => 6 * Nat.pair a b
  | .vaultA p => 6 * p + 1
  | .vaultB p => 6 * p + 2
  | .lpMint p => 6 * p + 3
  | .loan p borrower nonce => 6 * Nat.pair p (Nat.pair borrower nonce) + 4
  | .band p direction bandId => 6 * Nat.pair p (Nat.pair direction bandId) + 5

/-- A runtime whose addresses are the odd numbers the seeds code to. -/
def sandbox : Runtime where
  programId := 10
  token2022Id := 12
  tokens := splToken
  findProgramAddress s := (2 * s.code + 1, 255)
  createProgramAddress s bump := if bump = 255 then some (2 * s.code + 1) else none
  create_find s := by simp
  find_ne_default s := by simp [defaultPubkey]
  find_ne_recipient s h := by
    have hodd : (2 * s.code + 1) % 2 = protocolFeeRecipient % 2 := congrArg (· % 2) h
    rw [show protocolFeeRecipient % 2 = 0 by decide] at hodd
    omega
  programId_ne_system := by decide
  programId_ne_token := by decide

namespace Sandbox

/-- Addresses of users are even. -/
def isUser (k : Pubkey) : Bool := k % 2 = 0

theorem not_isPda {k : Pubkey} (h : isUser k = true) : ¬ sandbox.IsPda k := by
  rintro ⟨s, rfl⟩
  have heven : (2 * s.code + 1) % 2 = 0 := of_decide_eq_true h
  omega

/-- The mint of side A, which sorts first. -/
def mintA : Pubkey := 20

/-- The mint of side B. -/
def mintB : Pubkey := 22

/-- The user, with an account of each mint. -/
def user : Pubkey := 40

/-- The user's account of the mint of side A. -/
def userA : Pubkey := 30

/-- The user's account of the mint of side B. -/
def userB : Pubkey := 32

/-- The user's account of the LP mint. -/
def userLp : Pubkey := 34

/-- The pool of the two mints. -/
def pool : Pubkey := (sandbox.findProgramAddress (.pool mintA mintB)).1

/-- Its vault of side A. -/
def vaultA : Pubkey := (sandbox.findProgramAddress (.vaultA pool)).1

/-- Its vault of side B. -/
def vaultB : Pubkey := (sandbox.findProgramAddress (.vaultB pool)).1

/-- Its LP mint. -/
def lpMint : Pubkey := (sandbox.findProgramAddress (.lpMint pool)).1

/-- The loan of the user with a nonce. -/
def loan (nonce : ℕ) : Pubkey := (sandbox.findProgramAddress (.loan pool user nonce)).1

/-- The band of a direction with an id. -/
def band (direction bandId : ℕ) : Pubkey :=
  (sandbox.findProgramAddress (.band pool direction bandId)).1

/-- A token account of the user. -/
def tokens (mint : Pubkey) (amount : ℕ) (h : amount < 2 ^ 64) : Account :=
  ⟨sandbox.token2022Id, .token ((TokenAccount.opened mint user false).withAmount amount h)⟩

/-- A mint without extensions. -/
def mint : Account := ⟨sandbox.token2022Id, .mint ⟨none, 10 ^ 18, 6, [], none, by norm_num⟩⟩

/-- The chain before the program is used. -/
def genesis : Ledger where
  accts
    | 20 => mint
    | 22 => mint
    | 30 => tokens mintA (10 ^ 18) (by norm_num)
    | 32 => tokens mintB (10 ^ 18) (by norm_num)
    | _ => .unused
  slot := 0

theorem genesis_genesis : Genesis sandbox genesis where
  pda := by
    rintro k ⟨s, rfl⟩
    have hodd : ∀ n : ℕ, n % 2 = 0 → (sandbox.findProgramAddress s).1 ≠ n := by
      rintro n hn rfl
      have heven : (2 * s.code + 1) % 2 = 0 := hn
      omega
    simp only [genesis]
    split
    · exact absurd ‹_› (hodd _ rfl)
    · exact absurd ‹_› (hodd _ rfl)
    · exact absurd ‹_› (hodd _ rfl)
    · exact absurd ‹_› (hodd _ rfl)
    · rfl
  fresh k := by
    simp only [genesis]
    split <;> exact fun _ => trivial

/-- The ledger a script leads to: the chain before the program is used, if the script fails. -/
def after (acts : List Act) : Ledger :=
  match replay sandbox isUser acts genesis with
  | .ok led => led
  | .error _ => genesis

theorem genesis_reachable : Reachable sandbox genesis := ⟨genesis, genesis_genesis, .refl⟩

/-- **Scripts are runs.** -/
theorem after_run (acts : List Act) :
    Relation.ReflTransGen (Scripted sandbox) genesis (after acts) := by
  rw [after]
  split
  · rename_i hrun
    exact replay_run (fun _ => not_isPda) genesis_reachable hrun
  · exact .refl

/-- **Scripts lead to reachable states.** -/
theorem after_reachable (acts : List Act) : Reachable sandbox (after acts) :=
  genesis_reachable.scripted (after_run acts)

/-- The accounts of an instruction about the pool. -/
def accs : PoolAccounts where
  pool := pool
  vaultA := vaultA
  vaultB := vaultB
  userA := userA
  userB := userB
  mintA := mintA
  mintB := mintB
  user := user
  userIsSigner := true
  tokenProgramA := sandbox.token2022Id
  tokenProgramB := sandbox.token2022Id

/-- Create the pool, and an account of its LP mint. -/
def create : List Act :=
  [.call (.initializePool
    { pool, mintA, mintB, vaultA, vaultB, lpMint, authority := user, authorityIsSigner := true,
      tokenProgramA := sandbox.token2022Id, tokenProgramB := sandbox.token2022Id }),
    .openToken userLp lpMint user]

/-- Add up to so much liquidity. -/
def add (amountA amountB : ℕ) : Act :=
  .call (.addLiquidity { accs with lpMint, userLp } amountA amountB 0)

/-- Open a loan with these sides, which has to fall into this band. -/
def lend (nonce sides collateral debt bandId : ℕ) : Act :=
  .call (.openLoan { accs with loan := loan nonce, band := band sides bandId } sides collateral debt
    nonce)

/-- Repay the loan with these sides in this band. -/
def repay (nonce sides bandId : ℕ) : Act :=
  .call (.repayLoan { accs with loan := loan nonce, band := band sides bandId })

/-- The accounts of the loan with this nonce and these sides, in this band. -/
def loanAccs (nonce sides bandId : ℕ) : LoanAccounts :=
  { accs with loan := loan nonce, band := band sides bandId }

theorem loanAccs_user (nonce sides bandId : ℕ) :
    ¬ sandbox.IsPda (loanAccs nonce sides bandId).user :=
  not_isPda (show isUser user = true by decide)

/-- The accounts of a swap with this liquidation context. -/
def swapAccs (tail : List Pubkey) : SwapAccounts := { accs with tail }

theorem swapAccs_user (tail : List Pubkey) : ¬ sandbox.IsPda (swapAccs tail).user :=
  not_isPda (show isUser user = true by decide)

theorem swapAccs_pool (tail tail' : List Pubkey) : (swapAccs tail).pool = (swapAccs tail').pool :=
  rfl

/-- Swap, with this boundary and this liquidation context. -/
def swap (amountIn : ℕ) (aToB : Bool) (bandBoundary : ℕ) (counts : List ℕ) (tail : List Pubkey) :
    Act :=
  .call (.swap (swapAccs tail) amountIn 0 aToB bandBoundary counts)

/-- The state of the pool. -/
def poolState (led : Ledger) : Pool :=
  match (led.accts pool).data with
  | .pool p => p
  | _ => .zeroed

/-- Whether the pool is there. -/
def isLive (led : Ledger) : Bool :=
  match led.accts pool with
  | ⟨o, .pool p⟩ => o = sandbox.programId ∧ p.isInitialized
  | _ => false

theorem hasPool {led : Ledger} (h : isLive led = true) :
    led.HasPool sandbox pool (poolState led) := by
  rw [isLive] at h
  split at h
  · rename_i o p hk
    obtain ⟨rfl, hinit⟩ := of_decide_eq_true h
    have hstate : poolState led = p := by rw [poolState, hk]
    rw [hstate]
    exact ⟨hk, hinit⟩
  · cases h

/-- Whether a loan of the pool is open. -/
def isOpen (led : Ledger) (k : Pubkey) : Bool := (led.openLoan sandbox pool k).isSome

/-- Whether an account holds the tombstone of a liquidated loan. -/
def isTombstone (led : Ledger) (k : Pubkey) : Bool :=
  match led.accts k with
  | ⟨o, .loan l⟩ => o = sandbox.programId ∧ l.status = Loan.statusLiquidated
  | _ => false

/-- Whether the loan at `k` of one ledger, taken to the accounted reserves of another, is safe from
liquidation there. -/
def survives (led : Ledger) (k : Pubkey) (direction : TriggerDirection) (led' : Ledger) : Bool :=
  match led.openLoan sandbox pool k, led'.accounted (poolState led') with
  | some l, .ok (a, b) => !isLiquidatable l.triggerPriceWad direction (spotWad a b)
  | _, _ => false

theorem survives_iff {led led' : Ledger} {k : Pubkey} {direction : TriggerDirection} :
    survives led k direction led' = true ↔
      ∃ l a b, led.openLoan sandbox pool k = some l ∧
        led'.accounted (poolState led') = .ok (a, b) ∧
          isLiquidatable l.triggerPriceWad direction (spotWad a b) = false := by
  rw [survives]
  cases led.openLoan sandbox pool k <;> cases led'.accounted (poolState led') <;>
    simp [Prod.eq_iff_fst_eq_snd_eq, and_assoc]

theorem liquidates {led led' : Ledger} {k : Pubkey} (hopen : isOpen led k = true)
    (htomb : isTombstone led' k = true) : Liquidates sandbox pool led led' k := by
  refine ⟨Option.isSome_iff_exists.mp hopen, ?_⟩
  rw [isTombstone] at htomb
  split at htomb
  · rename_i o l hk
    obtain ⟨rfl, hstatus⟩ := of_decide_eq_true htomb
    exact ⟨l, hk, hstatus⟩
  · cases htomb

/-- A loan that is still open was not liquidated. -/
theorem not_liquidates {led led' : Ledger} {k : Pubkey} (hopen : isOpen led' k = true) :
    ¬ Liquidates sandbox pool led led' k := by
  rintro ⟨-, l, hk, hstatus⟩
  obtain ⟨l', hl'⟩ := Option.isSome_iff_exists.mp hopen
  obtain ⟨hk', -, hopen', -⟩ := Ledger.openLoan_eq_some.mp hl'
  rw [hk] at hk'
  cases hk'
  simp [Loan.isOpen, hstatus, Loan.statusLiquidated, Loan.statusOpen] at hopen'

/-- The accounted reserves of the pool, when they are these. -/
def isAccounted (led : Ledger) (a b : ℕ) : Bool :=
  match led.accounted (poolState led) with
  | .ok r => r = (a, b)
  | .error _ => false

theorem accounted_eq {led : Ledger} {a b : ℕ} (h : isAccounted led a b = true) :
    led.accounted (poolState led) = .ok (a, b) := by
  rw [isAccounted] at h
  split at h
  · rename_i r hr
    rw [hr, of_decide_eq_true h]
  · cases h

/-- The ledger some slots later. -/
def waited (slots : ℕ) (led : Ledger) : Ledger := { led with slot := led.slot + slots }

theorem waited_hasPool {slots : ℕ} {led : Ledger} {p : Pool} :
    (waited slots led).HasPool sandbox pool p ↔ led.HasPool sandbox pool p := Iff.rfl

theorem waited_balance {slots : ℕ} {led : Ledger} {k : Pubkey} :
    (waited slots led).balance k = led.balance k := rfl

theorem lt_waited_slot {slots : ℕ} {led : Ledger} (h : 0 < slots) :
    led.slot < (waited slots led).slot := Nat.lt_add_of_pos_right h

/-- Nobody else can have written a record of the program. -/
theorem fresh_of_reachable {led : Ledger} (h : Reachable sandbox led) (k : Pubkey)
    (hk : ¬ sandbox.IsPda k) (howner : (led.accts k).owner = sandbox.programId) :
    (led.accts k).data.Blank := by
  by_contra hlive
  exact hk (h.sound.filed.isPda_of_live howner hlive)

theorem waited_outside {slots : ℕ} {led : Ledger} (h : Reachable sandbox led) :
    Outside sandbox led (waited slots led) :=
  ⟨Nat.le_add_right _ _, fun _ _ => .same _, fun _ hk => fresh_of_reachable h _ hk⟩

theorem waited_step {slots : ℕ} {led : Ledger} (h : Reachable sandbox led) :
    Step sandbox led (waited slots led) := .outside (waited_outside h)

/-- The ledger once somebody has sent tokens to the vault of `mintA`. -/
def donated (amount : ℕ) (led : Ledger) : Ledger :=
  match led.accts vaultA with
  | ⟨o, .token t⟩ =>
    if h : t.amount + amount < 2 ^ 64 then
      led.setAccount vaultA ⟨o, .token (t.withAmount (t.amount + amount) h)⟩
    else led
  | _ => led

/-- Anybody can send tokens to a vault. -/
theorem donated_step {amount : ℕ} {led : Ledger} (h : Reachable sandbox led) :
    Step sandbox led (donated amount led) := by
  have hfresh := fresh_of_reachable h
  have hsame : Step sandbox led led := .outside ⟨le_rfl, fun k _ => .same _, hfresh⟩
  rw [donated]
  split
  · rename_i o t hk
    split
    · rename_i hfit
      refine .outside ⟨le_rfl, fun k _ => ?_, fun k hpda howner => ?_⟩
      · by_cases hkv : k = vaultA
        · subst hkv
          rw [Ledger.setAccount_accts_self, hk]
          exact .deposit (by rfl) (by rfl) (by rfl) (Nat.le_add_right _ _)
        · rw [Ledger.setAccount_accts_of_ne hkv]
          exact .same _
      · have hkv : k ≠ vaultA := fun hkv => hpda ⟨_, hkv.symm⟩
        rw [Ledger.setAccount_accts_of_ne hkv] at howner ⊢
        exact hfresh k hpda howner
    · exact hsame
  · exact hsame

/-- The ledger once the user has burnt their LP tokens. -/
def burned (led : Ledger) : Ledger :=
  match led.accts userLp, led.accts lpMint with
  | ⟨o, .token t⟩, ⟨o', .mint m⟩ =>
    (led.setAccount userLp ⟨o, .token (t.debit t.amount)⟩).setAccount lpMint
      ⟨o', .mint { m with
        supply := m.supply - t.amount, supply_lt := (Nat.sub_le ..).trans_lt m.supply_lt }⟩
  | _, _ => led

/-- Holders can burn their tokens. -/
theorem burned_step {led : Ledger} (h : Reachable sandbox led) : Step sandbox led (burned led) := by
  have hfresh := fresh_of_reachable h
  have hsame : Step sandbox led led := .outside ⟨le_rfl, fun k _ => .same _, hfresh⟩
  have huser : ¬ sandbox.IsPda userLp := not_isPda (by decide)
  rw [burned]
  split
  · rename_i o t o' m hlp hmint
    refine .outside ⟨le_rfl, fun k hpda => ?_, fun k hpda howner => ?_⟩
    · have hku : k ≠ userLp := fun hku => huser (hku ▸ hpda)
      by_cases hkm : k = lpMint
      · subst hkm
        rw [Ledger.setAccount_accts_self, hmint]
        exact .burn rfl (Nat.sub_le ..)
      · rw [Ledger.setAccount_accts_of_ne hkm, Ledger.setAccount_accts_of_ne hku]
        exact .same _
    · have hkm : k ≠ lpMint := fun hkm => hpda ⟨_, hkm.symm⟩
      rw [Ledger.setAccount_accts_of_ne hkm] at howner ⊢
      by_cases hku : k = userLp
      · subst hku
        rw [Ledger.setAccount_accts_self]
        trivial
      · rw [Ledger.setAccount_accts_of_ne hku] at howner ⊢
        exact hfresh k hpda howner
  · exact hsame

end Sandbox

end ChiefLiquidity
