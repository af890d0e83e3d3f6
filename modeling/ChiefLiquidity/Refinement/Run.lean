import ChiefLiquidity.Market.Interest
import ChiefLiquidity.Market.Supply
import ChiefLiquidity.Refinement.Liquidity
import ChiefLiquidity.Refinement.Loans
import ChiefLiquidity.Refinement.Swap

/-!
# Runs refine moves

Whatever happens to the chain, every pool of it makes a move: the pool an instruction is about
makes the move of that instruction, and all other pools drift. So every pool of every reachable
state is wired, and its market is valid.

## One step, all pools

A step is about one pool at most. Seen from that pool it is a move, and seen from any other it is a
drift: tokens may have arrived in its vaults and LP tokens may have been burned, and that is all.
The invariants of each market hold before and after, for a set of keys that changes with the moves.

## What is carried along a run

Validity of each market is not enough for an induction. The wiring has to be kept, since a pool
whose vault could change hands would have no balance to speak of, and the filing, since a record out
of place could be mistaken for one of another pool. `Sound` bundles all of it; it holds at the
start, where there are no records at all, and every step keeps it.

## Main definitions

* `Sound` — every record is filed and the invariants of every market hold
* `Liquidates` — what a liquidated loan shows in the accounts
* `Made` — the move each instruction makes with the pool it is about
* `Effect` — the same, whichever instruction it was

## Main results

* `Outside.drift`, `Filed.outside` — outside the program
* `processInstruction_made` — every accepted instruction is about one pool and makes its move
* `Step.move`, `Step.new`, `Step.sound` — one step
* `Reachable.sound` — every run
-/

namespace ChiefLiquidity

open Ledger Market

variable {rt : Runtime} {led led' : Ledger} {P Q k : Pubkey} {p p' q : Pool}
  {events : List Event}

/-! ### Outside the program -/

/-- A live record of the program that is there after an outside step was there before it. -/
theorem Outside.record_inv {d : AccountData} (h : Outside rt led led')
    (hk : led'.accts k = ⟨rt.programId, d⟩) (hplain : d.Plain) (hlive : ¬ d.Blank) :
    rt.IsPda k ∧ led.accts k = ⟨rt.programId, d⟩ := by
  have hpda : rt.IsPda k := by
    by_contra hnot
    have hblank := h.fresh k hnot (by rw [hk])
    rw [hk] at hblank
    exact hlive hblank
  refine ⟨hpda, ?_⟩
  have hdrift := h.pda k hpda
  rw [hk] at hdrift
  generalize led.accts k = a at hdrift ⊢
  generalize hb : (⟨rt.programId, d⟩ : Account) = b at hdrift
  cases hdrift with
  | same => rfl
  | deposit =>
    cases hb
    exact hplain.elim
  | burn =>
    cases hb
    exact hplain.elim
  | collect => exact absurd (congrArg Account.owner hb) rt.programId_ne_system

/-- A live record at an address of the program stays. -/
theorem Outside.record {d : AccountData} (h : Outside rt led led') (hpda : rt.IsPda k)
    (hk : led.accts k = ⟨rt.programId, d⟩) (hplain : d.Plain) (hlive : ¬ d.Blank) :
    led'.accts k = ⟨rt.programId, d⟩ := by
  have hdrift := h.pda k hpda
  rw [hk] at hdrift
  generalize led'.accts k = a at hdrift ⊢
  cases hdrift with
  | same => rfl
  | deposit => exact hplain.elim
  | burn => exact hplain.elim
  | collect hblank => exact absurd hblank hlive

theorem not_blank_pool (h : p.isInitialized = true) : ¬ (.pool p : AccountData).Blank := by
  simp [AccountData.Blank, h]

theorem not_blank_loan {l : Loan} (h : l.isInitialized = true) :
    ¬ (.loan l : AccountData).Blank := by
  simp [AccountData.Blank, h]

theorem not_blank_band {b : LoanIndexBand} (h : b.isInitialized = true) :
    ¬ (.band b : AccountData).Blank := by
  simp [AccountData.Blank, h]

theorem Outside.hasPool_inv (h : Outside rt led led') (hp : led'.HasPool rt P p) :
    led.HasPool rt P p :=
  ⟨(h.record_inv hp.1 trivial (not_blank_pool hp.2)).2, hp.2⟩

theorem Outside.hasPool (h : Outside rt led led') (hfiled : Filed rt led)
    (hp : led.HasPool rt P p) : led'.HasPool rt P p :=
  ⟨h.record (hfiled.wired P p hp).pda hp.1 trivial (not_blank_pool hp.2), hp.2⟩

theorem Outside.openLoan (h : Outside rt led led') (hfiled : Filed rt led) :
    led'.openLoan rt P = led.openLoan rt P := by
  funext k
  ext l
  simp only [openLoan_eq_some]
  constructor
  · rintro ⟨hk, hinit, hrest⟩
    exact ⟨(h.record_inv hk trivial (not_blank_loan hinit)).2, hinit, hrest⟩
  · rintro ⟨hk, hinit, hrest⟩
    exact ⟨h.record (hfiled.loan k l hk hinit).1 hk trivial (not_blank_loan hinit), hinit, hrest⟩

theorem Outside.bandCount (h : Outside rt led led') : led'.bandCount rt P = led.bandCount rt P := by
  funext d b
  ext n
  simp only [bandCount_eq_some]
  constructor
  · rintro ⟨x, hk, hinit, hrest⟩
    exact ⟨x, (h.record_inv hk trivial (not_blank_band hinit)).2, hinit, hrest⟩
  · rintro ⟨x, hk, hinit, hrest⟩
    exact ⟨x, h.record ⟨_, rfl⟩ hk trivial (not_blank_band hinit), hinit, hrest⟩

/-- A token account at an address of the program can only receive. -/
theorem Outside.token {o : Pubkey} {t : TokenAccount} (h : Outside rt led led')
    (hpda : rt.IsPda k) (hk : led.accts k = ⟨o, .token t⟩)
    (ho : (led.accts k).owner ≠ rt.programId) :
    ∃ t', led'.accts k = ⟨o, .token t'⟩ ∧ t'.mint = t.mint ∧ t'.owner = t.owner ∧
      t'.delegate = t.delegate ∧ t.amount ≤ t'.amount := by
  have hdrift := h.pda k hpda
  rw [hk] at hdrift ho
  generalize led'.accts k = a at hdrift ⊢
  cases hdrift with
  | same => exact ⟨t, rfl, rfl, rfl, rfl, le_refl _⟩
  | deposit h₁ h₂ h₃ h₄ => exact ⟨_, rfl, h₁, h₂, h₃, h₄⟩
  | collect => exact absurd rfl ho

/-- A mint at an address of the program can only be burned from. -/
theorem Outside.mint {o : Pubkey} {m : Mint} (h : Outside rt led led') (hpda : rt.IsPda k)
    (hk : led.accts k = ⟨o, .mint m⟩) (ho : (led.accts k).owner ≠ rt.programId) :
    ∃ m', led'.accts k = ⟨o, .mint m'⟩ ∧ m'.mintAuthority = m.mintAuthority ∧
      m'.supply ≤ m.supply := by
  have hdrift := h.pda k hpda
  rw [hk] at hdrift ho
  generalize led'.accts k = a at hdrift ⊢
  cases hdrift with
  | same => exact ⟨m, rfl, rfl, le_refl _⟩
  | burn h₁ h₂ => exact ⟨_, rfl, h₁, h₂⟩
  | collect => exact absurd rfl ho

/-- **Outside the program every pool drifts.** -/
theorem Outside.drift (h : Outside rt led led') (hfiled : Filed rt led)
    (hw : Wired rt led P p) : DriftMove (led.market rt P p) (led'.market rt P p) where
  pool := rfl
  real x := by
    obtain ⟨o, t, hk, -, -, -, hbal⟩ := hw.balance x
    obtain ⟨t', hk', -, -, -, hle⟩ := h.token (hw.vault_pda x) hk (hw.vault_owner x)
    rw [market_real, market_real, hbal, balance_of_data (congrArg Account.data hk')]
    exact hle
  supply := by
    obtain ⟨o, m, hk, -⟩ := hw.lpMint
    obtain ⟨m', hk', -, hle⟩ := h.mint hw.lpMint_pda hk hw.lpMint_owner
    rw [market_supply, market_supply, mintSupply_of_data (congrArg Account.data hk),
      mintSupply_of_data (congrArg Account.data hk')]
    exact hle
  loans := h.openLoan hfiled
  bands := h.bandCount
  slot := h.slot_le

/-- The wiring survives what happens outside. -/
theorem Wired.outside (hw : Wired rt led P p) (h : Outside rt led led') : Wired rt led' P p where
  key := hw.key
  mint_ne := hw.mint_ne
  vault_pda := hw.vault_pda
  vault x := by
    obtain ⟨o, t, hk, hm, ho, hd⟩ := hw.vault x
    obtain ⟨t', hk', h₁, h₂, h₃, -⟩ := h.token (hw.vault_pda x) hk (hw.vault_owner x)
    exact ⟨o, t', hk', h₁.trans hm, h₂.trans ho, h₃.trans hd⟩
  lpMint_pda := hw.lpMint_pda
  lpMint := by
    obtain ⟨o, m, hk, hm⟩ := hw.lpMint
    obtain ⟨m', hk', h₁, -⟩ := h.mint hw.lpMint_pda hk hw.lpMint_owner
    exact ⟨o, m', hk', h₁.trans hm⟩
  lpMint_ne := hw.lpMint_ne
  vault_owner x := by
    obtain ⟨o, t, hk, -⟩ := hw.vault x
    obtain ⟨t', hk', -⟩ := h.token (hw.vault_pda x) hk (hw.vault_owner x)
    have howner := hw.vault_owner x
    rw [hk] at howner
    rwa [hk']
  lpMint_owner := by
    obtain ⟨o, m, hk, -⟩ := hw.lpMint
    obtain ⟨m', hk', -⟩ := h.mint hw.lpMint_pda hk hw.lpMint_owner
    have howner := hw.lpMint_owner
    rw [hk] at howner
    rwa [hk']

/-- **The filing survives what happens outside.** -/
theorem Filed.outside (hfiled : Filed rt led) (h : Outside rt led led') : Filed rt led' where
  wired P p hp := (hfiled.wired P p (h.hasPool_inv hp)).outside h
  loan k l hk hinit := by
    obtain ⟨hpda, hk⟩ := h.record_inv hk trivial (not_blank_loan hinit)
    obtain ⟨-, p, hp⟩ := hfiled.loan k l hk hinit
    exact ⟨hpda, p, h.hasPool hfiled hp⟩
  band k b hk hinit := by
    obtain ⟨-, hk⟩ := h.record_inv hk trivial (not_blank_band hinit)
    obtain ⟨hkey, p, hp⟩ := hfiled.band k b hk hinit
    exact ⟨hkey, p, h.hasPool hfiled hp⟩
  owned k o d hpda hk hplain hne := by
    have hdrift := h.pda k hpda
    have hold := hfiled.owned k (led.accts k).owner (led.accts k).data hpda rfl
    rw [hk] at hdrift
    generalize led.accts k = a at hdrift hold
    cases hdrift with
    | same => exact hold hplain hne
    | deposit => exact hplain.elim
    | burn => exact hplain.elim
    | collect => exact absurd rfl hne

/-- A live record of the program is at an address of the program. -/
theorem Filed.isPda_of_live (hfiled : Filed rt led) (howner : (led.accts k).owner = rt.programId)
    (hlive : ¬ (led.accts k).data.Blank) : rt.IsPda k := by
  rcases hk : led.accts k with ⟨o, d⟩
  rw [hk] at howner hlive
  obtain rfl := howner
  cases d with
  | pool p => exact (hfiled.wired k p ⟨hk, by simpa [AccountData.Blank] using hlive⟩).pda
  | loan l => exact (hfiled.loan k l hk (by simpa [AccountData.Blank] using hlive)).1
  | band b =>
    obtain ⟨hkey, -⟩ := hfiled.band k b hk (by simpa [AccountData.Blank] using hlive)
    exact ⟨_, congrArg Prod.fst hkey⟩
  | _ => exact (hlive trivial).elim

/-! ### One instruction -/

/-- Every record is filed, and every market is valid, metered and live. -/
structure Sound (rt : Runtime) (led : Ledger) : Prop where
  filed : Filed rt led
  valid : ∀ P p, led.HasPool rt P p → ∃ S, (led.market rt P p).Valid S
  metered : ∀ P p, led.HasPool rt P p → (led.market rt P p).Metered
  live : ∀ P p, led.HasPool rt P p → (led.market rt P p).Live

/-- The balance of a vault is a machine word. -/
theorem Wired.real_lt (h : Wired rt led P p) (x : Side) : (led.market rt P p).real x < 2 ^ 64 := by
  obtain ⟨o, t, -, -, -, -, hbal⟩ := h.balance x
  rw [market_real, hbal]
  exact t.amount_lt

/-- The accounted reserves of a pool are those of its market. -/
theorem Sound.accounted (h : Sound rt led) (hp : led.HasPool rt P p) :
    led.accounted p = .ok ((led.market rt P p).reserve .a, (led.market rt P p).reserve .b) := by
  obtain ⟨S, hv⟩ := h.valid P p hp
  exact ((h.metered P p hp).accrues hv (h.filed.wired P p hp).real_lt led.slot).2.1

/-- The step from `led` to `led'` liquidates the loan of the pool `P` at `k`: it was open before,
and left its tombstone. -/
def Liquidates (rt : Runtime) (P : Pubkey) (led led' : Ledger) (k : Pubkey) : Prop :=
  (∃ l, led.openLoan rt P k = some l) ∧
    ∃ l, led'.accts k = ⟨rt.programId, .loan l⟩ ∧ l.status = Loan.statusLiquidated

/-- The loans of a swap leave their tombstones. -/
theorem Swapped.liquidates {accs : SwapAccounts} {f : SwapFigures} {ks : List Pubkey}
    (h : Swapped rt accs f ks p p' led led') (hk : k ∈ ks) :
    Liquidates rt accs.pool led led' k := by
  obtain ⟨led₁, hliq, hrest⟩ := h.records
  have hmem := List.mem_toFinset.mpr hk
  obtain ⟨l, hl⟩ := hliq.isOpen k hmem
  have htomb := hliq.loan hmem hl
  have hne : k ≠ accs.pool := by
    rintro rfl
    have hloan := (openLoan_eq_some.mp hl).1
    rw [h.step.before.1] at hloan
    cases hloan
  refine ⟨⟨l, hl⟩, l.tombstone led.slot, ?_, rfl⟩
  rw [hrest k hne (by rw [htomb]; trivial), htomb]

/-- What an accepted instruction made of the pool it is about: a new pool, or the move of that
instruction. -/
inductive Made (rt : Runtime) (led led' : Ledger) : Pubkey → Instruction → Prop where
  | initializePool {accs : InitializeAccounts} {p' : Pool} :
      (∀ q, ¬ led.HasPool rt accs.pool q) → led'.HasPool rt accs.pool p' →
      Wired rt led' accs.pool p' → Touched rt accs.pool led led' →
      (led'.market rt accs.pool p').New → Made rt led led' accs.pool (.initializePool accs)
  | addLiquidity {accs : LiquidityAccounts} {maxA maxB minLp : ℕ} {p p' q : Pool}
      {amount : Side → ℕ} {lp : ℕ} : PoolStep rt accs.pool led led' p p' →
      Deposit (led.market rt accs.pool p) q amount lp (led'.market rt accs.pool p') →
      Made rt led led' accs.pool (.addLiquidity accs maxA maxB minLp)
  | removeLiquidity {accs : LiquidityAccounts} {lp minA minB : ℕ} {p p' q : Pool}
      {share : Side → ℕ} : PoolStep rt accs.pool led led' p p' →
      Withdraw (led.market rt accs.pool p) q lp share (fun x => accs.paidOut x (share x))
        (led'.market rt accs.pool p') →
      Made rt led led' accs.pool (.removeLiquidity accs lp minA minB)
  | openLoan {accs : LoanAccounts} {sides c d nonce : ℕ} {p p' q : Pool} {l : Loan}
      {s : LoanSides} : PoolStep rt accs.pool led led' p p' →
      Borrow (led.market rt accs.pool p) q accs.loan l s
        (accs.paidOut s.debtSide l.debtPrincipal) (led'.market rt accs.pool p') →
      Made rt led led' accs.pool (.openLoan accs sides c d nonce)
  | repayLoan {accs : LoanAccounts} {p p' q : Pool} {l : Loan} {s : LoanSides} {owed : ℕ} :
      PoolStep rt accs.pool led led' p p' →
      Repay (led.market rt accs.pool p) q accs.loan l s owed
        (accs.paidOut s.collateralSide l.collateralAmount) (led'.market rt accs.pool p') →
      Made rt led led' accs.pool (.repayLoan accs)
  | claimProtocolFees {accs : ClaimFeesAccounts} {p p' : Pool} :
      PoolStep rt accs.pool led led' p p' →
      (led'.market rt accs.pool p' = led.market rt accs.pool p ∨
        ClaimFees (led.market rt accs.pool p) (led'.market rt accs.pool p')) →
      Made rt led led' accs.pool (.claimProtocolFees accs)
  | claimLiquidatedRent {accs : ClaimRentAccounts} {P : Pubkey} {p : Pool} :
      PoolStep rt P led led' p p → led'.market rt P p = led.market rt P p →
      Made rt led led' P (.claimLiquidatedRent accs)
  | swap {accs : SwapAccounts} {amountIn minOut bandBoundary : ℕ} {aToB : Bool}
      {counts ks : List ℕ} {p p' : Pool} {f : SwapFigures} :
      Swapped rt accs f ks p p' led led' → f.aToB = aToB → f.amountIn = amountIn →
      f.paid = accs.paidOut (outSide aToB) f.amountOut →
      Made rt led led' accs.pool (.swap accs amountIn minOut aToB bandBoundary counts)

/-- **Every accepted instruction is about one pool**, which it creates or makes its move with. -/
theorem processInstruction_made {i : Instruction} (h : Sound rt led)
    (hsig : ∀ k ∈ i.user, ¬ rt.IsPda k) (hi : processInstruction rt i led = .ok (led', events)) :
    ∃ P, Made rt led led' P i := by
  cases i with
  | initializePool accs =>
    obtain ⟨hno, p, hp, hw, htouched, hv⟩ := processInitializePool_creates h.filed hi
    exact ⟨_, .initializePool hno hp hw htouched hv⟩
  | addLiquidity accs maxA maxB minLp =>
    obtain ⟨p, p', q, amount, lp, hstep, hmove⟩ :=
      processAddLiquidity_refines h.filed (hsig _ rfl) hi
    exact ⟨_, .addLiquidity hstep hmove⟩
  | removeLiquidity accs lp minA minB =>
    obtain ⟨p, p', q, share, hstep, hmove⟩ :=
      processRemoveLiquidity_refines h.filed (hsig _ rfl) hi
    exact ⟨_, .removeLiquidity hstep hmove⟩
  | openLoan accs sides c d nonce =>
    obtain ⟨p, p', q, l, s, hstep, hmove⟩ := processOpenLoan_refines h.filed (hsig _ rfl) hi
    exact ⟨_, .openLoan hstep hmove⟩
  | repayLoan accs =>
    obtain ⟨p, p', q, l, s, owed, hstep, hmove⟩ :=
      processRepayLoan_refines h.filed (hsig _ rfl) hi
    exact ⟨_, .repayLoan hstep hmove⟩
  | claimProtocolFees accs =>
    obtain ⟨p, p', hstep, hmove⟩ := processClaimProtocolFees_refines h.filed hi
    exact ⟨_, .claimProtocolFees hstep hmove⟩
  | claimLiquidatedRent accs =>
    obtain ⟨P, p, hstep, heq⟩ := processClaimLiquidatedRent_refines h.filed hi
    exact ⟨P, .claimLiquidatedRent hstep heq⟩
  | swap accs amountIn minOut aToB bandBoundary counts =>
    obtain ⟨p, p', f, ks, hswap, haToB, hamount, -, hpaid, -⟩ :=
      processSwap_refines h.filed (hsig _ rfl) (fun p => h.valid _ p) hi
    exact ⟨_, .swap hswap haToB hamount hpaid⟩

/-- The pool an instruction is about is the one it names. -/
theorem Made.pool_eq {i : Instruction} (h : Made rt led led' Q i) (hP : P ∈ i.pool) : Q = P := by
  cases h <;> first | exact Option.some.inj hP | cases hP

theorem processInstruction_made_at {i : Instruction} (h : Sound rt led)
    (hsig : ∀ k ∈ i.user, ¬ rt.IsPda k) (hP : P ∈ i.pool)
    (hi : processInstruction rt i led = .ok (led', events)) : Made rt led led' P i := by
  obtain ⟨Q, hmade⟩ := processInstruction_made h hsig hi
  exact hmade.pool_eq hP ▸ hmade

/-- What an instruction about the pool `P` does to it: the pool is created, or it makes a move. -/
inductive Effect (rt : Runtime) (P : Pubkey) (led led' : Ledger) : Prop where
  | create {p' : Pool} : (∀ q, ¬ led.HasPool rt P q) → led'.HasPool rt P p' → Wired rt led' P p' →
      Touched rt P led led' → (led'.market rt P p').New → Effect rt P led led'
  | move {p p' : Pool} {ks : List Pubkey} : PoolStep rt P led led' p p' →
      Move (led.market rt P p) ks (led'.market rt P p') →
      (∀ k ∈ ks, Liquidates rt P led led' k) → Effect rt P led led'

/-- A market that does not change drifts. -/
theorem Market.Move.of_eq {m m' : Market} (h : m' = m) : Move m [] m' := by
  subst h
  exact .drift ⟨rfl, fun _ => le_refl _, le_refl _, rfl, rfl, le_refl _⟩

/-- Whichever instruction it was, it created the pool or made a move with it. -/
theorem Made.effect {i : Instruction} (h : Made rt led led' P i) : Effect rt P led led' := by
  cases h with
  | initializePool hno hp hw htouched hv => exact .create hno hp hw htouched hv
  | addLiquidity hstep hmove => exact .move hstep (.deposit hmove) (by simp)
  | removeLiquidity hstep hmove => exact .move hstep (.withdraw hmove) (by simp)
  | openLoan hstep hmove => exact .move hstep (.borrow hmove) (by simp)
  | repayLoan hstep hmove => exact .move hstep (.repay hmove) (by simp)
  | claimProtocolFees hstep hmove =>
    rcases hmove with heq | hmove
    · exact .move hstep (.of_eq heq) (by simp)
    · exact .move hstep (.claimFees hmove) (by simp)
  | claimLiquidatedRent hstep heq => exact .move hstep (.of_eq heq) (by simp)
  | swap hswap =>
    obtain ⟨q, q₁, supplied, htrade⟩ := hswap.trade
    exact .move hswap.step (.trade htrade) fun _ => hswap.liquidates

theorem processInstruction_effect {i : Instruction} (h : Sound rt led)
    (hsig : ∀ k ∈ i.user, ¬ rt.IsPda k) (hi : processInstruction rt i led = .ok (led', events)) :
    ∃ P, Effect rt P led led' := by
  obtain ⟨P, hmade⟩ := processInstruction_made h hsig hi
  exact ⟨P, hmade.effect⟩

/-! ### One step -/

theorem PoolStep.wired (h : PoolStep rt P led led' p p') (hfiled : Filed rt led) :
    Wired rt led' P p' :=
  (hfiled.wired P p h.before).touched h.touched h.terms

theorem Effect.filed (h : Effect rt P led led') (hfiled : Filed rt led) : Filed rt led' := by
  cases h with
  | create _ hp hw htouched => exact hfiled.touched htouched hp hw
  | move hstep => exact hfiled.touched hstep.touched hstep.after (hstep.wired hfiled)

theorem Effect.touched (h : Effect rt P led led') : Touched rt P led led' := by
  cases h with
  | create _ _ _ htouched => exact htouched
  | move hstep => exact hstep.touched

/-- The clock does not run backwards. -/
theorem Step.slot_le (h : Sound rt led) (hstep : Step rt led led') : led.slot ≤ led'.slot := by
  cases hstep with
  | outside hout => exact hout.slot_le
  | instruction i hsig hi =>
    obtain ⟨P, heff⟩ := processInstruction_effect h hsig hi
    exact heff.touched.slot.ge

/-- **Every pool makes a move** in every step. -/
theorem Step.move (h : Sound rt led) (hstep : Step rt led led') (hp : led.HasPool rt P p) :
    ∃ p' ks, led'.HasPool rt P p' ∧ Move (led.market rt P p) ks (led'.market rt P p') ∧
      ∀ k ∈ ks, Liquidates rt P led led' k := by
  cases hstep with
  | outside hout =>
    exact ⟨p, [], hout.hasPool h.filed hp, .drift (hout.drift h.filed (h.filed.wired P p hp)),
      by simp⟩
  | instruction i hsig hi =>
    obtain ⟨Q, heff⟩ := processInstruction_effect h hsig hi
    by_cases hQ : P = Q
    · subst hQ
      cases heff with
      | create hno => exact absurd hp (hno p)
      | move hs hmove hliq =>
        obtain rfl := hs.before.unique hp
        exact ⟨_, _, hs.after, hmove, hliq⟩
    · exact ⟨p, [], heff.touched.hasPool hQ hp,
        .drift (heff.touched.drift hQ (h.filed.wired P p hp)), by simp⟩

/-- **A pool that was not there before** a step has a new market after it. -/
theorem Step.new (h : Sound rt led) (hstep : Step rt led led') (hp : led'.HasPool rt P p')
    (hno : ∀ p, ¬ led.HasPool rt P p) : (led'.market rt P p').New := by
  cases hstep with
  | outside hout => exact absurd (hout.hasPool_inv hp) (hno p')
  | instruction i hsig hi =>
    obtain ⟨Q, heff⟩ := processInstruction_effect h hsig hi
    by_cases hQ : P = Q
    · subst hQ
      cases heff with
      | create _ hp' _ _ hv => exact hp'.unique hp ▸ hv
      | move hs => exact absurd hs.before (hno _)
    · exact absurd (heff.touched.hasPool_inv hQ hp) (hno p')

/-- What holds of new markets and is left by every move holds of every market after a step. -/
theorem Step.markets {I : Market → Prop} (h : Sound rt led) (hstep : Step rt led led')
    (hnew : ∀ m : Market, m.New → I m)
    (hmove : ∀ P p ks m', led.HasPool rt P p → Move (led.market rt P p) ks m' → I m') :
    ∀ P p', led'.HasPool rt P p' → I (led'.market rt P p') := by
  intro P p' hp'
  by_cases hold : ∃ p, led.HasPool rt P p
  · obtain ⟨p, hp⟩ := hold
    obtain ⟨q, ks, hq, hm, -⟩ := hstep.move h hp
    obtain rfl := hq.unique hp'
    exact hmove P p ks _ hp hm
  · exact hnew _ (hstep.new h hp' fun p hp => hold ⟨p, hp⟩)

/-- **One step keeps a state sound.** -/
theorem Step.sound (h : Sound rt led) (hstep : Step rt led led') : Sound rt led' where
  filed := by
    cases hstep with
    | outside hout => exact h.filed.outside hout
    | instruction i hsig hi =>
      obtain ⟨Q, heff⟩ := processInstruction_effect h hsig hi
      exact heff.filed h.filed
  valid := hstep.markets (I := fun m => ∃ S, m.Valid S) h (fun _ hm => ⟨∅, hm.valid⟩)
      fun P p ks m' hp hm => by
    obtain ⟨S, hv⟩ := h.valid P p hp
    exact hm.valid hv
  metered := hstep.markets h (fun _ hm => hm.metered) fun P p ks m' hp hm => by
    obtain ⟨S, hv⟩ := h.valid P p hp
    exact hm.metered hv (h.metered P p hp) (h.filed.wired P p hp).real_lt
  live := hstep.markets h (fun _ hm => hm.live) fun P p ks m' hp hm => by
    obtain ⟨S, hv⟩ := h.valid P p hp
    exact hm.live hv (h.live P p hp)

/-! ### Runs -/

/-- Before the program is used there are no records. -/
theorem Genesis.blank {d : AccountData} (h : Genesis rt led)
    (hk : led.accts k = ⟨rt.programId, d⟩) : d.Blank := by
  have hblank := h.fresh k (by rw [hk])
  rwa [hk] at hblank

theorem Genesis.no_pool (h : Genesis rt led) (P : Pubkey) (p : Pool) : ¬ led.HasPool rt P p :=
  fun hp => not_blank_pool hp.2 (h.blank hp.1)

/-- Before the program is used there is nothing to be wrong. -/
theorem Genesis.sound (h : Genesis rt led) : Sound rt led := by
  refine ⟨⟨fun P p hp => absurd hp (h.no_pool P p), fun k l hk hinit => ?_,
    fun k b hk hinit => ?_, fun k o d hpda hk _ hne => ?_⟩,
    fun P p hp => absurd hp (h.no_pool P p), fun P p hp => absurd hp (h.no_pool P p),
    fun P p hp => absurd hp (h.no_pool P p)⟩
  · exact absurd (h.blank hk) (not_blank_loan hinit)
  · exact absurd (h.blank hk) (not_blank_band hinit)
  · rw [h.pda k hpda] at hk
    cases hk
    exact absurd rfl hne

theorem Sound.run (h : Sound rt led) (hrun : Relation.ReflTransGen (Step rt) led led') :
    Sound rt led' := by
  induction hrun with
  | refl => exact h
  | tail _ hstep ih => exact hstep.sound ih

/-- **Every reachable state is sound.** -/
theorem Reachable.sound (h : Reachable rt led) : Sound rt led := by
  obtain ⟨genesis, hgen, hrun⟩ := h
  exact hgen.sound.run hrun

theorem Reachable.step (h : Reachable rt led) (hstep : Step rt led led') : Reachable rt led' := by
  obtain ⟨genesis, hgen, hrun⟩ := h
  exact ⟨genesis, hgen, hrun.tail hstep⟩

theorem Reachable.run (h : Reachable rt led) (hrun : Relation.ReflTransGen (Step rt) led led') :
    Reachable rt led' := by
  obtain ⟨genesis, hgen, hpast⟩ := h
  exact ⟨genesis, hgen, hpast.trans hrun⟩

theorem Reachable.slot_le (h : Reachable rt led) (hrun : Relation.ReflTransGen (Step rt) led led') :
    led.slot ≤ led'.slot := by
  induction hrun with
  | refl => exact le_refl _
  | tail hrun hstep ih => exact ih.trans (hstep.slot_le (h.run hrun).sound)

/-- A pool that is there stays there. -/
theorem Reachable.hasPool (h : Reachable rt led) (hp : led.HasPool rt P p)
    (hrun : Relation.ReflTransGen (Step rt) led led') : ∃ p', led'.HasPool rt P p' := by
  induction hrun with
  | refl => exact ⟨p, hp⟩
  | tail hrun hstep ih =>
    obtain ⟨q, hq⟩ := ih
    obtain ⟨q', _, hq', -⟩ := hstep.move (h.run hrun).sound hq
    exact ⟨q', hq'⟩

/-- An accepted swap leads from one reachable state to another. -/
theorem Reachable.swap {accs : SwapAccounts} {amountIn minOut bandBoundary : ℕ} {aToB : Bool}
    {counts : List ℕ} (h : Reachable rt led) (hsig : ¬ rt.IsPda accs.user)
    (hi : processSwap rt accs amountIn minOut aToB bandBoundary counts led = .ok (led', events)) :
    Reachable rt led' :=
  h.step (.instruction (.swap accs amountIn minOut aToB bandBoundary counts)
    (by rintro _ ⟨⟩; exact hsig) hi)

end ChiefLiquidity
