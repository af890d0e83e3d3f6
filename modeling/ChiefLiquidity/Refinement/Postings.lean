import ChiefLiquidity.Refinement.Run

/-!
# The writes of an instruction

All an instruction does to the accounts is a sequence of writes of a few kinds: the user pays a
vault, a vault pays out, LP shares are minted or burned, an unused address becomes an account, a
record of the program is rewritten. `Posting` says what each write has to carry. What an instruction
can do to an account is then read off the kinds of write, once for all instructions.

## Writes, not programs

The refinement says what an instruction does to one pool. It does not say, for an account somewhere,
who could have written it, and proving that for each property and each instruction would mean going
through the eight processors again every time. So they are gone through once, and what is kept is
the list of writes, each with the facts that were checked before it was made.

A property of all instructions about one account is then proved in two steps: what one kind of write
can do to it, and induction on the list. The modules on custody, on lifecycles and on the log are
written in this way.

## What a posting carries

A payment says who signed for it and whose account it came from. A creation says that the address
was unused and derived from seeds. A rewriting says which record of the program was there and how
the new one comes from it.

## Main definitions

* `Instruction.market`
* `Instruction.Creates`, `Instruction.Rewrites` — the accounts and the records it may leave
* `Posting` — one write
* `AccountStep` — what one write does to one account

## Main results

* `processInstruction_postings` — an accepted instruction is a sequence of postings
* `processInstruction_account` — what it does to one account
-/

namespace ChiefLiquidity

/-! ### Pools of unchanged terms -/

/-- A pool that the books cannot tell from another one. -/
structure Pool.Kept (p q : Pool) : Prop where
  terms : q.terms = p.terms
  fees : ∀ x, q.fees x = p.fees x

namespace Pool.Kept

variable {p q r : Pool} {a b n slot : ℕ} {s : LoanSides}

theorem trans (h : p.Kept q) (h' : q.Kept r) : p.Kept r :=
  ⟨h'.terms.trans h.terms, fun x => (h'.fees x).trans (h.fees x)⟩

theorem isInitialized (h : p.Kept q) : q.isInitialized = p.isInitialized :=
  Pool.isInitialized_of_terms h.terms

theorem bumpIndexes (h : p.bumpIndexes a b slot = .ok q) : p.Kept q := by
  obtain ⟨_, _, _, rfl⟩ := Pool.bumpIndexes_frame h
  exact ⟨rfl, fun x => by cases x <;> rfl⟩

theorem stamp : p.Kept (p.stamp slot) := ⟨rfl, fun x => by cases x <;> rfl⟩

theorem withBitmaps (fall rise : Bitmap) : p.Kept (p.withBitmaps fall rise) :=
  ⟨rfl, fun x => by cases x <;> rfl⟩

theorem setBandBitmap {direction : ℕ} {bitmap : Bitmap} :
    p.Kept (p.setBandBitmap direction bitmap) := by
  unfold Pool.setBandBitmap
  split
  · exact withBitmaps _ _
  · exact withBitmaps _ _

theorem markBand {direction : ℕ} (h : p.markBand n direction b = .ok q) : p.Kept q := by
  rw [Pool.markBand] at h
  split at h
  · simp only [Pool.setBand, Checked.bind_eq_ok, Checked.pure_eq_ok] at h
    obtain ⟨_, -, _, -, rfl⟩ := h
    exact setBandBitmap
  · cases h
    exact ⟨rfl, fun _ => rfl⟩

theorem unmarkBand {direction : ℕ} (h : p.unmarkBand n direction b = .ok q) : p.Kept q := by
  rw [Pool.unmarkBand] at h
  split at h
  · simp only [Pool.clearBand, Checked.bind_eq_ok, Checked.pure_eq_ok] at h
    obtain ⟨_, -, _, -, rfl⟩ := h
    exact setBandBitmap
  · cases h
    exact ⟨rfl, fun _ => rfl⟩

theorem admitLoan (h : p.admitLoan s a b = .ok q) : p.Kept q := by
  obtain ⟨rfl, -⟩ := Pool.admitLoan_eq_ok h
  exact ⟨Pool.admitted_terms, fun x => by cases s <;> cases x <;> rfl⟩

theorem settleLoan (h : p.settleLoan s a b = .ok q) : p.Kept q := by
  obtain ⟨-, -, -, rfl⟩ := Pool.settleLoan_eq_ok.mp h
  exact ⟨Pool.settled_terms, fun x => by cases s <;> cases x <;> rfl⟩

theorem sampleRefPrice (h : p.sampleRefPrice a b slot = .ok q) : p.Kept q := by
  obtain ⟨_, _, rfl⟩ := Market.sampleRefPrice_frame h
  exact ⟨rfl, fun x => by cases x <;> rfl⟩

theorem cascade {t : SwapTerms} {remaining : ℕ} {st : CascadeState} {r : Settled}
    (h : cascade t remaining st = .ok r) : st.pool.Kept r.state.pool := by
  induction remaining generalizing st with
  | zero =>
    rw [ChiefLiquidity.cascade] at h
    simp only [Checked.bind_eq_ok, Prod.exists] at h
    obtain ⟨out, price, -, h⟩ := h
    split at h
    · cases h
      exact ⟨rfl, fun _ => rfl⟩
    · cases h
  | succ remaining ih =>
    rw [ChiefLiquidity.cascade] at h
    simp only [Checked.bind_eq_ok, Prod.exists] at h
    obtain ⟨out, price, -, h⟩ := h
    split at h
    · cases h
      exact ⟨rfl, fun _ => rfl⟩
    · simp only [liquidateRound, Checked.bind_eq_ok, Prod.exists, Checked.pure_eq_ok] at h
      obtain ⟨st', ⟨p, hsettle, a, b, -, rfl⟩, hrest⟩ := h
      exact (settleLoan hsettle).trans (ih hrest)

end Pool.Kept

/-! ### Postings -/

/-- The pool an instruction finds in place. `InitializePool` makes its own. -/
def Instruction.market : Instruction → Option Pubkey
  | .initializePool _ => none
  | i => i.pool

/-- The accounts an instruction may make of an unused address. -/
inductive Instruction.Creates (rt : Runtime) : Instruction → Pubkey → Account → Prop where
  | pool {accs} :
      Creates rt (.initializePool accs) accs.pool ⟨rt.programId, .pool Pool.zeroed⟩
  | vaultA {accs isFrozen} : Creates rt (.initializePool accs) accs.vaultA
      ⟨accs.tokenProgramA, .token (.opened accs.mintA accs.pool isFrozen)⟩
  | vaultB {accs isFrozen} : Creates rt (.initializePool accs) accs.vaultB
      ⟨accs.tokenProgramB, .token (.opened accs.mintB accs.pool isFrozen)⟩
  | lpMint {accs} : Creates rt (.initializePool accs) accs.lpMint
      ⟨accs.tokenProgramA, .mint (freshLpMint accs.pool)⟩
  | loan {accs s c d n} :
      Creates rt (.openLoan accs s c d n) accs.loan ⟨rt.programId, .loan Loan.zeroed⟩
  | band {accs s c d n} :
      Creates rt (.openLoan accs s c d n) accs.band ⟨rt.programId, .band LoanIndexBand.zeroed⟩

/-- The records an instruction may write, in a slot, over another record. -/
inductive Instruction.Rewrites (slot : ℕ) :
    Instruction → Pubkey → AccountData → AccountData → Prop where
  | newPool {accs b₁ b₂ b₃ b₄} : Rewrites slot (.initializePool accs) accs.pool
      (.pool Pool.zeroed) (.pool (newPool accs b₁ b₂ b₃ b₄ slot))
  | pool {i P p p'} : P ∈ i.market → p'.terms = p.terms → Rewrites slot i P (.pool p) (.pool p')
  | newBand {accs s c d n direction bandId bump} : Rewrites slot (.openLoan accs s c d n) accs.band
      (.band LoanIndexBand.zeroed) (.band (newBand accs.pool direction bandId bump))
  | band {i k b n} : b.isInitialized → b.pool ∈ i.market →
      Rewrites slot i k (.band b) (.band (b.withCount n))
  | newLoan {accs s c d n bump index trigger direction bandId} :
      Rewrites slot (.openLoan accs s c d n) accs.loan (.loan Loan.zeroed)
        (.loan (newLoan accs.pool accs.user n bump s c d index trigger direction bandId slot))
  | repay {accs l} : l.isInitialized → l.isOpen → l.pool = accs.pool → l.borrower = accs.user →
      Rewrites slot (.repayLoan accs) accs.loan (.loan l) (.loan Loan.zeroed)
  | liquidate {accs amountIn minOut aToB bandBoundary counts k l l'} : k ∈ accs.tail →
      l.isInitialized → l.isOpen → l.pool = accs.pool → l' = l ∨ l' = l.tombstone slot →
      Rewrites slot (.swap accs amountIn minOut aToB bandBoundary counts) k
        (.loan l') (.loan (l.tombstone slot))
  | claimRent {accs l} : l.isInitialized → l.status = Loan.statusLiquidated →
      l.borrower = accs.borrower →
      Rewrites slot (.claimLiquidatedRent accs) accs.loan (.loan l) (.loan Loan.zeroed)

namespace Instruction

variable {rt : Runtime} {i : Instruction} {k : Pubkey} {a : Account} {slot : ℕ}
  {d d' : AccountData}

/-- Records are written over records. -/
theorem Rewrites.plain (h : i.Rewrites slot k d d') : d.Plain ∧ d'.Plain := by
  cases h <;> exact ⟨trivial, trivial⟩

/-- What is created has no tokens, and no supply. -/
theorem Creates.no_tokens (h : i.Creates rt k a) :
    (∀ t, a.data = .token t → t.amount = 0) ∧ ∀ m, a.data = .mint m → m.supply = 0 := by
  cases h with
  | vaultA => exact ⟨fun t ht => (by cases ht; rfl), fun m hm => (by cases hm)⟩
  | vaultB => exact ⟨fun t ht => (by cases ht; rfl), fun m hm => (by cases hm)⟩
  | lpMint => exact ⟨fun t ht => (by cases ht), fun m hm => (by cases hm; rfl)⟩
  | _ => exact ⟨fun t ht => (by cases ht), fun m hm => (by cases hm)⟩

/-- What is created is no live record. -/
theorem Creates.blank (h : i.Creates rt k a) : a.data.Blank := by
  cases h with
  | pool => exact (by decide : Pool.zeroed.isInitialized = false)
  | loan => exact (by decide : Loan.zeroed.isInitialized = false)
  | band => exact (by decide : LoanIndexBand.zeroed.isInitialized = false)
  | _ => trivial

end Instruction

/-- One write of an instruction. Tokens leave an account in three of the cases: paid in by the user,
burned by the user, or paid out of a vault of the pool, and then, where there is no user, to an
account of the fee recipient. -/
inductive Posting (rt : Runtime) : Instruction → Ledger → Ledger → Prop where
  | payIn {i led led' P p x user src program signed amount decimals} :
      P ∈ i.market → led.HasPool rt P p → user ∈ i.user →
      transferChecked rt led program src (p.mint x) (p.vault x) user signed amount decimals =
        .ok led' →
      Posting rt i led led'
  | payOut {i led led' P p x dst program signed amount decimals} :
      P ∈ i.market → led.HasPool rt P p →
      (i.user = none → ∃ t, (led.accts dst).data = .token t ∧ t.owner = protocolFeeRecipient) →
      transferChecked rt led program (p.vault x) (p.mint x) dst P signed amount decimals =
        .ok led' →
      Posting rt i led led'
  | mintLp {accs maxA maxB minLp led led' p program signed amount decimals} :
      led.HasPool rt accs.pool p →
      mintToChecked rt led program p.lpMint accs.userLp accs.pool signed amount decimals =
        .ok led' →
      Posting rt (.addLiquidity accs maxA maxB minLp) led led'
  | burnLp {accs lpAmount minA minB led led' p program signed decimals} :
      led.HasPool rt accs.pool p →
      burnChecked rt led program accs.userLp p.lpMint accs.user signed lpAmount decimals =
        .ok led' →
      Posting rt (.removeLiquidity accs lpAmount minA minB) led led'
  | create {i led k a} : led.accts k = .unused → i.Creates rt k a →
      Posting rt i led (led.setAccount k a)
  | record {i led k o d d'} : led.accts k = ⟨o, d⟩ → i.Rewrites led.slot k d d' →
      Posting rt i led (led.setData k d')

/-- What an instruction may do to an account in one write. -/
inductive AccountStep (rt : Runtime) (i : Instruction) (slot : ℕ) (k : Pubkey) :
    Account → Account → Prop where
  | token {a b} : TokenShape a b → AccountStep rt i slot k a b
  | create {a} : i.Creates rt k a → AccountStep rt i slot k .unused a
  | record {o d d'} : i.Rewrites slot k d d' → AccountStep rt i slot k ⟨o, d⟩ ⟨o, d'⟩

namespace Posting

variable {rt : Runtime} {i : Instruction} {led led' : Ledger} {k P : Pubkey} {p : Pool}

theorem slot (h : Posting rt i led led') : led'.slot = led.slot := by
  cases h with
  | payIn _ _ _ h => exact (transferChecked_eq_ok h).1.slot
  | payOut _ _ _ h => exact (transferChecked_eq_ok h).1.slot
  | mintLp _ h => exact (mintToChecked_eq_ok h).1.slot
  | burnLp _ h => exact (burnChecked_eq_ok h).1.slot
  | create => rfl
  | record => rfl

theorem accountStep (h : Posting rt i led led') (k : Pubkey) :
    AccountStep rt i led.slot k (led.accts k) (led'.accts k) := by
  cases h with
  | payIn _ _ _ h => exact .token ((transferChecked_eq_ok h).1.accts k)
  | payOut _ _ _ h => exact .token ((transferChecked_eq_ok h).1.accts k)
  | mintLp _ h => exact .token ((mintToChecked_eq_ok h).1.accts k)
  | burnLp _ h => exact .token ((burnChecked_eq_ok h).1.accts k)
  | @create _ _ j a hunused hcreates =>
    by_cases hk : k = j
    · subst hk
      rw [Ledger.setAccount_accts_self, hunused]
      exact .create hcreates
    · rw [Ledger.setAccount_accts_of_ne hk]
      exact .token (.same _)
  | @record _ _ j o d d' hj hrewrites =>
    by_cases hk : k = j
    · subst hk
      rw [Ledger.setData_accts_self, hj]
      exact .record hrewrites
    · rw [Ledger.setData_accts_of_ne hk]
      exact .token (.same _)

end Posting

/-! ### Instructions -/

section Instructions

open Relation

variable {rt : Runtime} {i : Instruction} {led led' : Ledger} {events : List Event} {k : Pubkey}
  {p q : Pool} {x : Side} {amount decimals : ℕ}

theorem posting_payIn {accs : PoolAccounts} (hpool : accs.pool ∈ i.market)
    (huser : accs.user ∈ i.user) (hp : led.HasPool rt accs.pool p)
    (hacc : p.matchesAccounts accs = true)
    (h : accs.payIn rt led x amount decimals = .ok led') :
    Posting rt i led led' ∧ led'.HasPool rt accs.pool p := by
  obtain ⟨hvault, hmint⟩ := Pool.matchesAccounts_iff.mp hacc
  refine ⟨?_, (transferChecked_eq_ok h).1.hasPool hp⟩
  rw [PoolAccounts.payIn, ← hvault, ← hmint] at h
  exact .payIn hpool hp huser h

theorem posting_payOut {accs : PoolAccounts} (hpool : accs.pool ∈ i.market)
    (hp : led.HasPool rt accs.pool p) (hacc : p.matchesAccounts accs = true)
    (hdst : i.user = none →
      ∃ t, (led.accts (accs.userToken x)).data = .token t ∧ t.owner = protocolFeeRecipient)
    (h : accs.payOut rt q led x amount decimals = .ok led') :
    Posting rt i led led' ∧ led'.HasPool rt accs.pool p := by
  obtain ⟨hvault, hmint⟩ := Pool.matchesAccounts_iff.mp hacc
  refine ⟨?_, (transferChecked_eq_ok h).1.hasPool hp⟩
  rw [PoolAccounts.payOut, ← hvault, ← hmint] at h
  exact .payOut hpool hp hdst h

/-- Where a user signs, the payout may go anywhere. -/
theorem posting_payUser {accs : PoolAccounts} (hpool : accs.pool ∈ i.market)
    (huser : accs.user ∈ i.user) (hp : led.HasPool rt accs.pool p)
    (hacc : p.matchesAccounts accs = true)
    (h : accs.payOut rt q led x amount decimals = .ok led') :
    Posting rt i led led' ∧ led'.HasPool rt accs.pool p := by
  refine posting_payOut hpool hp hacc ?_ h
  intro hnone
  rw [hnone] at huser
  cases huser

theorem posting_setPool (hpool : k ∈ i.market) (hp : led.HasPool rt k p) (hkept : p.Kept q) :
    Posting rt i led (led.setData k (.pool q)) := .record hp.1 (.pool hpool hkept.terms)

theorem processAddLiquidity_postings {accs : LiquidityAccounts} {maxA maxB minLp : ℕ}
    (h : processAddLiquidity rt accs maxA maxB minLp led = .ok (led', events)) :
    ReflTransGen (Posting rt (.addLiquidity accs maxA maxB minLp)) led led' := by
  simp only [processAddLiquidity, Checked.bind_eq_ok, require_eq_ok, exists_const, Prod.exists,
    Checked.pure_eq_ok, Prod.mk.injEq] at h
  obtain ⟨-, _, hvalid, -, p, hload, hlp, decimals, -, decLp, -, supply, -, realA, realB,
    -, q, hbump, accA, accB, -, _, _, _, -, a, -, b, -, lp, -, -, l₁, hin₁, l₂, hin₂, l₃, hmint,
    rfl, rfl⟩ := h
  obtain ⟨hp, hacc⟩ := hasPool_of_load hvalid hload
  set i : Instruction := .addLiquidity accs maxA maxB minLp
  obtain ⟨hpost₁, hp₁⟩ := posting_payIn (i := i) rfl rfl hp hacc hin₁
  obtain ⟨hpost₂, hp₂⟩ := posting_payIn (i := i) rfl rfl hp₁ hacc hin₂
  have hp₃ := (mintToChecked_eq_ok hmint).1.hasPool hp₂
  rw [← hlp] at hmint
  exact (((ReflTransGen.single hpost₁).tail hpost₂).tail (.mintLp hp₂ hmint)).tail
    (posting_setPool rfl hp₃ ((Pool.Kept.bumpIndexes hbump).trans .stamp))

theorem processRemoveLiquidity_postings {accs : LiquidityAccounts} {lpAmount minA minB : ℕ}
    (h : processRemoveLiquidity rt accs lpAmount minA minB led = .ok (led', events)) :
    ReflTransGen (Posting rt (.removeLiquidity accs lpAmount minA minB)) led led' := by
  simp only [processRemoveLiquidity, Checked.bind_eq_ok, require_eq_ok, exists_const,
    Prod.exists, Checked.pure_eq_ok, Prod.mk.injEq] at h
  obtain ⟨-, _, hvalid, -, p, hload, hlp, decimals, -, decLp, -, supply, -, realA, realB,
    -, -, -, _, -, q, hbump, accA, accB, -, swA, swB, -, _, _, -, a, -, b, -, -, -, l₁, hburn, l₂,
    hout₁, l₃, hout₂, rfl, rfl⟩ := h
  obtain ⟨hp, hacc⟩ := hasPool_of_load hvalid hload
  have hp₁ := (burnChecked_eq_ok hburn).1.hasPool hp
  rw [← hlp] at hburn
  set i : Instruction := .removeLiquidity accs lpAmount minA minB
  obtain ⟨hpost₂, hp₂⟩ := posting_payUser (i := i) rfl rfl hp₁ hacc hout₁
  obtain ⟨hpost₃, hp₃⟩ := posting_payUser (i := i) rfl rfl hp₂ hacc hout₂
  exact (((ReflTransGen.single (.burnLp hp hburn)).tail hpost₂).tail hpost₃).tail
    (posting_setPool rfl hp₃ ((Pool.Kept.bumpIndexes hbump).trans .stamp))

/-- Records of two kinds are at two addresses. -/
theorem Ledger.setData_accts_of_data {o : Pubkey} {d d' : AccountData} {j : Pubkey}
    (hk : led.accts k = ⟨o, d⟩) (hne : (led.accts j).data ≠ d) :
    (led.setData j d').accts k = ⟨o, d⟩ := by
  have hkj : k ≠ j := by
    rintro rfl
    exact hne (congrArg Account.data hk)
  rw [Ledger.setData_accts_of_ne hkj, hk]

/-- A token account stays with its owner. -/
theorem TokenOnly.owned {owner : Pubkey} (h : TokenOnly led led')
    (hk : ∃ t, (led.accts k).data = .token t ∧ t.owner = owner) :
    ∃ t, (led'.accts k).data = .token t ∧ t.owner = owner := by
  obtain ⟨t, hdata, howner⟩ := hk
  have hshape := h.accts k
  generalize led.accts k = a at hshape hdata
  generalize led'.accts k = a' at hshape ⊢
  cases hshape with
  | same => exact ⟨t, hdata, howner⟩
  | token hkeep =>
    cases hdata
    exact ⟨_, rfl, hkeep.owner.trans howner⟩
  | mint => cases hdata

theorem payFee_postings {accs : ClaimFeesAccounts} (hp : led.HasPool rt accs.pool p)
    (hacc : p.matchesAccounts accs = true)
    (hdst : ∃ t, (led.accts (accs.userToken x)).data = .token t ∧ t.owner = protocolFeeRecipient)
    (h : payFee rt accs p led x decimals = .ok led') :
    ReflTransGen (Posting rt (.claimProtocolFees accs)) led led' ∧ led'.HasPool rt accs.pool p ∧
      TokenOnly led led' := by
  rw [payFee] at h
  split at h
  · have hpost := posting_payOut (i := .claimProtocolFees accs) rfl hp hacc (fun _ => hdst) h
    exact ⟨.single hpost.1, hpost.2, (transferChecked_eq_ok h).1⟩
  · cases h
    exact ⟨.refl, hp, .refl _⟩

theorem processClaimProtocolFees_postings {accs : ClaimFeesAccounts}
    (h : processClaimProtocolFees rt accs led = .ok (led', events)) :
    ReflTransGen (Posting rt (.claimProtocolFees accs)) led led' := by
  simp only [processClaimProtocolFees, Checked.bind_eq_ok, require_eq_ok, exists_const] at h
  obtain ⟨_, hvalid, _, howner, _, howner', ⟨rfl, rfl⟩, p, hload, h⟩ := h
  obtain ⟨hp, hacc⟩ := hasPool_of_load hvalid hload
  split at h
  · cases h
    exact .refl
  · simp only [Checked.bind_eq_ok, Checked.pure_eq_ok, Prod.mk.injEq] at h
    obtain ⟨decimals, -, l₁, hpayA, l₂, hpayB, rfl, rfl⟩ := h
    have hdst := Ledger.readTokenOwner_eq_ok.mp howner
    have hdst' := Ledger.readTokenOwner_eq_ok.mp howner'
    obtain ⟨hpost₁, hp₁, hmove⟩ := payFee_postings (x := .a) hp hacc hdst hpayA
    obtain ⟨hpost₂, hp₂, -⟩ := payFee_postings (x := .b) hp₁ hacc (hmove.owned hdst') hpayB
    exact (hpost₁.trans hpost₂).tail (.record hp₂.1 (.pool rfl rfl))

theorem processClaimLiquidatedRent_postings {accs : ClaimRentAccounts}
    (h : processClaimLiquidatedRent rt accs led = .ok (led', events)) :
    ReflTransGen (Posting rt (.claimLiquidatedRent accs)) led led' := by
  simp only [processClaimLiquidatedRent, Checked.bind_eq_ok, require_eq_ok, exists_const,
    Checked.pure_eq_ok, Prod.mk.injEq] at h
  obtain ⟨-, howner, l, hl, hinit, hstatus, hborrower, rfl, rfl⟩ := h
  have haccount : led.accts accs.loan = ⟨rt.programId, .loan l⟩ := by
    rw [← howner, ← Ledger.loadLoan_eq_ok.mp hl]
  exact .single (.record haccount (.claimRent hinit hstatus hborrower))

theorem processInitializePool_postings {accs : InitializeAccounts}
    (h : processInitializePool rt accs led = .ok (led', events)) :
    ReflTransGen (Posting rt (.initializePool accs)) led led' := by
  simp only [processInitializePool, Checked.bind_eq_ok, require_eq_ok, exists_const,
    Checked.pure_eq_ok, Prod.mk.injEq] at h
  obtain ⟨-, _, -, _, -, -, -, _, -, _, -, hpool, hvaultA, hvaultB, hlpMint, -, l₁, hcreate, l₂,
    hvA, l₃, hvB, l₄, hlp, rfl, rfl⟩ := h
  obtain ⟨hunused, rfl⟩ := createPdaAccount_eq_ok.mp hcreate
  obtain ⟨hunusedA, -, frozenA, rfl⟩ := createVault_eq_ok hvA
  obtain ⟨hunusedB, -, frozenB, rfl⟩ := createVault_eq_ok hvB
  obtain ⟨hunusedLp, rfl⟩ := createLpMint_eq_ok hlp
  have hpool₁ : (led.setAccount accs.pool ⟨rt.programId, .pool Pool.zeroed⟩).accts accs.pool =
      ⟨rt.programId, .pool Pool.zeroed⟩ := Ledger.setAccount_accts_self
  have hpool₂ := setAccount_of_unused (c := ⟨accs.tokenProgramA, .token (.opened accs.mintA
    accs.pool frozenA)⟩) hunusedA hpool₁ (by simp)
  have hpool₃ := setAccount_of_unused (c := ⟨accs.tokenProgramB, .token (.opened accs.mintB
    accs.pool frozenB)⟩) hunusedB hpool₂ (by simp)
  have hpool₄ := setAccount_of_unused (c := ⟨accs.tokenProgramA, .mint (freshLpMint accs.pool)⟩)
    hunusedLp hpool₃ (by simp)
  exact ((((ReflTransGen.single (.create hunused .pool)).tail (.create hunusedA .vaultA)).tail
    (.create hunusedB .vaultB)).tail (.create hunusedLp .lpMint)).tail (.record hpool₄ .newPool)

/-- Allocating a band creates it, or writes a zeroed one, or does nothing. -/
theorem allocateBand_postings {accs : LoanAccounts} {s c d n direction bandId bump : ℕ}
    (h : allocateBand rt led accs.band accs.pool direction bandId bump = .ok led') :
    ReflTransGen (Posting rt (.openLoan accs s c d n)) led led' ∧
      ∀ j, (led.accts j).data ≠ .empty → (∀ b, (led.accts j).data ≠ .band b) →
        led'.accts j = led.accts j := by
  rw [allocateBand] at h
  split at h
  · simp only [Checked.bind_eq_ok, createPdaAccount_eq_ok, Checked.pure_eq_ok] at h
    obtain ⟨_, ⟨hunused, rfl⟩, rfl⟩ := h
    refine ⟨(ReflTransGen.single (.create hunused .band)).tail
      (.record Ledger.setAccount_accts_self .newBand), fun j hj _ => ?_⟩
    have hne : j ≠ accs.band := by
      rintro rfl
      rw [hunused] at hj
      exact hj rfl
    rw [Ledger.setData_accts_of_ne hne, Ledger.setAccount_accts_of_ne hne]
  · split at h
    · rename_i hzeroed
      have hband := isZeroedProgramAccount_iff.mp hzeroed
      cases h
      refine ⟨.single (.record hband .newBand), fun j _ hj => ?_⟩
      have hne : j ≠ accs.band := by
        rintro rfl
        rw [hband] at hj
        exact hj _ rfl
      exact Ledger.setData_accts_of_ne hne
    · cases h
      exact ⟨.refl, fun _ _ _ => rfl⟩

theorem processOpenLoan_postings {accs : LoanAccounts} {sidesByte c d nonce : ℕ}
    (h : processOpenLoan rt accs sidesByte c d nonce led = .ok (led', events)) :
    ReflTransGen (Posting rt (.openLoan accs sidesByte c d nonce)) led led' := by
  simp only [processOpenLoan, Checked.bind_eq_ok, require_eq_ok, exists_const,
    Prod.exists, Checked.pure_eq_ok] at h
  obtain ⟨-, _, hvalid, hpos, p, hload, s, hsides, realA, realB, -, q, hbump, trigger, dir,
    htrigger, accA, accB, -, swA, swB, -, -, _, -, -, hloanKey, b, hbandId, hbandKey, -, l₁,
    hcreate, l₂, halloc, x, hxload, hx, hfull, q', hmark, index, hindex, m, hcount, decimals, -,
    l₃, hin, l₄, hout, q'', hadmit, heq⟩ := h
  obtain ⟨hp, hacc⟩ := hasPool_of_load hvalid hload
  obtain ⟨rfl, rfl⟩ := Prod.mk.inj heq
  obtain ⟨hunused, rfl⟩ := createPdaAccount_eq_ok.mp hcreate
  set i : Instruction := .openLoan accs sidesByte c d nonce
  set l₁ := led.setAccount accs.loan ⟨rt.programId, .loan Loan.zeroed⟩
  have hloan₁ : l₁.accts accs.loan = ⟨rt.programId, .loan Loan.zeroed⟩ :=
    Ledger.setAccount_accts_self
  have hp₁ : l₁.accts accs.pool = ⟨rt.programId, .pool p⟩ :=
    setAccount_of_unused hunused hp.1 (by simp)
  obtain ⟨hallocs, hkeep⟩ := allocateBand_postings (s := sidesByte) (c := c) (d := d) (n := nonce)
    halloc
  have hloan₂ : l₂.accts accs.loan = ⟨rt.programId, .loan Loan.zeroed⟩ := by
    rw [hkeep _ (by simp [hloan₁]) (by simp [hloan₁]), hloan₁]
  have hp₂ : l₂.HasPool rt accs.pool p :=
    ⟨by rw [hkeep _ (by simp [hp₁]) (by simp [hp₁]), hp₁], hp.2⟩
  have hband₂ : l₂.accts accs.band = ⟨(l₂.accts accs.band).owner, .band x⟩ := by
    rw [← Ledger.loadBand_eq_ok.mp hxload]
  set loan := newLoan accs.pool accs.user nonce
    (rt.findProgramAddress (.loan accs.pool accs.user nonce)).2 sidesByte c d index trigger
    dir.toU8 b l₂.slot
  have hpost₃ : Posting rt i l₂ (l₂.setData accs.loan (.loan loan)) := .record hloan₂ .newLoan
  have hp₃ : (l₂.setData accs.loan (.loan loan)).HasPool rt accs.pool p :=
    ⟨Ledger.setData_accts_of_data hp₂.1 (by simp [hloan₂]), hp.2⟩
  have hband₃ : (l₂.setData accs.loan (.loan loan)).accts accs.band = _ :=
    Ledger.setData_accts_of_data hband₂ (by simp [hloan₂])
  have hpost₄ : Posting rt i _ ((l₂.setData accs.loan (.loan loan)).setData accs.band
      (.band (x.withCount m))) :=
    .record hband₃ (.band hx.1 (congrArg some hx.2.1.symm))
  have hp₄ : ((l₂.setData accs.loan (.loan loan)).setData accs.band
      (.band (x.withCount m))).HasPool rt accs.pool p :=
    ⟨Ledger.setData_accts_of_data hp₃.1 (by simp [hband₃]), hp.2⟩
  obtain ⟨hpost₅, hp₅⟩ := posting_payIn (i := i) rfl rfl hp₄ hacc hin
  obtain ⟨hpost₆, hp₆⟩ := posting_payUser (i := i) rfl rfl hp₅ hacc hout
  have hkept : p.Kept (q''.stamp l₄.slot) :=
    (((Pool.Kept.bumpIndexes hbump).trans (.markBand hmark)).trans (.admitLoan hadmit)).trans .stamp
  exact ((((((ReflTransGen.single (.create hunused .loan)).trans hallocs).tail hpost₃).tail
    hpost₄).tail hpost₅).tail hpost₆).tail (posting_setPool rfl hp₆ hkept)

theorem processRepayLoan_postings {accs : LoanAccounts}
    (h : processRepayLoan rt accs led = .ok (led', events)) :
    ReflTransGen (Posting rt (.repayLoan accs)) led led' := by
  simp only [processRepayLoan, Checked.bind_eq_ok, require_eq_ok, exists_const, fits_eq_ok,
    Prod.exists, Checked.pure_eq_ok, Prod.mk.injEq] at h
  obtain ⟨-, _, hvalid, ⟨hloanOwner, hbandOwner⟩, p, hload, l, hl, hinit, hopen, hlpool, x, hx,
    hxinit, -, realA, realB, -, q, hbump, index, -, owed, howed, _, ⟨howed64, rfl⟩, s, hs, c,
    ⟨hc, rfl⟩, decimals, -, l₁, hin, l₂, hout, q', hsettle, count, hcount, q'', hunmark, rfl,
    rfl⟩ := h
  obtain ⟨hp, hacc⟩ := hasPool_of_load hvalid hload
  have hloan : led.accts accs.loan = ⟨rt.programId, .loan l⟩ := by
    rw [← hloanOwner, ← Ledger.loadLoan_eq_ok.mp hl]
  have hband : led.accts accs.band = ⟨rt.programId, .band x⟩ := by
    rw [← hbandOwner, ← Ledger.loadBand_eq_ok.mp hx]
  set i : Instruction := .repayLoan accs
  obtain ⟨hpost₁, hp₁⟩ := posting_payIn (i := i) rfl rfl hp hacc hin
  obtain ⟨hpost₂, hp₂⟩ := posting_payUser (i := i) rfl rfl hp₁ hacc hout
  have hmoves := (transferChecked_eq_ok hin).1.trans (transferChecked_eq_ok hout).1
  have hloan₂ := hmoves.accts_eq hloan trivial
  have hband₂ := hmoves.accts_eq hband trivial
  have hpost₃ : Posting rt i _ (l₂.setData accs.band (.band (x.withCount count))) :=
    .record hband₂ (.band hxinit.1 (congrArg some hxinit.2.1.symm))
  have hp₃ : (l₂.setData accs.band (.band (x.withCount count))).HasPool rt accs.pool p :=
    ⟨Ledger.setData_accts_of_data hp₂.1 (by simp [hband₂]), hp.2⟩
  have hloan₃ : (l₂.setData accs.band (.band (x.withCount count))).accts accs.loan = _ :=
    Ledger.setData_accts_of_data hloan₂ (by simp [hband₂])
  have hpost₄ : Posting rt i _ ((l₂.setData accs.band (.band (x.withCount count))).setData
      accs.loan (.loan Loan.zeroed)) :=
    .record hloan₃ (.repay hinit hopen hlpool.1 hlpool.2)
  have hp₄ : ((l₂.setData accs.band (.band (x.withCount count))).setData accs.loan
      (.loan Loan.zeroed)).HasPool rt accs.pool p :=
    ⟨Ledger.setData_accts_of_data hp₃.1 (by simp [hloan₃]), hp.2⟩
  have hstamp : q'.Kept (q'.stamp l₂.slot) := .stamp
  have hkept : p.Kept q'' :=
    (((Pool.Kept.bumpIndexes hbump).trans (.settleLoan hsettle)).trans hstamp).trans
      (.unmarkBand hunmark)
  exact ((((ReflTransGen.single hpost₁).tail hpost₂).tail hpost₃).tail hpost₄).tail
    (posting_setPool rfl hp₄ hkept)

/-! #### Swaps -/

/-- What the tail of a swap holds, until the end of the instruction: live bands of the pool, and
loans that were open at its start. -/
structure Tailed (rt : Runtime) (P : Pubkey) (tail : List Pubkey) (led : Ledger)
    (bands : List BandCtx) : Prop where
  band : ∀ b ∈ bands, ∃ x, led.accts b.band = ⟨rt.programId, .band x⟩ ∧ x.isInitialized ∧ x.pool = P
  loan : ∀ b ∈ bands, ∀ k ∈ b.loans, k ∈ tail ∧ ∃ l, l.isInitialized ∧ l.isOpen ∧ l.pool = P ∧
    (led.accts k = ⟨rt.programId, .loan l⟩ ∨
      led.accts k = ⟨rt.programId, .loan (l.tombstone led.slot)⟩)

theorem parseLoans_records {P prev : Pubkey} {bandId directionByte : ℕ} {keys : List Pubkey}
    {ctxs : List LoanCtx} (h : parseLoans rt led P bandId directionByte prev keys = .ok ctxs) :
    ∀ k ∈ keys, ∃ l, led.accts k = ⟨rt.programId, .loan l⟩ ∧ l.isInitialized ∧ l.isOpen ∧
      l.pool = P := by
  induction keys generalizing prev ctxs with
  | nil => exact fun k hk => absurd hk List.not_mem_nil
  | cons key keys ih =>
    simp only [parseLoans, Checked.bind_eq_ok, require_eq_ok, exists_const,
      Checked.pure_eq_ok] at h
    obtain ⟨howner, -, l, hl, ⟨hinit, hpool⟩, hopen, -, dir, -, s, -, rest, hrest, rfl⟩ := h
    refine List.forall_mem_cons.mpr ⟨⟨l, ?_, hinit, hopen, hpool⟩, ih hrest⟩
    rw [← howner, ← Ledger.loadLoan_eq_ok.mp hl]

theorem parseTail_tailed {P : Pubkey} {directionByte : ℕ} {ids ks : List ℕ} {tail : List Pubkey}
    {context : Context} (h : parseTail rt led P directionByte ids ks tail = .ok context) :
    Tailed rt P tail led context.bands := by
  induction ks generalizing ids tail context with
  | nil =>
    simp only [parseTail, Checked.bind_eq_ok, Checked.pure_eq_ok] at h
    obtain ⟨_, -, rfl⟩ := h
    exact ⟨fun b hb => absurd hb List.not_mem_nil, fun b hb => absurd hb List.not_mem_nil⟩
  | cons k ks ih =>
    cases tail with
    | nil => cases h
    | cons key tail =>
      simp only [parseTail, Checked.bind_eq_ok, Checked.pure_eq_ok] at h
      obtain ⟨_, -, band, hband, loans, hloans, rest, hrest, rfl⟩ := h
      have hrecords := parseLoans_records hloans
      have hrest := ih hrest
      simp only [parseBand, Checked.bind_eq_ok, require_eq_ok, exists_const] at hband
      obtain ⟨howner, x, hx, ⟨hinit, hpool, -⟩, -⟩ := hband
      refine ⟨List.forall_mem_cons.mpr ⟨⟨x, ?_, hinit, hpool⟩, hrest.band⟩,
        List.forall_mem_cons.mpr ⟨fun j hj => ⟨?_, ?_⟩, fun b hb j hj => ⟨?_, ?_⟩⟩⟩
      · rw [← howner, ← Ledger.loadBand_eq_ok.mp hx]
      · exact List.mem_cons_of_mem _ (List.mem_of_mem_take hj)
      · obtain ⟨l, hl, hrest⟩ := hrecords j hj
        exact ⟨l, hrest.1, hrest.2.1, hrest.2.2, .inl hl⟩
      · exact List.mem_cons_of_mem _ (List.mem_of_mem_drop (hrest.loan b hb j hj).1)
      · exact (hrest.loan b hb j hj).2

section Tailed

variable {P : Pubkey} {tail : List Pubkey} {bands : List BandCtx} {l l' : Loan} {x : LoanIndexBand}

theorem Tailed.liquidate (h : Tailed rt P tail led bands) (hinit : l.isInitialized)
    (hopen : l.isOpen) (hpool : l.pool = P) (hk : led.accts k = ⟨rt.programId, .loan l'⟩) :
    Tailed rt P tail (led.setData k (.loan (l.tombstone led.slot))) bands := by
  refine ⟨fun b hb => ?_, fun b hb j hj => ⟨(h.loan b hb j hj).1, ?_⟩⟩
  · obtain ⟨y, hy, hrest⟩ := h.band b hb
    exact ⟨y, Ledger.setData_accts_of_data hy (by simp [hk]), hrest⟩
  · by_cases hjk : j = k
    · subst hjk
      refine ⟨l, hinit, hopen, hpool, .inr ?_⟩
      rw [Ledger.setData_accts_self, hk]
      rfl
    · rw [Ledger.setData_accts_of_ne hjk]
      exact (h.loan b hb j hj).2

theorem Tailed.recount {n : ℕ} (h : Tailed rt P tail led bands) (hinit : x.isInitialized)
    (hpool : x.pool = P) (hk : led.accts k = ⟨rt.programId, .band x⟩) :
    Tailed rt P tail (led.setData k (.band (x.withCount n))) bands := by
  refine ⟨fun b hb => ?_, fun b hb j hj => ⟨(h.loan b hb j hj).1, ?_⟩⟩
  · by_cases hbk : b.band = k
    · rw [hbk, Ledger.setData_accts_self, hk]
      exact ⟨x.withCount n, rfl, hinit, hpool⟩
    · rw [Ledger.setData_accts_of_ne hbk]
      exact h.band b hb
  · obtain ⟨l, hinit, hopen, hlpool, hl⟩ := (h.loan b hb j hj).2
    refine ⟨l, hinit, hopen, hlpool, hl.imp (fun hl => ?_) fun hl => ?_⟩
    · exact Ledger.setData_accts_of_data hl (by simp [hk])
    · exact Ledger.setData_accts_of_data hl (by simp [hk])

variable {accs : SwapAccounts} {amountIn minOut bandBoundary : ℕ} {aToB : Bool} {counts : List ℕ}

/-- The tombstones of a band. Induction on its loans; the tail stays what it was at each write. -/
theorem tombstoneLoans_postings {ctxs : List LoanCtx} {keys : List Pubkey} {n : ℕ}
    (htail : Tailed rt accs.pool accs.tail led bands)
    (hkeys : ∀ k ∈ keys, ∃ b ∈ bands, k ∈ b.loans)
    (h : tombstoneLoans ctxs keys led = .ok (led', n, events)) :
    ReflTransGen (Posting rt (.swap accs amountIn minOut aToB bandBoundary counts)) led led' ∧
      Tailed rt accs.pool accs.tail led' bands ∧
      ∀ j, (∀ l, (led.accts j).data ≠ .loan l) → led'.accts j = led.accts j := by
  induction keys generalizing led n events with
  | nil =>
    cases h
    exact ⟨.refl, htail, fun _ _ => rfl⟩
  | cons key keys ih =>
    obtain ⟨⟨b, hb, hkey⟩, hkeys⟩ := List.forall_mem_cons.mp hkeys
    simp only [tombstoneLoans, Checked.bind_eq_ok] at h
    obtain ⟨c, -, h⟩ := h
    split at h
    · simp only [Checked.bind_eq_ok, Prod.exists, Checked.pure_eq_ok, Prod.mk.injEq] at h
      obtain ⟨l', hl', l₁, m, es, hrest, rfl, rfl, rfl⟩ := h
      obtain ⟨hmem, l, hinit, hopen, hpool, hl⟩ := htail.loan b hb key hkey
      have hdata := Ledger.loadLoan_eq_ok.mp hl'
      have hcase : l' = l ∨ l' = l.tombstone led.slot := by
        refine hl.imp (fun hl => ?_) fun hl => ?_
        · rw [hl] at hdata
          exact (AccountData.loan.inj hdata).symm
        · rw [hl] at hdata
          exact (AccountData.loan.inj hdata).symm
      have hk : led.accts key = ⟨rt.programId, .loan l'⟩ := by
        rcases hl with hl | hl
        · rw [hl] at hdata ⊢
          rw [AccountData.loan.inj hdata]
        · rw [hl] at hdata ⊢
          rw [AccountData.loan.inj hdata]
      have htomb : l'.tombstone led.slot = l.tombstone led.slot := by
        rcases hcase with rfl | rfl
        · rfl
        · rfl
      change tombstoneLoans ctxs keys (led.setData key (.loan (l'.tombstone led.slot))) = _ at hrest
      rw [htomb] at hrest
      have hpost : Posting rt (.swap accs amountIn minOut aToB bandBoundary counts) led
          (led.setData key (.loan (l.tombstone led.slot))) :=
        .record hk (.liquidate hmem hinit hopen hpool hcase)
      obtain ⟨hposts, htail', hkeep⟩ := ih (htail.liquidate hinit hopen hpool hk) hkeys hrest
      refine ⟨hposts.head hpost, htail', fun j hj => ?_⟩
      have hjk : j ≠ key := by
        rintro rfl
        exact hj l' hdata
      have hset : (led.setData key (.loan (l.tombstone led.slot))).accts j = led.accts j :=
        Ledger.setData_accts_of_ne hjk
      rw [hkeep j (by rw [hset]; exact hj), hset]
    · exact ih htail hkeys h

theorem persistLiquidations_postings {ctxs : List LoanCtx} {directionByte : ℕ}
    {rest : List BandCtx} {q' : Pool} (htail : Tailed rt accs.pool accs.tail led bands)
    (hrest : ∀ b ∈ rest, b ∈ bands) (hp : led.HasPool rt accs.pool p)
    (h : persistLiquidations ctxs directionByte rest led q = .ok (led', q', events)) :
    ReflTransGen (Posting rt (.swap accs amountIn minOut aToB bandBoundary counts)) led led' ∧
      led'.HasPool rt accs.pool p ∧ q.Kept q' := by
  induction rest generalizing led q events with
  | nil =>
    cases h
    exact ⟨.refl, hp, rfl, fun _ => rfl⟩
  | cons b rest ih =>
    obtain ⟨hb, hrest⟩ := List.forall_mem_cons.mp hrest
    simp only [persistLiquidations, Checked.bind_eq_ok, Prod.exists] at h
    obtain ⟨x, hx, l₁, n, es, htomb, h⟩ := h
    have hbloans : ∀ k ∈ b.loans, ∃ b ∈ bands, k ∈ b.loans := fun k hk => ⟨b, hb, hk⟩
    obtain ⟨hposts, htail₁, hkeep⟩ := tombstoneLoans_postings htail hbloans htomb
    have hp₁ : l₁.HasPool rt accs.pool p :=
      ⟨by rw [hkeep _ (by simp [hp.1]), hp.1], hp.2⟩
    split at h
    · obtain ⟨hposts', hp', hkept⟩ := ih htail₁ hrest hp₁ h
      exact ⟨hposts.trans hposts', hp', hkept⟩
    · simp only [Checked.bind_eq_ok, Prod.exists, Checked.pure_eq_ok, Prod.mk.injEq] at h
      obtain ⟨count, hcount, q₁, hunmark, l₂, q₂, es', hpersist, rfl, rfl, rfl⟩ := h
      obtain ⟨y, hy, hinit, hpool⟩ := htail.band b hb
      obtain rfl : y = x := by
        have hdata := Ledger.loadBand_eq_ok.mp hx
        rw [hy] at hdata
        exact AccountData.band.inj hdata
      have hy₁ : l₁.accts b.band = ⟨rt.programId, .band y⟩ := by
        rw [hkeep _ (by simp [hy]), hy]
      have hpost : Posting rt (.swap accs amountIn minOut aToB bandBoundary counts) l₁
          (l₁.setData b.band (.band (y.withCount count))) :=
        .record hy₁ (.band hinit (congrArg some hpool.symm))
      obtain ⟨hposts', hp', hkept⟩ := ih (htail₁.recount hinit hpool hy₁) hrest
        ⟨Ledger.setData_accts_of_data hp₁.1 (by simp [hy₁]), hp.2⟩ hpersist
      exact ⟨(hposts.tail hpost).trans hposts', hp', (Pool.Kept.unmarkBand hunmark).trans hkept⟩

theorem swapTransfers_postings {accs : PoolAccounts} {amountOut : ℕ} {decimals : Side → ℕ}
    (hpool : accs.pool ∈ i.market) (huser : accs.user ∈ i.user) (hp : led.HasPool rt accs.pool p)
    (hacc : p.matchesAccounts accs = true)
    (h : swapTransfers rt accs q aToB amountIn amountOut decimals led = .ok led') :
    ReflTransGen (Posting rt i) led led' ∧ led'.HasPool rt accs.pool p := by
  obtain ⟨l₁, hin, hout⟩ := swapTransfers_stages h
  obtain ⟨hpost₁, hp₁⟩ := posting_payIn hpool huser hp hacc hin
  obtain ⟨hpost₂, hp₂⟩ := posting_payUser hpool huser hp₁ hacc hout
  exact ⟨(ReflTransGen.single hpost₁).tail hpost₂, hp₂⟩

theorem accrueFee_terms (h : p.accrueFee aToB amount = .ok q) : q.terms = p.terms := by
  obtain rfl := accrueFee_frame h
  exact Pool.withFees_terms

theorem processSwap_postings
    (h : processSwap rt accs amountIn minOut aToB bandBoundary counts led = .ok (led', events)) :
    ReflTransGen (Posting rt (.swap accs amountIn minOut aToB bandBoundary counts)) led led' := by
  simp only [processSwap, Checked.bind_eq_ok, require_eq_ok, exists_const, Prod.exists,
    Checked.pure_eq_ok, Prod.mk.injEq] at h
  obtain ⟨-, _, hvalid, -, p, hload, context, hcontext, decimals, -, realA, realB, -, q, hbump,
    accA, accB, -, -, q₁, hsample, -, portion, hportion, settled, hcascade, -, out, hout, -,
    swA, swB, -, -, q₂, haccrue, final, -, _, -, l₁, q₃, log, hpersist, l₂, hmoves, rfl, rfl⟩ := h
  obtain ⟨hp, hacc⟩ := hasPool_of_load hvalid hload
  simp only [checkContext, Checked.bind_eq_ok, Checked.pure_eq_ok] at hcontext
  obtain ⟨_, hparse, _, -, rfl⟩ := hcontext
  have hkept := ((Pool.Kept.bumpIndexes hbump).trans (.sampleRefPrice hsample)).trans
    (.cascade hcascade)
  obtain ⟨hposts₁, hp₁, hkept'⟩ := persistLiquidations_postings (parseTail_tailed hparse)
    (fun _ => id) hp hpersist
  set i : Instruction := .swap accs amountIn minOut aToB bandBoundary counts
  obtain ⟨hposts₂, hp₂⟩ := swapTransfers_postings (i := i) rfl rfl hp₁ hacc hmoves
  have hterms : (q₃.stamp l₂.slot).terms = p.terms :=
    hkept'.terms.trans ((accrueFee_terms haccrue).trans hkept.terms)
  exact (hposts₁.trans hposts₂).tail (.record hp₂.1 (.pool rfl hterms))

end Tailed

/-- **An accepted instruction is a sequence of postings.** -/
theorem processInstruction_postings (h : processInstruction rt i led = .ok (led', events)) :
    ReflTransGen (Posting rt i) led led' := by
  cases i with
  | initializePool accs => exact processInitializePool_postings h
  | addLiquidity accs maxA maxB minLp => exact processAddLiquidity_postings h
  | removeLiquidity accs lpAmount minA minB => exact processRemoveLiquidity_postings h
  | openLoan accs sides c d nonce => exact processOpenLoan_postings h
  | repayLoan accs => exact processRepayLoan_postings h
  | claimProtocolFees accs => exact processClaimProtocolFees_postings h
  | claimLiquidatedRent accs => exact processClaimLiquidatedRent_postings h
  | swap accs amountIn minOut aToB bandBoundary counts => exact processSwap_postings h

theorem processInstruction_slot (h : processInstruction rt i led = .ok (led', events)) :
    led'.slot = led.slot := by
  have hposts := processInstruction_postings h
  clear h
  induction hposts with
  | refl => rfl
  | tail _ hpost ih => exact hpost.slot.trans ih

/-- What an accepted instruction does to one account. -/
theorem processInstruction_account (h : processInstruction rt i led = .ok (led', events))
    (k : Pubkey) :
    ReflTransGen (AccountStep rt i led.slot k) (led.accts k) (led'.accts k) := by
  have hposts := processInstruction_postings h
  clear h
  induction hposts using ReflTransGen.head_induction_on with
  | refl => exact .refl
  | head hpost _ ih =>
    rw [hpost.slot] at ih
    exact ih.head (hpost.accountStep k)

end Instructions

end ChiefLiquidity
