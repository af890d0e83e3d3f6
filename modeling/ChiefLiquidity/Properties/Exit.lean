import ChiefLiquidity.Properties.Repayment

/-!
# The last LP can leave

Whoever holds all LP tokens of a pool can burn them for everything in its reserves, exactly when no
loan is open: an open loan has a principal, so a part of the reserves that is not in the vaults.

## Why no loan may be open

The last LP is owed the accounted reserves and can be paid from the vaults. The two agree exactly
when nothing is lent. A pool with an open loan has lent its principal, which is not zero, so the
payment of that side exceeds what is there. When nothing is lent there is no collateral either, and
what stays in the vaults are the fees of the protocol.

## The burn

The supply to be burned is what the mint says, and the sole holder's account has all of it. Tokens
that others burned before are not in the supply any more, so they do not stand in the way.

## Main definitions

* `LiquidityAccounts.SoleHolder` — the LP account of the user holds the whole supply
* `LeavesNothing` — what a full exit has to do

## Main results

* `full_exit_iff` — when a full exit is accepted, and what it does
-/

namespace ChiefLiquidity

open Ledger Market

variable {rt : Runtime} {led led' : Ledger} {p p' q : Pool} {accs : LiquidityAccounts}
  {decimals share : Side → ℕ} {minA minB a b : ℕ} {events : List Event}

/-- The LP account of the user holds the whole supply, under the token program of the LP mint. It is
not frozen, and its owner has not made itself its delegate. -/
structure LiquidityAccounts.SoleHolder (accs : LiquidityAccounts) (led : Ledger) : Prop where
  lpMint : ∃ m, led.accts accs.lpMint = ⟨accs.tokenProgramA, .mint m⟩
  account : ∃ t, led.accts accs.userLp = ⟨accs.tokenProgramA, .token t⟩ ∧ t.mint = accs.lpMint ∧
    t.owner = accs.user ∧ t.delegate ≠ some accs.user ∧ t.isFrozen = false
  balance : led.balance accs.userLp = led.mintSupply accs.lpMint

/-! ### Acceptance -/

/-- Shares of the whole supply are the whole reserves, and no reserve is paid out as nothing. -/
theorem withdrawalAmounts_all {supply : ℕ} (hS : 0 < supply) (hS' : supply < 2 ^ 64)
    (ha : a < 2 ^ 64) (hb : b < 2 ^ 64) : withdrawalAmounts supply a b supply = .ok (a, b) := by
  have hA : mulDiv supply a supply = .ok a := by
    rw [mulDiv_of_lt hS.ne' (mul_lt_of_words hS' ha), Nat.mul_div_cancel_left _ hS]
  have hB : mulDiv supply b supply = .ok b := by
    rw [mulDiv_of_lt hS.ne' (mul_lt_of_words hS' hb), Nat.mul_div_cancel_left _ hS]
  rw [withdrawalAmounts, hA, hB]
  simp only [Checked.ok_bind]
  rw [require_of (by omega)]
  rfl

/-- **A full exit is accepted** when no loan is open. -/
theorem processRemoveLiquidity_accepted (h : Reachable rt led) (hsig : ¬ rt.IsPda accs.user)
    (hsigned : accs.userIsSigner = true) (hp : led.HasPool rt accs.pool p)
    (hacc : p.matchesAccounts accs.toPoolAccounts = true) (hlp : p.lpMint = accs.lpMint)
    (hF : accs.Funded rt led accs.user decimals) (hH : accs.SoleHolder led)
    (hS : 0 < led.mintSupply p.lpMint) (hr : led.accounted p = .ok (a, b)) (hminA : minA ≤ a)
    (hminB : minB ≤ b) (hnone : ∀ k, led.openLoan rt accs.pool k = none) :
    ∃ outcome, processRemoveLiquidity rt accs (led.mintSupply p.lpMint) minA minB led =
      .ok outcome := by
  obtain ⟨S, hv⟩ := h.sound.valid _ _ hp
  have hw := h.sound.filed.wired _ _ hp
  obtain ⟨hswappable, haccounted, q, hbump⟩ :=
    (h.sound.metered _ _ hp).accrues hv hw.real_lt led.slot
  obtain ⟨rfl, rfl⟩ := Prod.mk.inj (Except.ok.inj (hr.symm.trans haccounted))
  have haccrued : (led.market rt accs.pool p).Accrued q := ⟨hbump⟩
  rw [← haccrued.swappable] at hswappable
  rw [← haccrued.accounted] at haccounted
  have hall := fun x => (hv.reserve_of_no_loans hnone x).1
  have hle : ∀ x, (led.market rt accs.pool p).reserve x ≤ led.balance (p.vault x) := fun x => by
    rw [hall]
    exact (Nat.sub_le _ _).trans (Nat.sub_le _ _)
  have hfits := fun x => (hle x).trans_lt (hw.real_lt x)
  obtain ⟨m, hm⟩ := hH.lpMint
  obtain ⟨t, ht, htm, hto, hdel, hfrozen⟩ := hH.account
  have hsupply : led.mintSupply p.lpMint = m.supply := by
    rw [hlp, mintSupply_of_data (congrArg Account.data hm)]
  have hbalance : led.balance accs.userLp = led.mintSupply p.lpMint := by rw [hlp, hH.balance]
  obtain ⟨hvault, -⟩ := Pool.matchesAccounts_iff.mp hacc
  have hholder : accs.user ≠ accs.pool := fun heq => hsig (heq ▸ hw.pda)
  have hsigns := signsFor_accepted hw haccrued.terms
  -- the burn, and the two payments after it
  obtain ⟨led₁, hburn⟩ : ∃ led₁, burnChecked rt led _ _ _ _ _ _ _ = .ok led₁ :=
    burnChecked_accepted ht hm htm hfrozen hto hdel hbalance.ge
      (le_of_eq (congrArg led.mintSupply hlp))
  rw [← hlp] at hburn
  obtain ⟨hmove₁, hbal₁, -⟩ := burnLp_eq_ok hw hsig hburn
  have hF₁ := hF.burn hw hacc ht (htm.trans hlp.symm) hburn
  have hw₁ := hw.touched hmove₁.touched rfl
  obtain ⟨led₂, houtA⟩ := payOut_accepted hF₁ hw₁ hacc hsigns
    (show (led.market rt accs.pool p).reserve .a ≤ led₁.balance (accs.vault .a) by
      rw [← hvault, hbal₁]
      exact hle .a)
  obtain ⟨hmove₂, -, hbal₂, -⟩ := payOut_eq_ok hw₁ hacc houtA
  have hF₂ := hF₁.payOut hw₁ hacc hholder houtA
  obtain ⟨led₃, houtB⟩ := payOut_accepted hF₂ (hw₁.touched hmove₂.touched rfl) hacc hsigns
    (show (led.market rt accs.pool p).reserve .b ≤ led₂.balance (accs.vault .b) by
      rw [← hvault, hbal₂, hbal₁, if_neg (by decide)]
      exact hle .b)
  rw [← hlp] at hm
  simp only [processRemoveLiquidity, require_of hsigned, validate_accepted hF hp,
    require_of hS.ne', loadPool_accepted hacc hp, readDecimals_accepted hF, ← hlp,
    readMintDecimals_eq_ok.mpr ⟨m, congrArg Account.data hm, rfl⟩,
    readMintSupply_eq_ok.mpr ⟨m, congrArg Account.data hm, hsupply.symm⟩,
    readVaults_accepted hw hacc, require_of (le_refl (led.mintSupply p.lpMint)), Checked.ok_bind]
  rw [require_of trivial, Checked.ok_bind,
    (checkSupplyFloor_eq_ok (u := ())).mpr ⟨le_refl _, by omega⟩, Checked.ok_bind,
    show p.bumpIndexes (led.balance p.vaultA) (led.balance p.vaultB) led.slot = .ok q from hbump,
    Checked.ok_bind, show q.accounted (led.balance p.vaultA) (led.balance p.vaultB) = _ from
      haccounted, Checked.ok_bind, show q.swappable (led.balance p.vaultA) (led.balance p.vaultB) =
      _ from hswappable, Checked.ok_bind]
  simp only [withdrawalAmounts_all hS (hsupply ▸ m.supply_lt) (hfits .a) (hfits .b),
    fits_of_lt (hfits .a), fits_of_lt (hfits .b), require_of (And.intro hminA hminB),
    require_of (And.intro (hall .a).le (hall .b).le), hsigned, hburn, houtA, houtB,
    Checked.ok_bind]
  exact ⟨_, rfl⟩

/-! ### What it does -/

/-- A full exit pays out the reserves `a` and `b`, and what stays in the vaults are the fees. -/
structure LeavesNothing (accs : LiquidityAccounts) (led led' : Ledger) (p p' : Pool) (a b : ℕ) :
    Prop where
  userA : led'.balance accs.userA = led.balance accs.userA + a
  userB : led'.balance accs.userB = led.balance accs.userB + b
  vaultA : led'.balance p.vaultA + a = led.balance p.vaultA
  vaultB : led'.balance p.vaultB + b = led.balance p.vaultB
  fees : ∀ x, led'.balance (p.vault x) = p.fees x ∧ p'.fees x = p.fees x
  supply : led'.mintSupply p.lpMint = 0
  accounted : led'.accounted p' = .ok (0, 0)

/-- The balances of the user after a withdrawal into their own accounts. -/
theorem LiquidityRemoved.user_balance {lp : ℕ} (hw : Wired rt led accs.pool p)
    (hsig : ¬ rt.IsPda accs.user) (hF : accs.Funded rt led accs.user decimals)
    (hH : accs.SoleHolder led) (hlp : p.lpMint = accs.lpMint)
    (hr : LiquidityRemoved rt accs lp led led' p p' q share) (x : Side) :
    led'.balance (accs.userToken x) = led.balance (accs.userToken x) + share x := by
  have hholder : accs.user ≠ accs.pool := fun heq => hsig (heq ▸ hw.pda)
  have huser := hF.userToken_ne hw hr.accounts hholder
  have husers : ∀ {x y : Side}, x ≠ y → accs.userToken x ≠ accs.userToken y :=
    fun hxy => hF.userToken_side_ne hw hr.accounts hxy
  have hnotLp : accs.userToken x ≠ accs.userLp := by
    intro heq
    obtain ⟨t, ht, htm, -⟩ := hH.account
    obtain ⟨t', hk, hm, -⟩ := hF.user x
    rw [heq, ht] at hk
    obtain rfl : t = t' := AccountData.token.inj (congrArg Account.data hk)
    obtain ⟨-, hmint⟩ := Pool.matchesAccounts_iff.mp hr.accounts
    exact hw.lpMint_ne x ((hmint x).trans (hm.symm.trans (htm.trans hlp.symm)))
  rw [hr.balance]
  cases x with
  | a =>
    rw [moved_of_ne (huser .a .b) (husers (show Side.a ≠ .b by decide)),
      moved_dst (huser .a .a).symm, if_neg hnotLp]
  | b =>
    have hsides := husers (show Side.b ≠ .a by decide)
    rw [moved_dst (huser .b .b).symm, moved_of_ne (huser .b .a) hsides, if_neg hnotLp]

/-- A withdrawal of everything into the user's own accounts leaves nothing, and there were no
loans. -/
theorem LiquidityRemoved.leavesNothing (h : Reachable rt led) (hafter : Reachable rt led')
    (hsig : ¬ rt.IsPda accs.user) (hF : accs.Funded rt led accs.user decimals)
    (hH : accs.SoleHolder led) (hlp : p.lpMint = accs.lpMint)
    (hr : LiquidityRemoved rt accs (led.mintSupply p.lpMint) led led' p p' q share)
    (hacc : led.accounted p = .ok (a, b)) :
    (∀ k, led.openLoan rt accs.pool k = none) ∧ LeavesNothing accs led led' p p' a b := by
  have hp := hr.step.before
  obtain ⟨S, hv⟩ := h.sound.valid _ _ hp
  have hw := h.sound.filed.wired _ _ hp
  have hholder : accs.user ≠ accs.pool := fun heq => hsig (heq ▸ hw.pda)
  have hpaid : ∀ x, accs.paidOut x (share x) = share x := fun x =>
    accs.paidOut_of_ne (hF.userToken_ne hw hr.accounts hholder x x)
  have hwithdraw : Withdraw (led.market rt accs.pool p) q (led.market rt accs.pool p).supply share
    (fun x => accs.paidOut x (share x)) (led'.market rt accs.pool p') := hr.withdraw
  have hall := hwithdraw.share_of_all
  have hnone := hv.no_loans_iff.mpr fun x => (hall x).2
  have hreserve := hv.reserve_of_no_loans hnone
  obtain ⟨rfl, rfl⟩ := Prod.mk.inj (Except.ok.inj (hacc.symm.trans (h.sound.accounted hp)))
  have hempty : ∀ x, (led'.market rt accs.pool p').reserve x = 0 := fun x => by
    have := hwithdraw.reserve x
    rw [hpaid, (hall x).1] at this
    omega
  have hreal : ∀ x, led'.balance (p.vault x) =
      led.balance (p.vault x) - (led.market rt accs.pool p).reserve x := fun x => by
    have hx : led'.balance (p'.vault x) = led.balance (p.vault x) - accs.paidOut x (share x) :=
      congrFun (congrArg Market.real hwithdraw.after) x
    rwa [Pool.vault_of_terms hr.step.terms, hpaid, (hall x).1] at hx
  have hle : ∀ x, (led.market rt accs.pool p).reserve x + p.fees x = led.balance (p.vault x) :=
    fun x => by
      obtain ⟨hsw, hcoll⟩ := hreserve x
      have hsolvent : p.collateral x + p.fees x ≤ led.balance (p.vault x) := hv.solvent x
      have hswap : (led.market rt accs.pool p).swappable x =
        led.balance (p.vault x) - p.collateral x - p.fees x := rfl
      have hcoll' : p.collateral x = 0 := hcoll
      omega
  have huser := hr.user_balance hw hsig hF hH hlp
  simp only [hall] at huser
  have hpool' : p' = q.stamp led.slot := congrArg Market.pool hwithdraw.after
  refine ⟨hnone, huser .a, huser .b, ?_, ?_, fun x => ⟨?_, ?_⟩, ?_, ?_⟩
  · have := hreal .a
    have := hle .a
    simp only [Pool.vault] at *
    omega
  · have := hreal .b
    have := hle .b
    simp only [Pool.vault] at *
    omega
  · have := hreal x
    have := hle x
    omega
  · rw [hpool', Pool.stamp_fees]
    exact hwithdraw.accrued.fees x
  · have hsupply := congrArg Market.supply hwithdraw.after
    rw [market_supply, Pool.lpMint_of_terms hr.step.terms] at hsupply
    rw [hsupply]
    exact Nat.sub_self _
  · rw [hafter.sound.accounted hr.step.after, hempty, hempty]

/-- **Full exit.** The sole holder of the LP tokens can burn all of them exactly when no loan is
open. That pays out exactly the accounted reserves, and leaves nothing but the fees. -/
theorem full_exit_iff (h : Reachable rt led) (hsig : ¬ rt.IsPda accs.user)
    (hsigned : accs.userIsSigner = true) (hp : led.HasPool rt accs.pool p)
    (hacc : p.matchesAccounts accs.toPoolAccounts = true) (hlp : p.lpMint = accs.lpMint)
    (hF : accs.Funded rt led accs.user decimals) (hH : accs.SoleHolder led)
    (hS : 0 < led.mintSupply p.lpMint) (hr : led.accounted p = .ok (a, b)) (hminA : minA ≤ a)
    (hminB : minB ≤ b) :
    ((∃ outcome, processRemoveLiquidity rt accs (led.mintSupply p.lpMint) minA minB led =
      .ok outcome) ↔ ∀ k, led.openLoan rt accs.pool k = none) ∧
    ∀ led' events, processRemoveLiquidity rt accs (led.mintSupply p.lpMint) minA minB led =
      .ok (led', events) →
        ∃ p', led'.HasPool rt accs.pool p' ∧ LeavesNothing accs led led' p p' a b := by
  have hdoes : ∀ led' events, processRemoveLiquidity rt accs (led.mintSupply p.lpMint) minA minB
      led = .ok (led', events) → (∀ k, led.openLoan rt accs.pool k = none) ∧
        ∃ p', led'.HasPool rt accs.pool p' ∧ LeavesNothing accs led led' p p' a b := by
    intro led' events hi
    obtain ⟨_, p', q, share, hremoved⟩ := processRemoveLiquidity_removed h.sound.filed hsig hi
    obtain rfl := hremoved.step.before.unique hp
    have hafter : Reachable rt led' :=
      h.step (.instruction (.removeLiquidity accs (led.mintSupply _) minA minB)
        (fun k hk => Option.mem_some.mp hk ▸ hsig) hi)
    obtain ⟨hnone, hleaves⟩ := hremoved.leavesNothing h hafter hsig hF hH hlp hr
    exact ⟨hnone, p', hremoved.step.after, hleaves⟩
  refine ⟨⟨fun ⟨⟨led', events⟩, hi⟩ => (hdoes led' events hi).1, fun hnone => ?_⟩,
    fun led' events hi => (hdoes led' events hi).2⟩
  exact processRemoveLiquidity_accepted h hsig hsigned hp hacc hlp hF hH hS hr hminA hminB hnone

namespace Sandbox

/-- A pool that has traded, and lent, and been repaid. -/
def lonely : List Act :=
  create ++ [add 1_000_000 1_000_000, lend 0 0 500_000 50_000 61, swap 100_000 true 63 [] [],
    .wait 10, repay 0 0 61]

/-- The accounts of its only LP. -/
def exitAccs : LiquidityAccounts := { Sandbox.accs with lpMint, userLp }

/-- Whether the user holds all LP tokens. -/
def isSoleHolder (led : Ledger) : Bool :=
  (match led.accts lpMint with
    | ⟨o, .mint _⟩ => o = sandbox.token2022Id
    | _ => false) &&
  (match led.accts userLp with
    | ⟨o, .token t⟩ => o = sandbox.token2022Id ∧ t.mint = lpMint ∧ t.owner = user ∧
        t.delegate ≠ some user ∧ t.isFrozen = false
    | _ => false) &&
  led.balance userLp = led.mintSupply lpMint

theorem soleHolder {led : Ledger} (h : isSoleHolder led = true) : exitAccs.SoleHolder led := by
  simp only [isSoleHolder, Bool.and_eq_true, decide_eq_true_eq] at h
  obtain ⟨⟨hmint, htoken⟩, hbalance⟩ := h
  refine ⟨?_, ?_, hbalance⟩
  · split at hmint
    · rename_i o m hk
      obtain rfl := of_decide_eq_true hmint
      exact ⟨m, hk⟩
    · cases hmint
  · split at htoken
    · rename_i o t hk
      obtain ⟨rfl, hm, ho, hdel, hfrozen⟩ := of_decide_eq_true htoken
      exact ⟨t, hk, hm, ho, hdel, hfrozen⟩
    · cases htoken

end Sandbox

theorem full_exit_iff_lonely :
    (∀ k, (Sandbox.after Sandbox.lonely).openLoan sandbox Sandbox.pool k = none) ∧
      ∃ led' p', LeavesNothing Sandbox.exitAccs (Sandbox.after Sandbox.lonely) led'
        (Sandbox.poolState (Sandbox.after Sandbox.lonely)) p' 1_099_950 909_340 := by
  obtain ⟨hiff, hdoes⟩ := full_exit_iff (Sandbox.after_reachable Sandbox.lonely)
    (Sandbox.not_isPda (show Sandbox.isUser Sandbox.exitAccs.user = true by decide)) rfl
    (Sandbox.hasPool (by decide +kernel)) (by decide +kernel) (by decide +kernel)
    (Sandbox.funded (by decide +kernel)) (Sandbox.soleHolder (by decide +kernel))
    (by decide +kernel)
    (Sandbox.accounted_eq (a := 1_099_950) (b := 909_340) (by decide +kernel)) (Nat.zero_le _)
    (Nat.zero_le _)
  obtain ⟨⟨led', events⟩, hi⟩ := Checked.exists_of_isOk (x := processRemoveLiquidity sandbox
    Sandbox.exitAccs ((Sandbox.after Sandbox.lonely).mintSupply
      (Sandbox.poolState (Sandbox.after Sandbox.lonely)).lpMint) 0 0
    (Sandbox.after Sandbox.lonely)) (by decide +kernel)
  obtain ⟨p', -, hleaves⟩ := hdoes led' events hi
  exact ⟨hiff.mp ⟨_, hi⟩, led', p', hleaves⟩

end ChiefLiquidity
