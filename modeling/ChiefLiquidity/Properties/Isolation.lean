import ChiefLiquidity.Properties.Books
import ChiefLiquidity.Refinement.Isolation

/-!
# Transactions that do not share accounts

The runtime of the chain runs transactions in parallel as long as none writes an account that
another one names. This is sound for the program: every instruction keeps to the accounts in its
list and writes only those marked writable, so agents whose transactions are independent in that
sense neither see each other nor depend on the order in which they are scheduled.

## From footprints to schedules

The first result is about one instruction and two ledgers. The second is about agents, each with a
list of transactions, and schedules that interleave them. If no agent writes what another names,
each answer in a schedule is the answer the agent would have got alone, and two schedules of the
same agents end in the same ledger.

The program takes part in this through its account lists only. An instruction that read an account
it does not list would break the first result.

## Main results

* `instruction_footprint` — the account list of an instruction is its footprint
* `schedules_agree` — each agent gets the answers it would get alone, and the order is immaterial
-/

namespace ChiefLiquidity

open Checked Footprint

variable {rt : Runtime} {i : Instruction} {led led' led₁ : Ledger} {events : List Event} {A : Type}
  {l l' : List (A × Instruction)}

namespace Sandbox

/-- A swap that liquidates nothing. -/
def lightSwap : Instruction := .swap (swapAccs []) 1000 0 true 59 []

/-- The claim of the rent of the loan that is liquidated in `busy`. -/
def claimRent : Instruction :=
  .claimLiquidatedRent { loan := loan 0, borrower := user, borrowerIsSigner := true }

/-- The claim of the fees of the pool, which nobody signs. -/
def claimFees : Instruction := .claimProtocolFees { accs with userA := 60, userB := 62 }

/-- The busy pool, once the fee recipient has opened its token accounts. -/
def claimable : List Act :=
  busy ++ [.openToken 60 mintA protocolFeeRecipient, .openToken 62 mintB protocolFeeRecipient]

/-- The busy ledger, where another user has opened a token account. -/
def visited : Ledger :=
  (after busy).setAccount 66 ⟨sandbox.token2022Id, .token (.opened mintA 64 false)⟩

end Sandbox

/-! ### Footprints -/

/-- **The account list of an instruction is its footprint.** On two ledgers of one slot that agree
on the listed accounts it fails with the same error or succeeds with the same log, leaves the same
in the writable accounts, and touches no other account of either ledger. -/
theorem instruction_footprint (hslot : led.slot = led'.slot)
    (hagree : ∀ k ∈ i.accounts, led.accts k = led'.accts k) :
    (∀ e, processInstruction rt i led = .error e ↔ processInstruction rt i led' = .error e) ∧
      ∀ led₁ events, processInstruction rt i led = .ok (led₁, events) →
        led₁.slot = led.slot ∧ (∀ k ∉ i.writable, led₁.accts k = led.accts k) ∧
        ∃ led₁', processInstruction rt i led' = .ok (led₁', events) ∧ led₁'.slot = led'.slot ∧
          (∀ k ∈ i.writable, led₁'.accts k = led₁.accts k) ∧
          ∀ k ∉ i.writable, led₁'.accts k = led'.accts k := by
  have hlocal := (processInstruction_local rt i).run led led' ⟨hslot, hagree⟩
  generalize processInstruction rt i led = x at hlocal ⊢
  generalize processInstruction rt i led' = y at hlocal ⊢
  cases hlocal with
  | @ok o o' h =>
    obtain ⟨h, hevents⟩ := h
    refine ⟨fun e => by simp, ?_⟩
    rintro led₁ events ⟨⟩
    refine ⟨h.left.env, h.left.cell, o'.1, congrArg Except.ok (Prod.ext rfl hevents.symm),
      h.right.env, fun k hk => ?_, h.right.cell⟩
    exact (h.agree.cell k (i.writable_subset hk)).symm
  | error e =>
    refine ⟨fun e' => Iff.rfl, ?_⟩
    intro led₁ events h
    cases h

theorem instruction_footprint_visited :
    ∃ led₁ led₁' events,
      processInstruction sandbox Sandbox.lightSwap (Sandbox.after Sandbox.busy) =
        .ok (led₁, events) ∧
      processInstruction sandbox Sandbox.lightSwap Sandbox.visited = .ok (led₁', events) ∧
      led₁'.accts 66 = Sandbox.visited.accts 66 := by
  have hnot : 66 ∉ Sandbox.lightSwap.accounts := by
    rintro ⟨m, hm, hk⟩
    revert m
    decide +kernel
  have hagree : ∀ k ∈ Sandbox.lightSwap.accounts,
      (Sandbox.after Sandbox.busy).accts k = Sandbox.visited.accts k := fun k hk =>
    (Ledger.setAccount_accts_of_ne fun (h : k = 66) => hnot (h ▸ hk)).symm
  have hok : ∃ o, processInstruction sandbox Sandbox.lightSwap (Sandbox.after Sandbox.busy) =
      .ok o := Checked.exists_of_isOk (by decide +kernel)
  obtain ⟨⟨led₁, events⟩, hrun⟩ := hok
  obtain ⟨-, -, led₁', hrun', -, -, hkeep⟩ :=
    (instruction_footprint Ledger.setAccount_slot.symm hagree).2 led₁ events hrun
  exact ⟨led₁, led₁', events, hrun, hrun',
    hkeep 66 fun h => hnot (Sandbox.lightSwap.writable_subset h)⟩

/-! ### Schedules -/

/-- Independence, slot by slot. -/
theorem Instruction.disjoint_of_metas {i j : Instruction}
    (h : ∀ m ∈ i.metas, m.isWritable = true → ∀ m' ∈ j.metas, m.key ≠ m'.key) :
    Disjoint i.writable j.accounts := by
  refine Set.disjoint_left.mpr ?_
  rintro k ⟨m, hm, hk, hw⟩ ⟨m', hm', hk'⟩
  exact h m hm hw m' hm' (hk.trans hk'.symm)

/-- **Independent transactions run as if alone, in any order.** Take schedules of the transactions
of some agents, where no agent's transaction may write an account that another agent's lists.
Every answer an agent gets, log or error, is the answer it gets when its transactions run alone,
and its accounts end as they do then; and all schedules of the same transactions that keep each
agent's own order end in the same ledger. -/
theorem schedules_agree [DecidableEq A]
    (hl : Independent Instruction.accounts Instruction.writable l) :
    (∀ a, byAgent a (run (processInstruction rt) l led).2 =
        (run (processInstruction rt) (byAgent a l) led).2 ∧
      ∀ x ∈ l, x.1 = a → ∀ k ∈ x.2.accounts,
        (run (processInstruction rt) l led).1.accts k =
          (run (processInstruction rt) (byAgent a l) led).1.accts k) ∧
    ∀ l', (∀ a, byAgent a l = byAgent a l') →
      (run (processInstruction rt) l led).1 = (run (processInstruction rt) l' led).1 :=
  ⟨fun a => run_alone (processInstruction_local rt) hl a led,
    fun _ h => run_eq (processInstruction_local rt) hl h led⟩

theorem schedules_agree_claimable :
    (∀ r ∈ (run (processInstruction sandbox) [(true, Sandbox.claimFees), (false, Sandbox.claimRent)]
      (Sandbox.after Sandbox.claimable)).2, r.2.isOk = true) ∧
    (run (processInstruction sandbox) [(true, Sandbox.claimFees), (false, Sandbox.claimRent)]
      (Sandbox.after Sandbox.claimable)).1 =
    (run (processInstruction sandbox) [(false, Sandbox.claimRent), (true, Sandbox.claimFees)]
      (Sandbox.after Sandbox.claimable)).1 := by
  refine ⟨by decide +kernel, (schedules_agree ?_).2 _ fun a => by cases a <;> rfl⟩
  have hfr : Disjoint Sandbox.claimFees.writable Sandbox.claimRent.accounts :=
    Instruction.disjoint_of_metas (by decide +kernel)
  have hrf : Disjoint Sandbox.claimRent.writable Sandbox.claimFees.accounts :=
    Instruction.disjoint_of_metas (by decide +kernel)
  intro x hx y hy hne
  rcases List.mem_pair.mp hx with rfl | rfl
  · rcases List.mem_pair.mp hy with rfl | rfl
    · exact absurd rfl hne
    · exact hfr
  · rcases List.mem_pair.mp hy with rfl | rfl
    · exact hrf
    · exact absurd rfl hne

end ChiefLiquidity
