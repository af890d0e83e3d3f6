import ChiefLiquidity.Refinement.Widths

/-!
# Runs as the chain sees them

What reaches the program are transactions, which are bytes, and what an accepted one leaves besides
the accounts are lines in the log. A journal is a run in these terms: whatever the program can be
made to do, it has been done by some journal.

## Bytes in, bytes out

A journal has a line for every event of every accepted transaction, in order. Between the
transactions anything may happen that may happen outside the program, while the slot stays a word.

That the records of a state fit their layouts is proved along the journal: it holds at the start,
every transaction keeps it because its arguments are words, and nothing outside writes records.

## Main definitions

* `Journal` — the lines logged in a run of transactions

## Main results

* `Journal.reachable` — journals are runs
* `Journal.wide` — in every state they lead to, the records are within their words
* `Journal.lines_fit` — and so is all they log
-/

namespace ChiefLiquidity

variable {rt : Runtime} {genesis led led' : Ledger} {lines : List (List UInt8)}

/-- What the accepted transactions of a run have logged, line by line. -/
inductive Journal [Borsh] (rt : Runtime) (genesis : Ledger) : List (List UInt8) → Ledger → Prop where
  | nil : Journal rt genesis [] genesis
  | transaction {lines : List (List UInt8)} {led led' : Ledger} {events : List Event}
      (t : Transaction rt) : Journal rt genesis lines led → t.process led = .ok (led', events) →
      Journal rt genesis (lines ++ events.map Event.line) led'
  | outside {lines : List (List UInt8)} {led led' : Ledger} : Journal rt genesis lines led →
      Outside rt led led' → led'.slot < 2 ^ 64 → Journal rt genesis lines led'

/-- Journals are runs. -/
theorem Journal.run [Borsh] (h : Journal rt genesis lines led) :
    Relation.ReflTransGen (Step rt) genesis led := by
  induction h with
  | nil => exact .refl
  | transaction t _ ht ih =>
    obtain ⟨i, -, hsig, hi⟩ := t.process_eq_ok ht
    exact ih.tail (.instruction i hsig hi)
  | outside _ hout _ ih => exact ih.tail (.outside hout)

theorem Journal.reachable [Borsh] (hg : Genesis rt genesis) (h : Journal rt genesis lines led) :
    Reachable rt led := ⟨genesis, hg, h.run⟩

namespace Ledger

theorem wide_of_genesis (hg : Genesis rt led) (hslot : led.slot < 2 ^ 64) : led.Wide rt := by
  refine ⟨hslot, fun k howner hlive => ?_⟩
  rcases hlive with hpda | hlive
  · rw [hg.pda k hpda]
    trivial
  · exact absurd (hg.fresh k howner) hlive

/-- What happens outside leaves the records alone, or takes them away. -/
theorem Wide.outside (h : led.Wide rt) (hout : Outside rt led led') (hslot : led'.slot < 2 ^ 64) :
    led'.Wide rt := by
  refine ⟨hslot, fun k howner hlive => ?_⟩
  have hpda : rt.IsPda k := by
    by_contra hpda
    exact (hlive.resolve_left hpda) (hout.fresh k hpda howner)
  have hdrift := hout.pda k hpda
  have hold := h.records k
  generalize led.accts k = a at hdrift hold
  generalize led'.accts k = a' at hdrift howner
  cases hdrift with
  | same => exact hold howner (.inl hpda)
  | deposit => trivial
  | burn => trivial
  | collect => trivial

end Ledger

/-- **Records within their words** in every state that a journal leads to, which is induction on the
journal. -/
theorem Journal.wide [Borsh] (hrt : rt.Words) (hg : Genesis rt genesis) (hslot : genesis.slot < 2 ^ 64)
    (h : Journal rt genesis lines led) : led.Wide rt := by
  induction h with
  | nil => exact Ledger.wide_of_genesis hg hslot
  | transaction t _ ht ih =>
    obtain ⟨i, hfits, -, hi⟩ := t.process_eq_ok ht
    exact (processInstruction_wide hrt ih hfits hi).1
  | outside _ hout hslot' ih => exact ih.outside hout hslot'

/-- **Every line is that of an event that fits.** -/
theorem Journal.lines_fit [Borsh] (hrt : rt.Words) (hg : Genesis rt genesis)
    (hslot : genesis.slot < 2 ^ 64) (h : Journal rt genesis lines led) :
    ∀ line ∈ lines, ∃ e : Event, e.Fits ∧ e.line = line := by
  induction h with
  | nil =>
    intro line hline
    cases hline
  | transaction t hpast ht ih =>
    obtain ⟨i, hfits, -, hi⟩ := t.process_eq_ok ht
    obtain ⟨-, hevents⟩ := processInstruction_wide hrt (hpast.wide hrt hg hslot) hfits hi
    intro line hline
    rcases List.mem_append.mp hline with hold | hnew
    · exact ih line hold
    · obtain ⟨e, he, rfl⟩ := List.mem_map.mp hnew
      exact ⟨e, hevents e he, rfl⟩
  | outside _ _ _ ih => exact ih

end ChiefLiquidity
