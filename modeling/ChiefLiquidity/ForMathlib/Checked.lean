import Mathlib.Tactic

/-!
# Checked computations in `Except`

Programs that stop at the first failed check are written in the `Except ε` monad. Nothing here
names a particular program: the error type and the widths are parameters.

A proof about such a program almost always starts from "it returned `.ok b`" and has to learn
what every check on the way established. `bind_eq_ok` and the `_eq_ok` lemmas below turn that
hypothesis into a conjunction of plain facts, so that no proof unfolds a monadic bind.

## Rules for binds

Three kinds of facts about a checked computation are used over and over: what it returned, what it
can fail with, and how it compares with another one. Each has a rule for every way computations are
put together, and a proof follows the text of the program by applying them in turn: `bind_eq_ok` for
the first, `FailsOnly.bind` for the second and `Paired.bind` for the third.

## Main definitions

* `Checked.ensure` — fail with `e` unless a decidable condition holds
* `Checked.sub` — checked subtraction on naturals
* `Checked.narrow` — fail unless a natural fits in `w` bits
* `Checked.ofOption` — fail on `none`
* `Checked.FailsOnly` — a computation whose errors are of a kind
* `Checked.Paired` — two computations that end alike, with related results
-/

namespace Checked

variable {ε α β : Type}

/-- Fail with `e` unless `p` holds. -/
def ensure (p : Prop) [Decidable p] (e : ε) : Except ε Unit :=
  if p then .ok () else .error e

/-- Checked subtraction: `a - b`, or the error `e` when it would go below zero. -/
def sub (e : ε) (a b : ℕ) : Except ε ℕ :=
  if b ≤ a then .ok (a - b) else .error e

/-- The value `n` as a `w`-bit machine word, or the error `e` when it does not fit. -/
def narrow (w : ℕ) (e : ε) (n : ℕ) : Except ε ℕ :=
  if n < 2 ^ w then .ok n else .error e

/-- The value inside an option, or the error `e`. -/
def ofOption (e : ε) : Option α → Except ε α
  | some a => .ok a
  | none => .error e

/-! ### Inversion

Each lemma says exactly when the computation succeeds and what it then returned. -/

theorem bind_eq_ok {x : Except ε α} {f : α → Except ε β} {b : β} :
    (x >>= f) = .ok b ↔ ∃ a, x = .ok a ∧ f a = .ok b := by
  cases x with
  | error e => simp [bind, Except.bind]
  | ok a => simp [bind, Except.bind]

theorem pure_eq_ok {a b : α} : (pure a : Except ε α) = .ok b ↔ a = b := by
  simp [pure, Except.pure]

variable {p : Prop} [Decidable p] {e : ε} {u : Unit} {w m n k : ℕ}

@[simp] theorem ensure_eq_ok : ensure p e = .ok u ↔ p := by
  rw [ensure]
  split <;> simp [*]

theorem sub_eq_ok : sub e m n = .ok k ↔ n ≤ m ∧ k = m - n := by
  rw [sub]
  split <;> simp [*, eq_comm]

theorem narrow_eq_ok : narrow w e n = .ok k ↔ n < 2 ^ w ∧ k = n := by
  rw [narrow]
  split <;> simp [*, eq_comm]

theorem ofOption_eq_ok {o : Option α} {a : α} : ofOption e o = .ok a ↔ o = some a := by
  cases o <;> simp [ofOption]

/-- A value that is returned under a condition it is made from. -/
theorem dite_eq_ok {f : p → α} {a : α} :
    (if h : p then .ok (f h) else .error e : Except ε α) = .ok a ↔ ∃ h, a = f h := by
  split
  · rename_i h
    exact ⟨fun heq => ⟨h, (Except.ok.inj heq).symm⟩, fun ⟨_, heq⟩ => congrArg _ heq.symm⟩
  · rename_i h
    exact ⟨fun heq => (by cases heq), fun ⟨h', _⟩ => absurd h' h⟩

/-! ### Success

The same facts read the other way, for showing that a computation is accepted. -/

theorem ok_bind {a : α} {f : α → Except ε β} : (Except.ok a >>= f) = f a := rfl

theorem error_bind {f : α → Except ε β} : (Except.error e >>= f) = Except.error e := rfl

theorem ensure_of_not (h : ¬ p) : ensure p e = .error e := if_neg h

theorem ensure_of (h : p) : ensure p e = .ok () := if_pos h

theorem sub_of_le (h : n ≤ m) : sub e m n = .ok (m - n) := if_pos h

theorem narrow_of_lt (h : n < 2 ^ w) : narrow w e n = .ok n := if_pos h

theorem exists_of_isOk {x : Except ε α} (h : x.isOk = true) : ∃ a, x = .ok a := by
  cases x with
  | error e => cases h
  | ok a => exact ⟨a, rfl⟩

/-- A computation that succeeds with a value that passes a test. -/
theorem exists_of_any {x : Except ε α} (test : α → Bool) (h : x.toOption.any test = true) :
    ∃ a, x = .ok a ∧ test a = true := by
  cases x with
  | error e => cases h
  | ok a => exact ⟨a, rfl, h⟩

/-- Whether a computation fails with this error. -/
def failsWith [DecidableEq ε] (e : ε) : Except ε α → Bool
  | .error e' => e' = e
  | .ok _ => false

theorem eq_error_of_failsWith [DecidableEq ε] {e : ε} {x : Except ε α}
    (h : failsWith e x = true) : x = .error e := by
  cases x with
  | error e' => rw [of_decide_eq_true h]
  | ok a => cases h

/-! ### Errors of a kind

A program fails only in certain ways when its parts do. -/

/-- Every error of the computation has the property `P`. -/
def FailsOnly (P : ε → Prop) (x : Except ε α) : Prop := ∀ e, x = .error e → P e

section FailsOnly

variable {P : ε → Prop}

theorem FailsOnly.ok {a : α} : FailsOnly P (Except.ok a) := fun _ h => by cases h

theorem FailsOnly.pure {a : α} : FailsOnly P (pure a : Except ε α) := .ok

theorem FailsOnly.error (h : P e) : FailsOnly P (Except.error e : Except ε α) := by
  intro _ heq
  rwa [← Except.error.inj heq]

/-- The errors of a sequence are those of its first part, and of the rest for what that returns. -/
theorem FailsOnly.bind {x : Except ε α} {f : α → Except ε β} (hx : FailsOnly P x)
    (hf : ∀ a, x = .ok a → FailsOnly P (f a)) : FailsOnly P (x >>= f) := by
  cases x with
  | error e' => exact .error (hx e' rfl)
  | ok a => exact hf a rfl

theorem FailsOnly.ite {x y : Except ε α} (hx : p → FailsOnly P x) (hy : ¬ p → FailsOnly P y) :
    FailsOnly P (if p then x else y) := by
  split
  · exact hx ‹_›
  · exact hy ‹_›

theorem FailsOnly.ensure (h : P e) : FailsOnly P (ensure p e) :=
  .ite (fun _ => .ok) fun _ => .error h

theorem FailsOnly.sub (h : P e) : FailsOnly P (sub e m n) :=
  .ite (fun _ => .ok) fun _ => .error h

theorem FailsOnly.narrow (h : P e) : FailsOnly P (narrow w e n) :=
  .ite (fun _ => .ok) fun _ => .error h

end FailsOnly

/-! ### Computations side by side -/

section Paired

variable {α' β' γ : Type} {R : α → α' → Prop} {Q : β → β' → Prop}

/-- Both computations succeed with related results, or both fail with the same error. -/
inductive Paired (R : α → α' → Prop) : Except ε α → Except ε α' → Prop where
  | ok {a : α} {b : α'} : R a b → Paired R (.ok a) (.ok b)
  | error (e : ε) : Paired R (.error e) (.error e)

theorem Paired.pure {a : α} {b : α'} (h : R a b) :
    Paired R (Pure.pure a : Except ε α) (Pure.pure b) := .ok h

theorem Paired.mono {R' : α → α' → Prop} {x : Except ε α} {y : Except ε α'} (h : Paired R x y)
    (hR : ∀ a b, R a b → R' a b) : Paired R' x y := by
  cases h with
  | ok h => exact .ok (hR _ _ h)
  | error e => exact .error e

theorem Paired.bind {x : Except ε α} {y : Except ε α'} {f : α → Except ε β} {g : α' → Except ε β'}
    (h : Paired R x y) (hfg : ∀ a b, R a b → Paired Q (f a) (g b)) :
    Paired Q (x >>= f) (y >>= g) := by
  cases h with
  | ok h => exact hfg _ _ h
  | error e => exact .error e

/-- The same computation first, and then two that end alike on what it returned. -/
theorem Paired.bind_ok {x : Except ε γ} {f : γ → Except ε β} {g : γ → Except ε β'}
    (h : ∀ a, x = .ok a → Paired Q (f a) (g a)) : Paired Q (x >>= f) (x >>= g) := by
  cases x with
  | error e => exact .error e
  | ok a => exact h a (Eq.refl _)

/-- The same computation first, and then two that end alike whatever it returned. -/
theorem Paired.bind_same {x : Except ε γ} {f : γ → Except ε β} {g : γ → Except ε β'}
    (h : ∀ a, Paired Q (f a) (g a)) : Paired Q (x >>= f) (x >>= g) :=
  .bind_ok fun a _ => h a

end Paired

end Checked
