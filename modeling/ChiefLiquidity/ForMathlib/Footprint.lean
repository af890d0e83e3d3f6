import ChiefLiquidity.ForMathlib.Checked
import Mathlib

/-!
# Footprints

Transactions over a table of cells, each naming the cells it uses and, among these, the ones it may
write. What a transaction does depends on no other cell, and it changes no other one. Then
transactions that never write what the others use cannot tell in which order they ran, nor that the
others ran at all.

## Main definitions

* `Layout` — a state seen as a table of cells and an environment
* `Local` — a transaction keeps to its footprint
* `exec`, `run` — a transaction that fails changes nothing, and a schedule runs to its end

## Main results

* `run_alone` — every agent gets the answers it would get alone, and finds the same cells
* `run_eq` — two schedules of the same agents end in the same state
-/

namespace Footprint

open Checked

/-- A state seen as a table of cells and an environment that transactions do not change. -/
structure Layout (S K V E : Type) where
  cell : S → K → V
  env : S → E
  ext : ∀ {s t : S}, (∀ k, cell s k = cell t k) → env s = env t → s = t

variable {S K V E T A ε α β : Type} {L : Layout S K V E} {F G W X : Set K} {s s' t t' u u' : S}

namespace Layout

/-- Two states with the same environment and the same cells on `F`. -/
structure Agree (L : Layout S K V E) (F : Set K) (s t : S) : Prop where
  env : L.env s = L.env t
  cell : ∀ k ∈ F, L.cell s k = L.cell t k

/-- `t` differs from `s` at most on `W`. -/
structure Keeps (L : Layout S K V E) (W : Set K) (s t : S) : Prop where
  env : L.env t = L.env s
  cell : ∀ k, k ∉ W → L.cell t k = L.cell s k

theorem Agree.refl : L.Agree F s s := ⟨rfl, fun _ _ => rfl⟩

theorem Agree.symm (h : L.Agree F s t) : L.Agree F t s :=
  ⟨h.env.symm, fun k hk => (h.cell k hk).symm⟩

theorem Agree.trans (h : L.Agree F s t) (h' : L.Agree F t u) : L.Agree F s u :=
  ⟨h.env.trans h'.env, fun k hk => (h.cell k hk).trans (h'.cell k hk)⟩

theorem Agree.mono (h : L.Agree G s t) (hFG : F ⊆ G) : L.Agree F s t :=
  ⟨h.env, fun k hk => h.cell k (hFG hk)⟩

theorem Keeps.refl : L.Keeps W s s := ⟨rfl, fun _ _ => rfl⟩

theorem Keeps.trans (h : L.Keeps W s t) (h' : L.Keeps W t u) : L.Keeps W s u :=
  ⟨h'.env.trans h.env, fun k hk => (h'.cell k hk).trans (h.cell k hk)⟩

theorem Keeps.mono (h : L.Keeps W s t) (hWX : W ⊆ X) : L.Keeps X s t :=
  ⟨h.env, fun k hk => h.cell k fun hkW => hk (hWX hkW)⟩

theorem Keeps.agree (h : L.Keeps W s t) (hWF : Disjoint W F) : L.Agree F t s :=
  ⟨h.env, fun k hk => h.cell k (Set.disjoint_right.mp hWF hk)⟩

end Layout

open Layout

/-! ### Transactions that keep to their footprint -/

/-- Two runs side by side, from `s` to `t` and from `s'` to `t'`: they still agree on `F`, and each
has written at most `W`. -/
structure Lockstep (L : Layout S K V E) (F W : Set K) (s s' t t' : S) : Prop where
  agree : L.Agree F t t'
  left : L.Keeps W s t
  right : L.Keeps W s' t'

theorem Lockstep.refl (h : L.Agree F s s') : Lockstep L F W s s' s s' := ⟨h, .refl, .refl⟩

theorem Lockstep.trans (h : Lockstep L F W s s' t t') (h' : Lockstep L F W t t' u u') :
    Lockstep L F W s s' u u' :=
  ⟨h'.agree, h.left.trans h'.left, h.right.trans h'.right⟩

/-- A transaction that returns a state and an answer **keeps to its footprint**: from states that
agree on `F` it goes the same way, and it writes at most `W`, a part of `F`. -/
structure Local (L : Layout S K V E) (F W : Set K) (f : S → Except ε (S × α)) : Prop where
  subset : W ⊆ F
  run : ∀ s s', L.Agree F s s' →
    Paired (fun o o' => Lockstep L F W s s' o.1 o'.1 ∧ o.2 = o'.2) (f s) (f s')

/-- On a larger footprint, the cells that are not written stay as they were on both sides. -/
theorem Local.mono {f : S → Except ε (S × α)} (h : Local L F W f) (hFG : F ⊆ G) :
    Local L G W f := by
  refine ⟨h.subset.trans hFG, fun s s' hG => (h.run s s' (hG.mono hFG)).mono ?_⟩
  rintro o o' ⟨hstep, ha⟩
  refine ⟨⟨⟨hstep.agree.env, fun k hk => ?_⟩, hstep.left, hstep.right⟩, ha⟩
  by_cases hkW : k ∈ W
  · exact hstep.agree.cell k (h.subset hkW)
  · rw [hstep.left.cell k hkW, hstep.right.cell k hkW, hG.cell k hk]

/-- Run a transaction: one that fails leaves the state as it was. -/
def exec (f : S → Except ε (S × α)) (s : S) : S × Except ε α :=
  match f s with
  | .ok (t, a) => (t, .ok a)
  | .error e => (s, .error e)

theorem Local.exec {f : S → Except ε (S × α)} (h : Local L F W f) (hs : L.Agree F s s') :
    Lockstep L F W s s' (exec f s).1 (exec f s').1 ∧ (exec f s).2 = (exec f s').2 := by
  have hrun := h.run s s' hs
  unfold Footprint.exec
  generalize f s = x at hrun ⊢
  generalize f s' = y at hrun ⊢
  cases hrun with
  | ok h => exact ⟨h.1, congrArg Except.ok h.2⟩
  | error e => exact ⟨.refl hs, rfl⟩

/-! ### Schedules -/

/-- Run a list of transactions, each submitted by an agent, and collect the answers. -/
def run (step : T → S → Except ε (S × α)) : List (A × T) → S → S × List (A × Except ε α)
  | [], s => (s, [])
  | (a, i) :: l, s =>
    let (s, r) := exec (step i) s
    let (s, rs) := run step l s
    (s, (a, r) :: rs)

/-- What a transaction of one agent may write, no transaction of another agent uses. -/
def Independent (F W : T → Set K) (l : List (A × T)) : Prop :=
  ∀ x ∈ l, ∀ y ∈ l, x.1 ≠ y.1 → Disjoint (W x.2) (F y.2)

/-- The part of a schedule that one agent submits. -/
def byAgent [DecidableEq A] {B : Type} (a : A) (l : List (A × B)) : List (A × B) :=
  l.filter fun x => x.1 = a

/-- The cells the transactions of one agent use. -/
def cellsOf (F : T → Set K) (a : A) (l : List (A × T)) : Set K :=
  {k | ∃ x ∈ l, x.1 = a ∧ k ∈ F x.2}

section Schedules

variable {step : T → S → Except ε (S × α)} {F W : T → Set K} {a : A} {l l' : List (A × T)}

/-- A schedule writes what its transactions may write. -/
theorem run_keeps (hlocal : ∀ i, Local L (F i) (W i) (step i)) (l : List (A × T)) (s : S) :
    L.Keeps {k | ∃ x ∈ l, k ∈ W x.2} s (run step l s).1 := by
  induction l generalizing s with
  | nil => exact .refl
  | cons x l ih =>
    have hi := ((hlocal x.2).exec (Agree.refl (s := s))).1.left
    refine (hi.mono fun k hk => ?_).trans ((ih _).mono fun k hk => ?_)
    · exact ⟨x, List.mem_cons_self, hk⟩
    · obtain ⟨y, hy, hk⟩ := hk
      exact ⟨y, List.mem_cons_of_mem _ hy, hk⟩

variable [DecidableEq A]

/-- One agent's part of a schedule goes on in lockstep with this agent running alone. -/
theorem run_lockstep (hlocal : ∀ i, Local L (F i) (W i) (step i)) (hl : Independent F W l)
    (hs : L.Agree (cellsOf F a l) s s') :
    L.Agree (cellsOf F a l) (run step l s).1 (run step (byAgent a l) s').1 ∧
      byAgent a (run step l s).2 = (run step (byAgent a l) s').2 := by
  -- Only the cells of the transactions still to come matter to the rest of the schedule; the
  -- induction carries a set of cells that covers them and that no other agent writes.
  suffices ∀ G : Set K, (∀ x ∈ l, x.1 = a → F x.2 ⊆ G) → (∀ x ∈ l, x.1 ≠ a → Disjoint (W x.2) G) →
      ∀ s s', L.Agree G s s' → L.Agree G (run step l s).1 (run step (byAgent a l) s').1 ∧
        byAgent a (run step l s).2 = (run step (byAgent a l) s').2 by
    refine this (cellsOf F a l) (fun x hx hxa k hk => ⟨x, hx, hxa, hk⟩) (fun x hx hxa => ?_) s s' hs
    refine Set.disjoint_right.mpr ?_
    rintro k ⟨y, hy, rfl, hk⟩
    exact Set.disjoint_right.mp (hl x hx y hy hxa) hk
  clear hs hl
  intro G
  induction l with
  | nil => exact fun _ _ s s' hs => ⟨hs, rfl⟩
  | cons x l ih =>
    obtain ⟨b, i⟩ := x
    intro hown hother s s' hs
    have ih := ih (fun y hy => hown y (List.mem_cons_of_mem _ hy))
      fun y hy => hother y (List.mem_cons_of_mem _ hy)
    by_cases hb : b = a
    · have hi := ((hlocal i).mono (hown _ List.mem_cons_self hb)).exec hs
      obtain ⟨hagree, hres⟩ := ih _ _ hi.1.agree
      simp only [run, byAgent, List.filter_cons, hb, decide_true, if_true] at hagree hres ⊢
      exact ⟨hagree, by rw [hi.2, hres]⟩
    · have hi := ((hlocal i).exec (Agree.refl (s := s))).1.left
      have hG := (hi.agree (hother _ List.mem_cons_self hb)).trans hs
      obtain ⟨hagree, hres⟩ := ih _ _ hG
      simp only [run, byAgent, List.filter_cons, hb, decide_false] at hagree hres ⊢
      exact ⟨hagree, hres⟩

/-- **Every agent gets the answers it would get alone**, and its cells end as they would. -/
theorem run_alone (hlocal : ∀ i, Local L (F i) (W i) (step i)) (hl : Independent F W l) (a : A)
    (s : S) :
    byAgent a (run step l s).2 = (run step (byAgent a l) s).2 ∧
      ∀ x ∈ l, x.1 = a → ∀ k ∈ F x.2,
        L.cell (run step l s).1 k = L.cell (run step (byAgent a l) s).1 k := by
  obtain ⟨hagree, hres⟩ := run_lockstep hlocal hl (a := a) (Agree.refl (s := s))
  exact ⟨hres, fun x hx hxa k hk => hagree.cell k ⟨x, hx, hxa, hk⟩⟩

theorem mem_of_byAgent_eq (h : ∀ a, byAgent a l = byAgent a l') {x : A × T} (hx : x ∈ l) :
    x ∈ l' := by
  have hx' : x ∈ byAgent x.1 l := List.mem_filter.mpr ⟨hx, decide_eq_true rfl⟩
  rw [h] at hx'
  exact (List.mem_filter.mp hx').1

/-- **Two schedules of the same agents end in the same state.** -/
theorem run_eq (hlocal : ∀ i, Local L (F i) (W i) (step i)) (hl : Independent F W l)
    (h : ∀ a, byAgent a l = byAgent a l') (s : S) :
    (run step l s).1 = (run step l' s).1 := by
  have hsub : ∀ x ∈ l', x ∈ l := fun x => mem_of_byAgent_eq fun a => (h a).symm
  have hl' : Independent F W l' := fun x hx y hy => hl x (hsub x hx) y (hsub y hy)
  have hkeeps := run_keeps hlocal l s
  have hkeeps' := run_keeps hlocal l' s
  refine L.ext (fun k => ?_) (hkeeps.env.trans hkeeps'.env.symm)
  by_cases hk : ∃ x ∈ l, k ∈ W x.2
  · obtain ⟨x, hx, hk⟩ := hk
    have hkF := (hlocal x.2).subset hk
    rw [(run_alone hlocal hl x.1 s).2 x hx rfl k hkF, h,
      (run_alone hlocal hl' x.1 s).2 x (mem_of_byAgent_eq h hx) rfl k hkF]
  · rw [hkeeps.cell k hk, hkeeps'.cell k fun ⟨x, hx, hkx⟩ => hk ⟨x, hsub x hx, hkx⟩]

end Schedules

end Footprint
