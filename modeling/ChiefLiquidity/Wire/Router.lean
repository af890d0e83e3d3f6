import ChiefLiquidity.Properties.Acceptance
import ChiefLiquidity.Wire.Replica

/-!
# What a router makes of the log

A swap has to supply the open loans of its direction, band by band and in ascending order, and the
program checks that none is missing. A router that has read the log can put this context together:
the loans it has to look at are those the log says were opened, and the books tell which of them are
still open, and in which band.

## Without an index of its own

The router keeps what the log gave it and derives the rest. The loans to look at are those ever
opened; the books say which of these are open, and where. Sorting gives each band its order, and
counting its count. This follows the helper the integration tests call swaps with.

The context it makes has every open loan of the direction, for any boundary. It is complete in the
sense of `CompleteContext`, hence accepted, and it stays so until the next line of the log.

## Main definitions

* `openedLoans` — the loans that the lines say were opened
* `populatedBands` — those still open in a direction, by band
* `bandLoanCounts`, `contextTail` — what a swap is to be called with

## Main results

* `Replica.opened_of_loan` — the log opens every loan of the books
* `completeContext_of_books` — the context of a router is complete
-/

namespace ChiefLiquidity

open Ledger Market

variable {rt : Runtime} {genesis led : Ledger} {lines : List (List UInt8)} {P k : Pubkey} {p : Pool}
  {aToB : Bool} {direction bandId : ℕ}

/-! ### The candidates -/

/-- The account of the loan that an event says was opened. -/
def Event.openedLoan : Event → Option Pubkey
  | .loanOpened _ loan .. => some loan
  | _ => none

/-- The loans that the lines say were opened. -/
def openedLoans [Borsh] (lines : List (List UInt8)) : Finset Pubkey :=
  ((lines.filterMap Event.ofLine).filterMap Event.openedLoan).toFinset

namespace Replica

variable {r : Replica} {events : List Event} {ev : Event}

/-- An entry that is written is no loan, or there was one in its place. -/
theorem loan_of_update {j : Pubkey} {x : Option Entry} {e : LoanEntry}
    (hx : ∀ y, x = some (.loan y) → ∃ y, r j = some (.loan y))
    (h : Function.update r j x k = some (.loan e)) : ∃ y, r k = some (.loan y) := by
  by_cases hk : k = j
  · subst hk
    rw [Function.update_self] at h
    exact hx e h
  · rw [Function.update_of_ne hk] at h
    exact ⟨e, h⟩

/-- A loan that an event leaves in the books was there before, or the event opens it. -/
theorem opened_of_apply {e : LoanEntry} (h : r.apply ev k = some (.loan e)) :
    ev.openedLoan = some k ∨ ∃ e', r k = some (.loan e') := by
  have hpool : ∀ {f : Entry → Entry} {P : Pubkey}, (∀ x, ∃ x', f (.pool x) = .pool x') →
      ∀ y, (r P).map f = some (.loan y) → ∃ y, r P = some (.loan y) := by
    intro f P hf y hy
    obtain ⟨x, hx, hfx⟩ := Option.map_eq_some_iff.mp hy
    cases x with
    | pool x =>
      obtain ⟨x', hx'⟩ := hf x
      rw [hx'] at hfx
      cases hfx
    | loan y => exact ⟨y, hx⟩
  cases ev with
  | poolInitialized pool => exact .inr (loan_of_update (fun _ hy => by cases hy) h)
  | loanOpened pool loan =>
    by_cases hk : k = loan
    · exact .inl (congrArg some hk.symm)
    · rw [apply, Function.update_of_ne hk] at h
      exact .inr ⟨e, h⟩
  | loanRepaid pool loan => exact .inr (loan_of_update (fun _ hy => by cases hy) h)
  | loanLiquidated pool loan => exact .inr (loan_of_update (fun _ hy => by cases hy) h)
  | swapExecuted pool user aToB =>
    refine .inr (loan_of_update (hpool fun x => ?_) h)
    cases aToB
    · exact ⟨_, rfl⟩
    · exact ⟨_, rfl⟩
  | protocolFeesClaimed pool => exact .inr (loan_of_update (hpool fun x => ⟨_, rfl⟩) h)
  | liquidityAdded => exact .inr ⟨e, h⟩
  | liquidityRemoved => exact .inr ⟨e, h⟩
  | liquidatedRentClaimed => exact .inr ⟨e, h⟩

/-- Every loan of the books was opened by one of the events, or was there before them. -/
theorem opened_of_foldl {e : LoanEntry} (h : events.foldl apply r k = some (.loan e)) :
    k ∈ events.filterMap Event.openedLoan ∨ ∃ e', r k = some (.loan e') := by
  induction events generalizing r with
  | nil => exact .inr ⟨e, h⟩
  | cons ev events ih =>
    rw [List.mem_filterMap]
    rcases ih h with hmem | ⟨e', he'⟩
    · obtain ⟨ev', hev', hk⟩ := List.mem_filterMap.mp hmem
      exact .inl ⟨ev', List.mem_cons_of_mem _ hev', hk⟩
    · exact (opened_of_apply he').imp_left fun hk => ⟨ev, List.mem_cons_self .., hk⟩

/-- **The log opens every loan of the books.** -/
theorem opened_of_loan [Borsh] {e : LoanEntry} (h : ofLines lines k = some (.loan e)) :
    k ∈ openedLoans lines := by
  rw [openedLoans, List.mem_toFinset]
  rcases opened_of_foldl h with hmem | ⟨e', he'⟩
  · exact hmem
  · cases he'

/-- The books have a loan of the pool at this address, in this band of the direction. -/
def hasLoan (r : Replica) (P : Pubkey) (direction bandId : ℕ) (k : Pubkey) : Bool :=
  match r k with
  | some (.loan e) => e.pool = P ∧ e.triggerDirection = direction ∧ e.bandId = bandId
  | _ => false

/-- What the books of a ledger have are its open loans. -/
theorem hasLoan_iff : (led.replica rt).hasLoan P direction bandId k = true ↔
    ∃ l, led.openLoan rt P k = some l ∧ l.triggerDirection = direction ∧ l.bandId = bandId := by
  constructor
  · intro h
    rw [hasLoan] at h
    split at h
    · rename_i e he
      obtain ⟨rfl, hdir, hband⟩ := of_decide_eq_true h
      obtain ⟨l, hl, rfl⟩ := replica_eq_loan.mp he
      exact ⟨l, hl, hdir, hband⟩
    · cases h
  · rintro ⟨l, hl, hdir, hband⟩
    rw [hasLoan, replica_of_openLoan hl]
    exact decide_eq_true ⟨(openLoan_eq_some.mp hl).2.2.2, hdir, hband⟩

end Replica

/-! ### The context -/

variable [Borsh]

/-- The open loans of a band, in ascending order. -/
def bandLoans (lines : List (List UInt8)) (P : Pubkey) (direction bandId : ℕ) : List Pubkey :=
  ((openedLoans lines).filter fun k =>
    (Replica.ofLines lines).hasLoan P direction bandId k = true).sort

/-- The bands of a direction that have open loans, with these. -/
def populatedBands (lines : List (List UInt8)) (P : Pubkey) (direction : ℕ) :
    List (ℕ × List Pubkey) :=
  ((List.range (maxBandId + 1)).filter fun b => bandLoans lines P direction b ≠ []).map
    fun b => (b, bandLoans lines P direction b)

/-- `band_loan_counts` of a swap. -/
def bandLoanCounts (lines : List (List UInt8)) (P : Pubkey) (direction : ℕ) : List ℕ :=
  (populatedBands lines P direction).map fun b => b.2.length

/-- The accounts of a swap after the fixed ones: each band, followed by its loans. -/
def contextTail (rt : Runtime) (lines : List (List UInt8)) (P : Pubkey) (direction : ℕ) :
    List Pubkey :=
  (populatedBands lines P direction).flatMap fun b => bandKey rt P direction b.1 :: b.2

theorem mem_populatedBands {b : ℕ × List Pubkey} : b ∈ populatedBands lines P direction ↔
    b.1 ≤ maxBandId ∧ bandLoans lines P direction b.1 ≠ [] ∧
      b.2 = bandLoans lines P direction b.1 := by
  rw [populatedBands, List.mem_map]
  constructor
  · rintro ⟨c, hc, rfl⟩
    rw [List.mem_filter, List.mem_range, Nat.lt_succ_iff] at hc
    exact ⟨hc.1, of_decide_eq_true hc.2, rfl⟩
  · rintro ⟨hle, hne, hb⟩
    refine ⟨b.1, ?_, by rw [← hb]⟩
    rw [List.mem_filter, List.mem_range, Nat.lt_succ_iff]
    exact ⟨hle, decide_eq_true hne⟩

theorem populatedBands_ids : (populatedBands lines P direction).map Prod.fst =
    (List.range (maxBandId + 1)).filter fun b => bandLoans lines P direction b ≠ [] := by
  rw [populatedBands, List.map_map]
  exact List.map_id _

/-- What a router takes for the open loans of a band are these, in a ledger whose books it has. -/
theorem mem_bandLoans (hbooks : Replica.ofLines lines = led.replica rt) :
    k ∈ bandLoans lines P direction bandId ↔ ∃ l, led.openLoan rt P k = some l ∧
      l.triggerDirection = direction ∧ l.bandId = bandId := by
  rw [bandLoans, Finset.mem_sort, Finset.mem_filter, hbooks, Replica.hasLoan_iff]
  refine ⟨And.right, fun h => ⟨?_, h⟩⟩
  obtain ⟨l, hl, -⟩ := h
  refine Replica.opened_of_loan (e := l.entry) ?_
  rw [hbooks, replica_of_openLoan hl]

/-- **The context of a router is complete**, for every boundary. -/
theorem completeContext_of_books (h : Reachable rt led) (hp : led.HasPool rt P p)
    (hbooks : Replica.ofLines lines = led.replica rt) (bandBoundary : ℕ) :
    CompleteContext rt led P aToB bandBoundary
      (bandLoanCounts lines P (swapDirection aToB).toU8)
      (contextTail rt lines P (swapDirection aToB).toU8)
      (populatedBands lines P (swapDirection aToB).toU8) := by
  obtain ⟨S, hv⟩ := h.sound.valid P p hp
  refine ⟨?_, fun b hb => ?_, fun b hb => ?_, fun b hb k => ?_, rfl, rfl, fun k l hl hd _ => ?_⟩
  · rw [populatedBands_ids]
    exact List.nodup_range.filter _
  · obtain ⟨-, hne, -⟩ := mem_populatedBands.mp hb
    obtain ⟨k, hk⟩ := List.exists_mem_of_ne_nil _ hne
    have hmem := (mem_band hv).mpr ((mem_bandLoans hbooks).mp hk)
    have hsome := hv.indexed.bands_of_pos (members_pos.mpr ⟨k, hmem⟩)
    obtain ⟨x, hk, hinit, hpool, hd, hid, -⟩ := bandCount_eq_some.mp hsome
    exact ⟨x, hk, hinit, hpool, hd, hid⟩
  · obtain ⟨-, -, hkeys⟩ := mem_populatedBands.mp hb
    rw [hkeys]
    exact (Finset.sortedLT_sort _).pairwise
  · obtain ⟨-, -, hkeys⟩ := mem_populatedBands.mp hb
    rw [hkeys]
    exact mem_bandLoans hbooks
  · have hmem := (mem_bandLoans hbooks).mpr ⟨l, hl, hd, rfl⟩
    rw [populatedBands_ids, List.mem_filter, List.mem_range, Nat.lt_succ_iff]
    exact ⟨hv.indexed.bandId_le k l hl, decide_eq_true (List.ne_nil_of_mem hmem)⟩

/-- Its counts are at most those a band can have. -/
theorem bandLoanCounts_le (h : Reachable rt led) (hp : led.HasPool rt P p)
    (hbooks : Replica.ofLines lines = led.replica rt) :
    ∀ n ∈ bandLoanCounts lines P (swapDirection aToB).toU8, n ≤ LoanIndexBand.maxLoans := by
  intro n hn
  obtain ⟨S, hv⟩ := h.sound.valid P p hp
  obtain ⟨b, hb, rfl⟩ := List.mem_map.mp hn
  obtain ⟨-, hne, hkeys⟩ := mem_populatedBands.mp hb
  have hband : b.2.toFinset = (led.market rt P p).band S (swapDirection aToB) b.1 := by
    ext k
    rw [List.mem_toFinset, hkeys, mem_bandLoans hbooks, mem_band hv]
    rfl
  have hnodup : b.2.Nodup := hkeys ▸ Finset.sort_nodup _ _
  obtain ⟨k, hk⟩ := List.exists_mem_of_ne_nil _ (hkeys ▸ hne)
  have hmem : k ∈ (led.market rt P p).band S (swapDirection aToB) b.1 :=
    hband ▸ List.mem_toFinset.mpr hk
  have hsome := hv.indexed.bands_of_pos (members_pos.mpr ⟨k, hmem⟩)
  rw [← List.toFinset_card_of_nodup hnodup, hband, card_band]
  exact (hv.indexed.count _ _ _ hsome).2

end ChiefLiquidity
