import ChiefLiquidity.Refinement.Cascade

/-!
# Persisting liquidations

The last loop of a swap writes the tombstones of the liquidated loans and the counts of their bands.
Described account by account, the loop does one thing: `Account.liquidate`. What that does to the
open loans and the band counts of the pool is then read off.

## A loop that writes what it reads

The loop reads a band, writes some of its loans, and writes the band back, and then goes on to the
next. That no later band or loan sees what an earlier one wrote rests on the addresses being
distinct: the loans are ascending within a band, and a loan is of one band only. So the end can be
described account by account. An account is liquidated if it is one of the marked loans, has its
count lowered if it is a band of some of them, and is as it was otherwise.

The bits are cleared in the pool record that is passed along, one by one. Only the bits of bands
that have become empty are cleared, and that is the description the market uses.

## Main definitions

* `Loan.tombstone`, `Account.liquidate`
* `Liquidated` — the loans in `R` have been liquidated in the ledger

## Main results

* `Liquidated.openLoan`, `Liquidated.bandCount`, `Liquidated.recordMove`
* `tombstoneLoans_eq_ok`, `persistLiquidations_eq_ok` — what the loop does
-/

namespace ChiefLiquidity

open Ledger Market KeyedSum

variable {rt : Runtime} {led led' led'' : Ledger} {P k : Pubkey} {R R' : Finset Pubkey}
  {p p' : Pool} {dir : TriggerDirection}

/-- What stays in the account of a liquidated loan. -/
def Loan.tombstone (l : Loan) (slot : ℕ) : Loan := { l with
  collateralAmount := 0, debtPrincipal := 0, status := Loan.statusLiquidated, closedSlot := slot }

theorem Loan.tombstone_not_open {l : Loan} {slot : ℕ} : (l.tombstone slot).isOpen = false := rfl

/-- What liquidating the loans in `R` makes of the account at `k`: a liquidated loan becomes its
tombstone, and a band of the pool counts its liquidated members no more. -/
def Account.liquidate (rt : Runtime) (P : Pubkey) (R : Finset Pubkey)
    (loans : Pubkey → Option Loan) (slot : ℕ) (k : Pubkey) : Account → Account
  | ⟨o, .loan l⟩ => if k ∈ R then ⟨o, .loan (l.tombstone slot)⟩ else ⟨o, .loan l⟩
  | ⟨o, .band x⟩ =>
    if o = rt.programId ∧ x.isInitialized ∧ x.pool = P then
      ⟨o, .band (x.withCount (x.count - total R loans (Loan.inBand x.direction x.bandId)))⟩
    else ⟨o, .band x⟩
  | a => a

/-- A record stays a record. -/
theorem Account.liquidate_plain {loans : Pubkey → Option Loan} {slot : ℕ} {a : Account}
    (h : a.data.Plain) : (a.liquidate rt P R loans slot k).data.Plain := by
  rcases a with ⟨o, d⟩
  cases d <;> simp only [Account.liquidate] <;> first | exact h | (split <;> trivial)

/-- The loans in `R`, open loans of the pool `P`, have been liquidated. -/
structure Liquidated (rt : Runtime) (P : Pubkey) (R : Finset Pubkey) (led led' : Ledger) :
    Prop where
  slot : led'.slot = led.slot
  isOpen : ∀ k ∈ R, ∃ l, led.openLoan rt P k = some l
  accts : ∀ k, led'.accts k =
    (led.accts k).liquidate rt P R (led.openLoan rt P) led.slot k

namespace Liquidated

/-- The account of a liquidated loan. -/
theorem loan (h : Liquidated rt P R led led') {l : Loan} (hk : k ∈ R)
    (hl : led.openLoan rt P k = some l) :
    led'.accts k = ⟨rt.programId, .loan (l.tombstone led.slot)⟩ := by
  rw [h.accts, (openLoan_eq_some.mp hl).1]
  exact if_pos hk

/-- **The liquidated loans are open no more.** -/
theorem openLoan (h : Liquidated rt P R led led') :
    led'.openLoan rt P = without R (led.openLoan rt P) := by
  funext k
  by_cases hk : k ∈ R
  · obtain ⟨l, hl⟩ := h.isOpen k hk
    rw [Ledger.openLoan, h.loan hk hl, Account.openLoan_of_not_open Loan.tombstone_not_open]
    simp [without, hk]
  · rw [Ledger.openLoan, h.accts, without, if_neg hk, Ledger.openLoan]
    rcases led.accts k with ⟨o, d⟩
    cases d <;> simp only [Account.liquidate, if_neg hk]
    split <;> rfl

/-- **Every band counts its liquidated members no more.** -/
theorem bandCount (h : Liquidated rt P R led led') (d b : ℕ) :
    led'.bandCount rt P d b =
      (led.bandCount rt P d b).map fun n => n - total R (led.openLoan rt P) (Loan.inBand d b) := by
  rw [Ledger.bandCount, h.accts, Ledger.bandCount]
  rcases led.accts (bandKey rt P d b) with ⟨o, data⟩
  cases data <;> try rfl
  · simp only [Account.liquidate]
    split <;> rfl
  · rename_i x
    by_cases hx : o = rt.programId ∧ x.isInitialized ∧ x.pool = P ∧ x.direction = d ∧ x.bandId = b
    · obtain ⟨rfl, hinit, rfl, rfl, rfl⟩ := hx
      simp [Account.liquidate, Account.bandCount, hinit]
    · have hnone : Account.bandCount rt P d b ⟨o, .band x⟩ = none := if_neg hx
      rw [hnone, Option.map_none]
      simp only [Account.liquidate]
      split
      · exact if_neg hx
      · exact hnone

/-- An account that is neither a loan nor a band stays. -/
theorem other (h : Liquidated rt P R led led') (hl : ∀ l, (led.accts k).data ≠ .loan l)
    (hb : ∀ x, (led.accts k).data ≠ .band x) : led'.accts k = led.accts k := by
  rw [h.accts]
  rcases hk : led.accts k with ⟨o, d⟩
  rw [hk] at hl hb
  cases d <;> first | rfl | exact absurd rfl (hl _) | exact absurd rfl (hb _)

/-- **Liquidating writes records of the pool only.** -/
theorem recordMove (h : Liquidated rt P R led led') (hfiled : Filed rt led)
    (hp : led.HasPool rt P p) : RecordMove rt P led led' := by
  have hdata : ∀ k, Touch rt P k (led.accts k) (led'.accts k) ∧
      ((led'.accts k).data = (led.accts k).data ∨
        (led'.accts k).data.Plain ∧ (led.accts k).data.Plain) := by
    intro k
    rw [h.accts]
    rcases hk : led.accts k with ⟨o, d⟩
    cases d <;> try exact ⟨.same _, Or.inl rfl⟩
    · rename_i l
      simp only [Account.liquidate]
      split
      · rename_i hR
        obtain ⟨l', hl'⟩ := h.isOpen k hR
        obtain ⟨hk', hinit, -, hpool⟩ := openLoan_eq_some.mp hl'
        rw [hk] at hk'
        cases hk'
        have hpda := (hfiled.loan k l hk hinit).1
        exact ⟨.record (fun _ => ⟨hpool, hpda⟩) fun _ => ⟨hpool, hpda⟩, Or.inr ⟨trivial, trivial⟩⟩
      · exact ⟨.same _, Or.inl rfl⟩
    · rename_i x
      simp only [Account.liquidate]
      split
      · rename_i hx
        obtain ⟨rfl, hinit, hpool⟩ := hx
        have hkey := hpool ▸ (hfiled.band k x hk hinit).1
        exact ⟨.record (fun _ => ⟨hpool, hkey⟩) fun _ => ⟨hpool, hkey⟩,
          Or.inr ⟨trivial, trivial⟩⟩
      · exact ⟨.same _, Or.inl rfl⟩
  refine ⟨⟨h.slot, fun k => (hdata k).1⟩, funext fun k => ?_, funext fun k => ?_,
    h.other (by rw [hp.1]; simp) (by rw [hp.1]; simp)⟩
  · rcases (hdata k).2 with heq | ⟨hplain', hplain⟩
    · exact balance_congr heq
    · rw [balance_of_plain hplain', balance_of_plain hplain]
  · rcases (hdata k).2 with heq | ⟨hplain', hplain⟩
    · exact mintSupply_congr heq
    · rw [mintSupply_of_plain hplain', mintSupply_of_plain hplain]

theorem refl (led : Ledger) : Liquidated rt P ∅ led led where
  slot := rfl
  isOpen := by simp
  accts k := by
    rcases led.accts k with ⟨o, d⟩
    cases d <;> simp [Account.liquidate]

/-- What two batches weigh together. -/
theorem total_union (h : Liquidated rt P R led led')
    (hopen : ∀ k ∈ R', ∃ l, led'.openLoan rt P k = some l) (w : Loan → ℕ) :
    total (R ∪ R') (led.openLoan rt P) w =
      total R (led.openLoan rt P) w + total R' (led'.openLoan rt P) w := by
  have hnot : ∀ k ∈ R', k ∉ R := by
    intro k hk
    obtain ⟨l, hl⟩ := hopen k hk
    rw [h.openLoan, without_eq_some] at hl
    exact hl.1
  rw [total, Finset.sum_union (Finset.disjoint_right.mpr hnot), h.openLoan, ← total]
  congr 1
  refine Finset.sum_congr rfl fun k hk => ?_
  simp [weightAt, without, hnot k hk]

/-- One batch after the other. -/
theorem trans (h : Liquidated rt P R led led') (h' : Liquidated rt P R' led' led'') :
    Liquidated rt P (R ∪ R') led led'' := by
  have hopen' : ∀ k ∈ R', k ∉ R ∧ ∃ l, led.openLoan rt P k = some l := by
    intro k hk
    obtain ⟨l, hl⟩ := h'.isOpen k hk
    rw [h.openLoan, without_eq_some] at hl
    exact ⟨hl.1, l, hl.2⟩
  refine ⟨h'.slot.trans h.slot, fun k hk => ?_, fun k => ?_⟩
  · rcases Finset.mem_union.mp hk with hk | hk
    · exact h.isOpen k hk
    · exact (hopen' k hk).2
  · rw [h'.accts, h.accts, h.slot]
    rcases led.accts k with ⟨o, d⟩
    cases d <;> try rfl
    · by_cases hR : k ∈ R
      · have hR' : k ∉ R' := fun hk => (hopen' k hk).1 hR
        simp [Account.liquidate, hR, hR']
      · by_cases hR' : k ∈ R'
        · simp [Account.liquidate, hR, hR']
        · simp [Account.liquidate, hR, hR']
    · rename_i x
      by_cases hx : o = rt.programId ∧ x.isInitialized ∧ x.pool = P
      · simp [Account.liquidate, hx, h.total_union h'.isOpen, Nat.sub_sub]
      · simp only [Account.liquidate, if_neg hx]

end Liquidated

/-! ### One band -/

/-- The entries the cascade ends with know which loans are liquidated. -/
def Flags (ctxs : List LoanCtx) (R : Finset Pubkey) (keys : List Pubkey) : Prop :=
  ∀ k ∈ keys, ∃ c, (ctxs.find? fun c => c.loan = k) = some c ∧ (c.liquidated = true ↔ k ∈ R)

/-- **The tombstones of a band**: the liquidated ones among its loans get theirs, and are
counted. -/
theorem tombstoneLoans_eq_ok {ctxs : List LoanCtx} {keys : List Pubkey} {n : ℕ}
    {events : List Event} (hflags : Flags ctxs R keys) (hnodup : keys.Nodup)
    (hopen : ∀ k ∈ keys, ∃ l, led.openLoan rt P k = some l)
    (h : tombstoneLoans ctxs keys led = .ok (led', n, events)) :
    led'.slot = led.slot ∧ n = (keys.toFinset ∩ R).card ∧
      (∀ k l, k ∈ keys → k ∈ R → led.openLoan rt P k = some l →
        led'.accts k = ⟨rt.programId, .loan (l.tombstone led.slot)⟩) ∧
      ∀ k, ¬ (k ∈ keys ∧ k ∈ R) → led'.accts k = led.accts k := by
  induction keys generalizing led n events with
  | nil =>
    cases h
    simp
  | cons key keys ih =>
    obtain ⟨hkey, hnodup⟩ := List.nodup_cons.mp hnodup
    obtain ⟨c, hfind, hc⟩ := hflags key (List.mem_cons_self ..)
    have hflags' : Flags ctxs R keys := fun k hk => hflags k (List.mem_cons_of_mem _ hk)
    simp only [tombstoneLoans, Checked.bind_eq_ok, okOr_eq_ok, hfind, Option.some.injEq,
      exists_eq_left'] at h
    split at h
    · rename_i hliq
      have hR := hc.mp hliq
      obtain ⟨l, hl⟩ := hopen key (List.mem_cons_self ..)
      have hk := (openLoan_eq_some.mp hl).1
      simp only [Checked.bind_eq_ok, loadLoan_eq_ok, Prod.exists, Checked.pure_eq_ok,
        Prod.mk.injEq] at h
      obtain ⟨l', hdata, led₁, n', events', hrest, rfl, rfl, -⟩ := h
      rw [hk] at hdata
      cases hdata
      set led₀ := led.setData key (.loan (l.tombstone led.slot)) with hled₀
      have hother : ∀ k, k ≠ key → led₀.accts k = led.accts k := fun k hne =>
        setData_accts_of_ne hne
      have hopen' : ∀ k ∈ keys, ∃ l, led₀.openLoan rt P k = some l := by
        intro k hk
        obtain ⟨l', hl'⟩ := hopen k (List.mem_cons_of_mem _ hk)
        refine ⟨l', ?_⟩
        rw [openLoan_congr (hother k fun heq => hkey (heq ▸ hk)), hl']
      obtain ⟨hslot, hcard, htomb, hsame⟩ := ih hflags' hnodup hopen' hrest
      refine ⟨hslot, ?_, fun k l' hmem hkR hl' => ?_, fun k hnot => ?_⟩
      · rw [List.toFinset_cons, Finset.insert_inter_of_mem hR,
          Finset.card_insert_of_notMem (by simp [hkey]), hcard]
      · rcases List.mem_cons.mp hmem with rfl | hmem
        · rw [hl] at hl'
          cases hl'
          rw [hsame k (fun hboth => hkey hboth.1), hled₀, setData_accts_self, hk]
        · refine htomb k l' hmem hkR ?_
          rw [openLoan_congr (hother k fun heq => hkey (heq ▸ hmem)), hl']
      · rw [hsame k fun hboth => hnot ⟨List.mem_cons_of_mem _ hboth.1, hboth.2⟩]
        exact hother k fun heq => hnot ⟨heq ▸ List.mem_cons_self .., heq ▸ hR⟩
    · rename_i hliq
      have hR : key ∉ R := fun hmem => hliq (hc.mpr hmem)
      obtain ⟨hslot, hcard, htomb, hsame⟩ := ih hflags' hnodup
        (fun k hk => hopen k (List.mem_cons_of_mem _ hk)) h
      refine ⟨hslot, ?_, fun k l' hmem hkR hl' => ?_, fun k hnot => ?_⟩
      · rw [List.toFinset_cons, Finset.insert_inter_of_notMem hR, hcard]
      · rcases List.mem_cons.mp hmem with rfl | hmem
        · exact absurd hkR hR
        · exact htomb k l' hmem hkR hl'
      · exact hsame k fun hboth => hnot ⟨List.mem_cons_of_mem _ hboth.1, hboth.2⟩

/-- The band of the group is there, and its loans are open. -/
structure Group.Ready (rt : Runtime) (led : Ledger) (P : Pubkey) (dir : TriggerDirection)
    (g : Group) : Prop where
  key : bandKey rt P dir.toU8 g.bandId = g.band
  count : ∃ n, led.bandCount rt P dir.toU8 g.bandId = some n
  isOpen : ∀ k ∈ g.keys, ∃ l, led.openLoan rt P k = some l ∧ l.bandId = g.bandId ∧
    l.triggerDirection = dir.toU8
  nodup : g.keys.Nodup

theorem Group.Reads.ready {g : Group} (h : g.Reads rt led P dir) : g.Ready rt led P dir :=
  ⟨h.key, ⟨_, h.count⟩, fun _ hk => h.open_of_mem hk, h.nodup⟩

/-- Live bands of the pool are at their own addresses. -/
def BandsKeyed (rt : Runtime) (led : Ledger) (P : Pubkey) : Prop :=
  ∀ k x, led.accts k = ⟨rt.programId, .band x⟩ → x.isInitialized = true → x.pool = P →
    bandKey rt P x.direction x.bandId = k

theorem Filed.bandsKeyed (h : Filed rt led) (P : Pubkey) : BandsKeyed rt led P := by
  rintro k x hk hinit rfl
  exact congrArg Prod.fst (h.band k x hk hinit).1

theorem Liquidated.bandsKeyed (h : Liquidated rt P R led led') (hkeyed : BandsKeyed rt led P) :
    BandsKeyed rt led' P := by
  intro k x hk hinit hpool
  rw [h.accts] at hk
  rcases ha : led.accts k with ⟨o, d⟩
  rw [ha] at hk
  cases d with
  | band y =>
    have hy := hkeyed k y
    simp only [Account.liquidate] at hk
    split at hk <;> cases hk <;> exact hy ha hinit hpool
  | loan l =>
    simp only [Account.liquidate] at hk
    split at hk <;> cases hk
  | _ => cases hk

section Band

variable {g : Group} {ctxs : List LoanCtx} {n : ℕ} {events : List Event} {x : LoanIndexBand}

theorem Group.Ready.total_eq (hg : g.Ready rt led P dir) (hR : R ⊆ g.keys.toFinset) (d b : ℕ) :
    total R (led.openLoan rt P) (Loan.inBand d b) =
      if d = dir.toU8 ∧ b = g.bandId then R.card else 0 := by
  have hweight : ∀ k ∈ R, weightAt (led.openLoan rt P) (Loan.inBand d b) k =
      if d = dir.toU8 ∧ b = g.bandId then 1 else 0 := by
    intro k hk
    obtain ⟨l, hl, hband, hdir⟩ := hg.isOpen k (List.mem_toFinset.mp (hR hk))
    rw [weightAt_of_some hl, Loan.inBand, hband, hdir]
    simp only [eq_comm (a := d), eq_comm (a := b)]
  rw [total, Finset.sum_congr rfl hweight]
  split <;> simp

/-- **Settling a band**: its tombstones and its count are just what liquidating its marked loans
means. -/
theorem liquidated_band (hkeyed : BandsKeyed rt led P) (hg : g.Ready rt led P dir)
    (hflags : Flags ctxs R g.keys) (hx : led.accts g.band = ⟨rt.programId, .band x⟩)
    (hxid : x.isInitialized = true ∧ x.pool = P ∧ x.direction = dir.toU8 ∧ x.bandId = g.bandId)
    (h : tombstoneLoans ctxs g.keys led = .ok (led', n, events)) :
    n = (g.keys.toFinset ∩ R).card ∧ led'.accts g.band = ⟨rt.programId, .band x⟩ ∧
      Liquidated rt P (g.keys.toFinset ∩ R) led
        (led'.setData g.band (.band (x.withCount (x.count - n)))) := by
  obtain ⟨hslot, hcard, htomb, hsame⟩ := tombstoneLoans_eq_ok hflags hg.nodup
    (fun k hk => (hg.isOpen k hk).imp fun _ => And.left) h
  have hmem : ∀ k, k ∈ g.keys.toFinset ∩ R ↔ k ∈ g.keys ∧ k ∈ R := by simp
  have htotal := hg.total_eq (R := g.keys.toFinset ∩ R) Finset.inter_subset_left
  have hbandNot : ¬ (g.band ∈ g.keys ∧ g.band ∈ R) := by
    rintro ⟨hk, -⟩
    obtain ⟨l, hl, -⟩ := hg.isOpen _ hk
    rw [(openLoan_eq_some.mp hl).1] at hx
    cases hx
  refine ⟨hcard, by rw [hsame _ hbandNot, hx], hslot, fun k hk => ?_, fun k => ?_⟩
  · obtain ⟨l, hl, -⟩ := hg.isOpen k ((hmem k).mp hk).1
    exact ⟨l, hl⟩
  by_cases hkb : k = g.band
  · subst hkb
    rw [setData_accts_self, hsame _ hbandNot, hx]
    simp [Account.liquidate, hxid, htotal, hcard]
  rw [setData_accts_of_ne hkb]
  by_cases hkR : k ∈ g.keys ∧ k ∈ R
  · obtain ⟨l, hl, -⟩ := hg.isOpen k hkR.1
    rw [htomb k l hkR.1 hkR.2 hl, (openLoan_eq_some.mp hl).1]
    exact (if_pos ((hmem k).mpr hkR)).symm
  · rw [hsame k hkR]
    rcases ha : led.accts k with ⟨o, d⟩
    cases d <;> try rfl
    · exact (if_neg fun hk => hkR ((hmem k).mp hk)).symm
    · rename_i y
      simp only [Account.liquidate]
      split
      · rename_i hy
        obtain ⟨rfl, hinit, hpool⟩ := hy
        have hne : ¬ (y.direction = dir.toU8 ∧ y.bandId = g.bandId) := by
          rintro ⟨hd, hb⟩
          have hkey := hkeyed k y ha hinit hpool
          rw [hd, hb, hg.key] at hkey
          exact hkb hkey.symm
        rw [htotal, if_neg hne, Nat.sub_zero, LoanIndexBand.withCount_self]
      · rfl

end Band

/-! ### All bands -/

theorem setData_self {d : AccountData} {o : Pubkey} (h : led.accts k = ⟨o, d⟩) :
    led.setData k d = led := by
  rw [setData, setAccount, h]
  simp only [← h]
  rw [Function.update_eq_self]

/-- One round of the loop, in one form for both of its branches. -/
theorem persist_cons {ctxs : List LoanCtx} {g : Group} {bands : List BandCtx}
    {events : List Event} {x : LoanIndexBand} (hkeyed : BandsKeyed rt led P)
    (hg : g.Ready rt led P dir) (hflags : Flags ctxs R g.keys)
    (hx : led.accts g.band = ⟨rt.programId, .band x⟩)
    (hxid : x.isInitialized = true ∧ x.pool = P ∧ x.direction = dir.toU8 ∧ x.bandId = g.bandId)
    (h : persistLiquidations ctxs dir.toU8 (g.toBandCtx :: bands) led p =
      .ok (led', p', events)) :
    ∃ led₁ p₁ events', Liquidated rt P (g.keys.toFinset ∩ R) led led₁ ∧
      (∃ fall rise, p₁ = p.withBitmaps fall rise) ∧
      (∀ d b, bitmapIsSet (p₁.bitmapOf d) b = true ↔ bitmapIsSet (p.bitmapOf d) b = true ∧
        ¬ (0 < (g.keys.toFinset ∩ R).card ∧ x.count - (g.keys.toFinset ∩ R).card = 0 ∧ d = dir ∧
          b = g.bandId)) ∧
      persistLiquidations ctxs dir.toU8 bands led₁ p₁ = .ok (led', p', events') := by
  simp only [persistLiquidations, Checked.bind_eq_ok, loadBand_eq_ok, Prod.exists,
    Group.toBandCtx, hx, AccountData.band.injEq, exists_eq_left'] at h
  obtain ⟨led₁, n, events₁, htomb, h⟩ := h
  obtain ⟨rfl, hsame, hliq⟩ := liquidated_band hkeyed hg hflags hx hxid htomb
  split at h
  · rename_i hzero
    rw [hzero, Nat.sub_zero, LoanIndexBand.withCount_self, setData_self hsame] at hliq
    exact ⟨led₁, p, _, hliq, ⟨_, _, rfl⟩, fun d b => by simp [hzero], h⟩
  · rename_i hpos
    simp only [Checked.bind_eq_ok, checkedSub_eq_ok, Prod.exists, Checked.pure_eq_ok,
      Prod.mk.injEq, hxid] at h
    obtain ⟨_, ⟨-, rfl⟩, p₁, hunmark, led₂, p₂, events₂, hrest, rfl, rfl, -⟩ := h
    obtain ⟨hframe, hbits⟩ := Pool.unmarkBand_eq_ok hunmark
    refine ⟨_, p₁, _, hliq, hframe, fun d b => ?_, hrest⟩
    rw [hbits]
    simp [Nat.pos_of_ne_zero hpos]

/-- Loans of other bands weigh nothing in a band. -/
theorem total_of_other_bands {gs : List Group} (hready : ∀ g ∈ gs, g.Ready rt led P dir)
    (hR : R ⊆ suppliedKeys gs) {d b : ℕ} (hne : ∀ g ∈ gs, g.bandId ≠ b) :
    total R (led.openLoan rt P) (Loan.inBand d b) = 0 := by
  refine Finset.sum_eq_zero fun k hk => ?_
  obtain ⟨g, hg, hkg⟩ := mem_suppliedKeys.mp (hR hk)
  obtain ⟨l, hl, hband, -⟩ := (hready g hg).isOpen k hkg
  rw [weightAt_of_some hl]
  exact if_neg fun hin => hne g hg (hband.symm.trans hin.2)

/-- The bands still to come are as ready as before. -/
theorem Group.Ready.liquidated {g g' : Group} (hg' : g'.Ready rt led P dir)
    (hg : g.Ready rt led P dir) (hne : g.bandId ≠ g'.bandId)
    (h : Liquidated rt P (g.keys.toFinset ∩ R) led led') : g'.Ready rt led' P dir where
  key := hg'.key
  count := by
    obtain ⟨n, hn⟩ := hg'.count
    exact ⟨_, by rw [h.bandCount, hn, Option.map_some]⟩
  isOpen k hk := by
    obtain ⟨l, hl, hband, hdir⟩ := hg'.isOpen k hk
    refine ⟨l, ?_, hband, hdir⟩
    rw [h.openLoan, without_eq_some]
    refine ⟨fun hmem => ?_, hl⟩
    obtain ⟨hkg, -⟩ := Finset.mem_inter.mp hmem
    obtain ⟨l', hl', hband', -⟩ := hg.isOpen k (List.mem_toFinset.mp hkg)
    rw [hl] at hl'
    cases hl'
    exact hne (hband'.symm.trans hband)
  nodup := hg'.nodup

/-- What persisting does to the bitmaps: the bit of a band is cleared when it lost a member and
counts none any more. -/
def BitsAfter (rt : Runtime) (led led' : Ledger) (P : Pubkey) (R : Finset Pubkey)
    (p p' : Pool) : Prop :=
  ∀ d b, bitmapIsSet (p'.bitmapOf d) b = true ↔ bitmapIsSet (p.bitmapOf d) b = true ∧
    ¬ (0 < total R (led.openLoan rt P) (Loan.inBand d.toU8 b) ∧
      led'.bandCount rt P d.toU8 b = some 0)

/-- **Persisting liquidates the marked loans** among those supplied, and nothing else. Induction on
the bands; the ones still to come are untouched by the ones before, as no loan is in two bands. -/
theorem persistLiquidations_eq_ok {ctxs : List LoanCtx} {gs : List Group} {events : List Event}
    (hkeyed : BandsKeyed rt led P) (hready : ∀ g ∈ gs, g.Ready rt led P dir)
    (hids : (gs.map Group.bandId).Nodup) (hflags : Flags ctxs R (gs.flatMap Group.keys))
    (h : persistLiquidations ctxs dir.toU8 (gs.map Group.toBandCtx) led p =
      .ok (led', p', events)) :
    Liquidated rt P (suppliedKeys gs ∩ R) led led' ∧
      (∃ fall rise, p' = p.withBitmaps fall rise) ∧
      BitsAfter rt led led' P (suppliedKeys gs ∩ R) p p' := by
  induction gs generalizing led p events with
  | nil =>
    cases h
    refine ⟨by simpa [suppliedKeys] using Liquidated.refl _, ⟨_, _, rfl⟩, fun d b => ?_⟩
    simp [suppliedKeys]
  | cons g gs ih =>
    have hg := hready g (List.mem_cons_self ..)
    obtain ⟨hgid, hids⟩ := List.nodup_cons.mp hids
    have hne : ∀ g' ∈ gs, g.bandId ≠ g'.bandId := fun g' hg' heq =>
      hgid (List.mem_map.mpr ⟨g', hg', heq.symm⟩)
    obtain ⟨n, hn⟩ := hg.count
    obtain ⟨x, hx, hinit, hpool, hdir, hid, rfl⟩ := bandCount_eq_some.mp hn
    rw [hg.key] at hx
    rw [List.map_cons] at h
    obtain ⟨led₁, p₁, events', hliq₁, ⟨fall, rise, hp₁⟩, hbits₁, hrest⟩ :=
      persist_cons hkeyed hg (fun k hk => hflags k (List.mem_append_left _ hk)) hx
        ⟨hinit, hpool, hdir, hid⟩ h
    have hready₁ : ∀ g' ∈ gs, g'.Ready rt led₁ P dir := fun g' hg' =>
      (hready g' (List.mem_cons_of_mem _ hg')).liquidated hg (hne g' hg') hliq₁
    obtain ⟨hliq₂, ⟨fall', rise', hp'⟩, hbits₂⟩ := ih (hliq₁.bandsKeyed hkeyed) hready₁ hids
      (fun k hk => hflags k (List.mem_append_right _ hk)) hrest
    have hsplit : suppliedKeys (g :: gs) ∩ R =
        g.keys.toFinset ∩ R ∪ suppliedKeys gs ∩ R := by
      rw [← Finset.union_inter_distrib_right]
      simp [suppliedKeys]
    rw [hsplit]
    refine ⟨hliq₁.trans hliq₂, ⟨fall', rise', by rw [hp', hp₁]; rfl⟩, fun d b => ?_⟩
    rw [hbits₂, hbits₁, hliq₁.total_union hliq₂.isOpen,
      hg.total_eq Finset.inter_subset_left]
    by_cases hband : d = dir ∧ b = g.bandId
    · -- the band settled first: the others weigh nothing in it, and its count is final
      obtain ⟨rfl, rfl⟩ := hband
      have hzero := total_of_other_bands hready₁
        (Finset.inter_subset_left : suppliedKeys gs ∩ R ⊆ _) (d := d.toU8)
        (fun g' hg' heq => hne g' hg' heq.symm)
      have hcount : led'.bandCount rt P d.toU8 g.bandId =
          some (x.count - (g.keys.toFinset ∩ R).card) := by
        rw [hliq₂.bandCount, hzero, hliq₁.bandCount, hn,
          hg.total_eq Finset.inter_subset_left, if_pos ⟨rfl, rfl⟩]
        rfl
      simp [hzero, hcount]
    · have hband' : ¬ (d.toU8 = dir.toU8 ∧ b = g.bandId) := by
        rwa [TriggerDirection.toU8_injective.eq_iff]
      rw [if_neg hband', Nat.zero_add]
      have : ¬ (0 < (g.keys.toFinset ∩ R).card ∧ x.count - (g.keys.toFinset ∩ R).card = 0 ∧
          d = dir ∧ b = g.bandId) := fun hall => hband hall.2.2
      rw [and_iff_left this]

end ChiefLiquidity
