import ChiefLiquidity.Refinement.Initialize

/-!
# The liquidation context

The tail of a swap is accepted exactly when it is a list of groups, each a band account of the
direction followed by as many of its open loans as it counts, in ascending order.

## Inverting a parser

The parser is a recursion over the counts, and inside it one over the loans of a band. It is
inverted from the inside. A list of loans is accepted if it is a strictly ascending list of open
loans of the band; a band, if it is the band's own account and has as many loans as it counts; a
tail, if it is a concatenation of groups. Strictly ascending starts above the default key, which is
no address of a loan.

The prefix is ascending and so has no duplicates, the band counts its members, and the number of
loans supplied is that count: a group has exactly the open loans of its band. That is where
completeness comes from, though the parser never looks for what might be missing.

## Main definitions

* `Group` — one band of the tail, with what the parser reads for it
* `Group.Reads` — the ledger bears the group out
* `Supplied` — a list of groups makes up a tail
* `suppliedLoans` — the loans of a tail, in its order

## Main results

* `parseLoans_eq_ok`, `parseBand_eq_ok`, `parseTail_eq_ok` — what the parser accepts
* `checkContext_eq_ok` — the whole stage
-/

namespace ChiefLiquidity

open Ledger Market

variable {rt : Runtime} {led : Ledger} {P k : Pubkey} {p : Pool} {b : ℕ}
  {dir : TriggerDirection}

/-! ### Loans -/

/-- What the cascade carries of the open loan at `k`. -/
def loanCtx (k : Pubkey) (l : Loan) (dir : TriggerDirection) (s : LoanSides) : LoanCtx where
  loan := k
  triggerWad := l.triggerPriceWad
  direction := dir
  sides := s
  collateral := l.collateralAmount
  debtPrincipal := l.debtPrincipal
  liquidated := false

/-- The entry `c` is what the parser makes of the open loan of this band at `k`. -/
def Supplies (loans : Pubkey → Option Loan) (dir : TriggerDirection) (b : ℕ) (k : Pubkey)
    (c : LoanCtx) : Prop :=
  ∃ l s, loans k = some l ∧ l.bandId = b ∧ l.triggerDirection = dir.toU8 ∧ l.sides = s.toU8 ∧
    c = loanCtx k l dir s

theorem Supplies.loan {loans : Pubkey → Option Loan} {c : LoanCtx}
    (h : Supplies loans dir b k c) : c.loan = k := by
  obtain ⟨_, _, -, -, -, -, rfl⟩ := h
  rfl

/-- **The loans of a band** are accepted exactly when they are open loans of it in ascending
order. -/
theorem parseLoans_eq_ok {prev : Pubkey} {keys : List Pubkey} {ctxs : List LoanCtx} :
    parseLoans rt led P b dir.toU8 prev keys = .ok ctxs ↔
      (prev :: keys).IsChain (· < ·) ∧
        List.Forall₂ (Supplies (led.openLoan rt P) dir b) keys ctxs := by
  induction keys generalizing prev ctxs with
  | nil => simp [parseLoans, eq_comm]
  | cons key keys ih =>
    simp only [parseLoans, Checked.bind_eq_ok, require_eq_ok, exists_const, loadLoan_eq_ok,
      Checked.pure_eq_ok, ih, List.isChain_cons_cons, List.forall₂_cons_left_iff]
    constructor
    · rintro ⟨howner, hlt, l, hdata, ⟨hinit, hpool⟩, hopen, ⟨hband, hdir⟩, d, hd, s, hs, rest,
        ⟨hchain, hrest⟩, rfl⟩
      have hk : led.accts key = ⟨rt.programId, .loan l⟩ := by rw [← howner, ← hdata]
      rw [hdir, TriggerDirection.fromU8_toU8] at hd
      cases hd
      exact ⟨⟨hlt, hchain⟩, _, rest, ⟨l, s, openLoan_eq_some.mpr ⟨hk, hinit, hopen, hpool⟩, hband,
        hdir, LoanSides.fromU8_eq_ok.mp hs, rfl⟩, hrest, rfl⟩
    · rintro ⟨⟨hlt, hchain⟩, _, rest, ⟨l, s, hl, hband, hdir, hs, rfl⟩, hrest, rfl⟩
      obtain ⟨hk, hinit, hopen, hpool⟩ := openLoan_eq_some.mp hl
      exact ⟨congrArg Account.owner hk, hlt, l, congrArg Account.data hk, ⟨hinit, hpool⟩, hopen,
        ⟨hband, hdir⟩, dir, by rw [hdir, TriggerDirection.fromU8_toU8], s,
        LoanSides.fromU8_eq_ok.mpr hs, rest, ⟨hchain, hrest⟩, rfl⟩

/-! ### Bands -/

/-- **A band** is accepted exactly when it is the live account of a band of the pool not supplied
before, counting as many loans as follow it. -/
theorem parseBand_eq_ok (hfiled : Filed rt led) {supplied : List ℕ} {key : Pubkey} {n : ℕ}
    {x : LoanIndexBand} :
    parseBand rt led P dir.toU8 supplied key n = .ok x ↔
      led.accts key = ⟨rt.programId, .band x⟩ ∧ x.isInitialized = true ∧ x.pool = P ∧
        x.direction = dir.toU8 ∧ x.bandId ∉ supplied ∧ x.count = n := by
  simp only [parseBand, Checked.bind_eq_ok, require_eq_ok, exists_const, loadBand_eq_ok,
    Checked.pure_eq_ok, okOr_eq_ok]
  constructor
  · rintro ⟨howner, x, hdata, ⟨hinit, hpool, hdir⟩, _, -, -, hnot, hcount, rfl⟩
    exact ⟨by rw [← howner, ← hdata], hinit, hpool, hdir, hnot, hcount⟩
  · rintro ⟨hk, hinit, hpool, hdir, hnot, hcount⟩
    have hkey := (hfiled.band key x hk hinit).1
    have hcreate := rt.create_find (.band x.pool x.direction x.bandId)
    rw [hkey, hpool] at hcreate
    exact ⟨congrArg Account.owner hk, x, congrArg Account.data hk, ⟨hinit, hpool, hdir⟩, key,
      hcreate, rfl, hnot, hcount, rfl⟩

/-! ### Groups -/

/-- One band of the tail: its account and id, the addresses that follow, and what the parser makes
of them. -/
structure Group where
  band : Pubkey
  bandId : ℕ
  keys : List Pubkey
  loans : List LoanCtx

namespace Group

/-- The part of the tail the group takes up. -/
def tail (g : Group) : List Pubkey := g.band :: g.keys

/-- The group as the walk of the tail returns it. -/
def toBandCtx (g : Group) : BandCtx := ⟨g.band, g.keys⟩

/-- The ledger bears the group out: the band is there and counts its loans, which are open. -/
structure Reads (rt : Runtime) (led : Ledger) (P : Pubkey) (dir : TriggerDirection) (g : Group) :
    Prop where
  key : bandKey rt P dir.toU8 g.bandId = g.band
  count : led.bandCount rt P dir.toU8 g.bandId = some g.keys.length
  ascending : (defaultPubkey :: g.keys).IsChain (· < ·)
  loans : List.Forall₂ (Supplies (led.openLoan rt P) dir g.bandId) g.keys g.loans

end Group

/-- A band the parser accepts, with the loans it accepts for it, makes a group. -/
theorem Group.reads_of_band (hfiled : Filed rt led) {x : LoanIndexBand} {keys : List Pubkey}
    {ctxs : List LoanCtx} (hk : led.accts k = ⟨rt.programId, .band x⟩)
    (hinit : x.isInitialized = true) (hpool : x.pool = P) (hdir : x.direction = dir.toU8)
    (hcount : x.count = keys.length) (hchain : (defaultPubkey :: keys).IsChain (· < ·))
    (hloans : List.Forall₂ (Supplies (led.openLoan rt P) dir x.bandId) keys ctxs) :
    Group.Reads rt led P dir ⟨k, x.bandId, keys, ctxs⟩ := by
  have hkey : bandKey rt P dir.toU8 x.bandId = k := by
    rw [← hpool, ← hdir]
    exact congrArg Prod.fst (hfiled.band k x hk hinit).1
  exact ⟨hkey, bandCount_eq_some.mpr ⟨x, by rw [hkey, hk], hinit, hpool, hdir, rfl, hcount⟩, hchain,
    hloans⟩

/-- And every group comes from such a band. -/
theorem Group.Reads.band {g : Group} (h : g.Reads rt led P dir) :
    ∃ x : LoanIndexBand, led.accts g.band = ⟨rt.programId, .band x⟩ ∧ x.isInitialized = true ∧
      x.pool = P ∧ x.direction = dir.toU8 ∧ x.bandId = g.bandId ∧ x.count = g.keys.length := by
  obtain ⟨x, hk, hrest⟩ := bandCount_eq_some.mp h.count
  exact ⟨x, by rw [← hk, h.key], hrest⟩

/-- **The tail** is accepted exactly when it is a list of groups of pairwise different bands that
the ledger bears out. -/
theorem parseTail_eq_ok (hfiled : Filed rt led) {supplied counts : List ℕ} {tail : List Pubkey}
    {ctx : Context} :
    parseTail rt led P dir.toU8 supplied counts tail = .ok ctx ↔
      ∃ gs : List Group, tail = gs.flatMap Group.tail ∧ counts = gs.map (·.keys.length) ∧
        (∀ g ∈ gs, g.Reads rt led P dir) ∧ (gs.map Group.bandId).Nodup ∧
        (∀ g ∈ gs, g.bandId ∉ supplied) ∧
        ctx = ⟨gs.map Group.toBandCtx, gs.flatMap Group.loans,
          supplied ++ gs.map Group.bandId⟩ := by
  induction counts generalizing supplied tail ctx with
  | nil =>
    simp only [parseTail, Checked.bind_eq_ok, require_eq_ok, exists_const, Checked.pure_eq_ok]
    constructor
    · rintro ⟨rfl, rfl⟩
      exact ⟨[], by simp⟩
    · rintro ⟨gs, htail, hcounts, -, -, -, hctx⟩
      obtain rfl : gs = [] := List.map_eq_nil_iff.mp hcounts.symm
      exact ⟨htail, by simp [hctx]⟩
  | cons n counts ih =>
    constructor
    · intro h
      rcases tail with _ | ⟨key, tail⟩
      · cases h
      simp only [parseTail, Checked.bind_eq_ok, require_eq_ok, exists_const, Checked.pure_eq_ok,
        parseBand_eq_ok hfiled, parseLoans_eq_ok, ih] at h
      obtain ⟨hn, x, ⟨hk, hinit, hpool, hdir, hnot, hcount⟩, ctxs, ⟨hchain, hloans⟩, _,
        ⟨gs, htail, hcounts, hreads, hnodup, hfresh, rfl⟩, rfl⟩ := h
      have hlength : (tail.take n).length = n := List.length_take_of_le hn
      refine ⟨⟨key, x.bandId, tail.take n, ctxs⟩ :: gs, ?_, ?_, ?_, ?_, ?_, ?_⟩
      · simp only [List.flatMap_cons, Group.tail, List.cons_append, ← htail,
          List.take_append_drop]
      · simp only [List.map_cons, hlength, hcounts]
      · rintro g (_ | ⟨_, hg⟩)
        · exact Group.reads_of_band hfiled hk hinit hpool hdir (by rw [hcount, hlength]) hchain
            hloans
        · exact hreads g hg
      · refine List.nodup_cons.mpr ⟨fun hmem => ?_, hnodup⟩
        obtain ⟨g, hg, heq⟩ := List.mem_map.mp hmem
        exact hfresh g hg (by simp [heq])
      · rintro g (_ | ⟨_, hg⟩)
        · exact hnot
        · intro hmem
          exact hfresh g hg (List.mem_append_left _ hmem)
      · simp [Group.toBandCtx]
    · rintro ⟨gs, htail, hcounts, hreads, hnodup, hfresh, rfl⟩
      rcases gs with _ | ⟨g, gs⟩
      · cases hcounts
      obtain ⟨rfl, rfl⟩ := List.cons_eq_cons.mp hcounts
      rw [List.flatMap_cons, Group.tail, List.cons_append] at htail
      subst htail
      have hg := hreads g (List.mem_cons_self ..)
      obtain ⟨x, hk, hinit, hpool, hdir, hid, hcount⟩ := hg.band
      have hnodup' := List.nodup_cons.mp hnodup
      simp only [parseTail, Checked.bind_eq_ok, require_eq_ok, exists_const, Checked.pure_eq_ok,
        parseBand_eq_ok hfiled, parseLoans_eq_ok, ih, List.take_left, List.drop_left]
      refine ⟨by simp, x, ⟨hk, hinit, hpool, hdir, hid ▸ hfresh g (List.mem_cons_self ..), hcount⟩,
        g.loans, ⟨hg.ascending, hid ▸ hg.loans⟩, _, ⟨gs, rfl, rfl,
          fun g' hg' => hreads g' (List.mem_cons_of_mem _ hg'), hnodup'.2, fun g' hg' hmem => ?_,
          rfl⟩, ?_⟩
      · rcases List.mem_append.mp hmem with hmem | hmem
        · exact hfresh g' (List.mem_cons_of_mem _ hg') hmem
        · exact hnodup'.1 (List.mem_map.mpr ⟨g', hg', by simpa [hid] using hmem⟩)
      · simp [Group.toBandCtx, hid]

/-! ### What a list of groups supplies -/

section Supplied

variable {gs : List Group} {g : Group}

/-- The addresses of the loans the groups supply. -/
def suppliedKeys (gs : List Group) : Finset Pubkey := (gs.flatMap Group.keys).toFinset

theorem mem_suppliedKeys : k ∈ suppliedKeys gs ↔ ∃ g ∈ gs, k ∈ g.keys := by
  simp [suppliedKeys]

theorem exists_of_forall₂ {keys : List Pubkey} {ctxs : List LoanCtx}
    {R : Pubkey → LoanCtx → Prop} (h : List.Forall₂ R keys ctxs) (hk : k ∈ keys) :
    ∃ c ∈ ctxs, R k c := by
  induction h with
  | nil => cases hk
  | cons hR _ ih =>
    rcases List.mem_cons.mp hk with rfl | hk
    · exact ⟨_, List.mem_cons_self .., hR⟩
    · obtain ⟨c, hc, hR⟩ := ih hk
      exact ⟨c, List.mem_cons_of_mem _ hc, hR⟩

theorem Group.Reads.open_of_mem (h : g.Reads rt led P dir) (hk : k ∈ g.keys) :
    ∃ l, led.openLoan rt P k = some l ∧ l.bandId = g.bandId ∧ l.triggerDirection = dir.toU8 := by
  obtain ⟨_, -, l, -, hl, hband, hdir, -⟩ := exists_of_forall₂ h.loans hk
  exact ⟨l, hl, hband, hdir⟩

theorem Group.Reads.nodup (h : g.Reads rt led P dir) : g.keys.Nodup := by
  have hpair := List.isChain_iff_pairwise.mp h.ascending
  exact (List.pairwise_cons.mp hpair).2.imp fun hlt => Nat.ne_of_lt hlt

/-- No loan is supplied for two bands. -/
theorem keys_disjoint (hreads : ∀ g ∈ gs, g.Reads rt led P dir) {g' : Group} (hg : g ∈ gs)
    (hg' : g' ∈ gs) (hne : g.bandId ≠ g'.bandId) (hk : k ∈ g.keys) : k ∉ g'.keys := by
  intro hk'
  obtain ⟨l, hl, hband, -⟩ := (hreads g hg).open_of_mem hk
  obtain ⟨l', hl', hband', -⟩ := (hreads g' hg').open_of_mem hk'
  obtain rfl : l = l' := Option.some.inj (hl.symm.trans hl')
  exact hne (hband.symm.trans hband')

/-- **No loan is supplied twice.** -/
theorem suppliedKeys_nodup (hreads : ∀ g ∈ gs, g.Reads rt led P dir)
    (hnodup : (gs.map Group.bandId).Nodup) : (gs.flatMap Group.keys).Nodup := by
  refine List.nodup_flatMap.mpr ⟨fun g hg => (hreads g hg).nodup, ?_⟩
  refine (List.pairwise_map.mp hnodup).imp_of_mem fun hg hg' hne => ?_
  intro k hk
  exact keys_disjoint hreads hg hg' hne hk

/-- **A band of the context is supplied in full**: it weighs what its account counts. -/
theorem total_suppliedKeys (hreads : ∀ g ∈ gs, g.Reads rt led P dir)
    (hnodup : (gs.map Group.bandId).Nodup) (hg : g ∈ gs) :
    KeyedSum.total (suppliedKeys gs) (led.openLoan rt P) (Loan.inBand dir.toU8 g.bandId) =
      g.keys.length := by
  have hsub : g.keys.toFinset ⊆ suppliedKeys gs := fun k hk =>
    mem_suppliedKeys.mpr ⟨g, hg, List.mem_toFinset.mp hk⟩
  rw [← KeyedSum.total_of_subset hsub, KeyedSum.total_eq_card,
    List.toFinset_card_of_nodup (hreads g hg).nodup]
  · intro k hk
    obtain ⟨l, hl, hband, hdir⟩ := (hreads g hg).open_of_mem (List.mem_toFinset.mp hk)
    exact ⟨l, hl, if_pos ⟨hdir, hband⟩⟩
  · intro k hk hkg
    obtain ⟨g', hg', hk'⟩ := mem_suppliedKeys.mp hk
    obtain ⟨l, hl, hband, -⟩ := (hreads g' hg').open_of_mem hk'
    rw [KeyedSum.weightAt_of_some hl]
    refine if_neg fun hin => hkg ?_
    obtain rfl : g' = g :=
      List.inj_on_of_nodup_map hnodup hg' hg (hband.symm.trans hin.2)
    exact List.mem_toFinset.mpr hk'

end Supplied

/-! ### Coverage -/

theorem checkCoverage_eq_ok {aToB : Bool} {bandBoundary : ℕ} {supplied : List ℕ} {u : Unit} :
    checkCoverage p aToB bandBoundary supplied = .ok u ↔
      ∀ b, (requiredRange aToB bandBoundary).1 ≤ b → b ≤ (requiredRange aToB bandBoundary).2 →
        bitmapIsSet (p.bitmapOf (swapDirection aToB)) b = true → b ∈ supplied := by
  simp only [checkCoverage, Pool.bandBitmap_toU8, Checked.bind_eq_ok, require_eq_ok,
    Except.ok.injEq, exists_eq_left', mem_bitmapIterSetRange, and_imp]

/-- The groups make up the tail, and the ledger bears them out. -/
structure Supplied (rt : Runtime) (led : Ledger) (P : Pubkey) (dir : TriggerDirection)
    (counts : List ℕ) (tail : List Pubkey) (gs : List Group) : Prop where
  tail_eq : tail = gs.flatMap Group.tail
  counts_eq : counts = gs.map (·.keys.length)
  reads : ∀ g ∈ gs, g.Reads rt led P dir
  nodup : (gs.map Group.bandId).Nodup

/-- The loan accounts of a tail whose bands have these counts, in its order. -/
def suppliedLoans : List ℕ → List Pubkey → List Pubkey
  | n :: counts, _ :: tail => tail.take n ++ suppliedLoans counts (tail.drop n)
  | _, _ => []

/-- The loans of a tail are those of its groups. -/
theorem Supplied.suppliedLoans_eq {counts : List ℕ} {tail : List Pubkey} {gs : List Group}
    (h : Supplied rt led P dir counts tail gs) :
    suppliedLoans counts tail = gs.flatMap Group.keys := by
  obtain ⟨rfl, rfl, -, -⟩ := h
  induction gs with
  | nil => rfl
  | cons g gs ih =>
    simp only [List.flatMap_cons, List.map_cons, Group.tail, List.cons_append, suppliedLoans,
      List.take_left, List.drop_left]
    exact congrArg _ ih

/-- **The context check** accepts exactly the tails made up of groups that cover every set bit on
the claimed side. -/
theorem checkContext_eq_ok (hfiled : Filed rt led) {aToB : Bool} {bandBoundary : ℕ}
    {counts : List ℕ} {tail : List Pubkey} {ctx : Context} :
    checkContext rt led P p aToB bandBoundary counts tail = .ok ctx ↔
      ∃ gs, Supplied rt led P (swapDirection aToB) counts tail gs ∧
        (∀ b, (requiredRange aToB bandBoundary).1 ≤ b → b ≤ (requiredRange aToB bandBoundary).2 →
          bitmapIsSet (p.bitmapOf (swapDirection aToB)) b = true → b ∈ gs.map Group.bandId) ∧
        ctx = ⟨gs.map Group.toBandCtx, gs.flatMap Group.loans, gs.map Group.bandId⟩ := by
  simp only [checkContext, Checked.bind_eq_ok, parseTail_eq_ok hfiled, checkCoverage_eq_ok,
    exists_const, Checked.pure_eq_ok]
  constructor
  · rintro ⟨_, ⟨gs, htail, hcounts, hreads, hnodup, -, rfl⟩, hcov, rfl⟩
    exact ⟨gs, ⟨htail, hcounts, hreads, hnodup⟩, hcov, rfl⟩
  · rintro ⟨gs, ⟨htail, hcounts, hreads, hnodup⟩, hcov, rfl⟩
    exact ⟨_, ⟨gs, htail, hcounts, hreads, hnodup, fun _ _ => List.not_mem_nil, rfl⟩, hcov, rfl⟩

end ChiefLiquidity
