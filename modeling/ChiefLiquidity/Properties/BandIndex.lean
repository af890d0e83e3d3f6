import ChiefLiquidity.Properties.Books

/-!
# The band index of a pool

The bitmaps and the band accounts of a pool say exactly which loans are open where. That is what
lets a swap check by counting that nothing is missing from its liquidation context: the check
accepts the complete contexts and no others.

## Counting instead of searching

A program on a chain cannot look for accounts. It can be shown some, and count. The index makes that
enough: a bit for each band with an open loan, a count for each band, and bands that are a function
of the trigger. A context that has every populated band on its side, and as many distinct open loans
of each as the band counts, has all of them.

## Both directions

`context_accepted_iff` says this as an equivalence: what is accepted is complete, and what is
complete is accepted. The second half is what a caller relies on, and the first what everybody else
does.

## Main definitions

* `Market.band` — the open loans of a band
* `CompleteContext` — a context that has all it needs

## Main results

* `bands_are_exact` — bits, counts and cached triggers
* `context_accepted_iff` — the context check
-/

namespace ChiefLiquidity

open Ledger Market

variable {rt : Runtime} {led : Ledger} {P k : Pubkey} {p : Pool} {S : Finset Pubkey} {m : Market}
  {dir : TriggerDirection} {b : ℕ}

namespace Sandbox

/-- A pool with one loan. -/
def lent : List Act := create ++ [add 1000000 1000000, lend 0 0 500000 50000 61]

end Sandbox

/-! ### Bands -/

/-- The open loans of a band. -/
def Market.band (m : Market) (S : Finset Pubkey) (dir : TriggerDirection) (b : ℕ) :
    Finset Pubkey :=
  S.filter fun k => 0 < KeyedSum.weightAt m.loans (Loan.inBand dir.toU8 b) k

theorem Loan.inBand_pos {l : Loan} {d b : ℕ} :
    0 < l.inBand d b ↔ l.triggerDirection = d ∧ l.bandId = b := by
  rw [Loan.inBand]
  split <;> simp_all

theorem Market.mem_band (hv : m.Valid S) :
    k ∈ m.band S dir b ↔
      ∃ l, m.loans k = some l ∧ l.triggerDirection = dir.toU8 ∧ l.bandId = b := by
  simp only [band, Finset.mem_filter, KeyedSum.weightAt_pos_iff, Loan.inBand_pos]
  exact ⟨fun h => h.2, fun ⟨l, hl, h⟩ => ⟨hv.booked.domain.mem_of_some hl, l, hl, h⟩⟩

theorem Market.card_band : (m.band S dir b).card = m.members S dir b := by
  refine (KeyedSum.total_eq_card_filter fun l => ?_).symm
  rw [Loan.inBand]
  split <;> omega

theorem Market.members_pos : 0 < m.members S dir b ↔ (m.band S dir b).Nonempty := by
  rw [← card_band, Finset.card_pos]

/-- A live account of a band of the pool counts the open loans of the band. -/
theorem Filed.band_count (hfiled : Filed rt led) (hv : (led.market rt P p).Valid S)
    {x : LoanIndexBand} (hk : led.accts k = ⟨rt.programId, .band x⟩)
    (hinit : x.isInitialized = true) (hpool : x.pool = P) (hdir : x.direction = dir.toU8)
    (hid : x.bandId = b) :
    x.count = ((led.market rt P p).band S dir b).card ∧ x.count ≤ LoanIndexBand.maxLoans := by
  have hkey : bandKey rt P dir.toU8 b = k := by
    rw [← hpool, ← hdir, ← hid]
    exact congrArg Prod.fst (hfiled.band k x hk hinit).1
  rw [card_band]
  refine hv.indexed.count dir b x.count ?_
  exact bandCount_eq_some.mpr ⟨x, by rw [hkey, hk], hinit, hpool, hdir, hid, rfl⟩

/-- **The band index is exact.** A bit is set exactly for a band with an open loan, every band
account counts the open loans of its band and is there when there are any, and every open loan is
filed under the trigger its amounts determine. -/
theorem bands_are_exact (h : Reachable rt led) (hp : led.HasPool rt P p) :
    (∀ dir b, ∃ B : Finset Pubkey,
      (∀ k, k ∈ B ↔ ∃ l, led.openLoan rt P k = some l ∧ l.triggerDirection = dir.toU8 ∧
        l.bandId = b) ∧
      (bitmapIsSet (p.bitmapOf dir) b = true ↔ B.Nonempty) ∧
      (∀ k x, led.accts k = ⟨rt.programId, .band x⟩ → x.isInitialized = true → x.pool = P →
        x.direction = dir.toU8 → x.bandId = b → x.count = B.card ∧ x.count ≤ 64) ∧
      (B.Nonempty → ∃ x, led.accts (bandKey rt P dir.toU8 b) = ⟨rt.programId, .band x⟩ ∧
        x.isInitialized = true ∧ x.pool = P ∧ x.direction = dir.toU8 ∧ x.bandId = b)) ∧
    ∀ k l, led.openLoan rt P k = some l → l.bandId ≤ 127 ∧
      ∃ sides dir, l.sides = sides.toU8 ∧ l.triggerDirection = dir.toU8 ∧
        recomputeTrigger sides l.collateralAmount l.debtPrincipal p.liqRatioBps =
          .ok (l.triggerPriceWad, dir) ∧
        bandIdForTrigger l.triggerPriceWad = .ok l.bandId := by
  have hsound := h.sound
  obtain ⟨S, hv⟩ := hsound.valid P p hp
  refine ⟨fun dir b => ⟨(led.market rt P p).band S dir b, fun k => mem_band hv, ?_,
    fun k x hk hinit hpool hdir hid => hsound.filed.band_count hv hk hinit hpool hdir hid,
    fun hB => ?_⟩, fun k l hl => ⟨hv.indexed.bandId_le k l hl, hv.indexed.sound k l hl⟩⟩
  · rw [← members_pos]
    exact hv.indexed.bit dir b
  · have hsome := hv.indexed.bands_of_pos (members_pos.mpr hB)
    obtain ⟨x, hk, hinit, hpool, hdir, hid, -⟩ := bandCount_eq_some.mp hsome
    exact ⟨x, hk, hinit, hpool, hdir, hid⟩

theorem bands_are_exact_busy :
    bitmapIsSet ((Sandbox.poolState (Sandbox.after Sandbox.busy)).bitmapOf .onFall) 61 = false ∧
      bitmapIsSet ((Sandbox.poolState (Sandbox.after Sandbox.busy)).bitmapOf .onRise) 65 = true ∧
      ∃ k l, (Sandbox.after Sandbox.busy).openLoan sandbox Sandbox.pool k = some l ∧
        l.triggerDirection = TriggerDirection.onRise.toU8 ∧ l.bandId = 65 := by
  obtain ⟨hbands, -⟩ := bands_are_exact
    (Sandbox.after_reachable Sandbox.busy) (Sandbox.hasPool (by decide +kernel))
  obtain ⟨B, hB, hbit, -⟩ := hbands .onRise 65
  have hset : bitmapIsSet ((Sandbox.poolState (Sandbox.after Sandbox.busy)).bitmapOf .onRise) 65 =
      true := by decide +kernel
  obtain ⟨k, hk⟩ := hbit.mp hset
  exact ⟨by decide +kernel, hset, k, (hB k).mp hk⟩

/-! ### Contexts -/

/-- The loans of the direction of a swap whose bands it has to supply. -/
def InReach (aToB : Bool) (bandBoundary bandId : ℕ) : Prop :=
  if aToB then bandBoundary ≤ bandId ∧ bandId ≤ 127 else bandId ≤ min bandBoundary 127

/-- The tail consists of bands of the direction, none of them twice, each with all its open loans in
ascending order, the counts are theirs, and every band in reach that has an open loan is there. -/
structure CompleteContext (rt : Runtime) (led : Ledger) (P : Pubkey) (aToB : Bool)
    (bandBoundary : ℕ) (counts : List ℕ) (tail : List Pubkey) (bands : List (ℕ × List Pubkey)) :
    Prop where
  distinct : (bands.map Prod.fst).Nodup
  exist : ∀ b ∈ bands, ∃ x, led.accts (bandKey rt P (swapDirection aToB).toU8 b.1) =
    ⟨rt.programId, .band x⟩ ∧ x.isInitialized = true ∧ x.pool = P ∧
      x.direction = (swapDirection aToB).toU8 ∧ x.bandId = b.1
  ascending : ∀ b ∈ bands, b.2.Pairwise (· < ·)
  loans : ∀ b ∈ bands, ∀ k, k ∈ b.2 ↔ ∃ l, led.openLoan rt P k = some l ∧
    l.triggerDirection = (swapDirection aToB).toU8 ∧ l.bandId = b.1
  tail_eq : tail = bands.flatMap fun b => bandKey rt P (swapDirection aToB).toU8 b.1 :: b.2
  counts_eq : counts = bands.map fun b => b.2.length
  covered : ∀ k l, led.openLoan rt P k = some l →
    l.triggerDirection = (swapDirection aToB).toU8 → InReach aToB bandBoundary l.bandId →
    l.bandId ∈ bands.map Prod.fst

/-- Choosing an element for each element of a list. -/
theorem exists_forall₂ {α β : Type} {R : α → β → Prop} {as : List α}
    (h : ∀ a ∈ as, ∃ b, R a b) : ∃ bs, List.Forall₂ R as bs := by
  induction as with
  | nil => exact ⟨[], .nil⟩
  | cons a as ih =>
    obtain ⟨b, hb⟩ := h a (List.mem_cons_self ..)
    obtain ⟨bs, hbs⟩ := ih fun a ha => h a (List.mem_cons_of_mem _ ha)
    exact ⟨b :: bs, .cons hb hbs⟩

theorem inReach_iff {aToB : Bool} {bandBoundary : ℕ} (hb : b ≤ maxBandId) :
    InReach aToB bandBoundary b ↔
      (requiredRange aToB bandBoundary).1 ≤ b ∧ b ≤ (requiredRange aToB bandBoundary).2 := by
  have hmax : b ≤ 127 := hb
  cases aToB
  · simp only [InReach, requiredRange, Bool.false_eq_true, if_false]
    omega
  · simp only [InReach, requiredRange, u32Max, if_true]
    omega

/-- A group the ledger bears out has all open loans of its band. -/
theorem Group.Reads.complete {g : Group} (hv : (led.market rt P p).Valid S)
    (h : g.Reads rt led P dir) :
    k ∈ g.keys ↔ ∃ l, led.openLoan rt P k = some l ∧ l.triggerDirection = dir.toU8 ∧
      l.bandId = g.bandId := by
  constructor
  · intro hk
    obtain ⟨l, hl, hband, hdir⟩ := h.open_of_mem hk
    exact ⟨l, hl, hdir, hband⟩
  · rintro ⟨l, hl, hdir, hband⟩
    have hsub : g.keys.toFinset ⊆ (led.market rt P p).band S dir g.bandId := by
      intro j hj
      obtain ⟨lj, hlj, hbj, hdj⟩ := h.open_of_mem (List.mem_toFinset.mp hj)
      exact (mem_band hv).mpr ⟨lj, hlj, hdj, hbj⟩
    have hcard : ((led.market rt P p).band S dir g.bandId).card ≤ g.keys.toFinset.card := by
      rw [List.toFinset_card_of_nodup h.nodup, card_band]
      exact (hv.indexed.count dir g.bandId _ h.count).1.ge
    have hall := Finset.eq_of_subset_of_card_le hsub hcard
    exact List.mem_toFinset.mp (hall ▸ (mem_band hv).mpr ⟨l, hl, hdir, hband⟩)

/-- All open loans of a band, in ascending order, are a group the ledger bears out. -/
theorem exists_group {x : LoanIndexBand} {keys : List Pubkey} (hfiled : Filed rt led)
    (hv : (led.market rt P p).Valid S)
    (hk : led.accts (bandKey rt P dir.toU8 b) = ⟨rt.programId, .band x⟩)
    (hinit : x.isInitialized = true) (hpool : x.pool = P) (hdir : x.direction = dir.toU8)
    (hid : x.bandId = b) (hasc : keys.Pairwise (· < ·))
    (hkeys : ∀ k, k ∈ keys ↔ ∃ l, led.openLoan rt P k = some l ∧ l.triggerDirection = dir.toU8 ∧
      l.bandId = b) :
    ∃ g : Group, g.Reads rt led P dir ∧ g.band = bandKey rt P dir.toU8 b ∧ g.bandId = b ∧
      g.keys = keys := by
  have hsupplies : ∀ k ∈ keys, ∃ c, Supplies (led.openLoan rt P) dir b k c := by
    intro k hk
    obtain ⟨l, hl, hdir, hband⟩ := (hkeys k).mp hk
    obtain ⟨s, _, hs, -⟩ := hv.indexed.sound k l hl
    exact ⟨_, l, s, hl, hband, hdir, hs, rfl⟩
  obtain ⟨ctxs, hctxs⟩ := exists_forall₂ hsupplies
  have hcard : keys.length = ((led.market rt P p).band S dir b).card := by
    rw [← List.toFinset_card_of_nodup (hasc.imp fun hlt => Nat.ne_of_lt hlt)]
    congr 1
    ext k
    rw [List.mem_toFinset, hkeys, mem_band hv]
    rfl
  refine ⟨⟨bandKey rt P dir.toU8 b, b, keys, ctxs⟩, ⟨rfl, ?_, ?_, hctxs⟩, rfl, rfl, rfl⟩
  · refine bandCount_eq_some.mpr ⟨x, hk, hinit, hpool, hdir, hid, ?_⟩
    rw [hcard]
    exact (hfiled.band_count hv hk hinit hpool hdir hid).1
  · refine List.isChain_iff_pairwise.mpr (List.pairwise_cons.mpr ⟨fun k hk => ?_, hasc⟩)
    obtain ⟨l, hl, -⟩ := (hkeys k).mp hk
    obtain ⟨hk, hinit, -⟩ := openLoan_eq_some.mp hl
    obtain ⟨s, rfl⟩ := (hfiled.loan k l hk hinit).1
    exact Nat.pos_of_ne_zero (rt.find_ne_default s)

/-- **The context check accepts exactly the complete contexts.** -/
theorem context_accepted_iff (h : Reachable rt led) (hp : led.HasPool rt P p) (aToB : Bool)
    (bandBoundary : ℕ) (counts : List ℕ) (tail : List Pubkey) :
    (∃ ctx, checkContext rt led P p aToB bandBoundary counts tail = .ok ctx) ↔
      ∃ bands, CompleteContext rt led P aToB bandBoundary counts tail bands := by
  have hsound := h.sound
  obtain ⟨S, hv⟩ := hsound.valid P p hp
  simp only [checkContext_eq_ok hsound.filed]
  constructor
  · rintro ⟨_, gs, hgs, hcover, -⟩
    refine ⟨gs.map fun g => (g.bandId, g.keys), ⟨?_, ?_, ?_, ?_, ?_, ?_, ?_⟩⟩
    · simpa [Function.comp_def] using hgs.nodup
    · rintro _ hb
      obtain ⟨g, hg, rfl⟩ := List.mem_map.mp hb
      obtain ⟨x, hk, hinit, hpool, hdir, hid, -⟩ := (hgs.reads g hg).band
      exact ⟨x, by rw [(hgs.reads g hg).key, hk], hinit, hpool, hdir, hid⟩
    · rintro _ hb
      obtain ⟨g, hg, rfl⟩ := List.mem_map.mp hb
      exact (List.pairwise_cons.mp (List.isChain_iff_pairwise.mp (hgs.reads g hg).ascending)).2
    · rintro _ hb k
      obtain ⟨g, hg, rfl⟩ := List.mem_map.mp hb
      exact (hgs.reads g hg).complete hv
    · rw [hgs.tail_eq, List.flatMap_map]
      exact List.flatMap_congr fun g hg => by rw [(hgs.reads g hg).key]; rfl
    · simp [hgs.counts_eq]
    · intro k l hl hdir hreach
      obtain ⟨hlo, hhi⟩ := (inReach_iff (hv.indexed.bandId_le k l hl)).mp hreach
      have hne : ((led.market rt P p).band S (swapDirection aToB) l.bandId).Nonempty :=
        ⟨k, (mem_band hv).mpr ⟨l, hl, hdir, rfl⟩⟩
      have hmem := hcover l.bandId hlo hhi ((hv.indexed.bit _ _).mpr (members_pos.mpr hne))
      simpa [Function.comp_def] using hmem
  · rintro ⟨bands, hc⟩
    have hgroup : ∀ b ∈ bands, ∃ g : Group, g.Reads rt led P (swapDirection aToB) ∧
        g.band = bandKey rt P (swapDirection aToB).toU8 b.1 ∧ g.bandId = b.1 ∧ g.keys = b.2 := by
      intro b hb
      obtain ⟨x, hk, hinit, hpool, hdir, hid⟩ := hc.exist b hb
      exact exists_group hsound.filed hv hk hinit hpool hdir hid (hc.ascending b hb) (hc.loans b hb)
    have : Nonempty Group := ⟨⟨0, 0, [], []⟩⟩
    choose! group hgroup using hgroup
    have hids : (bands.map group).map Group.bandId = bands.map Prod.fst := by
      rw [List.map_map]
      exact List.map_congr_left fun b hb => (hgroup b hb).2.2.1
    refine ⟨_, bands.map group, ⟨?_, ?_, fun g hg => ?_, ?_⟩, fun b hlo hhi hbit => ?_, rfl⟩
    · rw [hc.tail_eq, List.flatMap_map]
      refine List.flatMap_congr fun b hb => ?_
      rw [Group.tail, (hgroup b hb).2.1, (hgroup b hb).2.2.2]
    · rw [hc.counts_eq, List.map_map]
      refine List.map_congr_left fun b hb => ?_
      rw [Function.comp_apply, (hgroup b hb).2.2.2]
    · obtain ⟨b, hb, rfl⟩ := List.mem_map.mp hg
      exact (hgroup b hb).1
    · rw [hids]
      exact hc.distinct
    · obtain ⟨k, hk⟩ := members_pos.mp ((hv.indexed.bit _ b).mp hbit)
      obtain ⟨l, hl, hdir, rfl⟩ := (mem_band hv).mp hk
      rw [hids]
      exact hc.covered k l hl hdir
        ((inReach_iff (hv.indexed.bandId_le k l hl)).mpr ⟨hlo, hhi⟩)

theorem context_accepted_iff_lent :
    ∃ bands, CompleteContext sandbox (Sandbox.after Sandbox.lent) Sandbox.pool true 61 [1]
      [Sandbox.band 0 61, Sandbox.loan 0] bands :=
  (context_accepted_iff (Sandbox.after_reachable Sandbox.lent) (Sandbox.hasPool (by decide +kernel))
    true 61 [1] [Sandbox.band 0 61, Sandbox.loan 0]).mp
    (Checked.exists_of_isOk (by decide +kernel))

end ChiefLiquidity
