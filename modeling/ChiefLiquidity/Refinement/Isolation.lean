import ChiefLiquidity.ForMathlib.Footprint
import ChiefLiquidity.Wire.Instruction

/-!
# The footprint of an instruction

The proof that every instruction keeps to the account list `lib.rs` gives it: what it does depends
on no other account, and it changes no account that is not marked `[writable]`.

Two runs of one instruction are followed side by side, on two ledgers that agree on the listed
accounts. Reads return the same on both sides, and writes keep the agreement.

## Two runs side by side

A statement about what a computation does not depend on compares two runs. They are related by
agreement on the listed accounts, and every line of a processor keeps the relation: a check that
reads a listed account ends alike on both sides, a write to a listed account writes the same, and an
account that is not listed is neither read nor written. `Checked.Paired` is the relation on results,
and its rule for a bind is what each proof is made of.

## Lists are part of the footprint

A swap names its bands and loans in a tail of any length, so the footprint is not a fixed set of
slots. Where the program derives an address and compares it with one it was handed, the account it
then reads is the one it was handed. The calls into the token program are local by
`TokenProgram.handed`.

## Main definitions

* `Instruction.accounts`, `Instruction.writable` — the footprint an account list declares
* `Ledger.layout` — the ledger as a table of accounts under a clock

## Main results

* `processInstruction_local` — every instruction keeps to its account list
-/

namespace ChiefLiquidity

open Checked Footprint

/-! ### Account lists -/

/-- The accounts an instruction is handed. -/
def Instruction.accounts (i : Instruction) : Set Pubkey := {k | ∃ m ∈ i.metas, m.key = k}

/-- The accounts an instruction may write. -/
def Instruction.writable (i : Instruction) : Set Pubkey :=
  {k | ∃ m ∈ i.metas, m.key = k ∧ m.isWritable = true}

theorem Instruction.writable_subset (i : Instruction) : i.writable ⊆ i.accounts :=
  fun _ ⟨m, hm, hk, _⟩ => ⟨m, hm, hk⟩

/-- The ledger as a table of accounts under a clock. -/
def Ledger.layout : Layout Ledger Pubkey Account ℕ where
  cell := Ledger.accts
  env := Ledger.slot
  ext := by
    rintro ⟨accts, slot⟩ ⟨accts', slot'⟩ hcell hslot
    obtain rfl : accts = accts' := funext hcell
    obtain rfl : slot = slot' := hslot
    rfl

/-! ### Reads -/

section Reads

variable {rt : Runtime} {F : Set Pubkey} {led led' : Ledger} {k : Pubkey}

theorem agree_accts (h : Ledger.layout.Agree F led led') (hk : k ∈ F) :
    led.accts k = led'.accts k := h.cell k hk

theorem agree_slot (h : Ledger.layout.Agree F led led') : led.slot = led'.slot := h.env

theorem agree_loadPool (h : Ledger.layout.Agree F led led') (hk : k ∈ F) :
    led.loadPool k = led'.loadPool k := by
  rw [Ledger.loadPool, Ledger.loadPool, agree_accts h hk]

theorem agree_loadLoan (h : Ledger.layout.Agree F led led') (hk : k ∈ F) :
    led.loadLoan k = led'.loadLoan k := by
  rw [Ledger.loadLoan, Ledger.loadLoan, agree_accts h hk]

theorem agree_loadBand (h : Ledger.layout.Agree F led led') (hk : k ∈ F) :
    led.loadBand k = led'.loadBand k := by
  rw [Ledger.loadBand, Ledger.loadBand, agree_accts h hk]

theorem agree_readTokenAmount (h : Ledger.layout.Agree F led led') (hk : k ∈ F) :
    led.readTokenAmount k = led'.readTokenAmount k := by
  rw [Ledger.readTokenAmount, Ledger.readTokenAmount, agree_accts h hk]

theorem agree_readTokenOwner (h : Ledger.layout.Agree F led led') (hk : k ∈ F) :
    led.readTokenOwner k = led'.readTokenOwner k := by
  rw [Ledger.readTokenOwner, Ledger.readTokenOwner, agree_accts h hk]

theorem agree_readMintDecimals (h : Ledger.layout.Agree F led led') (hk : k ∈ F) :
    led.readMintDecimals k = led'.readMintDecimals k := by
  rw [Ledger.readMintDecimals, Ledger.readMintDecimals, agree_accts h hk]

theorem agree_readMintSupply (h : Ledger.layout.Agree F led led') (hk : k ∈ F) :
    led.readMintSupply k = led'.readMintSupply k := by
  rw [Ledger.readMintSupply, Ledger.readMintSupply, agree_accts h hk]

theorem agree_dataIsEmpty (h : Ledger.layout.Agree F led led') (hk : k ∈ F) :
    dataIsEmpty led k = dataIsEmpty led' k := by
  rw [dataIsEmpty, dataIsEmpty, agree_accts h hk]

theorem agree_isZeroedProgramAccount (h : Ledger.layout.Agree F led led') (hk : k ∈ F) :
    isZeroedProgramAccount rt led k = isZeroedProgramAccount rt led' k := by
  rw [isZeroedProgramAccount, isZeroedProgramAccount, agree_accts h hk]

theorem agree_validateTokenProgramForMint {tokenProgram : Pubkey}
    (h : Ledger.layout.Agree F led led') (hk : k ∈ F) :
    validateTokenProgramForMint rt led tokenProgram k =
      validateTokenProgramForMint rt led' tokenProgram k := by
  rw [validateTokenProgramForMint, validateTokenProgramForMint, agree_accts h hk]

theorem agree_validateMintExtensions {tokenProgram : Pubkey}
    (h : Ledger.layout.Agree F led led') (hk : k ∈ F) :
    validateMintExtensions rt led k tokenProgram =
      validateMintExtensions rt led' k tokenProgram := by
  rw [validateMintExtensions, validateMintExtensions, agree_accts h hk]

end Reads

/-! ### Writes

Each takes two runs in lockstep one operation further. -/

/-- Two runs in lockstep from `led₀` and `led₀'` have come to `led` and `led'`. -/
abbrev InStep (F W : Set Pubkey) (led₀ led₀' led led' : Ledger) : Prop :=
  Lockstep Ledger.layout F W led₀ led₀' led led'

section Writes

variable {rt : Runtime} {F W : Set Pubkey} {led₀ led₀' led led' : Ledger} {k : Pubkey}

theorem keeps_setAccount (hk : k ∈ W) {a : Account} :
    Ledger.layout.Keeps W led (led.setAccount k a) :=
  ⟨rfl, fun _ hj => Ledger.setAccount_accts_of_ne fun h => hj (h ▸ hk)⟩

theorem InStep.setAccount (h : InStep F W led₀ led₀' led led') (hk : k ∈ W) (a : Account) :
    InStep F W led₀ led₀' (led.setAccount k a) (led'.setAccount k a) := by
  refine h.trans ⟨⟨h.agree.env, fun j hj => ?_⟩, keeps_setAccount hk, keeps_setAccount hk⟩
  by_cases hjk : j = k
  · subst hjk
    exact Ledger.setAccount_accts_self.trans Ledger.setAccount_accts_self.symm
  · exact (Ledger.setAccount_accts_of_ne hjk).trans
      ((h.agree.cell j hj).trans (Ledger.setAccount_accts_of_ne hjk).symm)

theorem InStep.setData (h : InStep F W led₀ led₀' led led') (hF : k ∈ F) (hk : k ∈ W)
    (d : AccountData) : InStep F W led₀ led₀' (led.setData k d) (led'.setData k d) := by
  rw [Ledger.setData, Ledger.setData, agree_accts h.agree hF]
  exact h.setAccount hk _

theorem paired_createPdaAccount (h : InStep F W led₀ led₀' led led') (hF : k ∈ F) (hk : k ∈ W)
    (blank : AccountData) (owner : Pubkey) :
    Paired (InStep F W led₀ led₀') (createPdaAccount led k blank owner)
      (createPdaAccount led' k blank owner) := by
  rw [createPdaAccount, createPdaAccount, agree_accts h.agree hF]
  split
  · exact .ok (h.setAccount hk _)
  · exact .error _

/-- A call into the token program, which depends on the accounts it is handed. -/
theorem paired_tokens {program : Pubkey} {call : TokenCall} (h : InStep F W led₀ led₀' led led')
    (hF : ∀ k ∈ call.keys, k ∈ F) (hW : ∀ k ∈ call.writes, k ∈ W) :
    Paired (InStep F W led₀ led₀') (rt.tokens.run program call led)
      (rt.tokens.run program call led') := by
  have hpair : Paired _ (rt.tokens.run program call led) (rt.tokens.run program call led') :=
    rt.tokens.handed fun k hk => agree_accts h.agree (hF k hk)
  generalize hx : rt.tokens.run program call led = x at hpair ⊢
  generalize hy : rt.tokens.run program call led' = y at hpair ⊢
  cases hpair with
  | error e => exact .error e
  | ok hsame =>
    have heff := rt.tokens.effect hx
    have heff' := rt.tokens.effect hy
    refine .ok (h.trans ⟨⟨?_, fun k hk => ?_⟩, ⟨heff.slot, fun k hk => ?_⟩,
      ⟨heff'.slot, fun k hk => ?_⟩⟩)
    · exact heff.slot.trans (h.agree.env.trans heff'.slot.symm)
    · by_cases hwrite : k ∈ call.writes
      · exact hsame k hwrite
      · exact (heff.accts hwrite).trans ((h.agree.cell k hk).trans (heff'.accts hwrite).symm)
    · exact heff.accts fun hwrite => hk (hW k hwrite)
    · exact heff'.accts fun hwrite => hk (hW k hwrite)

theorem paired_transferChecked {program src mint dst authority : Pubkey} {signed : Bool}
    {amount decimals : ℕ} (h : InStep F W led₀ led₀' led led') (hWF : W ⊆ F) (hsrc : src ∈ W)
    (hmint : mint ∈ F) (hdst : dst ∈ W) :
    Paired (InStep F W led₀ led₀')
      (transferChecked rt led program src mint dst authority signed amount decimals)
      (transferChecked rt led' program src mint dst authority signed amount decimals) := by
  refine paired_tokens h ?_ ?_
  · simpa [TokenCall.keys] using ⟨hWF hsrc, hmint, hWF hdst⟩
  · simpa [TokenCall.writes] using ⟨hsrc, hdst⟩

theorem paired_mintToChecked {program mint dst authority : Pubkey} {signed : Bool}
    {amount decimals : ℕ} (h : InStep F W led₀ led₀' led led') (hWF : W ⊆ F) (hmint : mint ∈ W)
    (hdst : dst ∈ W) :
    Paired (InStep F W led₀ led₀')
      (mintToChecked rt led program mint dst authority signed amount decimals)
      (mintToChecked rt led' program mint dst authority signed amount decimals) := by
  refine paired_tokens h ?_ ?_
  · simpa [TokenCall.keys] using ⟨hWF hmint, hWF hdst⟩
  · simpa [TokenCall.writes] using ⟨hmint, hdst⟩

theorem paired_burnChecked {program src mint authority : Pubkey} {signed : Bool}
    {amount decimals : ℕ} (h : InStep F W led₀ led₀' led led') (hWF : W ⊆ F) (hsrc : src ∈ W)
    (hmint : mint ∈ W) :
    Paired (InStep F W led₀ led₀')
      (burnChecked rt led program src mint authority signed amount decimals)
      (burnChecked rt led' program src mint authority signed amount decimals) := by
  refine paired_tokens h ?_ ?_
  · simpa [TokenCall.keys] using ⟨hWF hsrc, hWF hmint⟩
  · simpa [TokenCall.writes] using ⟨hsrc, hmint⟩

end Writes

/-! ### The opening of an instruction -/

/-- The footprint of the slots shared by all instructions that trade with a pool. -/
structure PoolAccounts.Within (accs : PoolAccounts) (F W : Set Pubkey) : Prop where
  subset : W ⊆ F
  pool : accs.pool ∈ W
  vault : ∀ s, accs.vault s ∈ W
  userToken : ∀ s, accs.userToken s ∈ W
  mint : ∀ s, accs.mint s ∈ F

section Opening

variable {rt : Runtime} {F W : Set Pubkey} {led₀ led₀' led led' : Ledger} {accs : PoolAccounts}
  {p : Pool} {side : Side} {amount decimals : ℕ}

theorem PoolAccounts.Within.validate (hacc : accs.Within F W)
    (h : Ledger.layout.Agree F led led') : accs.validate rt led = accs.validate rt led' := by
  unfold PoolAccounts.validate
  rw [agree_validateTokenProgramForMint (k := accs.mintA) h (hacc.mint .a),
    agree_validateTokenProgramForMint (k := accs.mintB) h (hacc.mint .b),
    agree_accts h (hacc.subset hacc.pool)]

theorem PoolAccounts.Within.loadPool (hacc : accs.Within F W)
    (h : Ledger.layout.Agree F led led') : accs.loadPool led = accs.loadPool led' := by
  unfold PoolAccounts.loadPool
  rw [agree_loadPool h (hacc.subset hacc.pool)]

theorem PoolAccounts.Within.readVaults (hacc : accs.Within F W)
    (h : Ledger.layout.Agree F led led') : accs.readVaults led = accs.readVaults led' := by
  unfold PoolAccounts.readVaults
  rw [agree_readTokenAmount (k := accs.vaultA) h (hacc.subset (hacc.vault .a)),
    agree_readTokenAmount (k := accs.vaultB) h (hacc.subset (hacc.vault .b))]

theorem PoolAccounts.Within.readDecimals (hacc : accs.Within F W)
    (h : Ledger.layout.Agree F led led') : accs.readDecimals led = accs.readDecimals led' := by
  unfold PoolAccounts.readDecimals
  rw [agree_readMintDecimals (k := accs.mintA) h (hacc.mint .a),
    agree_readMintDecimals (k := accs.mintB) h (hacc.mint .b)]

theorem PoolAccounts.Within.payIn (hacc : accs.Within F W)
    (h : InStep F W led₀ led₀' led led') :
    Paired (InStep F W led₀ led₀') (accs.payIn rt led side amount decimals)
      (accs.payIn rt led' side amount decimals) :=
  paired_transferChecked h hacc.subset (hacc.userToken side) (hacc.mint side) (hacc.vault side)

theorem PoolAccounts.Within.payOut (hacc : accs.Within F W)
    (h : InStep F W led₀ led₀' led led') :
    Paired (InStep F W led₀ led₀') (accs.payOut rt p led side amount decimals)
      (accs.payOut rt p led' side amount decimals) :=
  paired_transferChecked h hacc.subset (hacc.vault side) (hacc.mint side) (hacc.userToken side)

end Opening

/-! ### The instructions -/

/-- Two runs of an instruction end in lockstep, and log the same. -/
abbrev EndAlike (F W : Set Pubkey) (led₀ led₀' : Ledger) : Outcome → Outcome → Prop :=
  fun o o' => InStep F W led₀ led₀' o.1 o'.1 ∧ o.2 = o'.2

section Instructions

variable {rt : Runtime} {F W : Set Pubkey} {led led' : Ledger}

theorem processAddLiquidity_paired {accs : LiquidityAccounts} {maxA maxB minLp : ℕ}
    (hacc : accs.Within F W) (hlp : accs.lpMint ∈ W) (huser : accs.userLp ∈ W)
    (h : Ledger.layout.Agree F led led') :
    Paired (EndAlike F W led led') (processAddLiquidity rt accs maxA maxB minLp led)
      (processAddLiquidity rt accs maxA maxB minLp led') := by
  unfold processAddLiquidity
  rw [hacc.validate h, hacc.loadPool h, hacc.readDecimals h, hacc.readVaults h,
    agree_readMintDecimals h (hacc.subset hlp), agree_readMintSupply h (hacc.subset hlp),
    agree_slot h]
  iterate 8 refine .bind_same fun _ => ?_
  refine .bind_same ?_
  rintro ⟨realA, realB⟩
  refine .bind_same fun pool => ?_
  refine .bind_same ?_
  rintro ⟨accountedA, accountedB⟩
  refine .bind_same ?_
  rintro ⟨amountAIn, amountBIn, lpToMint⟩
  iterate 4 refine .bind_same fun _ => ?_
  refine (hacc.payIn (.refl h)).bind fun led₁ led₁' h₁ => ?_
  refine (hacc.payIn h₁).bind fun led₂ led₂' h₂ => ?_
  refine (paired_mintToChecked h₂ hacc.subset hlp huser).bind fun led₃ led₃' h₃ => ?_
  rw [agree_slot h₃.agree]
  exact .pure ⟨h₃.setData (hacc.subset hacc.pool) hacc.pool _, rfl⟩

theorem processRemoveLiquidity_paired {accs : LiquidityAccounts} {lpAmount minA minB : ℕ}
    (hacc : accs.Within F W) (hlp : accs.lpMint ∈ W) (huser : accs.userLp ∈ W)
    (h : Ledger.layout.Agree F led led') :
    Paired (EndAlike F W led led') (processRemoveLiquidity rt accs lpAmount minA minB led)
      (processRemoveLiquidity rt accs lpAmount minA minB led') := by
  unfold processRemoveLiquidity
  rw [hacc.validate h, hacc.loadPool h, hacc.readDecimals h, hacc.readVaults h,
    agree_readMintDecimals h (hacc.subset hlp), agree_readMintSupply h (hacc.subset hlp),
    agree_slot h]
  iterate 8 refine .bind_same fun _ => ?_
  refine .bind_same ?_
  rintro ⟨realA, realB⟩
  iterate 4 refine .bind_same fun _ => ?_
  refine .bind_same ?_
  rintro ⟨accountedA, accountedB⟩
  refine .bind_same ?_
  rintro ⟨swappableA, swappableB⟩
  refine .bind_same ?_
  rintro ⟨amountAOut, amountBOut⟩
  iterate 4 refine .bind_same fun _ => ?_
  refine (paired_burnChecked (.refl h) hacc.subset huser hlp).bind fun led₁ led₁' h₁ => ?_
  refine (hacc.payOut h₁).bind fun led₂ led₂' h₂ => ?_
  refine (hacc.payOut h₂).bind fun led₃ led₃' h₃ => ?_
  rw [agree_slot h₃.agree]
  exact .pure ⟨h₃.setData (hacc.subset hacc.pool) hacc.pool _, rfl⟩

theorem paired_allocateBand {led₀ led₀' : Ledger} {band pool : Pubkey} {direction bandId bump : ℕ}
    (h : InStep F W led₀ led₀' led led') (hF : band ∈ F) (hW : band ∈ W) :
    Paired (InStep F W led₀ led₀') (allocateBand rt led band pool direction bandId bump)
      (allocateBand rt led' band pool direction bandId bump) := by
  unfold allocateBand
  rw [agree_dataIsEmpty h.agree hF, agree_isZeroedProgramAccount h.agree hF]
  split
  · refine (paired_createPdaAccount h hF hW _ _).bind fun led₁ led₁' h₁ => ?_
    exact .pure (h₁.setData hF hW _)
  · split
    · exact .pure (h.setData hF hW _)
    · exact .pure h

theorem processOpenLoan_paired {accs : LoanAccounts} {sidesByte collateral debt nonce : ℕ}
    (hacc : accs.Within F W) (hloan : accs.loan ∈ W) (hband : accs.band ∈ W)
    (h : Ledger.layout.Agree F led led') :
    Paired (EndAlike F W led led') (processOpenLoan rt accs sidesByte collateral debt nonce led)
      (processOpenLoan rt accs sidesByte collateral debt nonce led') := by
  have hloanF := hacc.subset hloan
  have hbandF := hacc.subset hband
  unfold processOpenLoan
  rw [hacc.validate h, hacc.loadPool h, hacc.readVaults h, agree_dataIsEmpty h hloanF,
    agree_slot h]
  iterate 5 refine .bind_same fun _ => ?_
  refine .bind_same ?_
  rintro ⟨realA, realB⟩
  refine .bind_same fun pool => ?_
  refine .bind_same ?_
  rintro ⟨triggerPriceWad, direction⟩
  refine .bind_same ?_
  rintro ⟨accountedA, accountedB⟩
  refine .bind_same ?_
  rintro ⟨swappableA, swappableB⟩
  iterate 7 refine .bind_same fun _ => ?_
  refine (paired_createPdaAccount (.refl h) hloanF hloan _ _).bind fun led₁ led₁' h₁ => ?_
  refine (paired_allocateBand h₁ hbandF hband).bind fun led₂ led₂' h₂ => ?_
  rw [agree_loadBand h₂.agree hbandF, agree_slot h₂.agree]
  iterate 5 refine .bind_same fun _ => ?_
  refine .bind_same fun count => ?_
  have h₃ := fun d d' => (h₂.setData hloanF hloan d).setData hbandF hband d'
  dsimp only
  rw [hacc.readDecimals (h₃ _ _).agree]
  refine .bind_same fun decimals => ?_
  refine (hacc.payIn (h₃ _ _)).bind fun led₄ led₄' h₄ => ?_
  refine (hacc.payOut h₄).bind fun led₅ led₅' h₅ => ?_
  rw [agree_slot h₅.agree]
  refine .bind_same fun pool => ?_
  exact .pure ⟨h₅.setData (hacc.subset hacc.pool) hacc.pool _, rfl⟩

theorem processRepayLoan_paired {accs : LoanAccounts} (hacc : accs.Within F W)
    (hloan : accs.loan ∈ W) (hband : accs.band ∈ W) (h : Ledger.layout.Agree F led led') :
    Paired (EndAlike F W led led') (processRepayLoan rt accs led)
      (processRepayLoan rt accs led') := by
  have hloanF := hacc.subset hloan
  have hbandF := hacc.subset hband
  unfold processRepayLoan
  rw [hacc.validate h, hacc.loadPool h, hacc.readVaults h, hacc.readDecimals h,
    agree_accts h hloanF, agree_accts h hbandF, agree_loadLoan h hloanF, agree_loadBand h hbandF,
    agree_slot h]
  iterate 11 refine .bind_same fun _ => ?_
  refine .bind_same ?_
  rintro ⟨realA, realB⟩
  iterate 7 refine .bind_same fun _ => ?_
  refine (hacc.payIn (.refl h)).bind fun led₁ led₁' h₁ => ?_
  refine (hacc.payOut h₁).bind fun led₂ led₂' h₂ => ?_
  rw [agree_slot h₂.agree]
  iterate 3 refine .bind_same fun _ => ?_
  exact .pure ⟨((h₂.setData hbandF hband _).setData hloanF hloan _).setData
    (hacc.subset hacc.pool) hacc.pool _, rfl⟩

/-! #### Swaps -/

theorem agree_parseLoans {pool prev : Pubkey} {bandId directionByte : ℕ} {keys : List Pubkey}
    (h : Ledger.layout.Agree F led led') (hkeys : ∀ k ∈ keys, k ∈ F) :
    parseLoans rt led pool bandId directionByte prev keys =
      parseLoans rt led' pool bandId directionByte prev keys := by
  induction keys generalizing prev with
  | nil => rfl
  | cons key keys ih =>
    have hkey := hkeys key List.mem_cons_self
    rw [parseLoans, parseLoans, agree_accts h hkey, agree_loadLoan h hkey,
      ih fun k hk => hkeys k (List.mem_cons_of_mem _ hk)]

theorem agree_parseBand {pool key : Pubkey} {directionByte k : ℕ} {ids : List ℕ}
    (h : Ledger.layout.Agree F led led') (hkey : key ∈ F) :
    parseBand rt led pool directionByte ids key k =
      parseBand rt led' pool directionByte ids key k := by
  unfold parseBand
  rw [agree_accts h hkey, agree_loadBand h hkey]

theorem agree_parseTail {pool : Pubkey} {directionByte : ℕ} {ids ks : List ℕ}
    {tail : List Pubkey} (h : Ledger.layout.Agree F led led') (htail : ∀ k ∈ tail, k ∈ F) :
    parseTail rt led pool directionByte ids ks tail =
      parseTail rt led' pool directionByte ids ks tail := by
  induction ks generalizing ids tail with
  | nil => rw [parseTail, parseTail]
  | cons k ks ih =>
    cases tail with
    | nil => rfl
    | cons key tail =>
      have hrest := fun j hj => htail j (List.mem_cons_of_mem _ hj)
      have hloans : ∀ bandId, parseLoans rt led pool bandId directionByte defaultPubkey
          (tail.take k) = parseLoans rt led' pool bandId directionByte defaultPubkey
          (tail.take k) := fun bandId =>
        agree_parseLoans h fun j hj => hrest j (List.mem_of_mem_take hj)
      have hih : ∀ ids, parseTail rt led pool directionByte ids ks (tail.drop k) =
          parseTail rt led' pool directionByte ids ks (tail.drop k) :=
        fun ids => ih fun j hj => hrest j (List.mem_of_mem_drop hj)
      rw [parseTail, parseTail, agree_parseBand h (htail key List.mem_cons_self)]
      simp only [hloans, hih]

/-- The keys of the bands and loans of a parsed tail come from the tail. -/
theorem mem_of_parseTail {pool : Pubkey} {directionByte : ℕ} {ids ks : List ℕ}
    {tail : List Pubkey} {context : Context}
    (h : parseTail rt led pool directionByte ids ks tail = .ok context) :
    ∀ b ∈ context.bands, b.band ∈ tail ∧ ∀ k ∈ b.loans, k ∈ tail := by
  induction ks generalizing ids tail context with
  | nil =>
    simp only [parseTail, Checked.bind_eq_ok, Checked.pure_eq_ok] at h
    obtain ⟨_, -, rfl⟩ := h
    intro b hb
    cases hb
  | cons k ks ih =>
    cases tail with
    | nil => cases h
    | cons key tail =>
      simp only [parseTail, Checked.bind_eq_ok, Checked.pure_eq_ok] at h
      obtain ⟨_, -, band, -, loans, -, rest, hrest, rfl⟩ := h
      intro b hb
      rcases List.mem_cons.mp hb with rfl | hb
      · exact ⟨List.mem_cons_self, fun k hk => List.mem_cons_of_mem _ (List.mem_of_mem_take hk)⟩
      · obtain ⟨hband, hloans⟩ := ih hrest b hb
        have hsub : ∀ j ∈ tail.drop k, j ∈ key :: tail :=
          fun j hj => List.mem_cons_of_mem _ (List.mem_of_mem_drop hj)
        exact ⟨hsub _ hband, fun j hj => hsub j (hloans j hj)⟩

theorem paired_tombstoneLoans {led₀ led₀' : Ledger} {ctxs : List LoanCtx} {keys : List Pubkey}
    (hWF : W ⊆ F) (h : InStep F W led₀ led₀' led led') (hkeys : ∀ k ∈ keys, k ∈ W) :
    Paired (fun o o' => InStep F W led₀ led₀' o.1 o'.1 ∧ o.2 = o'.2)
      (tombstoneLoans ctxs keys led) (tombstoneLoans ctxs keys led') := by
  induction keys generalizing led led' with
  | nil => exact .ok ⟨h, rfl⟩
  | cons key keys ih =>
    have hkey := hkeys key List.mem_cons_self
    have ih := fun {led led'} (h : InStep F W led₀ led₀' led led') =>
      ih h fun k hk => hkeys k (List.mem_cons_of_mem _ hk)
    rw [tombstoneLoans, tombstoneLoans]
    refine .bind_same fun lc => ?_
    split
    · rw [agree_loadLoan h.agree (hWF hkey), agree_slot h.agree]
      refine .bind_same fun loan => ?_
      refine (ih (h.setData (hWF hkey) hkey _)).bind ?_
      rintro ⟨led₁, n, events⟩ ⟨led₁', n', events'⟩ ⟨h₁, heq⟩
      cases heq
      exact .pure ⟨h₁, rfl⟩
    · exact ih h

theorem paired_persistLiquidations {led₀ led₀' : Ledger} {ctxs : List LoanCtx}
    {directionByte : ℕ} {bands : List BandCtx} {p : Pool} (hWF : W ⊆ F)
    (h : InStep F W led₀ led₀' led led')
    (hbands : ∀ b ∈ bands, b.band ∈ W ∧ ∀ k ∈ b.loans, k ∈ W) :
    Paired (fun o o' => InStep F W led₀ led₀' o.1 o'.1 ∧ o.2 = o'.2)
      (persistLiquidations ctxs directionByte bands led p)
      (persistLiquidations ctxs directionByte bands led' p) := by
  induction bands generalizing led led' p with
  | nil => exact .ok ⟨h, rfl⟩
  | cons b bands ih =>
    obtain ⟨hband, hloans⟩ := hbands b List.mem_cons_self
    have ih := fun {led led' p} (h : InStep F W led₀ led₀' led led') =>
      ih (p := p) h fun b hb => hbands b (List.mem_cons_of_mem _ hb)
    rw [persistLiquidations, persistLiquidations, agree_loadBand h.agree (hWF hband)]
    refine .bind_same fun band => ?_
    refine (paired_tombstoneLoans hWF h hloans).bind ?_
    rintro ⟨led₁, n, events⟩ ⟨led₁', n', events'⟩ ⟨h₁, heq⟩
    cases heq
    dsimp only
    split
    · exact ih h₁
    · refine .bind_same fun count => ?_
      refine .bind_same fun pool => ?_
      refine (ih (h₁.setData (hWF hband) hband _)).bind ?_
      rintro ⟨led₂, pool, events₂⟩ ⟨led₂', pool', events₂'⟩ ⟨h₂, heq⟩
      cases heq
      exact .pure ⟨h₂, rfl⟩

theorem PoolAccounts.Within.swapTransfers {led₀ led₀' : Ledger} {accs : PoolAccounts} {p : Pool}
    {aToB : Bool} {amountIn amountOut : ℕ} {decimals : Side → ℕ} (hacc : accs.Within F W)
    (h : InStep F W led₀ led₀' led led') :
    Paired (InStep F W led₀ led₀') (swapTransfers rt accs p aToB amountIn amountOut decimals led)
      (swapTransfers rt accs p aToB amountIn amountOut decimals led') := by
  unfold ChiefLiquidity.swapTransfers
  split
  · exact (hacc.payIn h).bind fun led₁ led₁' h₁ => hacc.payOut h₁
  · exact (hacc.payIn h).bind fun led₁ led₁' h₁ => hacc.payOut h₁

theorem processSwap_paired {accs : SwapAccounts} {amountIn minOut bandBoundary : ℕ} {aToB : Bool}
    {counts : List ℕ} (hacc : accs.Within F W) (htail : ∀ k ∈ accs.tail, k ∈ W)
    (h : Ledger.layout.Agree F led led') :
    Paired (EndAlike F W led led')
      (processSwap rt accs amountIn minOut aToB bandBoundary counts led)
      (processSwap rt accs amountIn minOut aToB bandBoundary counts led') := by
  have hcontext : ∀ p, checkContext rt led accs.pool p aToB bandBoundary counts accs.tail =
      checkContext rt led' accs.pool p aToB bandBoundary counts accs.tail := fun p => by
    rw [checkContext, checkContext, agree_parseTail h fun k hk => hacc.subset (htail k hk)]
  unfold processSwap
  rw [hacc.validate h, hacc.loadPool h, hacc.readDecimals h, hacc.readVaults h, agree_slot h]
  iterate 4 refine .bind_same fun _ => ?_
  rw [hcontext]
  refine .bind_ok fun context hok => ?_
  have hbands : ∀ b ∈ context.bands, b.band ∈ W ∧ ∀ k ∈ b.loans, k ∈ W := by
    simp only [checkContext, Checked.bind_eq_ok, Checked.pure_eq_ok] at hok
    obtain ⟨_, hparse, _, -, rfl⟩ := hok
    intro b hb
    obtain ⟨hband, hloans⟩ := mem_of_parseTail hparse b hb
    exact ⟨htail _ hband, fun k hk => htail k (hloans k hk)⟩
  refine .bind_same fun decimals => ?_
  refine .bind_same ?_
  rintro ⟨realA, realB⟩
  refine .bind_same fun pool => ?_
  refine .bind_same ?_
  rintro ⟨accountedA, accountedB⟩
  iterate 8 refine .bind_same fun _ => ?_
  refine .bind_same ?_
  rintro ⟨swappableA, swappableB⟩
  iterate 4 refine .bind_same fun _ => ?_
  refine (paired_persistLiquidations hacc.subset (.refl h) hbands).bind ?_
  rintro ⟨led₁, pool, events⟩ ⟨led₁', pool', events'⟩ ⟨h₁, heq⟩
  cases heq
  refine (hacc.swapTransfers h₁).bind fun led₂ led₂' h₂ => ?_
  rw [agree_slot h₂.agree]
  exact .pure ⟨h₂.setData (hacc.subset hacc.pool) hacc.pool _, rfl⟩

/-! #### Claims and initialization -/

theorem PoolAccounts.Within.payFee {led₀ led₀' : Ledger} {accs : ClaimFeesAccounts} {p : Pool}
    {side : Side} {decimals : ℕ} (hacc : PoolAccounts.Within accs F W)
    (h : InStep F W led₀ led₀' led led') :
    Paired (InStep F W led₀ led₀') (payFee rt accs p led side decimals)
      (payFee rt accs p led' side decimals) := by
  unfold ChiefLiquidity.payFee
  split
  · exact hacc.payOut h
  · exact .ok h

theorem processClaimProtocolFees_paired {accs : ClaimFeesAccounts}
    (hacc : PoolAccounts.Within accs F W) (h : Ledger.layout.Agree F led led') :
    Paired (EndAlike F W led led') (processClaimProtocolFees rt accs led)
      (processClaimProtocolFees rt accs led') := by
  unfold processClaimProtocolFees
  rw [hacc.validate h, hacc.loadPool h, hacc.readDecimals h,
    agree_readTokenOwner (k := accs.userA) h (hacc.subset (hacc.userToken .a)),
    agree_readTokenOwner (k := accs.userB) h (hacc.subset (hacc.userToken .b))]
  iterate 4 refine .bind_same fun _ => ?_
  refine .bind_same fun pool => ?_
  split
  · exact .pure ⟨.refl h, rfl⟩
  · refine .bind_same fun decimals => ?_
    refine (hacc.payFee (.refl h)).bind fun led₁ led₁' h₁ => ?_
    refine (hacc.payFee h₁).bind fun led₂ led₂' h₂ => ?_
    rw [agree_slot h₂.agree]
    exact .pure ⟨h₂.setData (hacc.subset hacc.pool) hacc.pool _, rfl⟩

theorem processClaimLiquidatedRent_paired {accs : ClaimRentAccounts} (hWF : W ⊆ F)
    (hloan : accs.loan ∈ W) (h : Ledger.layout.Agree F led led') :
    Paired (EndAlike F W led led') (processClaimLiquidatedRent rt accs led)
      (processClaimLiquidatedRent rt accs led') := by
  unfold processClaimLiquidatedRent
  rw [agree_accts h (hWF hloan), agree_loadLoan h (hWF hloan)]
  iterate 6 refine .bind_same fun _ => ?_
  exact .pure ⟨InStep.setData (.refl h) (hWF hloan) hloan _, rfl⟩

theorem paired_createVault {led₀ led₀' : Ledger} {tokenProgram pool mint vault : Pubkey}
    (h : InStep F W led₀ led₀' led led') (hWF : W ⊆ F) (hmint : mint ∈ F) (hvault : vault ∈ W) :
    Paired (InStep F W led₀ led₀') (createVault rt led tokenProgram pool mint vault)
      (createVault rt led' tokenProgram pool mint vault) := by
  unfold createVault
  refine (paired_createPdaAccount h (hWF hvault) hvault _ _).bind fun led₁ led₁' h₁ => ?_
  refine paired_tokens h₁ ?_ ?_
  · simpa [TokenCall.keys] using ⟨hWF hvault, hmint⟩
  · simpa [TokenCall.writes] using hvault

theorem paired_createLpMint {led₀ led₀' : Ledger} {tokenProgram pool lpMint : Pubkey}
    (h : InStep F W led₀ led₀' led led') (hWF : W ⊆ F) (hlp : lpMint ∈ W) :
    Paired (InStep F W led₀ led₀') (createLpMint rt led tokenProgram pool lpMint)
      (createLpMint rt led' tokenProgram pool lpMint) := by
  unfold createLpMint
  refine (paired_createPdaAccount h (hWF hlp) hlp _ _).bind fun led₁ led₁' h₁ => ?_
  refine paired_tokens h₁ ?_ ?_
  · simpa [TokenCall.keys] using hWF hlp
  · simpa [TokenCall.writes] using hlp

theorem processInitializePool_paired {accs : InitializeAccounts} (hWF : W ⊆ F)
    (hpool : accs.pool ∈ W) (hmintA : accs.mintA ∈ F) (hmintB : accs.mintB ∈ F)
    (hvaultA : accs.vaultA ∈ W) (hvaultB : accs.vaultB ∈ W) (hlp : accs.lpMint ∈ W)
    (h : Ledger.layout.Agree F led led') :
    Paired (EndAlike F W led led') (processInitializePool rt accs led)
      (processInitializePool rt accs led') := by
  unfold processInitializePool
  rw [agree_validateTokenProgramForMint h hmintA, agree_validateTokenProgramForMint h hmintB,
    agree_validateMintExtensions h hmintA, agree_validateMintExtensions h hmintB,
    agree_dataIsEmpty h (hWF hpool)]
  iterate 12 refine .bind_same fun _ => ?_
  refine (paired_createPdaAccount (.refl h) (hWF hpool) hpool _ _).bind fun led₁ led₁' h₁ => ?_
  refine (paired_createVault h₁ hWF hmintA hvaultA).bind fun led₂ led₂' h₂ => ?_
  refine (paired_createVault h₂ hWF hmintB hvaultB).bind fun led₃ led₃' h₃ => ?_
  refine (paired_createLpMint h₃ hWF hlp).bind fun led₄ led₄' h₄ => ?_
  rw [agree_slot h₄.agree]
  exact .pure ⟨h₄.setData (hWF hpool) hpool _, rfl⟩

end Instructions

/-! ### Every instruction keeps to its list -/

/-- The slots the trading instructions share, wherever they stand in the list. -/
theorem Instruction.within {i : Instruction} {accs : PoolAccounts}
    (hw : ∀ k ∈ [accs.pool, accs.vaultA, accs.vaultB, accs.userA, accs.userB],
      .writable k ∈ i.metas)
    (hr : ∀ k ∈ [accs.mintA, accs.mintB], .readonly k ∈ i.metas) :
    accs.Within i.accounts i.writable := by
  simp only [List.forall_mem_cons, List.not_mem_nil, false_imp_iff, implies_true, and_true] at hw hr
  obtain ⟨hpool, hvaultA, hvaultB, huserA, huserB⟩ := hw
  refine ⟨i.writable_subset, ⟨_, hpool, rfl, rfl⟩, fun s => ?_, fun s => ?_, fun s => ?_⟩
  · cases s with
    | a => exact ⟨_, hvaultA, rfl, rfl⟩
    | b => exact ⟨_, hvaultB, rfl, rfl⟩
  · cases s with
    | a => exact ⟨_, huserA, rfl, rfl⟩
    | b => exact ⟨_, huserB, rfl, rfl⟩
  · cases s with
    | a => exact ⟨_, hr.1, rfl⟩
    | b => exact ⟨_, hr.2, rfl⟩

/-- **Every instruction keeps to its account list**: it goes the same way on ledgers that agree on
the listed accounts, and writes none that is not marked writable. -/
theorem processInstruction_local (rt : Runtime) (i : Instruction) :
    Local Ledger.layout i.accounts i.writable (processInstruction rt i) := by
  refine ⟨i.writable_subset, fun led led' h => ?_⟩
  -- The slots of a list are found by running through it.
  cases i with
  | initializePool accs =>
    refine processInitializePool_paired (Instruction.writable_subset _) ?_ ?_ ?_ ?_ ?_ ?_ h
    · exact ⟨.writable accs.pool, by simp [Instruction.metas], rfl, rfl⟩
    · exact ⟨.readonly accs.mintA, by simp [Instruction.metas], rfl⟩
    · exact ⟨.readonly accs.mintB, by simp [Instruction.metas], rfl⟩
    · exact ⟨.writable accs.vaultA, by simp [Instruction.metas], rfl, rfl⟩
    · exact ⟨.writable accs.vaultB, by simp [Instruction.metas], rfl, rfl⟩
    · exact ⟨.writable accs.lpMint, by simp [Instruction.metas], rfl, rfl⟩
  | addLiquidity accs maxA maxB minLp =>
    refine processAddLiquidity_paired (Instruction.within ?_ ?_) ?_ ?_ h
    · simp [Instruction.metas]
    · simp [Instruction.metas]
    · exact ⟨.writable accs.lpMint, by simp [Instruction.metas], rfl, rfl⟩
    · exact ⟨.writable accs.userLp, by simp [Instruction.metas], rfl, rfl⟩
  | removeLiquidity accs lp minA minB =>
    refine processRemoveLiquidity_paired (Instruction.within ?_ ?_) ?_ ?_ h
    · simp [Instruction.metas]
    · simp [Instruction.metas]
    · exact ⟨.writable accs.lpMint, by simp [Instruction.metas], rfl, rfl⟩
    · exact ⟨.writable accs.userLp, by simp [Instruction.metas], rfl, rfl⟩
  | openLoan accs sides c d nonce =>
    refine processOpenLoan_paired (Instruction.within ?_ ?_) ?_ ?_ h
    · simp [Instruction.metas]
    · simp [Instruction.metas]
    · exact ⟨.writable accs.loan, by simp [Instruction.metas], rfl, rfl⟩
    · exact ⟨.writable accs.band, by simp [Instruction.metas], rfl, rfl⟩
  | repayLoan accs =>
    refine processRepayLoan_paired (Instruction.within ?_ ?_) ?_ ?_ h
    · simp [Instruction.metas]
    · simp [Instruction.metas]
    · exact ⟨.writable accs.loan, by simp [Instruction.metas], rfl, rfl⟩
    · exact ⟨.writable accs.band, by simp [Instruction.metas], rfl, rfl⟩
  | claimProtocolFees accs =>
    refine processClaimProtocolFees_paired (Instruction.within ?_ ?_) h
    · simp [Instruction.metas]
    · simp [Instruction.metas]
  | claimLiquidatedRent accs =>
    refine processClaimLiquidatedRent_paired (Instruction.writable_subset _) ?_ h
    exact ⟨.writable accs.loan, by simp [Instruction.metas], rfl, rfl⟩
  | swap accs amountIn minOut aToB bandBoundary counts =>
    refine processSwap_paired (Instruction.within ?_ ?_) (fun k hk => ?_) h
    · simp [Instruction.metas]
    · simp [Instruction.metas]
    · exact ⟨.writable k, List.mem_append_right _ (List.mem_map_of_mem hk), rfl, rfl⟩

end ChiefLiquidity
