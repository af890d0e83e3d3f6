import ChiefLiquidity.Program
import ChiefLiquidity.Wire.Borsh

/-!
# The entrypoint

`lib.rs`: what the runtime hands to the program is a list of accounts and a byte string. The bytes
say which instruction it is and give its arguments, in Borsh; the accounts fill its slots in order.

The system program, the token programs and the rent sysvar are taken to be the real ones when their
slots are filled, as everywhere in this development.

## Three stages

The entrypoint checks that it runs under its own id, decodes the data, and fills the slots. An error
of one of these stages is not an error of the program: `EntryError` keeps them apart. Slots are
filled from the front and accounts beyond the last slot are ignored, except by a swap, whose tail is
whatever follows.

## Transactions

A transaction is what the runtime guarantees of a call: the addresses are words, and the keys that
signed are no addresses of the program. It is a structure with these two facts, so a transaction
that could not have been sent cannot be written down.

## Main definitions

* `AccountMeta` — an account handed in, with its `signer` and `writable` flags
* `LiquidityInstruction`, with `LiquidityInstruction.codec` its format
* `LiquidityInstruction.withAccounts` — fill the slots
* `processInstructionData` — the entrypoint
* `Transaction` — what the runtime calls the entrypoint with

## Main results

* `Transaction.process_eq_ok` — an accepted transaction is an accepted instruction whose addresses
  and arguments are words
* `Transaction.process_ofInstruction` — and every such instruction has a transaction
-/

namespace ChiefLiquidity

/-! ### Account lists -/

/-- An account handed to an instruction. -/
structure AccountMeta where
  key : Pubkey
  isSigner : Bool
  isWritable : Bool

namespace AccountMeta

/-- `[]`. -/
def readonly (key : Pubkey) : AccountMeta := ⟨key, false, false⟩

/-- `[writable]`. -/
def writable (key : Pubkey) : AccountMeta := ⟨key, false, true⟩

end AccountMeta

/-- The account lists of `lib.rs`, in order. The slots of the system program and of the rent sysvar
are left out, like the lamports they serve. -/
def Instruction.metas : Instruction → List AccountMeta
  | .initializePool accs =>
    [.writable accs.pool, .readonly accs.mintA, .readonly accs.mintB, .writable accs.vaultA,
      .writable accs.vaultB, .writable accs.lpMint, ⟨accs.authority, accs.authorityIsSigner, true⟩,
      .readonly accs.tokenProgramA, .readonly accs.tokenProgramB]
  | .addLiquidity accs .. | .removeLiquidity accs .. =>
    [.writable accs.pool, .writable accs.vaultA, .writable accs.vaultB, .writable accs.lpMint,
      .writable accs.userA, .writable accs.userB, .writable accs.userLp,
      ⟨accs.user, accs.userIsSigner, false⟩, .readonly accs.mintA, .readonly accs.mintB,
      .readonly accs.tokenProgramA, .readonly accs.tokenProgramB]
  | .openLoan accs .. | .repayLoan accs =>
    [.writable accs.pool, .writable accs.vaultA, .writable accs.vaultB, .writable accs.userA,
      .writable accs.userB, .readonly accs.mintA, .readonly accs.mintB,
      ⟨accs.user, accs.userIsSigner, true⟩, .writable accs.loan, .writable accs.band,
      .readonly accs.tokenProgramA, .readonly accs.tokenProgramB]
  | .claimProtocolFees accs =>
    [.writable accs.pool, .writable accs.vaultA, .writable accs.vaultB, .writable accs.userA,
      .writable accs.userB, .readonly accs.mintA, .readonly accs.mintB,
      .readonly accs.tokenProgramA, .readonly accs.tokenProgramB]
  | .claimLiquidatedRent accs =>
    [.writable accs.loan, ⟨accs.borrower, accs.borrowerIsSigner, true⟩]
  | .swap accs .. =>
    [.writable accs.pool, .writable accs.vaultA, .writable accs.vaultB, .writable accs.userA,
      .writable accs.userB, .readonly accs.mintA, .readonly accs.mintB,
      ⟨accs.user, accs.userIsSigner, false⟩, .readonly accs.tokenProgramA,
      .readonly accs.tokenProgramB] ++ accs.tail.map .writable

/-! ### Instruction data -/

/-- What the data of an instruction says: everything but the accounts. -/
inductive LiquidityInstruction where
  | initializePool
  | addLiquidity (amountAMax amountBMax minLpOut : ℕ)
  | removeLiquidity (lpAmount minAOut minBOut : ℕ)
  | openLoan (sides collateralAmount debtAmount nonce : ℕ)
  | repayLoan
  | claimProtocolFees
  | claimLiquidatedRent
  | swap (amountIn minOut : ℕ) (aToB : Bool) (bandBoundary : ℕ) (bandLoanCounts : List ℕ)
  deriving DecidableEq, Repr

namespace LiquidityInstruction

/-- The variants, in the order of the enumeration. -/
inductive Variant where
  | initializePool
  | addLiquidity
  | removeLiquidity
  | openLoan
  | repayLoan
  | claimProtocolFees
  | claimLiquidatedRent
  | swap
  deriving DecidableEq, Repr

/-- The byte Borsh writes for a variant: its position. -/
def Variant.tag : Variant → UInt8
  | .initializePool => 0
  | .addLiquidity => 1
  | .removeLiquidity => 2
  | .openLoan => 3
  | .repayLoan => 4
  | .claimProtocolFees => 5
  | .claimLiquidatedRent => 6
  | .swap => 7

/-- All variants. -/
def Variant.all : List Variant :=
  [.initializePool, .addLiquidity, .removeLiquidity, .openLoan, .repayLoan, .claimProtocolFees,
    .claimLiquidatedRent, .swap]

theorem Variant.mem_all (v : Variant) : v ∈ Variant.all := by cases v <;> simp [Variant.all]

theorem Variant.tag_injective (v w : Variant) (h : [v.tag] = [w.tag]) : v = w := by
  cases v <;> cases w <;> first | rfl | exact absurd h (by decide)

/-- The variant of an instruction. -/
def variant : LiquidityInstruction → Variant
  | .initializePool => .initializePool
  | .addLiquidity .. => .addLiquidity
  | .removeLiquidity .. => .removeLiquidity
  | .openLoan .. => .openLoan
  | .repayLoan => .repayLoan
  | .claimProtocolFees => .claimProtocolFees
  | .claimLiquidatedRent => .claimLiquidatedRent
  | .swap .. => .swap

end LiquidityInstruction

/-! ### The format -/

namespace LiquidityInstruction

open Borsh

/-- The arguments are words of their types, and the vector is no longer than Borsh can say. -/
def Fits : LiquidityInstruction → Prop
  | .addLiquidity a b m => a < 2 ^ 64 ∧ b < 2 ^ 64 ∧ m < 2 ^ 64
  | .removeLiquidity l a b => l < 2 ^ 64 ∧ a < 2 ^ 64 ∧ b < 2 ^ 64
  | .openLoan s c d n => s < 2 ^ 8 ∧ c < 2 ^ 64 ∧ d < 2 ^ 64 ∧ n < 2 ^ 64
  | .swap i m _ b c =>
    i < 2 ^ 64 ∧ m < 2 ^ 64 ∧ b < 2 ^ 32 ∧ c.length < 2 ^ 32 ∧ ∀ k ∈ c, k < 2 ^ 8
  | _ => True

instance (ix : LiquidityInstruction) : Decidable ix.Fits :=
  match ix with
  | .addLiquidity a b m => inferInstanceAs (Decidable (a < 2 ^ 64 ∧ b < 2 ^ 64 ∧ m < 2 ^ 64))
  | .removeLiquidity l a b => inferInstanceAs (Decidable (l < 2 ^ 64 ∧ a < 2 ^ 64 ∧ b < 2 ^ 64))
  | .openLoan s c d n =>
    inferInstanceAs (Decidable (s < 2 ^ 8 ∧ c < 2 ^ 64 ∧ d < 2 ^ 64 ∧ n < 2 ^ 64))
  | .swap i m _ b c =>
    inferInstanceAs (Decidable
      (i < 2 ^ 64 ∧ m < 2 ^ 64 ∧ b < 2 ^ 32 ∧ c.length < 2 ^ 32 ∧ ∀ k ∈ c, k < 2 ^ 8))
  | .initializePool | .repayLoan | .claimProtocolFees | .claimLiquidatedRent =>
    inferInstanceAs (Decidable True)

variable [Borsh]

/-- The arguments of each variant. -/
def argsCodec : Variant → Codec LiquidityInstruction
  | .initializePool => Codec.unit.map (fun _ => .initializePool) (fun _ => ()) fun _ _ => rfl
  | .addLiquidity =>
    (u64.seq (u64.seq u64)).map (fun (a, b, m) => .addLiquidity a b m)
      (fun | .addLiquidity a b m => (a, b, m) | _ => default) fun _ _ => rfl
  | .removeLiquidity =>
    (u64.seq (u64.seq u64)).map (fun (l, a, b) => .removeLiquidity l a b)
      (fun | .removeLiquidity l a b => (l, a, b) | _ => default) fun _ _ => rfl
  | .openLoan =>
    (u8.seq (u64.seq (u64.seq u64))).map (fun (s, c, d, n) => .openLoan s c d n)
      (fun | .openLoan s c d n => (s, c, d, n) | _ => default) fun _ _ => rfl
  | .repayLoan => Codec.unit.map (fun _ => .repayLoan) (fun _ => ()) fun _ _ => rfl
  | .claimProtocolFees =>
    Codec.unit.map (fun _ => .claimProtocolFees) (fun _ => ()) fun _ _ => rfl
  | .claimLiquidatedRent =>
    Codec.unit.map (fun _ => .claimLiquidatedRent) (fun _ => ()) fun _ _ => rfl
  | .swap =>
    (u64.seq (u64.seq (bool.seq (u32.seq vecU8)))).map
      (fun (i, m, d, b, c) => .swap i m d b c)
      (fun | .swap i m d b c => (i, m, d, b, c) | _ => default) fun _ _ => rfl

theorem variant_of_argsCodec (v : Variant) (ix : LiquidityInstruction)
    (h : (argsCodec v).Valid ix) : ix.variant = v := by
  cases v <;> exact (congrArg variant h.2.symm).trans rfl

/-- The format of the instruction data: the position of the variant, and its arguments. -/
def codec : Codec LiquidityInstruction :=
  (Codec.symbol Variant.all (fun v => [v.tag]) 1 (fun _ => rfl) Variant.tag_injective).choose
    variant argsCodec variant_of_argsCodec

/-- The bytes of an instruction. -/
def data (ix : LiquidityInstruction) : List UInt8 := codec.enc ix

theorem argsCodec_canonical (v : Variant) : (argsCodec v).Canonical := by
  cases v <;> rw [argsCodec]
  case addLiquidity => exact (int_canonical.seq (int_canonical.seq int_canonical)).map
  case removeLiquidity => exact (int_canonical.seq (int_canonical.seq int_canonical)).map
  case openLoan =>
    exact (int_canonical.seq (int_canonical.seq (int_canonical.seq int_canonical))).map
  case swap =>
    exact (int_canonical.seq (int_canonical.seq (bool_canonical.seq
      (int_canonical.seq vecU8_canonical)))).map
  all_goals exact Codec.unit_canonical.map

theorem codec_canonical : codec.Canonical := Codec.symbol_canonical.choose argsCodec_canonical

/-- The values the format carries are those that fit. -/
theorem codec_valid {ix : LiquidityInstruction} : codec.Valid ix ↔ ix.Fits := by
  have hvalid : codec.Valid ix ↔
      ix.variant ∈ Variant.all ∧ (argsCodec ix.variant).Valid ix := Iff.rfl
  rw [hvalid, and_iff_right (Variant.mem_all _)]
  cases ix <;> simp [variant, argsCodec, Fits, Codec.map, Codec.seq, Codec.unit]

end LiquidityInstruction

/-- What the data of an instruction says. -/
def Instruction.args : Instruction → LiquidityInstruction
  | .initializePool _ => .initializePool
  | .addLiquidity _ amountAMax amountBMax minLpOut => .addLiquidity amountAMax amountBMax minLpOut
  | .removeLiquidity _ lpAmount minAOut minBOut => .removeLiquidity lpAmount minAOut minBOut
  | .openLoan _ sides collateralAmount debtAmount nonce =>
    .openLoan sides collateralAmount debtAmount nonce
  | .repayLoan _ => .repayLoan
  | .claimProtocolFees _ => .claimProtocolFees
  | .claimLiquidatedRent _ => .claimLiquidatedRent
  | .swap _ amountIn minOut aToB bandBoundary bandLoanCounts =>
    .swap amountIn minOut aToB bandBoundary bandLoanCounts

/-! ### The entrypoint -/

/-- What the entrypoint fails with: before an instruction has its slots, or in the instruction. -/
inductive EntryError where
  | incorrectProgramId
  | invalidInstructionData
  | notEnoughAccountKeys
  | program (e : ProgramError)
  deriving DecidableEq, Repr

/-- Fill the slots of an instruction, in order. Accounts beyond the last slot are ignored, except by
`Swap`, whose tail they are. -/
def LiquidityInstruction.withAccounts :
    LiquidityInstruction → List AccountMeta → Except EntryError Instruction
  | .initializePool, accounts =>
    match accounts with
    | pool :: mintA :: mintB :: vaultA :: vaultB :: lpMint :: authority :: _systemProgram ::
        tokenProgramA :: tokenProgramB :: _rentSysvar :: _ =>
      .ok (.initializePool
        { pool := pool.key, mintA := mintA.key, mintB := mintB.key, vaultA := vaultA.key
          vaultB := vaultB.key, lpMint := lpMint.key, authority := authority.key
          authorityIsSigner := authority.isSigner, tokenProgramA := tokenProgramA.key
          tokenProgramB := tokenProgramB.key })
    | _ => .error .notEnoughAccountKeys
  | .addLiquidity amountAMax amountBMax minLpOut, accounts =>
    match accounts with
    | pool :: vaultA :: vaultB :: lpMint :: userA :: userB :: userLp :: user :: mintA :: mintB ::
        tokenProgramA :: tokenProgramB :: _ =>
      .ok (.addLiquidity
        { pool := pool.key, vaultA := vaultA.key, vaultB := vaultB.key, lpMint := lpMint.key
          userA := userA.key, userB := userB.key, userLp := userLp.key, user := user.key
          userIsSigner := user.isSigner, mintA := mintA.key, mintB := mintB.key
          tokenProgramA := tokenProgramA.key, tokenProgramB := tokenProgramB.key }
        amountAMax amountBMax minLpOut)
    | _ => .error .notEnoughAccountKeys
  | .removeLiquidity lpAmount minAOut minBOut, accounts =>
    match accounts with
    | pool :: vaultA :: vaultB :: lpMint :: userA :: userB :: userLp :: user :: mintA :: mintB ::
        tokenProgramA :: tokenProgramB :: _ =>
      .ok (.removeLiquidity
        { pool := pool.key, vaultA := vaultA.key, vaultB := vaultB.key, lpMint := lpMint.key
          userA := userA.key, userB := userB.key, userLp := userLp.key, user := user.key
          userIsSigner := user.isSigner, mintA := mintA.key, mintB := mintB.key
          tokenProgramA := tokenProgramA.key, tokenProgramB := tokenProgramB.key }
        lpAmount minAOut minBOut)
    | _ => .error .notEnoughAccountKeys
  | .openLoan sides collateralAmount debtAmount nonce, accounts =>
    match accounts with
    | pool :: vaultA :: vaultB :: userA :: userB :: mintA :: mintB :: borrower :: loan :: band ::
        _systemProgram :: tokenProgramA :: tokenProgramB :: _ =>
      .ok (.openLoan
        { pool := pool.key, vaultA := vaultA.key, vaultB := vaultB.key, userA := userA.key
          userB := userB.key, mintA := mintA.key, mintB := mintB.key, user := borrower.key
          userIsSigner := borrower.isSigner, loan := loan.key, band := band.key
          tokenProgramA := tokenProgramA.key, tokenProgramB := tokenProgramB.key }
        sides collateralAmount debtAmount nonce)
    | _ => .error .notEnoughAccountKeys
  | .repayLoan, accounts =>
    match accounts with
    | pool :: vaultA :: vaultB :: userA :: userB :: mintA :: mintB :: borrower :: loan :: band ::
        tokenProgramA :: tokenProgramB :: _ =>
      .ok (.repayLoan
        { pool := pool.key, vaultA := vaultA.key, vaultB := vaultB.key, userA := userA.key
          userB := userB.key, mintA := mintA.key, mintB := mintB.key, user := borrower.key
          userIsSigner := borrower.isSigner, loan := loan.key, band := band.key
          tokenProgramA := tokenProgramA.key, tokenProgramB := tokenProgramB.key })
    | _ => .error .notEnoughAccountKeys
  | .claimProtocolFees, accounts =>
    match accounts with
    | pool :: vaultA :: vaultB :: destA :: destB :: mintA :: mintB :: tokenProgramA ::
        tokenProgramB :: _ =>
      -- Nobody signs, and the user slots hold the destinations.
      .ok (.claimProtocolFees
        { pool := pool.key, vaultA := vaultA.key, vaultB := vaultB.key, userA := destA.key
          userB := destB.key, mintA := mintA.key, mintB := mintB.key, user := defaultPubkey
          userIsSigner := false, tokenProgramA := tokenProgramA.key
          tokenProgramB := tokenProgramB.key })
    | _ => .error .notEnoughAccountKeys
  | .claimLiquidatedRent, accounts =>
    match accounts with
    | loan :: borrower :: _ =>
      .ok (.claimLiquidatedRent
        { loan := loan.key, borrower := borrower.key, borrowerIsSigner := borrower.isSigner })
    | _ => .error .notEnoughAccountKeys
  | .swap amountIn minOut aToB bandBoundary bandLoanCounts, accounts =>
    match accounts with
    | pool :: vaultA :: vaultB :: userA :: userB :: mintA :: mintB :: user :: tokenProgramA ::
        tokenProgramB :: tail =>
      .ok (.swap
        { pool := pool.key, vaultA := vaultA.key, vaultB := vaultB.key, userA := userA.key
          userB := userB.key, mintA := mintA.key, mintB := mintB.key, user := user.key
          userIsSigner := user.isSigner, tokenProgramA := tokenProgramA.key
          tokenProgramB := tokenProgramB.key, tail := tail.map AccountMeta.key }
        amountIn minOut aToB bandBoundary bandLoanCounts)
    -- `FIXED_PREFIX_LEN`: `Swap` indexes its accounts and has an error of its own.
    | _ => .error (.program (.custom .invalidLiquidationContext))

/-- `process_instruction`. -/
def processInstructionData [Borsh] (rt : Runtime) (programId : Pubkey) (accounts : List AccountMeta)
    (data : List UInt8) (led : Ledger) : Except EntryError Outcome := do
  Checked.ensure (programId = rt.programId) .incorrectProgramId
  let ix ← Checked.ofOption .invalidInstructionData (LiquidityInstruction.codec.tryFromSlice data)
  let i ← ix.withAccounts accounts
  (processInstruction rt i led).mapError .program

/-- The slots of an instruction, those of the system program and the rent sysvar among them. -/
def Instruction.slots (systemProgram rentSysvar : AccountMeta) (i : Instruction) :
    List AccountMeta :=
  match i with
  | .initializePool _ => i.metas.insertIdx 7 systemProgram ++ [rentSysvar]
  | .openLoan .. => i.metas.insertIdx 10 systemProgram
  | _ => i.metas

/-- The addresses of an instruction and its arguments are words. -/
structure Instruction.Fits (i : Instruction) : Prop where
  keys : ∀ m ∈ i.metas, m.key < 2 ^ 256
  args : i.args.Fits

instance (i : Instruction) : Decidable i.Fits :=
  decidable_of_iff ((∀ m ∈ i.metas, m.key < 2 ^ 256) ∧ i.args.Fits)
    ⟨fun h => ⟨h.1, h.2⟩, fun h => ⟨h.keys, h.args⟩⟩

section Slots

variable {rt : Runtime} {i : Instruction} {ix : LiquidityInstruction} {accounts : List AccountMeta}
  {led led' : Ledger} {events : List Event}

/-- An instruction that has its slots filled says what its data says, and names only accounts that
were handed in, with no more signatures than they had. -/
theorem LiquidityInstruction.withAccounts_eq_ok (h : ix.withAccounts accounts = .ok i) :
    i.args = ix ∧ ∀ m ∈ i.metas, ∃ a ∈ accounts, a.key = m.key ∧
      (m.isSigner = true → a.isSigner = true) := by
  revert h
  fun_cases withAccounts ix accounts <;> intro h <;> cases h <;>
    simp [Instruction.metas, Instruction.args, AccountMeta.readonly, AccountMeta.writable]
  -- What is left is the tail of a swap.
  intro m hm
  repeat right
  exact ⟨m, hm, rfl⟩

/-- The slots of an instruction are understood as that instruction. -/
theorem Instruction.withAccounts_slots (i : Instruction) (systemProgram rentSysvar : AccountMeta) :
    ∃ j, i.args.withAccounts (i.slots systemProgram rentSysvar) = .ok j ∧
      processInstruction rt j = processInstruction rt i := by
  cases i with
  | swap accs amountIn minOut aToB bandBoundary counts =>
    refine ⟨.swap accs amountIn minOut aToB bandBoundary counts, ?_, rfl⟩
    have htail : (accs.tail.map AccountMeta.writable).map AccountMeta.key = accs.tail := by
      rw [List.map_map]
      exact List.map_id _
    show Except.ok (Instruction.swap { accs with
      tail := (accs.tail.map AccountMeta.writable).map AccountMeta.key } ..) = _
    rw [htail]
  | _ => exact ⟨_, rfl, rfl⟩

/-- Whoever fills the slots, the accounts are those of the instruction. -/
theorem Instruction.mem_slots {systemProgram rentSysvar m : AccountMeta}
    (h : m ∈ i.slots systemProgram rentSysvar) :
    m ∈ i.metas ∨ m = systemProgram ∨ m = rentSysvar := by
  have hinsert : ∀ {l : List AccountMeta} {n}, m ∈ l.insertIdx n systemProgram →
      m ∈ l ∨ m = systemProgram := by
    intro l n hm
    rcases List.eq_or_mem_of_mem_insertIdx hm with heq | hmem
    · exact .inr heq
    · exact .inl hmem
  cases i with
  | initializePool accs =>
    rcases List.mem_append.mp h with hm | hm
    · rcases hinsert hm with hm | hm
      · exact .inl hm
      · exact .inr (.inl hm)
    · exact .inr (.inr (List.mem_singleton.mp hm))
  | openLoan accs sides c d nonce =>
    rcases hinsert h with hm | hm
    · exact .inl hm
    · exact .inr (.inl hm)
  | _ => exact .inl h

/-- **The user signs** every accepted instruction that has one. -/
theorem processInstruction_signed {k : Pubkey}
    (h : processInstruction rt i led = .ok (led', events)) (hk : k ∈ i.user) :
    ∃ m ∈ i.metas, m.key = k ∧ m.isSigner = true := by
  cases i with
  | claimProtocolFees accs => cases hk
  | initializePool accs =>
    cases hk
    obtain ⟨_, hsig, -⟩ := Checked.bind_eq_ok.mp h
    exact ⟨⟨accs.authority, _, true⟩, by simp [Instruction.metas], rfl, require_eq_ok.mp hsig⟩
  | addLiquidity accs =>
    cases hk
    obtain ⟨_, hsig, -⟩ := Checked.bind_eq_ok.mp h
    exact ⟨⟨accs.user, _, false⟩, by simp [Instruction.metas], rfl, require_eq_ok.mp hsig⟩
  | removeLiquidity accs =>
    cases hk
    obtain ⟨_, hsig, -⟩ := Checked.bind_eq_ok.mp h
    exact ⟨⟨accs.user, _, false⟩, by simp [Instruction.metas], rfl, require_eq_ok.mp hsig⟩
  | openLoan accs =>
    cases hk
    obtain ⟨_, hsig, -⟩ := Checked.bind_eq_ok.mp h
    exact ⟨⟨accs.user, _, true⟩, by simp [Instruction.metas], rfl, require_eq_ok.mp hsig⟩
  | repayLoan accs =>
    cases hk
    obtain ⟨_, hsig, -⟩ := Checked.bind_eq_ok.mp h
    exact ⟨⟨accs.user, _, true⟩, by simp [Instruction.metas], rfl, require_eq_ok.mp hsig⟩
  | claimLiquidatedRent accs =>
    cases hk
    obtain ⟨_, hsig, -⟩ := Checked.bind_eq_ok.mp h
    exact ⟨⟨accs.borrower, _, true⟩, by simp [Instruction.metas], rfl, require_eq_ok.mp hsig⟩
  | swap accs =>
    cases hk
    obtain ⟨_, hsig, -⟩ := Checked.bind_eq_ok.mp h
    exact ⟨⟨accs.user, _, false⟩, by simp [Instruction.metas], rfl, require_eq_ok.mp hsig⟩

end Slots

/-! ### Transactions -/

/-- What the runtime calls the entrypoint with: addresses are words, and nobody signs for an address
of the program. -/
structure Transaction (rt : Runtime) where
  accounts : List AccountMeta
  data : List UInt8
  keys : ∀ m ∈ accounts, m.key < 2 ^ 256
  signers : ∀ m ∈ accounts, m.isSigner = true → ¬ rt.IsPda m.key

namespace Transaction

variable [Borsh] {rt : Runtime} {led led' : Ledger} {events : List Event}

/-- What the entry point makes of a transaction. -/
def process (t : Transaction rt) (led : Ledger) : Except EntryError Outcome :=
  processInstructionData rt rt.programId t.accounts t.data led

theorem process_eq_ok {t : Transaction rt} (h : t.process led = .ok (led', events)) :
    ∃ i : Instruction, i.Fits ∧ (∀ k ∈ i.user, ¬ rt.IsPda k) ∧
      processInstruction rt i led = .ok (led', events) := by
  rw [process, processInstructionData] at h
  simp only [Checked.bind_eq_ok] at h
  obtain ⟨_, -, ix, hix, i, hi, hrun⟩ := h
  have hrun' : processInstruction rt i led = .ok (led', events) := by
    generalize processInstruction rt i led = r at hrun
    cases r with
    | ok o => exact congrArg Except.ok (Except.ok.inj hrun)
    | error e => cases hrun
  obtain ⟨hargs, hslots⟩ := LiquidityInstruction.withAccounts_eq_ok hi
  have hfits := (Codec.tryFromSlice_eq_some LiquidityInstruction.codec_canonical).mp
    (Checked.ofOption_eq_ok.mp hix)
  refine ⟨i, ⟨fun m hm => ?_, ?_⟩, fun k hk => ?_, hrun'⟩
  · obtain ⟨a, ha, hkey, -⟩ := hslots m hm
    exact hkey ▸ t.keys a ha
  · rw [hargs]
    exact LiquidityInstruction.codec_valid.mp hfits.1
  · obtain ⟨m, hm, rfl, hsigner⟩ := processInstruction_signed hrun' hk
    obtain ⟨a, ha, hkey, hsig⟩ := hslots m hm
    exact hkey ▸ t.signers a ha (hsig hsigner)

/-- The transaction of an instruction. -/
def ofInstruction (i : Instruction) (hfits : i.Fits)
    (hsig : ∀ m ∈ i.metas, m.isSigner = true → ¬ rt.IsPda m.key) : Transaction rt where
  accounts := i.slots (.readonly 0) (.readonly 0)
  data := i.args.data
  keys m hm := by
    rcases i.mem_slots hm with hm | rfl | rfl
    · exact hfits.keys m hm
    · exact Nat.two_pow_pos _
    · exact Nat.two_pow_pos _
  signers m hm hsigner := by
    rcases i.mem_slots hm with hm | rfl | rfl
    · exact hsig m hm hsigner
    · cases hsigner
    · cases hsigner

theorem process_ofInstruction {i : Instruction} {hfits : i.Fits}
    {hsig : ∀ m ∈ i.metas, m.isSigner = true → ¬ rt.IsPda m.key} :
    (ofInstruction i hfits hsig).process led =
      (processInstruction rt i led).mapError .program := by
  obtain ⟨j, hj, hsame⟩ := i.withAccounts_slots (.readonly 0) (.readonly 0)
  have hread : LiquidityInstruction.codec.tryFromSlice i.args.data = some i.args :=
    Codec.tryFromSlice_enc (LiquidityInstruction.codec_valid.mpr hfits.args)
  show processInstructionData rt rt.programId (i.slots _ _) i.args.data led = _
  rw [processInstructionData, Checked.ensure_of rfl, Checked.ok_bind, hread]
  show (do
    let i ← i.args.withAccounts (i.slots (.readonly 0) (.readonly 0))
    (processInstruction rt i led).mapError EntryError.program) = _
  rw [hj, Checked.ok_bind, hsame]

end Transaction

end ChiefLiquidity
