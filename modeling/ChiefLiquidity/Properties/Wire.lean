import ChiefLiquidity.Properties.Books
import ChiefLiquidity.Wire.Router

/-!
# What travels as bytes

The program reads instructions and accounts from bytes, and writes accounts and log lines to bytes.
That nothing is lost or confused on the way is what connects the runs of this development, in which
instructions, records and events are values, to those of the chain.

## What is modelled of Borsh

Borsh is a parameter, by its laws. What is proved here is about the layouts that this program makes
out of its primitives: which fields in which order, which padding, which tag for which variant. Two
layouts that disagree would show in `records_read_back`, where the reader of one type is applied to
the bytes of another.

## Three readers

The bytes of an account are read by the program itself, the lines of the log by whoever listens, and
the instruction data by the entrypoint. Records are bound by their length, lines by their
discriminator, and instruction data by its tag. A consumer of the log is a third program in all
this, and the last two results say what it can know without reading an account.

## Main results

* `instruction_data_unique` — an instruction has one encoding, and nothing else is accepted for it
* `transactions_are_instructions` — transactions can do what instructions can, and no more
* `records_read_back` — the bytes of an account are read as the record that was written
* `log_reads_back` — and so are the lines of the log
* `books_from_log` — from which the pools and the open loans can be told
* `contexts_from_log` — and what a swap has to be called with
-/

namespace ChiefLiquidity

open Codec Borsh

variable {rt : Runtime} {led₀ led led' : Ledger} {lines : List (List UInt8)} {k P : Pubkey}

/-! ### Transactions -/

/-- **One encoding.** A byte string is accepted as instruction data exactly when it is the encoding
of an instruction whose arguments are words of their types: no argument can be written in two ways,
and no byte may follow the last one. -/
theorem instruction_data_unique [Borsh] {bs : List UInt8} {ix : LiquidityInstruction} :
    LiquidityInstruction.codec.tryFromSlice bs = some ix ↔ ix.Fits ∧ bs = ix.data := by
  rw [tryFromSlice_eq_some LiquidityInstruction.codec_canonical, LiquidityInstruction.codec_valid]
  exact Iff.rfl

/-- The sandbox with addresses of 32 bytes. -/
def wordSandbox : Runtime where
  programId := sandbox.programId
  token2022Id := sandbox.token2022Id
  tokens := sandbox.tokens
  findProgramAddress s := (2 * (s.code % 2 ^ 255) + 1, 255)
  createProgramAddress s bump :=
    if bump = 255 then some (2 * (s.code % 2 ^ 255) + 1) else none
  create_find s := by simp
  find_ne_default s := by simp [defaultPubkey]
  find_ne_recipient s h := by
    generalize s.code % 2 ^ 255 = n at h
    have hodd : (2 * n + 1) % 2 = protocolFeeRecipient % 2 := congrArg (· % 2) h
    rw [show protocolFeeRecipient % 2 = 0 by decide] at hodd
    omega
  programId_ne_system := sandbox.programId_ne_system
  programId_ne_token := sandbox.programId_ne_token

theorem wordSandbox_words : wordSandbox.Words where
  key s := by
    show 2 * (s.code % 2 ^ 255) + 1 < 2 ^ 256
    have hlt : s.code % 2 ^ 255 < 2 ^ 255 := Nat.mod_lt _ (Nat.two_pow_pos 255)
    calc 2 * (s.code % 2 ^ 255) + 1 < 2 * (s.code % 2 ^ 255 + 1) := by
          rw [Nat.mul_succ]
          exact Nat.lt_succ_self _
      _ ≤ 2 * 2 ^ 255 := Nat.mul_le_mul_left 2 hlt
      _ = 2 ^ 256 := (pow_succ' 2 255).symm
  bump _ := by
    show 255 < 2 ^ 8
    decide

namespace Sandbox

/-- What is sent and logged in the sandbox. -/
instance : Borsh := littleEndian

theorem not_isPda_word {k : Pubkey} (h : isUser k = true) : ¬ wordSandbox.IsPda k := by
  rintro ⟨s, rfl⟩
  have heven : (2 * (s.code % 2 ^ 255) + 1) % 2 = 0 := of_decide_eq_true h
  generalize s.code % 2 ^ 255 = n at heven
  omega

/-- The chain before the program is used, where the user has an account for LP tokens already. -/
def wordGenesis : Ledger :=
  genesis.setAccount userLp (tokens lpMint 0 zero_lt_word)

theorem wordGenesis_genesis : Genesis wordSandbox wordGenesis where
  pda k hk := by
    have hne : ∀ n, isUser n = true → k ≠ n := by
      rintro _ hn rfl
      exact not_isPda_word hn hk
    rw [wordGenesis, Ledger.setAccount_accts_of_ne (hne userLp rfl)]
    simp only [genesis]
    split
    · exact absurd rfl (hne _ rfl)
    · exact absurd rfl (hne _ rfl)
    · exact absurd rfl (hne _ rfl)
    · exact absurd rfl (hne _ rfl)
    · rfl
  fresh k := by
    intro howner
    by_cases hk : k = userLp
    · rw [hk, wordGenesis, Ledger.setAccount_accts_self]
      trivial
    · rw [wordGenesis, Ledger.setAccount_accts_of_ne hk] at howner ⊢
      exact genesis_genesis.fresh k howner

/-- The instructions of a script, one after the other, and all that they log. -/
def runCalls : List Act → Ledger → Result (Ledger × List (List UInt8))
  | [], led => .ok (led, [])
  | .call i :: acts, led => do
    let (led, events) ← processInstruction wordSandbox i led
    let (led, lines) ← runCalls acts led
    return (led, events.map Event.line ++ lines)
  | _ :: acts, led => runCalls acts led

/-- Whether the instructions of a script can be sent. -/
def sendable (acts : List Act) : Bool :=
  acts.all fun
    | .call i => i.Fits ∧ ∀ m ∈ i.metas, m.isSigner = true → isUser m.key = true
    | _ => true

theorem journal_of_runCalls {acts : List Act} {more : List (List UInt8)}
    (hsend : sendable acts = true) (hpast : Journal wordSandbox wordGenesis lines led)
    (h : runCalls acts led = .ok (led', more)) :
    Journal wordSandbox wordGenesis (lines ++ more) led' := by
  induction acts generalizing led lines more with
  | nil =>
    cases h
    rwa [List.append_nil]
  | cons act acts ih =>
    obtain ⟨hact, hacts⟩ := Bool.and_eq_true_iff.mp hsend
    cases act with
    | call i =>
      obtain ⟨hfits, hsig⟩ := of_decide_eq_true hact
      simp only [runCalls, Checked.bind_eq_ok, Prod.exists, Checked.pure_eq_ok,
        Prod.mk.injEq] at h
      obtain ⟨led₁, events, hi, led₂, rest, hrest, rfl, rfl⟩ := h
      have hsent : (Transaction.ofInstruction i hfits fun m hm hsigner =>
          not_isPda_word (hsig m hm hsigner)).process led = .ok (led₁, events) := by
        rw [Transaction.process_ofInstruction, hi]
        rfl
      rw [← List.append_assoc]
      exact ih hacts (hpast.transaction _ hsent) hrest
    | wait => exact ih hacts hpast h
    | openToken => exact ih hacts hpast h

/-- The busy pool, and what has been logged of it. -/
def logged : Ledger × List (List UInt8) :=
  match runCalls busy wordGenesis with
  | .ok result => result
  | .error _ => (wordGenesis, [])

theorem logged_journal : Journal wordSandbox wordGenesis logged.2 logged.1 := by
  rw [logged]
  split
  · rename_i hrun
    exact journal_of_runCalls (by decide +kernel) .nil hrun
  · exact .nil

end Sandbox

/-! ### Accounts -/

/-- What the program finds in the account at `k` is what it reads from these bytes: as a pool, as a
loan, as a band, or as an account that has been zeroed. -/
structure ReadsAs [Borsh] (rt : Runtime) (led : Ledger) (k : Pubkey) (bs : List UInt8) : Prop where
  pool : led.loadPool k = okOr (Pool.codec.tryFromSlice bs) .accountDataTooSmall
  loan : led.loadLoan k = okOr (Loan.codec.tryFromSlice bs) .accountDataTooSmall
  band : led.loadBand k = okOr (LoanIndexBand.codec.tryFromSlice bs) .accountDataTooSmall
  zeroed : isZeroedProgramAccount rt led k = true ↔
    (led.accts k).owner = rt.programId ∧ bs.length = LoanIndexBand.len ∧ ∀ b ∈ bs, b = 0

theorem Pool.len_ne : Pool.len ≠ Loan.len ∧ Pool.len ≠ LoanIndexBand.len := by decide

theorem Loan.len_ne : Loan.len ≠ Pool.len ∧ Loan.len ≠ LoanIndexBand.len := by decide

theorem LoanIndexBand.len_ne : LoanIndexBand.len ≠ Pool.len ∧ LoanIndexBand.len ≠ Loan.len := by
  decide

theorem LoanIndexBand.enc_zeroed [Borsh] :
    LoanIndexBand.codec.enc LoanIndexBand.zeroed = List.replicate LoanIndexBand.len 0 := by
  show u64BE.enc 0 ++ (pubkey.enc 0 ++ (u32.enc 0 ++ (u8.enc 0 ++ (u8.enc 0 ++ ((pad 2).enc () ++
    (u32.enc 0 ++ ((pad 4).enc () ++ (pad 32).enc ()))))))) = _
  simp only [u64BE_enc_zero, pubkey_enc_zero, int_zero, pad_enc, List.replicate_append_replicate]
  rfl

/-- Among the bands that fit, only the blank one is written as zeros. -/
theorem LoanIndexBand.enc_eq_zero_iff [Borsh] {b : LoanIndexBand} (h : b.Fits) :
    (∀ x ∈ LoanIndexBand.codec.enc b, x = 0) ↔ b = LoanIndexBand.zeroed := by
  constructor
  · intro hzero
    refine enc_inj (codec_valid.mpr h) (codec_valid.mpr fits_zeroed) ?_
    rw [enc_zeroed, ← codec_fixed.length b (codec_valid.mpr h)]
    exact List.eq_replicate_of_mem hzero
  · rintro rfl x hx
    rw [enc_zeroed] at hx
    exact List.eq_of_mem_replicate hx

/-- A record that fits is read as what it is, and as nothing else. -/
theorem Ledger.readsAs [Borsh] {bs : List UInt8} (hfits : (led.accts k).data.Fits)
    (hbs : (led.accts k).data.record = some bs) : ReadsAs rt led k bs := by
  have hzeroed : isZeroedProgramAccount rt led k = true ↔
      led.accts k = ⟨rt.programId, .band LoanIndexBand.zeroed⟩ := isZeroedProgramAccount_iff
  rcases hk : led.accts k with ⟨o, d⟩
  simp only [hk] at hfits hbs hzeroed
  cases d with
  | pool p =>
    obtain rfl := Option.some.inj hbs
    have hvalid := Pool.codec_valid.mpr hfits
    have hlen := Pool.codec_fixed.length p hvalid
    refine ⟨?_, ?_, ?_, ?_⟩
    · rw [loadPool, hk, tryFromSlice_enc hvalid]
      rfl
    · rw [loadLoan, hk, Loan.codec_fixed.tryFromSlice_eq_none (hlen ▸ Pool.len_ne.1)]
      rfl
    · rw [loadBand, hk, LoanIndexBand.codec_fixed.tryFromSlice_eq_none (hlen ▸ Pool.len_ne.2)]
      rfl
    · rw [hzeroed, hlen]
      exact ⟨fun h => (by cases h), fun h => absurd h.2.1 Pool.len_ne.2⟩
  | loan l =>
    obtain rfl := Option.some.inj hbs
    have hvalid := Loan.codec_valid.mpr hfits
    have hlen := Loan.codec_fixed.length l hvalid
    refine ⟨?_, ?_, ?_, ?_⟩
    · rw [loadPool, hk, Pool.codec_fixed.tryFromSlice_eq_none (hlen ▸ Loan.len_ne.1)]
      rfl
    · rw [loadLoan, hk, tryFromSlice_enc hvalid]
      rfl
    · rw [loadBand, hk, LoanIndexBand.codec_fixed.tryFromSlice_eq_none (hlen ▸ Loan.len_ne.2)]
      rfl
    · rw [hzeroed, hlen]
      exact ⟨fun h => (by cases h), fun h => absurd h.2.1 Loan.len_ne.2⟩
  | band b =>
    obtain rfl := Option.some.inj hbs
    have hvalid := LoanIndexBand.codec_valid.mpr hfits
    have hlen := LoanIndexBand.codec_fixed.length b hvalid
    refine ⟨?_, ?_, ?_, ?_⟩
    · rw [loadPool, hk, Pool.codec_fixed.tryFromSlice_eq_none (hlen ▸ LoanIndexBand.len_ne.1)]
      rfl
    · rw [loadLoan, hk, Loan.codec_fixed.tryFromSlice_eq_none (hlen ▸ LoanIndexBand.len_ne.2)]
      rfl
    · rw [loadBand, hk, tryFromSlice_enc hvalid]
      rfl
    · rw [hzeroed, hlen, LoanIndexBand.enc_eq_zero_iff hfits, hk, and_iff_right rfl,
        Account.mk.injEq, AccountData.band.injEq]
  | _ => cases hbs

/-- **Account bytes.** Whatever transactions have been accepted, and whatever has happened outside
the program in between: the bytes of every record that is live, or that is kept at an address of the
program, are read as the record that was written there, by the reader of its own type, and by no
other. -/
theorem records_read_back [Borsh] {bs : List UInt8} (hrt : rt.Words)
    (hg : Genesis rt led₀) (hslot : led₀.slot < 2 ^ 64) (h : Journal rt led₀ lines led)
    (howner : (led.accts k).owner = rt.programId)
    (hk : rt.IsPda k ∨ ¬ (led.accts k).data.Blank)
    (hbs : (led.accts k).data.record = some bs) : ReadsAs rt led k bs :=
  Ledger.readsAs ((h.wide hrt hg hslot).records k howner hk) hbs

theorem records_read_back_logged :
    ∃ bs, (Sandbox.logged.1.accts (Sandbox.loan 1)).data.record = some bs ∧ bs.length = 210 ∧
      ReadsAs wordSandbox Sandbox.logged.1 (Sandbox.loan 1) bs := by
  have hsome : (Sandbox.logged.1.accts (Sandbox.loan 1)).data.record.isSome := by decide +kernel
  obtain ⟨bs, hbs⟩ := Option.isSome_iff_exists.mp hsome
  refine ⟨bs, hbs, ?_, records_read_back wordSandbox_words Sandbox.wordGenesis_genesis
    (by decide +kernel) Sandbox.logged_journal (by decide +kernel) (.inl ⟨.loan Sandbox.pool
      Sandbox.user 1, by decide +kernel⟩) hbs⟩
  have hlen : (Sandbox.logged.1.accts (Sandbox.loan 1)).data.record.map List.length = some 210 := by
    decide +kernel
  rw [hbs] at hlen
  exact Option.some.inj hlen

/-- **Account lengths.** A byte string is read as a pool, a loan or a band exactly when it has the
length of one, so no account can be taken for one of another type. -/
theorem readers_ask_length [Borsh] (bs : List UInt8) :
    ((Pool.codec.tryFromSlice bs).isSome ↔ bs.length = 434) ∧
      ((Loan.codec.tryFromSlice bs).isSome ↔ bs.length = 210) ∧
      ((LoanIndexBand.codec.tryFromSlice bs).isSome ↔ bs.length = 88) :=
  ⟨tryFromSlice_isSome_iff Pool.codec_fixed, tryFromSlice_isSome_iff Loan.codec_fixed,
    tryFromSlice_isSome_iff LoanIndexBand.codec_fixed⟩

/-! ### The log -/

/-- **Log lines.** Every line that has ever been logged reads as an event that no other byte string
reads as, and does not start like an account. -/
theorem log_reads_back [Borsh] (hrt : rt.Words) (hg : Genesis rt led₀)
    (hslot : led₀.slot < 2 ^ 64) (h : Journal rt led₀ lines led) {line : List UInt8} (hline : line ∈ lines) :
    ∃ e : Event, (∀ bs, Event.ofLine bs = some e ↔ bs = line) ∧
      ∀ n ∈ [poolDiscriminator, loanDiscriminator, loanIndexBandDiscriminator],
        ¬ Borsh.u64BE.enc n <+: line := by
  obtain ⟨e, hfits, rfl⟩ := h.lines_fit hrt hg hslot line hline
  refine ⟨e, fun bs => ?_, fun n hn => ?_⟩
  · show Event.codec.tryFromSlice bs = some e ↔ _
    rw [tryFromSlice_eq_some Event.codec_canonical, Event.codec_valid, and_iff_right hfits]
    exact Iff.rfl
  · rintro ⟨rest, hrest⟩
    refine e.discriminator_ne_record hn [] rest ?_
    rw [List.append_nil, hrest]

theorem log_reads_back_logged :
    ∃ line ∈ Sandbox.logged.2, Event.ofLine line = some
        (.loanOpened Sandbox.pool (Sandbox.loan 1) Sandbox.user 1 1 200000 100000 65 1
          1818181818181818181) ∧
      ∃ e : Event, ∀ bs, Event.ofLine bs = some e ↔ bs = line := by
  have hline : ∃ line ∈ Sandbox.logged.2, Event.ofLine line = some
      (.loanOpened Sandbox.pool (Sandbox.loan 1) Sandbox.user 1 1 200000 100000 65 1
        1818181818181818181) := by decide +kernel
  obtain ⟨line, hmem, hread⟩ := hline
  obtain ⟨e, he, -⟩ := log_reads_back wordSandbox_words Sandbox.wordGenesis_genesis
    (by decide +kernel) Sandbox.logged_journal hmem
  exact ⟨line, hmem, hread, e, he⟩

/-- **The books can be told from the log.** A consumer that has read every line ever logged, and no
account, knows the pools with their terms and the fees nobody has claimed, and the open loans with
theirs: these, and no others. -/
theorem books_from_log [Borsh] (hrt : rt.Words) (hg : Genesis rt led₀)
    (hslot : led₀.slot < 2 ^ 64) (h : Journal rt led₀ lines led) :
    (∀ P e, Replica.ofLines lines P = some (.pool e) ↔ ∃ p, led.HasPool rt P p ∧ p.entry = e) ∧
      ∀ k e, Replica.ofLines lines k = some (.loan e) ↔
        ∃ l, led.openLoan rt e.pool k = some l ∧ l.entry = e := by
  rw [h.replica hrt hg hslot]
  exact ⟨fun _ _ => Ledger.replica_eq_pool, fun _ _ => Ledger.replica_eq_loan⟩

theorem books_from_log_logged :
    Sandbox.logged.2.length = 6 ∧
      (∀ e, Replica.ofLines Sandbox.logged.2 (Sandbox.loan 0) ≠ some (.loan e)) ∧
      ∃ l, Sandbox.logged.1.openLoan wordSandbox Sandbox.pool (Sandbox.loan 1) = some l ∧
        l.debtPrincipal = 100000 := by
  obtain ⟨-, hloans⟩ := books_from_log wordSandbox_words Sandbox.wordGenesis_genesis
    (by decide +kernel) Sandbox.logged_journal
  refine ⟨by decide +kernel, fun e he => ?_, ?_⟩
  · have hnone : (Replica.ofLines Sandbox.logged.2 (Sandbox.loan 0)).isNone := by decide +kernel
    rw [he] at hnone
    cases hnone
  · have hread : Replica.ofLines Sandbox.logged.2 (Sandbox.loan 1) = some (.loan
        { pool := Sandbox.pool, borrower := Sandbox.user, nonce := 1, sides := 1
          collateralAmount := 200000, debtAmount := 100000, bandId := 65, triggerDirection := 1
          triggerPriceWad := 1818181818181818181 }) := by decide +kernel
    obtain ⟨l, hl, he⟩ := (hloans _ _).mp hread
    exact ⟨l, hl, congrArg LoanEntry.debtAmount he⟩

/-- **Swaps can be called from the log.** What a router puts together from the lines is, for every
pool of the books and every boundary, a context that the program accepts. It has all open loans of
the direction, and its counts are bytes. -/
theorem contexts_from_log [Borsh] {e : PoolEntry} (hrt : rt.Words) (hg : Genesis rt led₀)
    (hslot : led₀.slot < 2 ^ 64) (h : Journal rt led₀ lines led)
    (he : Replica.ofLines lines P = some (.pool e)) (aToB : Bool) (bandBoundary : ℕ) :
    ∃ p ctx, led.HasPool rt P p ∧
      checkContext rt led P p aToB bandBoundary (bandLoanCounts lines P (swapDirection aToB).toU8)
        (contextTail rt lines P (swapDirection aToB).toU8) = .ok ctx ∧
      (∀ k l, led.openLoan rt P k = some l → l.triggerDirection = (swapDirection aToB).toU8 →
        k ∈ contextTail rt lines P (swapDirection aToB).toU8) ∧
      ∀ n ∈ bandLoanCounts lines P (swapDirection aToB).toU8, n < 2 ^ 8 := by
  have hbooks := h.replica hrt hg hslot
  have hreach := h.reachable hg
  obtain ⟨p, hp, -⟩ := Ledger.replica_eq_pool.mp (hbooks ▸ he)
  have hcomplete : CompleteContext rt led P aToB bandBoundary _ _ _ :=
    completeContext_of_books hreach hp hbooks bandBoundary
  obtain ⟨ctx, hctx⟩ := hcomplete.accepted hreach hp
  refine ⟨p, ctx, hp, hctx, fun k l hl hdir => ?_, fun n hn => ?_⟩
  · have hk := (mem_bandLoans hbooks).mpr ⟨l, hl, hdir, rfl⟩
    obtain ⟨S, hv⟩ := hreach.sound.valid P p hp
    have hmem : (l.bandId, bandLoans lines P (swapDirection aToB).toU8 l.bandId) ∈
        populatedBands lines P (swapDirection aToB).toU8 :=
      mem_populatedBands.mpr ⟨hv.indexed.bandId_le k l hl, List.ne_nil_of_mem hk, rfl⟩
    exact List.mem_flatMap.mpr ⟨_, hmem, List.mem_cons_of_mem _ hk⟩
  · exact (bandLoanCounts_le hreach hp hbooks n hn).trans_lt (by decide)

theorem contexts_from_log_logged :
    bandLoanCounts Sandbox.logged.2 Sandbox.pool 1 = [1] ∧ ∃ p ctx,
      Sandbox.logged.1.HasPool wordSandbox Sandbox.pool p ∧
      checkContext wordSandbox Sandbox.logged.1 Sandbox.pool p false 127 [1]
        [Sandbox.band 1 65, Sandbox.loan 1] = .ok ctx := by
  have hread : Replica.ofLines Sandbox.logged.2 Sandbox.pool = some (.pool
      { mintA := Sandbox.mintA, mintB := Sandbox.mintB, swapFeeBps := 30, protocolFeeBps := 5
        liqRatioBps := 11000, maxLtvBps := 8000, interestBaseBpsPerYear := 0
        interestSlope1BpsPerYear := 400, interestSlope2BpsPerYear := 30000
        interestKinkBps := 8000, protocolFeesA := 1500, protocolFeesB := 0 }) := by decide +kernel
  have hcounts : bandLoanCounts Sandbox.logged.2 Sandbox.pool 1 = [1] := by decide +kernel
  have htail : contextTail wordSandbox Sandbox.logged.2 Sandbox.pool 1 =
      [Sandbox.band 1 65, Sandbox.loan 1] := by decide +kernel
  obtain ⟨p, ctx, hp, hctx, -⟩ := contexts_from_log wordSandbox_words
    Sandbox.wordGenesis_genesis (by decide +kernel) Sandbox.logged_journal hread false 127
  exact ⟨hcounts, p, ctx, hp, by rw [← hcounts, ← htail]; exact hctx⟩

end ChiefLiquidity
