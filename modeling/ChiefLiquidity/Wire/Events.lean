import ChiefLiquidity.Wire.Records

/-!
# The log lines

`events.rs`: an event is logged as its eight-byte discriminator and its Borsh payload. A reader of
the log goes by the discriminator and takes the rest as the payload.

## Nine formats behind one tag

The discriminator is written by the program itself, in front of what Borsh makes of the event. It
works as the tag of a union: the reader looks the eight bytes up, and reads the rest in the format
of that kind. The discriminators are pairwise different, so a line has one reading.

The payload is the fields of the struct in their order. An event whose fields are words of their
types can be written, and that events are such is proved of everything the program logs in
`Refinement.Widths`.

## Main definitions

* `Event.kind`, `Event.Kind.discriminator`
* `Event.codec` — the format of a line, and `Event.line` the line of an event
* `Event.Fits` — every field is a word of its type

## Main results

* `Event.codec_canonical`, `Event.codec_valid`
* `Event.discriminator_ne_record` — no line starts like an account of the program
-/

namespace ChiefLiquidity

open Borsh

namespace Event

/-- The kinds of events. -/
inductive Kind where
  | poolInitialized
  | liquidityAdded
  | liquidityRemoved
  | loanOpened
  | loanRepaid
  | loanLiquidated
  | swapExecuted
  | protocolFeesClaimed
  | liquidatedRentClaimed
  deriving DecidableEq, Repr

/-- `DISCRIMINATOR`. -/
def Kind.discriminator : Kind → List UInt8
  | .poolInitialized => [0xe1, 0x9a, 0x4c, 0x77, 0x20, 0xb3, 0x5d, 0x08]
  | .liquidityAdded => [0xe2, 0x3f, 0x81, 0x12, 0xc6, 0x4a, 0x9e, 0x55]
  | .liquidityRemoved => [0xe3, 0x6b, 0x2d, 0xf0, 0x18, 0x97, 0x44, 0xa1]
  | .loanOpened => [0xe4, 0x52, 0xc8, 0x0d, 0x73, 0x1f, 0xb6, 0x9c]
  | .loanRepaid => [0xe5, 0x88, 0x14, 0x6e, 0xab, 0x30, 0x5f, 0xd2]
  | .loanLiquidated => [0xe6, 0x71, 0xae, 0x39, 0x02, 0xcd, 0x8b, 0x47]
  | .swapExecuted => [0xe7, 0x4d, 0x9f, 0x60, 0xb8, 0x15, 0x2a, 0xe3]
  | .protocolFeesClaimed => [0xe8, 0x26, 0x53, 0xca, 0x7c, 0x91, 0x0e, 0xbf]
  | .liquidatedRentClaimed => [0xea, 0x5c, 0x08, 0x93, 0xe1, 0x47, 0xba, 0x2d]

/-- All kinds. -/
def Kind.all : List Kind :=
  [.poolInitialized, .liquidityAdded, .liquidityRemoved, .loanOpened, .loanRepaid, .loanLiquidated,
    .swapExecuted, .protocolFeesClaimed, .liquidatedRentClaimed]

theorem Kind.mem_all (k : Kind) : k ∈ Kind.all := by cases k <;> simp [Kind.all]

theorem Kind.discriminator_length (k : Kind) : k.discriminator.length = 8 := by cases k <;> rfl

theorem Kind.discriminator_injective (k l : Kind) (h : k.discriminator = l.discriminator) :
    k = l := by
  cases k <;> cases l <;> first | rfl | exact absurd h (by decide)

/-- The kind of an event. -/
def kind : Event → Kind
  | .poolInitialized .. => .poolInitialized
  | .liquidityAdded .. => .liquidityAdded
  | .liquidityRemoved .. => .liquidityRemoved
  | .loanOpened .. => .loanOpened
  | .loanRepaid .. => .loanRepaid
  | .loanLiquidated .. => .loanLiquidated
  | .swapExecuted .. => .swapExecuted
  | .protocolFeesClaimed .. => .protocolFeesClaimed
  | .liquidatedRentClaimed .. => .liquidatedRentClaimed

/-- The payload of each kind. -/
def payloadCodec [Borsh] : Kind → Codec Event
  | .poolInitialized =>
    (pubkey.seq (pubkey.seq (pubkey.seq (pubkey.seq (u16.seq (u16.seq (u16.seq (u16.seq (u16.seq
      (u16.seq (u16.seq u16))))))))))).map
      (fun (p, a, b, o, s, f, r, m, i0, i1, i2, i3) => .poolInitialized p a b o s f r m i0 i1 i2 i3)
      (fun
        | .poolInitialized p a b o s f r m i0 i1 i2 i3 => (p, a, b, o, s, f, r, m, i0, i1, i2, i3)
        | _ => default) fun _ _ => rfl
  | .liquidityAdded =>
    (pubkey.seq (pubkey.seq (u64.seq (u64.seq u64)))).map
      (fun (p, u, a, b, l) => .liquidityAdded p u a b l)
      (fun | .liquidityAdded p u a b l => (p, u, a, b, l) | _ => default) fun _ _ => rfl
  | .liquidityRemoved =>
    (pubkey.seq (pubkey.seq (u64.seq (u64.seq u64)))).map
      (fun (p, u, l, a, b) => .liquidityRemoved p u l a b)
      (fun | .liquidityRemoved p u l a b => (p, u, l, a, b) | _ => default) fun _ _ => rfl
  | .loanOpened =>
    (pubkey.seq (pubkey.seq (pubkey.seq (u64.seq (u8.seq (u64.seq (u64.seq (u32.seq (u8.seq
      u128))))))))).map
      (fun (p, l, o, n, s, c, d, b, t, w) => .loanOpened p l o n s c d b t w)
      (fun | .loanOpened p l o n s c d b t w => (p, l, o, n, s, c, d, b, t, w) | _ => default)
      fun _ _ => rfl
  | .loanRepaid =>
    (pubkey.seq (pubkey.seq (pubkey.seq (u128.seq u64)))).map
      (fun (p, l, o, d, t) => .loanRepaid p l o d t)
      (fun | .loanRepaid p l o d t => (p, l, o, d, t) | _ => default) fun _ _ => rfl
  | .loanLiquidated =>
    (pubkey.seq (pubkey.seq (pubkey.seq (u8.seq (u128.seq (u128.seq u128)))))).map
      (fun (p, l, o, s, c, d, t) => .loanLiquidated p l o s c d t)
      (fun | .loanLiquidated p l o s c d t => (p, l, o, s, c, d, t) | _ => default) fun _ _ => rfl
  | .swapExecuted =>
    (pubkey.seq (pubkey.seq (bool.seq (u64.seq (u64.seq (u32.seq u64)))))).map
      (fun (p, u, d, i, o, l, f) => .swapExecuted p u d i o l f)
      (fun | .swapExecuted p u d i o l f => (p, u, d, i, o, l, f) | _ => default) fun _ _ => rfl
  | .protocolFeesClaimed =>
    (pubkey.seq (pubkey.seq (u64.seq u64))).map
      (fun (p, r, a, b) => .protocolFeesClaimed p r a b)
      (fun | .protocolFeesClaimed p r a b => (p, r, a, b) | _ => default) fun _ _ => rfl
  | .liquidatedRentClaimed =>
    (pubkey.seq (pubkey.seq pubkey)).map
      (fun (p, l, o) => .liquidatedRentClaimed p l o)
      (fun | .liquidatedRentClaimed p l o => (p, l, o) | _ => default) fun _ _ => rfl

theorem kind_of_payloadCodec [Borsh] (k : Kind) (e : Event) (h : (payloadCodec k).Valid e) :
    e.kind = k := by
  cases k <;> exact (congrArg kind h.2.symm).trans rfl

/-- The format of a log line: the discriminator, and the payload. -/
def codec [Borsh] : Codec Event :=
  (Codec.symbol Kind.all Kind.discriminator 8 Kind.discriminator_length
    Kind.discriminator_injective).choose kind payloadCodec kind_of_payloadCodec

/-- The line an event is logged as. -/
def line [Borsh] (e : Event) : List UInt8 := codec.enc e

/-- What a reader makes of a line. -/
def ofLine [Borsh] (bs : List UInt8) : Option Event := codec.tryFromSlice bs

/-- Every field of an event is a word of its type. -/
def Fits : Event → Prop
  | .poolInitialized p a b o s f r m i0 i1 i2 i3 =>
    (p < 2 ^ 256 ∧ a < 2 ^ 256 ∧ b < 2 ^ 256 ∧ o < 2 ^ 256) ∧
      (s < 2 ^ 16 ∧ f < 2 ^ 16 ∧ r < 2 ^ 16 ∧ m < 2 ^ 16) ∧
      (i0 < 2 ^ 16 ∧ i1 < 2 ^ 16 ∧ i2 < 2 ^ 16 ∧ i3 < 2 ^ 16)
  | .liquidityAdded p u x y z | .liquidityRemoved p u x y z =>
    (p < 2 ^ 256 ∧ u < 2 ^ 256) ∧ x < 2 ^ 64 ∧ y < 2 ^ 64 ∧ z < 2 ^ 64
  | .loanOpened p l o n s c d b t w =>
    (p < 2 ^ 256 ∧ l < 2 ^ 256 ∧ o < 2 ^ 256) ∧ (n < 2 ^ 64 ∧ s < 2 ^ 8 ∧ c < 2 ^ 64 ∧ d < 2 ^ 64) ∧
      b < 2 ^ 32 ∧ t < 2 ^ 8 ∧ w < 2 ^ 128
  | .loanRepaid p l o d t =>
    (p < 2 ^ 256 ∧ l < 2 ^ 256 ∧ o < 2 ^ 256) ∧ d < 2 ^ 128 ∧ t < 2 ^ 64
  | .loanLiquidated p l o s c d t =>
    (p < 2 ^ 256 ∧ l < 2 ^ 256 ∧ o < 2 ^ 256) ∧ s < 2 ^ 8 ∧ c < 2 ^ 128 ∧ d < 2 ^ 128 ∧ t < 2 ^ 128
  | .swapExecuted p u _ i o l f =>
    (p < 2 ^ 256 ∧ u < 2 ^ 256) ∧ i < 2 ^ 64 ∧ o < 2 ^ 64 ∧ l < 2 ^ 32 ∧ f < 2 ^ 64
  | .protocolFeesClaimed p r a b => (p < 2 ^ 256 ∧ r < 2 ^ 256) ∧ a < 2 ^ 64 ∧ b < 2 ^ 64
  | .liquidatedRentClaimed p l o => p < 2 ^ 256 ∧ l < 2 ^ 256 ∧ o < 2 ^ 256

theorem payloadCodec_canonical [Borsh] (k : Kind) : (payloadCodec k).Canonical := by
  have hkey : pubkey.Canonical := pubkey_canonical
  have hword : ∀ {n}, (int n).Canonical := int_canonical
  cases k <;> rw [payloadCodec]
  case poolInitialized =>
    exact (hkey.seq (hkey.seq (hkey.seq (hkey.seq (hword.seq (hword.seq (hword.seq (hword.seq
      (hword.seq (hword.seq (hword.seq hword))))))))))).map
  case liquidityAdded => exact (hkey.seq (hkey.seq (hword.seq (hword.seq hword)))).map
  case liquidityRemoved => exact (hkey.seq (hkey.seq (hword.seq (hword.seq hword)))).map
  case loanOpened =>
    exact (hkey.seq (hkey.seq (hkey.seq (hword.seq (hword.seq (hword.seq (hword.seq (hword.seq
      (hword.seq hword))))))))).map
  case loanRepaid => exact (hkey.seq (hkey.seq (hkey.seq (hword.seq hword)))).map
  case loanLiquidated =>
    exact (hkey.seq (hkey.seq (hkey.seq (hword.seq (hword.seq (hword.seq hword)))))).map
  case swapExecuted =>
    exact (hkey.seq (hkey.seq (bool_canonical.seq (hword.seq (hword.seq (hword.seq hword)))))).map
  case protocolFeesClaimed => exact (hkey.seq (hkey.seq (hword.seq hword))).map
  case liquidatedRentClaimed => exact (hkey.seq (hkey.seq hkey)).map

theorem codec_canonical [Borsh] : codec.Canonical := Codec.symbol_canonical.choose payloadCodec_canonical

/-- **An event can be logged exactly when it fits.** -/
theorem codec_valid [Borsh] {e : Event} : codec.Valid e ↔ e.Fits := by
  have hvalid : codec.Valid e ↔ e.kind ∈ Kind.all ∧ (payloadCodec e.kind).Valid e := Iff.rfl
  rw [hvalid, and_iff_right (Kind.mem_all _)]
  cases e <;> simp [kind, payloadCodec, Fits, Codec.map, Codec.seq, and_assoc]

/-- No line starts like an account of the program. -/
theorem discriminator_ne_record [Borsh] (e : Event) {n : ℕ}
    (hn : n ∈ [poolDiscriminator, loanDiscriminator, loanIndexBandDiscriminator])
    (rest rest' : List UInt8) : e.line ++ rest ≠ u64BE.enc n ++ rest' := by
  have hne : ∀ n ∈ [poolDiscriminator, loanDiscriminator, loanIndexBandDiscriminator],
      ∀ k ∈ Kind.all, k.discriminator ≠ (Codec.wordBE 8).enc n := by decide
  have hword : ∀ n ∈ [poolDiscriminator, loanDiscriminator, loanIndexBandDiscriminator],
      n < 2 ^ 64 := by decide
  rw [u64BE_enc (hword n hn)]
  intro h
  have hline : e.line = e.kind.discriminator ++ (payloadCodec e.kind).enc e := rfl
  rw [hline, List.append_assoc] at h
  refine hne n hn e.kind (Kind.mem_all _) (List.append_inj_left h ?_)
  rw [Kind.discriminator_length]
  exact (Codec.wordBE_fixed.length n (Codec.wordBE_valid.mpr (hword n hn))).symm

end Event

end ChiefLiquidity
