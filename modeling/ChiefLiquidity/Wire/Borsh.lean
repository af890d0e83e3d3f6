import ChiefLiquidity.ForMathlib.Codec
import ChiefLiquidity.State

/-!
# Borsh

Instructions, records and events travel in Borsh, whose crate is no part of the repository. It is a
parameter of what is said about bytes: `Borsh` is any crate that writes the primitive types of
`lib.rs`, `state.rs` and `events.rs` and meets what is documented of it. How the primitives make up
an instruction, a record or an event is the program's own business, and is written out in the
modules after this one.

## What is documented

* An integer takes exactly as many bytes as its type has, and zero is written in zeros. That the low
  byte comes first is documented too, and nothing rests on it.
* An array of bytes is written as it is, without its length.
* A vector is carried as long as its length can be written in four bytes.
* Values are read back as they were written, which is what it is to be a format, and nothing else is
  read: the crate refuses a `bool` that is neither zero nor one.

## What is left out

Strings, options, maps and floating point, of which the program writes none.

## Main definitions

* `Borsh` — the primitive formats, and their laws
* `Borsh.u8` and its siblings, `Borsh.pubkey`, `Borsh.u64BE`, `Borsh.pad`

## Main results

* `Borsh.u64BE_enc` — a discriminator is written as its bytes
* `Borsh.pubkey_valid`, `Borsh.u64BE_valid` — keys and discriminators are carried when they are words
-/

namespace ChiefLiquidity

/-- A Borsh crate, as far as it is documented: a format for each primitive type. -/
class Borsh where
  /-- An unsigned integer of `n` bytes. -/
  int : ℕ → Codec ℕ
  /-- A `bool`. -/
  bool : Codec Bool
  /-- A `[u8; n]`. -/
  array : ℕ → Codec (List UInt8)
  /-- A `Vec<u8>`, its bytes as numbers. -/
  vecU8 : Codec (List ℕ)
  /-- An integer is carried if it is a word of its type. -/
  int_valid : ∀ {n x}, (int n).Valid x ↔ x < 2 ^ (8 * n)
  int_canonical : ∀ {n}, (int n).Canonical
  int_fixed : ∀ {n}, (int n).Fixed n
  /-- Zero is written in zeros. -/
  int_zero : ∀ {n}, (int n).enc 0 = List.replicate n 0
  bool_valid : ∀ b, bool.Valid b
  bool_canonical : bool.Canonical
  /-- An array is carried if it has its length. -/
  array_valid : ∀ {n l}, (array n).Valid l ↔ l.length = n
  array_fixed : ∀ {n}, (array n).Fixed n
  array_canonical : ∀ {n}, (array n).Canonical
  /-- An array is written as it is. -/
  array_enc : ∀ {n l}, l.length = n → (array n).enc l = l
  /-- A vector of bytes is carried if its length is a word of four bytes. -/
  vecU8_valid : ∀ {l}, vecU8.Valid l ↔ l.length < 2 ^ 32 ∧ ∀ x ∈ l, x < 2 ^ 8
  vecU8_canonical : vecU8.Canonical

namespace Borsh

open Codec

attribute [simp] int_valid bool_valid vecU8_valid

variable [Borsh] {n x : ℕ}

/-! ### Integers -/

/-- One byte. -/
abbrev u8 : Codec ℕ := int 1

/-- Two bytes. -/
abbrev u16 : Codec ℕ := int 2

/-- Four bytes. -/
abbrev u32 : Codec ℕ := int 4

/-- Eight bytes. -/
abbrev u64 : Codec ℕ := int 8

/-- Sixteen bytes. -/
abbrev u128 : Codec ℕ := int 16

/-! ### Arrays -/

/-- An array of `n` bytes, read once more as a value of another format of that length. -/
def arrayOf {α : Type} [Inhabited α] (d : Codec α) (n : ℕ) (hd : d.Fixed n)
    (hcanon : d.Canonical) : Codec α :=
  d.within (array n) hd hcanon fun _ => array_valid.mp

section ArrayOf

variable {α : Type} [Inhabited α] {d : Codec α} {hd : d.Fixed n} {hcanon : d.Canonical} {a : α}

theorem arrayOf_valid : (arrayOf d n hd hcanon).Valid a ↔ d.Valid a :=
  within_valid fun _ => array_valid.mpr

theorem arrayOf_canonical : (arrayOf d n hd hcanon).Canonical := within_canonical array_canonical

theorem arrayOf_fixed : (arrayOf d n hd hcanon).Fixed n := within_fixed array_fixed

/-- An array is written as it is. -/
theorem arrayOf_enc (ha : d.Valid a) : (arrayOf d n hd hcanon).enc a = d.enc a :=
  array_enc (hd.length a ha)

end ArrayOf

/-- A `Pubkey`: an array of bytes, as the number they spell from the first one on. -/
def pubkey : Codec Pubkey := arrayOf (wordBE 32) 32 wordBE_fixed wordBE_canonical

/-- A discriminator: an array of bytes, as the number they spell from the first one on. -/
def u64BE : Codec ℕ := arrayOf (wordBE 8) 8 wordBE_fixed wordBE_canonical

/-- An array that the program does not read, and leaves in zeros. -/
def pad (n : ℕ) : Codec Unit :=
  (array n).skip (List.replicate n 0) array_fixed (array_valid.mpr List.length_replicate)

@[simp] theorem pubkey_valid {k : Pubkey} : pubkey.Valid k ↔ k < 2 ^ 256 :=
  arrayOf_valid.trans wordBE_valid

@[simp] theorem u64BE_valid : u64BE.Valid x ↔ x < 2 ^ 64 := arrayOf_valid.trans wordBE_valid

@[simp] theorem pad_valid {u : Unit} : (pad n).Valid u ↔ True := Iff.rfl

theorem pubkey_canonical : pubkey.Canonical := arrayOf_canonical

theorem pubkey_fixed : pubkey.Fixed 32 := arrayOf_fixed

theorem u64BE_fixed : u64BE.Fixed 8 := arrayOf_fixed

theorem pad_fixed : (pad n).Fixed n := skip_fixed

/-- A discriminator is written as its bytes. -/
theorem u64BE_enc (h : x < 2 ^ 64) : u64BE.enc x = (wordBE 8).enc x :=
  arrayOf_enc (wordBE_valid.mpr h)

theorem pubkey_enc_zero : pubkey.enc 0 = List.replicate 32 0 :=
  (arrayOf_enc (wordBE_valid.mpr (Nat.two_pow_pos _))).trans (wordBE_enc_zero 32)

theorem u64BE_enc_zero : u64BE.enc 0 = List.replicate 8 0 :=
  (u64BE_enc (Nat.two_pow_pos _)).trans (wordBE_enc_zero 8)

theorem pad_enc (u : Unit) : (pad n).enc u = List.replicate n 0 := array_enc List.length_replicate

/-! ### A crate -/

/-- A crate that is as documented, with the low byte of an integer first. -/
@[reducible] def littleEndian : Borsh where
  int := word
  bool := symbol [false, true] (fun b => [if b then 1 else 0]) 1 (fun _ => rfl) (by decide)
  array n := byte.times n
  vecU8 := (word 1).vec
  int_valid := word_valid
  int_canonical := word_canonical
  int_fixed := word_fixed
  int_zero := word_enc_zero _
  bool_valid b := by cases b <;> simp [symbol]
  bool_canonical := symbol_canonical
  array_valid := times_valid.trans (and_iff_left fun _ _ => trivial)
  array_fixed {n} := by
    have hfixed := times_fixed (n := n) byte_fixed
    rwa [Nat.mul_one] at hfixed
  array_canonical := times_canonical byte_canonical
  array_enc := times_byte_enc
  vecU8_valid := by simp
  vecU8_canonical := vec_canonical word_canonical

end Borsh

end ChiefLiquidity
