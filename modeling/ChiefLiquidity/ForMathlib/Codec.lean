import Mathlib.Tactic

/-!
# Binary formats

A format writes values as bytes and reads them back off the front of a byte string. Formats are
built from bytes by a few combinators, and what matters about a format is inherited from its parts:
it reads back what it wrote, and a *canonical* one has written whatever it reads, so that no two
byte strings mean the same. A format with padding is not canonical, but can still have a fixed
length at which it reads everything.

## Main definitions

* `Codec` — a format, with `Codec.Valid` the values it can carry
* `Codec.Canonical`, `Codec.Fixed`
* `Codec.word`, `Codec.wordBE`, `Codec.symbol` — words and tags
* `Codec.seq`, `Codec.map`, `Codec.choose`, `Codec.array`, `Codec.vec` — records, unions, vectors
* `Codec.skip`, `Codec.within` — parts that are skipped, and parts that are read once more
* `Codec.tryFromSlice` — read a byte string to its end

## Main results

* `tryFromSlice_eq_some` — a canonical format reads exactly what it writes
* `tryFromSlice_isSome_iff` — a format of fixed length asks for nothing but the length
-/

/-- A binary format for the values of a type. -/
structure Codec (α : Type) where
  /-- The values that fit the format. -/
  Valid : α → Prop
  enc : α → List UInt8
  /-- Read a value off the front, and return the rest. -/
  dec : List UInt8 → Option (α × List UInt8)
  dec_enc : ∀ a rest, Valid a → dec (enc a ++ rest) = some (a, rest)
  dec_used : ∀ bs a rest, dec bs = some (a, rest) →
    Valid a ∧ ∃ used, bs = used ++ rest ∧ used.length = (enc a).length

namespace Codec

variable {α β ι : Type}

/-- Whatever the format reads, it has written. -/
def Canonical (c : Codec α) : Prop := ∀ bs a rest, c.dec bs = some (a, rest) → bs = c.enc a ++ rest

/-- Every value takes `n` bytes, and any `n` bytes are a value. -/
structure Fixed (c : Codec α) (n : ℕ) : Prop where
  length : ∀ a, c.Valid a → (c.enc a).length = n
  total : ∀ bs, n ≤ bs.length → (c.dec bs).isSome

/-- Read a value from a byte string, of which nothing may be left over. -/
def tryFromSlice (c : Codec α) (bs : List UInt8) : Option α :=
  match c.dec bs with
  | some (a, []) => some a
  | _ => none

section Slices

variable {c : Codec α} {a b : α} {bs rest rest' : List UInt8} {n : ℕ}

theorem tryFromSlice_eq_some' : c.tryFromSlice bs = some a ↔ c.dec bs = some (a, []) := by
  rw [tryFromSlice]
  split
  · simp [*]
  · rename_i hne
    exact ⟨fun h => (by cases h), fun h => absurd h (hne a)⟩

/-- **What is written is read back.** -/
theorem tryFromSlice_enc (h : c.Valid a) : c.tryFromSlice (c.enc a) = some a := by
  refine tryFromSlice_eq_some'.mpr ?_
  have hdec := c.dec_enc a [] h
  rwa [List.append_nil] at hdec

/-- **A canonical format reads exactly what it writes.** -/
theorem tryFromSlice_eq_some (hc : c.Canonical) :
    c.tryFromSlice bs = some a ↔ c.Valid a ∧ bs = c.enc a := by
  constructor
  · intro h
    have hdec := tryFromSlice_eq_some'.mp h
    exact ⟨(c.dec_used _ _ _ hdec).1, (hc _ _ _ hdec).trans (List.append_nil _)⟩
  · rintro ⟨hvalid, rfl⟩
    exact tryFromSlice_enc hvalid

/-- No two values are written alike. -/
theorem enc_inj (ha : c.Valid a) (hb : c.Valid b) (h : c.enc a = c.enc b) : a = b := by
  have hread := tryFromSlice_enc ha
  rw [h, tryFromSlice_enc hb] at hread
  exact (Option.some.inj hread).symm

theorem Fixed.length_of_dec (hn : c.Fixed n) (h : c.dec bs = some (a, rest)) :
    bs.length = n + rest.length := by
  obtain ⟨hvalid, used, rfl, hlen⟩ := c.dec_used _ _ _ h
  rw [List.length_append, hlen, hn.length a hvalid]

/-- **A format of fixed length asks for nothing but the length.** -/
theorem tryFromSlice_isSome_iff (hn : c.Fixed n) : (c.tryFromSlice bs).isSome ↔ bs.length = n := by
  constructor
  · intro h
    obtain ⟨a, ha⟩ := Option.isSome_iff_exists.mp h
    exact hn.length_of_dec (tryFromSlice_eq_some'.mp ha)
  · intro h
    obtain ⟨⟨a, rest⟩, hdec⟩ := Option.isSome_iff_exists.mp (hn.total bs h.ge)
    have hlen := hn.length_of_dec hdec
    have hrest : rest = [] := List.eq_nil_of_length_eq_zero (by omega)
    rw [tryFromSlice_eq_some'.mpr (hrest ▸ hdec)]
    rfl

theorem Fixed.tryFromSlice_eq_none (hn : c.Fixed n) (h : bs.length ≠ n) :
    c.tryFromSlice bs = none := by
  rw [← Option.not_isSome_iff_eq_none, tryFromSlice_isSome_iff hn]
  exact h

end Slices

/-! ### Bytes and tags -/

/-- One byte. -/
def byte : Codec UInt8 where
  Valid _ := True
  enc b := [b]
  dec
    | [] => none
    | b :: bs => some (b, bs)
  dec_enc _ _ _ := rfl
  dec_used bs a rest h := by
    cases bs with
    | nil => cases h
    | cons b bs =>
      cases h
      exact ⟨trivial, [a], rfl, rfl⟩

/-- The empty record. -/
def unit : Codec Unit where
  Valid _ := True
  enc _ := []
  dec bs := some ((), bs)
  dec_enc _ _ _ := rfl
  dec_used bs a rest h := by
    cases h
    exact ⟨trivial, [], rfl, rfl⟩

/-- One of finitely many codes of `n` bytes. -/
def symbol (l : List ι) (code : ι → List UInt8) (n : ℕ) (hlen : ∀ i, (code i).length = n)
    (hinj : ∀ i j, code i = code j → i = j) : Codec ι where
  Valid i := i ∈ l
  enc := code
  dec bs := (l.find? fun i => code i = bs.take n).map fun i => (i, bs.drop n)
  dec_enc i rest hi := by
    rw [← hlen i, List.take_left, List.drop_left]
    have hfind : l.find? (fun j => code j = code i) = some i := by
      obtain ⟨j, hj⟩ := Option.isSome_iff_exists.mp
        (List.find?_isSome (p := fun j => code j = code i).mpr ⟨i, hi, by simp⟩)
      have hcode : code j = code i := by simpa using List.find?_some hj
      rw [hj, hinj j i hcode]
    rw [hfind, Option.map_some]
  dec_used bs i rest h := by
    obtain ⟨j, hj, heq⟩ := Option.map_eq_some_iff.mp h
    cases heq
    have hcode : code i = bs.take n := by simpa using List.find?_some hj
    exact ⟨List.mem_of_find?_eq_some hj, bs.take n, (List.take_append_drop n bs).symm,
      by rw [hcode]⟩

/-! ### Records and unions -/

/-- Two values, one after the other. -/
def seq (c : Codec α) (d : Codec β) : Codec (α × β) where
  Valid x := c.Valid x.1 ∧ d.Valid x.2
  enc x := c.enc x.1 ++ d.enc x.2
  dec bs := do
    let (a, bs) ← c.dec bs
    let (b, bs) ← d.dec bs
    return ((a, b), bs)
  dec_enc x rest h := by
    rw [List.append_assoc, c.dec_enc _ _ h.1]
    simp only [Option.bind_eq_bind, Option.bind_some, d.dec_enc _ _ h.2]
    rfl
  dec_used bs x rest h := by
    simp only [Option.bind_eq_bind, Option.bind_eq_some_iff, Prod.exists, Option.pure_def,
      Option.some.injEq, Prod.mk.injEq] at h
    obtain ⟨a, bs₁, ha, b, bs₂, hb, rfl, rfl⟩ := h
    obtain ⟨hva, used, rfl, hlen⟩ := c.dec_used _ _ _ ha
    obtain ⟨hvb, used', rfl, hlen'⟩ := d.dec_used _ _ _ hb
    refine ⟨⟨hva, hvb⟩, used ++ used', (List.append_assoc _ _ _).symm, ?_⟩
    rw [List.length_append, List.length_append, hlen, hlen']

/-- The same bytes read as another type. A value fits if it is the image of one that fits. -/
def map (c : Codec β) (f : β → α) (g : α → β) (hgf : ∀ b, c.Valid b → g (f b) = b) : Codec α where
  Valid a := c.Valid (g a) ∧ f (g a) = a
  enc a := c.enc (g a)
  dec bs := (c.dec bs).map fun (b, rest) => (f b, rest)
  dec_enc a rest h := by
    rw [c.dec_enc _ _ h.1, Option.map_some]
    exact congrArg (fun a => some (a, rest)) h.2
  dec_used bs a rest h := by
    obtain ⟨⟨b, bs'⟩, hb, heq⟩ := Option.map_eq_some_iff.mp h
    cases heq
    obtain ⟨hv, used, rfl, hlen⟩ := c.dec_used _ _ _ hb
    exact ⟨⟨(hgf b hv).symm ▸ hv, congrArg f (hgf b hv)⟩, used, rfl, by rw [hlen, hgf b hv]⟩

/-- A tag, and a value in the format the tag says. -/
def choose (c : Codec ι) (kind : α → ι) (d : ι → Codec α)
    (hkind : ∀ i a, (d i).Valid a → kind a = i) : Codec α where
  Valid a := c.Valid (kind a) ∧ (d (kind a)).Valid a
  enc a := c.enc (kind a) ++ (d (kind a)).enc a
  dec bs := do
    let (i, bs) ← c.dec bs
    (d i).dec bs
  dec_enc a rest h := by
    rw [List.append_assoc, c.dec_enc _ _ h.1, Option.bind_eq_bind, Option.bind_some]
    exact (d _).dec_enc _ _ h.2
  dec_used bs a rest h := by
    simp only [Option.bind_eq_bind, Option.bind_eq_some_iff, Prod.exists] at h
    obtain ⟨i, bs₁, hi, ha⟩ := h
    obtain ⟨hvi, used, rfl, hlen⟩ := c.dec_used _ _ _ hi
    obtain ⟨hva, used', rfl, hlen'⟩ := (d i).dec_used _ _ _ ha
    obtain rfl := hkind i a hva
    refine ⟨⟨hvi, hva⟩, used ++ used', (List.append_assoc _ _ _).symm, ?_⟩
    rw [List.length_append, List.length_append, hlen, hlen']

/-- A value of which the reader takes no notice, and which is written as `b`. -/
def skip (c : Codec β) (b : β) {n : ℕ} (hc : c.Fixed n) (hb : c.Valid b) : Codec Unit where
  Valid _ := True
  enc _ := c.enc b
  dec bs := (c.dec bs).map fun (_, rest) => ((), rest)
  dec_enc _ rest _ := by rw [c.dec_enc _ _ hb, Option.map_some]
  dec_used bs a rest h := by
    obtain ⟨⟨b', rest'⟩, hdec, heq⟩ := Option.map_eq_some_iff.mp h
    cases heq
    obtain ⟨hb', used, rfl, hlen⟩ := c.dec_used _ _ _ hdec
    exact ⟨trivial, used, rfl, by rw [hlen, hc.length _ hb', hc.length _ hb]⟩

/-- A string of `n` bytes that `c` carries, read once more as a value of `d`. -/
def within [Inhabited α] (d : Codec α) (c : Codec (List UInt8)) {n : ℕ} (hd : d.Fixed n)
    (hcanon : d.Canonical) (hc : ∀ l, c.Valid l → l.length = n) : Codec α :=
  c.map (fun l => (d.tryFromSlice l).getD default) d.enc fun l hl => by
    obtain ⟨a, ha⟩ := Option.isSome_iff_exists.mp ((tryFromSlice_isSome_iff hd).mpr (hc l hl))
    rw [ha, Option.getD_some]
    exact ((tryFromSlice_eq_some hcanon).mp ha).2.symm

/-! ### What combinations inherit -/

section Inherited

variable {c : Codec α} {d : Codec β} {m n : ℕ}

theorem byte_canonical : byte.Canonical := by
  intro bs a rest h
  cases bs with
  | nil => cases h
  | cons b bs =>
    cases h
    rfl

theorem unit_canonical : unit.Canonical := by
  intro bs a rest h
  cases h
  rfl

theorem symbol_canonical {l : List ι} {code : ι → List UInt8} {hlen hinj} :
    (symbol l code n hlen hinj).Canonical := by
  intro bs i rest h
  obtain ⟨j, hj, heq⟩ := Option.map_eq_some_iff.mp h
  cases heq
  have hcode : code i = bs.take n := by simpa using List.find?_some hj
  exact (List.take_append_drop n bs).symm.trans (congrArg (· ++ bs.drop n) hcode.symm)

theorem Canonical.seq (hc : c.Canonical) (hd : d.Canonical) : (c.seq d).Canonical := by
  intro bs x rest h
  simp only [Codec.seq, Option.bind_eq_bind, Option.bind_eq_some_iff, Prod.exists, Option.pure_def,
    Option.some.injEq, Prod.mk.injEq] at h
  obtain ⟨a, bs₁, ha, b, bs₂, hb, rfl, rfl⟩ := h
  rw [hc _ _ _ ha, hd _ _ _ hb]
  exact (List.append_assoc _ _ _).symm

theorem Canonical.map {f : α → β} {g : β → α} {hgf} (hc : c.Canonical) :
    (c.map f g hgf).Canonical := by
  intro bs b rest h
  obtain ⟨⟨a, bs'⟩, ha, heq⟩ := Option.map_eq_some_iff.mp h
  cases heq
  have henc : (c.map f g hgf).enc (f a) = c.enc (g (f a)) := rfl
  rw [henc, hgf a (c.dec_used _ _ _ ha).1]
  exact hc _ _ _ ha

theorem Canonical.choose {c : Codec ι} {kind : α → ι} {d : ι → Codec α} {hkind}
    (hc : c.Canonical) (hd : ∀ i, (d i).Canonical) : (c.choose kind d hkind).Canonical := by
  intro bs a rest h
  simp only [Codec.choose, Option.bind_eq_bind, Option.bind_eq_some_iff, Prod.exists] at h
  obtain ⟨i, bs₁, hi, ha⟩ := h
  obtain rfl := hkind i a ((d i).dec_used _ _ _ ha).1
  rw [hc _ _ _ hi, hd _ _ _ _ ha]
  exact (List.append_assoc _ _ _).symm

theorem byte_fixed : byte.Fixed 1 := by
  constructor
  · intro _ _
    rfl
  · intro bs h
    cases bs with
    | nil => cases h
    | cons b bs => rfl

theorem unit_fixed : unit.Fixed 0 := ⟨fun _ _ => rfl, fun _ _ => rfl⟩

theorem Fixed.seq (hc : c.Fixed m) (hd : d.Fixed n) : (c.seq d).Fixed (m + n) := by
  constructor
  · intro x hx
    show (c.enc x.1 ++ d.enc x.2).length = m + n
    rw [List.length_append, hc.length _ hx.1, hd.length _ hx.2]
  · intro bs h
    obtain ⟨⟨a, rest⟩, ha⟩ := Option.isSome_iff_exists.mp (hc.total bs (by omega))
    have hrest := hc.length_of_dec ha
    obtain ⟨⟨b, rest'⟩, hb⟩ := Option.isSome_iff_exists.mp (hd.total rest (by omega))
    show ((c.dec bs).bind fun (a, bs) => (d.dec bs).bind fun (b, bs) => some ((a, b), bs)).isSome
    rw [ha, Option.bind_some]
    show ((d.dec rest).bind fun (b, bs) => some ((a, b), bs)).isSome
    rw [hb]
    rfl

theorem Fixed.map {f : α → β} {g : β → α} {hgf} (hc : c.Fixed n) : (c.map f g hgf).Fixed n := by
  constructor
  · intro b hb
    exact hc.length _ hb.1
  · intro bs h
    show ((c.dec bs).map fun (b, rest) => (f b, rest)).isSome
    rw [Option.isSome_map]
    exact hc.total bs h

theorem skip_fixed {b : β} {hd : d.Fixed n} {hb : d.Valid b} : (d.skip b hd hb).Fixed n := by
  constructor
  · intro _ _
    exact hd.length _ hb
  · intro bs h
    show ((d.dec bs).map fun (_, rest) => ((), rest)).isSome
    rw [Option.isSome_map]
    exact hd.total bs h

section Within

variable [Inhabited α] {s : Codec (List UInt8)} {hc : c.Fixed n} {hcanon : c.Canonical}
  {hs : ∀ l, s.Valid l → l.length = n}

theorem within_canonical (h : s.Canonical) : (c.within s hc hcanon hs).Canonical := h.map

theorem within_fixed (h : s.Fixed m) : (c.within s hc hcanon hs).Fixed m := h.map

/-- What a carrier of all strings of `n` bytes carries are the values of the inner format. -/
theorem within_valid (hall : ∀ l, l.length = n → s.Valid l) {a : α} :
    (c.within s hc hcanon hs).Valid a ↔ c.Valid a := by
  constructor
  · rintro ⟨hvalid, hread⟩
    obtain ⟨b, hb⟩ := Option.isSome_iff_exists.mp
      ((tryFromSlice_isSome_iff hc).mpr (hs _ hvalid))
    have hba : (c.tryFromSlice (c.enc a)).getD default = a := hread
    rw [hb, Option.getD_some] at hba
    rw [← hba]
    exact ((tryFromSlice_eq_some hcanon).mp hb).1
  · intro ha
    refine ⟨hall _ (hc.length a ha), ?_⟩
    show (c.tryFromSlice (c.enc a)).getD default = a
    rw [tryFromSlice_enc ha, Option.getD_some]

end Within

end Inherited

/-! ### Words -/

/-- A byte in front of a little-endian word. -/
def lowByte (c : Codec ℕ) : Codec ℕ :=
  (byte.seq c).map (fun x => x.1.toNat + 256 * x.2) (fun x => (UInt8.ofNat x, x / 256))
    fun ⟨b, x⟩ _ => by
      have hb := b.toNat_lt
      refine Prod.ext (UInt8.toNat_inj.mp ?_) ?_
      · simp
      · simp only
        omega

/-- A byte behind a big-endian word. -/
def lastByte (c : Codec ℕ) : Codec ℕ :=
  (c.seq byte).map (fun x => 256 * x.1 + x.2.toNat) (fun x => (x / 256, UInt8.ofNat x))
    fun ⟨x, b⟩ _ => by
      have hb := b.toNat_lt
      refine Prod.ext ?_ (UInt8.toNat_inj.mp ?_)
      · simp only
        omega
      · simp

/-- The number zero, in no bytes. -/
def zero : Codec ℕ := unit.map (fun _ => 0) (fun _ => ()) fun _ _ => rfl

/-- A little-endian word of `n` bytes. -/
def word : ℕ → Codec ℕ
  | 0 => zero
  | n + 1 => (word n).lowByte

/-- A big-endian word of `n` bytes. -/
def wordBE : ℕ → Codec ℕ
  | 0 => zero
  | n + 1 => (wordBE n).lastByte

section Words

variable {n : ℕ} {x : ℕ}

@[simp] theorem word_valid : (word n).Valid x ↔ x < 2 ^ (8 * n) := by
  induction n generalizing x with
  | zero =>
    rw [Nat.mul_zero, pow_zero, Nat.lt_one_iff]
    exact ⟨fun h => h.2.symm, fun h => ⟨trivial, h.symm⟩⟩
  | succ n ih =>
    have hvalid : (word (n + 1)).Valid x ↔
        (True ∧ (word n).Valid (x / 256)) ∧ (UInt8.ofNat x).toNat + 256 * (x / 256) = x := Iff.rfl
    have hmod : (UInt8.ofNat x).toNat + 256 * (x / 256) = x := by
      rw [UInt8.toNat_ofNat']
      omega
    rw [hvalid, ih, hmod, true_and, eq_self, and_true, Nat.mul_succ, pow_add]
    exact Nat.div_lt_iff_lt_mul (by norm_num)

@[simp] theorem wordBE_valid : (wordBE n).Valid x ↔ x < 2 ^ (8 * n) := by
  induction n generalizing x with
  | zero =>
    rw [Nat.mul_zero, pow_zero, Nat.lt_one_iff]
    exact ⟨fun h => h.2.symm, fun h => ⟨trivial, h.symm⟩⟩
  | succ n ih =>
    have hvalid : (wordBE (n + 1)).Valid x ↔
        ((wordBE n).Valid (x / 256) ∧ True) ∧ 256 * (x / 256) + (UInt8.ofNat x).toNat = x := Iff.rfl
    have hmod : 256 * (x / 256) + (UInt8.ofNat x).toNat = x := by
      rw [UInt8.toNat_ofNat']
      omega
    rw [hvalid, ih, hmod, and_true, eq_self, and_true, Nat.mul_succ, pow_add]
    exact Nat.div_lt_iff_lt_mul (by norm_num)

theorem zero_canonical : zero.Canonical := unit_canonical.map

theorem zero_fixed : zero.Fixed 0 := unit_fixed.map

theorem word_canonical : (word n).Canonical := by
  induction n with
  | zero => exact zero_canonical
  | succ n ih =>
    rw [word, lowByte]
    exact (byte_canonical.seq ih).map

theorem wordBE_canonical : (wordBE n).Canonical := by
  induction n with
  | zero => exact zero_canonical
  | succ n ih =>
    rw [wordBE, lastByte]
    exact (ih.seq byte_canonical).map

theorem word_fixed : (word n).Fixed n := by
  induction n with
  | zero => exact zero_fixed
  | succ n ih =>
    rw [word, lowByte, Nat.add_comm]
    exact (byte_fixed.seq ih).map

theorem wordBE_fixed : (wordBE n).Fixed n := by
  induction n with
  | zero => exact zero_fixed
  | succ n ih =>
    rw [wordBE, lastByte]
    exact (ih.seq byte_fixed).map

end Words

/-- Zero is written in zeros. -/
theorem word_enc_zero (n : ℕ) : (word n).enc 0 = List.replicate n 0 := by
  induction n with
  | zero => rfl
  | succ n ih => exact congrArg (0 :: ·) ih

theorem wordBE_enc_zero (n : ℕ) : (wordBE n).enc 0 = List.replicate n 0 := by
  induction n with
  | zero => rfl
  | succ n ih =>
    rw [List.replicate_succ', ← ih]
    rfl

/-! ### Vectors -/

/-- A value in front of a list. -/
def cons [Inhabited α] (c : Codec α) (d : Codec (List α)) : Codec (List α) :=
  (c.seq d).map (fun x => x.1 :: x.2) (fun l => (l.headD default, l.tail)) fun _ _ => rfl

/-- Exactly `n` values. -/
def times [Inhabited α] (c : Codec α) : ℕ → Codec (List α)
  | 0 => unit.map (fun _ => []) (fun _ => ()) fun _ _ => rfl
  | n + 1 => c.cons (times c n)

section Vectors

variable [Inhabited α] {c : Codec α} {l : List α} {n : ℕ}

theorem times_valid : (c.times n).Valid l ↔ l.length = n ∧ ∀ a ∈ l, c.Valid a := by
  induction n generalizing l with
  | zero =>
    rw [List.length_eq_zero_iff]
    exact ⟨fun h => ⟨h.2.symm, fun a ha => absurd (h.2.symm ▸ ha) List.not_mem_nil⟩,
      fun h => ⟨trivial, h.1.symm⟩⟩
  | succ n ih =>
    have hvalid : (c.times (n + 1)).Valid l ↔
        (c.Valid (l.headD default) ∧ (c.times n).Valid l.tail) ∧ l.headD default :: l.tail = l :=
      Iff.rfl
    rw [hvalid, ih]
    cases l with
    | nil => simp
    | cons a l => simp [and_left_comm]

theorem times_fixed {k : ℕ} (hc : c.Fixed k) : (c.times n).Fixed (n * k) := by
  induction n with
  | zero =>
    rw [Nat.zero_mul, times]
    exact unit_fixed.map
  | succ n ih =>
    rw [times, cons, Nat.succ_mul, Nat.add_comm]
    exact (hc.seq ih).map

/-- Bytes are written as they are. -/
theorem times_byte_enc {l : List UInt8} (h : l.length = n) : (byte.times n).enc l = l := by
  induction n generalizing l with
  | zero => exact (List.eq_nil_of_length_eq_zero h).symm
  | succ n ih =>
    cases l with
    | nil => cases h
    | cons b l => exact congrArg (b :: ·) (ih (Nat.succ.inj h))

theorem times_canonical (hc : c.Canonical) : (c.times n).Canonical := by
  induction n with
  | zero => exact unit_canonical.map
  | succ n ih =>
    rw [times, cons]
    exact (hc.seq ih).map

end Vectors

/-- An array of `n` values, one after the other. -/
def array [Inhabited α] (c : Codec α) (n : ℕ) : Codec (Fin n → α) :=
  (c.times n).map (fun l i => l.getD i default) List.ofFn fun l hl => by
    obtain ⟨hlen, -⟩ := times_valid.mp hl
    refine List.ext_getElem (by simp [hlen]) fun i hi hi' => ?_
    simp [hi']

/-- A vector: its length in four bytes, and its values. -/
def vec [Inhabited α] (c : Codec α) : Codec (List α) :=
  (word 4).choose List.length c.times fun _ _ h => (times_valid.mp h).1

section Vectors

variable [Inhabited α] {c : Codec α} {l : List α} {n : ℕ}

@[simp] theorem array_valid {f : Fin n → α} : (c.array n).Valid f ↔ ∀ i, c.Valid (f i) := by
  have hvalid : (c.array n).Valid f ↔ (c.times n).Valid (List.ofFn f) ∧
      (fun i : Fin n => (List.ofFn f).getD i default) = f := Iff.rfl
  rw [hvalid, times_valid]
  simp

theorem array_fixed {k : ℕ} (hc : c.Fixed k) : (c.array n).Fixed (n * k) := (times_fixed hc).map

theorem array_canonical (hc : c.Canonical) : (c.array n).Canonical := (times_canonical hc).map

@[simp] theorem vec_valid : c.vec.Valid l ↔ l.length < 2 ^ 32 ∧ ∀ a ∈ l, c.Valid a := by
  have hvalid : c.vec.Valid l ↔ (word 4).Valid l.length ∧ (c.times l.length).Valid l := Iff.rfl
  rw [hvalid, word_valid, times_valid]
  simp

theorem vec_canonical (hc : c.Canonical) : c.vec.Canonical :=
  word_canonical.choose fun _ => times_canonical hc

end Vectors

end Codec
