import ChiefLiquidity.Wire.Instruction

/-!
# The bytes of the records

`state.rs` again, now as the Borsh layouts of the three account types, padding and reserved bytes
included. An account of the program is exactly as long as its type says, so the length of the bytes
tells the types apart.

## Fields the model leaves out

The records of `State` have no padding and no reserved bytes. The layouts have them, as arrays that
the reader takes no notice of and that are written as zeros. So the layouts are not canonical, two
byte strings may be the same record, but they are of a fixed length, and every string of that length
is some record.

## Keys and discriminators

A key is an array of bytes in Borsh, and a number here. It is the number that its bytes spell from
the first one on, so keys compare as their arrays do, which is what the ascending order of the loans
of a band is about. Discriminators are read in the same way.

## Main definitions

* `Pool.codec`, `Loan.codec`, `LoanIndexBand.codec` — the layouts
* `Pool.len`, `Loan.len`, `LoanIndexBand.len` — the account sizes
* `Pool.Fits`, `Loan.Fits`, `LoanIndexBand.Fits` — every field is a word of its type

## Main results

* `Pool.codec_valid` and its siblings — a record can be written exactly when it fits
* `Pool.codec_fixed` and its siblings — the bytes of an account are as many as its type says, and
  as many bytes are always a record
-/

namespace ChiefLiquidity

open Borsh

/-! ### Bitmaps -/

namespace Bitmap

/-- Sixteen bytes as a bitmap. -/
def bytesCodec : Codec Bitmap :=
  (Codec.byte.array 16).map (fun f i => (f i).toBitVec) (fun bitmap i => UInt8.ofBitVec (bitmap i))
    fun _ _ => rfl

theorem bytesCodec_fixed : bytesCodec.Fixed 16 := (Codec.array_fixed Codec.byte_fixed).map

theorem bytesCodec_canonical : bytesCodec.Canonical :=
  (Codec.array_canonical Codec.byte_canonical).map

/-- The layout of a bitmap, which is an array of bytes. -/
def codec [Borsh] : Codec Bitmap := arrayOf bytesCodec 16 bytesCodec_fixed bytesCodec_canonical

@[simp] theorem codec_valid [Borsh] (bitmap : Bitmap) : codec.Valid bitmap :=
  arrayOf_valid.mpr ⟨Codec.array_valid.mpr fun _ => trivial, rfl⟩

theorem codec_fixed [Borsh] : codec.Fixed 16 := arrayOf_fixed

end Bitmap

/-! ### Pool -/

namespace Pool

/-- `discriminator`, the identity and the bumps. -/
def identityCodec [Borsh] :=
  u64BE.seq (pubkey.seq (pubkey.seq (pubkey.seq (pubkey.seq (pubkey.seq (pubkey.seq
    (u8.seq (u8.seq (u8.seq u8)))))))))

/-- The reserve accounting. -/
def totalsCodec [Borsh] := u128.seq (u128.seq (u128.seq u128))

/-- The curve, the collateral health and the rate curve, with `_curve_pad` and `_lending_pad`. -/
def configCodec [Borsh] :=
  u8.seq (u16.seq (u16.seq ((pad 3).seq (u16.seq (u16.seq ((pad 2).seq
    (u16.seq (u16.seq (u16.seq u16)))))))))

/-- The borrow indexes, the counters and the treasury. -/
def countersCodec [Borsh] :=
  u128.seq (u128.seq (u64.seq (u64.seq (u64.seq (u64.seq (u64.seq u64))))))

/-- The bitmaps and the reference price, with `_reserved`. -/
def marketCodec [Borsh] := Bitmap.codec.seq (Bitmap.codec.seq (u128.seq (u64.seq (pad 8))))

/-- The layout of a `Pool`. -/
def codec [Borsh] : Codec Pool :=
  (identityCodec.seq (totalsCodec.seq (configCodec.seq (countersCodec.seq marketCodec)))).map
    (fun ((discriminator, mintA, mintB, vaultA, vaultB, lpMint, authority, poolBump, vaultABump,
        vaultBBump, lpMintBump),
      (totalDebtA, totalDebtB, totalCollateralA, totalCollateralB),
      (curveKind, swapFeeBps, protocolFeeBps, _, liqRatioBps, maxLtvBps, _,
        interestBaseBpsPerYear, interestSlope1BpsPerYear, interestSlope2BpsPerYear,
        interestKinkBps),
      (borrowIndexAWad, borrowIndexBWad, lastIndexUpdateSlot, openLoans, nextLoanNonce,
        lastUpdateSlot, protocolFeesA, protocolFeesB),
      (bandBitmapFall, bandBitmapRise, refPriceWad, refPriceSlot, _)) =>
      { discriminator, mintA, mintB, vaultA, vaultB, lpMint, authority, poolBump, vaultABump
        vaultBBump, lpMintBump, totalDebtA, totalDebtB, totalCollateralA, totalCollateralB
        curveKind, swapFeeBps, protocolFeeBps, liqRatioBps, maxLtvBps, interestBaseBpsPerYear
        interestSlope1BpsPerYear, interestSlope2BpsPerYear, interestKinkBps, borrowIndexAWad
        borrowIndexBWad, lastIndexUpdateSlot, openLoans, nextLoanNonce, lastUpdateSlot
        protocolFeesA, protocolFeesB, bandBitmapFall, bandBitmapRise, refPriceWad, refPriceSlot })
    (fun p => ((p.discriminator, p.mintA, p.mintB, p.vaultA, p.vaultB, p.lpMint, p.authority,
        p.poolBump, p.vaultABump, p.vaultBBump, p.lpMintBump),
      (p.totalDebtA, p.totalDebtB, p.totalCollateralA, p.totalCollateralB),
      (p.curveKind, p.swapFeeBps, p.protocolFeeBps, (), p.liqRatioBps, p.maxLtvBps, (),
        p.interestBaseBpsPerYear, p.interestSlope1BpsPerYear, p.interestSlope2BpsPerYear,
        p.interestKinkBps),
      (p.borrowIndexAWad, p.borrowIndexBWad, p.lastIndexUpdateSlot, p.openLoans, p.nextLoanNonce,
        p.lastUpdateSlot, p.protocolFeesA, p.protocolFeesB),
      (p.bandBitmapFall, p.bandBitmapRise, p.refPriceWad, p.refPriceSlot, ())))
    fun _ _ => rfl

/-- `Pool::LEN`. -/
def len : ℕ :=
  8 + 32 * 6 + 4 + 16 * 4 + (1 + 2 + 2 + 3) + (2 * 2 + 2) + 2 * 4 + (16 * 2 + 8) + 8 * 3 + 8 * 2 +
    16 * 2 + (16 + 8) + 8

/-- What a pool is set up with is made of words. -/
structure TermsFit (p : Pool) : Prop where
  discriminator : p.discriminator < 2 ^ 64
  mintA : p.mintA < 2 ^ 256
  mintB : p.mintB < 2 ^ 256
  vaultA : p.vaultA < 2 ^ 256
  vaultB : p.vaultB < 2 ^ 256
  lpMint : p.lpMint < 2 ^ 256
  authority : p.authority < 2 ^ 256
  poolBump : p.poolBump < 2 ^ 8
  vaultABump : p.vaultABump < 2 ^ 8
  vaultBBump : p.vaultBBump < 2 ^ 8
  lpMintBump : p.lpMintBump < 2 ^ 8
  curveKind : p.curveKind < 2 ^ 8
  swapFeeBps : p.swapFeeBps < 2 ^ 16
  protocolFeeBps : p.protocolFeeBps < 2 ^ 16
  liqRatioBps : p.liqRatioBps < 2 ^ 16
  maxLtvBps : p.maxLtvBps < 2 ^ 16
  interestBaseBpsPerYear : p.interestBaseBpsPerYear < 2 ^ 16
  interestSlope1BpsPerYear : p.interestSlope1BpsPerYear < 2 ^ 16
  interestSlope2BpsPerYear : p.interestSlope2BpsPerYear < 2 ^ 16
  interestKinkBps : p.interestKinkBps < 2 ^ 16

/-- Every field of a pool is a word of its type. -/
structure Fits (p : Pool) : Prop where
  terms : p.terms.TermsFit
  totalDebtA : p.totalDebtA < 2 ^ 128
  totalDebtB : p.totalDebtB < 2 ^ 128
  totalCollateralA : p.totalCollateralA < 2 ^ 128
  totalCollateralB : p.totalCollateralB < 2 ^ 128
  borrowIndexAWad : p.borrowIndexAWad < 2 ^ 128
  borrowIndexBWad : p.borrowIndexBWad < 2 ^ 128
  lastIndexUpdateSlot : p.lastIndexUpdateSlot < 2 ^ 64
  openLoans : p.openLoans < 2 ^ 64
  nextLoanNonce : p.nextLoanNonce < 2 ^ 64
  lastUpdateSlot : p.lastUpdateSlot < 2 ^ 64
  protocolFeesA : p.protocolFeesA < 2 ^ 64
  protocolFeesB : p.protocolFeesB < 2 ^ 64
  refPriceWad : p.refPriceWad < 2 ^ 128
  refPriceSlot : p.refPriceSlot < 2 ^ 64

/-- **A pool can be written exactly when it fits.** -/
theorem codec_valid [Borsh] {p : Pool} : codec.Valid p ↔ p.Fits := by
  simp only [codec, identityCodec, totalsCodec, configCodec, countersCodec, marketCodec, Codec.map,
    Codec.seq, pad_valid, int_valid, pubkey_valid, u64BE_valid, Bitmap.codec_valid, Nat.reduceMul,
    true_and, and_true]
  constructor
  · rintro ⟨⟨hdisc, hma, hmb, hva, hvb, hlp, hauth, hpb, hvab, hvbb, hlb⟩, ⟨hda, hdb, hca, hcb⟩,
      ⟨hk, hs, hpf, hr, hm, hi0, hi1, hi2, hi3⟩, ⟨hia, hib, hli, ho, hn, hlu, hfa, hfb⟩, hrp, hrs⟩
    exact ⟨⟨hdisc, hma, hmb, hva, hvb, hlp, hauth, hpb, hvab, hvbb, hlb, hk, hs, hpf, hr, hm, hi0,
      hi1, hi2, hi3⟩, hda, hdb, hca, hcb, hia, hib, hli, ho, hn, hlu, hfa, hfb, hrp, hrs⟩
  · rintro ⟨⟨hdisc, hma, hmb, hva, hvb, hlp, hauth, hpb, hvab, hvbb, hlb, hk, hs, hpf, hr, hm, hi0,
      hi1, hi2, hi3⟩, hda, hdb, hca, hcb, hia, hib, hli, ho, hn, hlu, hfa, hfb, hrp, hrs⟩
    exact ⟨⟨hdisc, hma, hmb, hva, hvb, hlp, hauth, hpb, hvab, hvbb, hlb⟩, ⟨hda, hdb, hca, hcb⟩,
      ⟨hk, hs, hpf, hr, hm, hi0, hi1, hi2, hi3⟩, ⟨hia, hib, hli, ho, hn, hlu, hfa, hfb⟩, hrp, hrs⟩

/-- **Pools are the byte strings of the length of their accounts.** -/
theorem codec_fixed [Borsh] : codec.Fixed len := by
  have hkey : pubkey.Fixed 32 := pubkey_fixed
  have h8 : u8.Fixed 1 := int_fixed
  have h16 : u16.Fixed 2 := int_fixed
  have h64 : u64.Fixed 8 := int_fixed
  have h128 : u128.Fixed 16 := int_fixed
  have hidentity : identityCodec.Fixed _ :=
    u64BE_fixed.seq (hkey.seq (hkey.seq (hkey.seq (hkey.seq (hkey.seq (hkey.seq
      (h8.seq (h8.seq (h8.seq h8)))))))))
  have htotals : totalsCodec.Fixed _ := h128.seq (h128.seq (h128.seq h128))
  have hconfig : configCodec.Fixed _ :=
    h8.seq (h16.seq (h16.seq (pad_fixed.seq (h16.seq (h16.seq (pad_fixed.seq
      (h16.seq (h16.seq (h16.seq h16)))))))))
  have hcounters : countersCodec.Fixed _ :=
    h128.seq (h128.seq (h64.seq (h64.seq (h64.seq (h64.seq (h64.seq h64))))))
  have hmarket : marketCodec.Fixed _ :=
    Bitmap.codec_fixed.seq (Bitmap.codec_fixed.seq (h128.seq (h64.seq pad_fixed)))
  rw [codec]
  exact (hidentity.seq (htotals.seq (hconfig.seq (hcounters.seq hmarket)))).map

end Pool

/-! ### Loan -/

namespace Loan

/-- The layout of a `Loan`, with `_status_pad` and `_reserved`. -/
def codec [Borsh] : Codec Loan :=
  ((u64BE.seq (pubkey.seq (pubkey.seq (u64.seq (u8.seq u8))))).seq
    ((u128.seq (u128.seq (u128.seq (u64.seq (u128.seq u8))))).seq
      (u8.seq ((pad 6).seq (u32.seq (u64.seq (u64.seq (pad 28)))))))).map
    (fun ((discriminator, pool, borrower, nonce, bump, sides),
      (collateralAmount, debtPrincipal, borrowIndexSnapshotWad, lastTouchSlot, triggerPriceWad,
        triggerDirection),
      (status, _, bandId, openedSlot, closedSlot, _)) =>
      { discriminator, pool, borrower, nonce, bump, sides, collateralAmount, debtPrincipal
        borrowIndexSnapshotWad, lastTouchSlot, triggerPriceWad, triggerDirection, status, bandId
        openedSlot, closedSlot })
    (fun l => ((l.discriminator, l.pool, l.borrower, l.nonce, l.bump, l.sides),
      (l.collateralAmount, l.debtPrincipal, l.borrowIndexSnapshotWad, l.lastTouchSlot,
        l.triggerPriceWad, l.triggerDirection),
      (l.status, (), l.bandId, l.openedSlot, l.closedSlot, ())))
    fun _ _ => rfl

/-- `Loan::LEN`. -/
def len : ℕ :=
  8 + 32 * 2 + 8 + 1 + 1 + 16 * 3 + 8 + 16 + 1 + (1 + 6) + 4 + 8 * 2 + 28

/-- Every field of a loan is a word of its type. -/
structure Fits (l : Loan) : Prop where
  discriminator : l.discriminator < 2 ^ 64
  pool : l.pool < 2 ^ 256
  borrower : l.borrower < 2 ^ 256
  nonce : l.nonce < 2 ^ 64
  bump : l.bump < 2 ^ 8
  sides : l.sides < 2 ^ 8
  collateralAmount : l.collateralAmount < 2 ^ 128
  debtPrincipal : l.debtPrincipal < 2 ^ 128
  borrowIndexSnapshotWad : l.borrowIndexSnapshotWad < 2 ^ 128
  lastTouchSlot : l.lastTouchSlot < 2 ^ 64
  triggerPriceWad : l.triggerPriceWad < 2 ^ 128
  triggerDirection : l.triggerDirection < 2 ^ 8
  status : l.status < 2 ^ 8
  bandId : l.bandId < 2 ^ 32
  openedSlot : l.openedSlot < 2 ^ 64
  closedSlot : l.closedSlot < 2 ^ 64

/-- **A loan can be written exactly when it fits.** -/
theorem codec_valid [Borsh] {l : Loan} : codec.Valid l ↔ l.Fits := by
  simp only [codec, Codec.map, Codec.seq, pad_valid, int_valid, pubkey_valid, u64BE_valid,
    Nat.reduceMul, true_and, and_true]
  constructor
  · rintro ⟨⟨hdisc, hpool, hborrower, hnonce, hbump, hsides⟩, ⟨hc, hd, hindex, htouch, htrig, hdir⟩,
      hstatus, hband, hopened, hclosed⟩
    exact ⟨hdisc, hpool, hborrower, hnonce, hbump, hsides, hc, hd, hindex, htouch, htrig, hdir,
      hstatus, hband, hopened, hclosed⟩
  · rintro ⟨hdisc, hpool, hborrower, hnonce, hbump, hsides, hc, hd, hindex, htouch, htrig, hdir,
      hstatus, hband, hopened, hclosed⟩
    exact ⟨⟨hdisc, hpool, hborrower, hnonce, hbump, hsides⟩, ⟨hc, hd, hindex, htouch, htrig, hdir⟩,
      hstatus, hband, hopened, hclosed⟩

/-- **Loans are the byte strings of the length of their accounts.** -/
theorem codec_fixed [Borsh] : codec.Fixed len := by
  have hkey : pubkey.Fixed 32 := pubkey_fixed
  have h8 : u8.Fixed 1 := int_fixed
  have h64 : u64.Fixed 8 := int_fixed
  have h128 : u128.Fixed 16 := int_fixed
  rw [codec]
  exact ((u64BE_fixed.seq (hkey.seq (hkey.seq (h64.seq (h8.seq h8))))).seq
    ((h128.seq (h128.seq (h128.seq (h64.seq (h128.seq h8))))).seq
      (h8.seq (pad_fixed.seq (int_fixed.seq (h64.seq (h64.seq pad_fixed))))))).map

end Loan

/-! ### LoanIndexBand -/

namespace LoanIndexBand

/-- The layout of a `LoanIndexBand`, with `_pad`, `_pad2` and `_reserved`. -/
def codec [Borsh] : Codec LoanIndexBand :=
  (u64BE.seq (pubkey.seq (u32.seq (u8.seq (u8.seq ((pad 2).seq (u32.seq ((pad 4).seq
    (pad 32))))))))).map
    (fun (discriminator, pool, bandId, direction, bump, _, count, _, _) =>
      { discriminator, pool, bandId, direction, bump, count })
    (fun b => (b.discriminator, b.pool, b.bandId, b.direction, b.bump, (), b.count, (), ()))
    fun _ _ => rfl

/-- `LoanIndexBand::LEN`. -/
def len : ℕ := 8 + 32 + (4 + 1 + 1 + 2) + (4 + 4) + 32

/-- Every field of a band is a word of its type. -/
structure Fits (b : LoanIndexBand) : Prop where
  discriminator : b.discriminator < 2 ^ 64
  pool : b.pool < 2 ^ 256
  bandId : b.bandId < 2 ^ 32
  direction : b.direction < 2 ^ 8
  bump : b.bump < 2 ^ 8
  count : b.count < 2 ^ 32

/-- **A band can be written exactly when it fits.** -/
theorem codec_valid [Borsh] {b : LoanIndexBand} : codec.Valid b ↔ b.Fits := by
  simp only [codec, Codec.map, Codec.seq, pad_valid, int_valid, pubkey_valid, u64BE_valid,
    Nat.reduceMul, true_and, and_true]
  constructor
  · rintro ⟨hdisc, hpool, hband, hdir, hbump, hcount⟩
    exact ⟨hdisc, hpool, hband, hdir, hbump, hcount⟩
  · rintro ⟨hdisc, hpool, hband, hdir, hbump, hcount⟩
    exact ⟨hdisc, hpool, hband, hdir, hbump, hcount⟩

/-- **Bands are the byte strings of the length of their accounts.** -/
theorem codec_fixed [Borsh] : codec.Fixed len := by
  have h8 : u8.Fixed 1 := int_fixed
  have h32 : u32.Fixed 4 := int_fixed
  rw [codec]
  exact (u64BE_fixed.seq (pubkey_fixed.seq (h32.seq (h8.seq (h8.seq (pad_fixed.seq
    (h32.seq (pad_fixed.seq pad_fixed)))))))).map

end LoanIndexBand

/-! ### Accounts -/

/-- The bytes of an account of the program. -/
def AccountData.record [Borsh] : AccountData → Option (List UInt8)
  | .pool p => some (Pool.codec.enc p)
  | .loan l => some (Loan.codec.enc l)
  | .band b => some (LoanIndexBand.codec.enc b)
  | _ => none

/-- A record that fits its layout. -/
def AccountData.Fits : AccountData → Prop
  | .pool p => p.Fits
  | .loan l => l.Fits
  | .band b => b.Fits
  | _ => True

/-! A blank record fits too. -/

theorem Pool.fits_zeroed : Pool.zeroed.Fits := by
  have hword : ∀ n, 0 < 2 ^ n := Nat.two_pow_pos
  constructor <;> first | exact hword _ | (constructor <;> exact hword _)

theorem Loan.fits_zeroed : Loan.zeroed.Fits := by
  constructor <;> exact Nat.two_pow_pos _

theorem LoanIndexBand.fits_zeroed : LoanIndexBand.zeroed.Fits := by
  constructor <;> exact Nat.two_pow_pos _

end ChiefLiquidity
