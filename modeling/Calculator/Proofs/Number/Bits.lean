import Calculator.Number.Binary64

/- Floats and their bits. The bits of a float determine it, and a float made from bits that are not
   those of a NaN has these bits again. -/
namespace Calculator

open Float.Model (Format)
open Float.Model.UnpackedFloat

def signBit : Nat := 0x8000000000000000

theorem toBitVec_ofBitVec (v : BitVec 1) : (Sign.ofBitVec v).toBitVec = v := by
  revert v
  decide

theorem packComponents_unpack (b : BitVec Format.binary64.numBits) :
    packComponents Format.binary64 (Sign.ofBitVec (unpackSign b)) (unpackExponent b)
      (unpackMantissa b) = b := by
  have high : b.extractLsb 63 63 ++ b.extractLsb 62 52 = b.extractLsb' 52 12 :=
    BitVec.extractLsb'_append_extractLsb'_eq_extractLsb' rfl
  have whole : b.extractLsb' 52 12 ++ b.extractLsb 51 0 = b.extractLsb' 0 64 :=
    BitVec.extractLsb'_append_extractLsb'_eq_extractLsb' rfl
  rw [packComponents, toBitVec_ofBitVec]
  exact (congrArg (· ++ b.extractLsb 51 0) high).trans (whole.trans BitVec.extractLsb'_eq_self)

theorem stored_exponent (n bias width : Int) : n - (bias + width) + bias + width = n := by omega

theorem stored_exponent_succ (n bias width : Int) :
    n - (bias + width) + 1 + bias + width = n + 1 := by omega

theorem log2_unpackMantissa (v : BitVec 52) (nonzero : v ≠ 0#52) :
    v.toNat.log2 + 1 ≠ Format.binary64.mantissaBits := by
  have below : v.toNat.log2 < 52 :=
    (Nat.log2_lt (fun zero => nonzero (BitVec.eq_of_toNat_eq zero))).mpr v.isLt
  have bits : Format.binary64.mantissaBits = 53 := rfl
  omega

theorem one_append (v : BitVec 52) : (1#1 ++ v).toNat = hiddenBit + v.toNat := by
  rw [BitVec.toNat_append, ← Nat.shiftLeft_add_eq_or_of_lt v.isLt]
  rfl

theorem log2_one_append (v : BitVec 52) :
    (1#1 ++ v).toNat.log2 + 1 = Format.binary64.mantissaBits := by
  have fraction := v.isLt
  have hidden : hiddenBit = 2 ^ 52 := rfl
  have nonzero : hiddenBit + v.toNat ≠ 0 := by omega
  have above := (Nat.le_log2 (k := 52) nonzero).mpr (by omega)
  have below := (Nat.log2_lt (k := 53) nonzero).mpr (by omega)
  have bits : Format.binary64.mantissaBits = 53 := rfl
  rw [one_append]
  omega

theorem pack_finite (s : Sign) (m : Nat) (e : Int) (positive : 0 < m) :
    pack Format.binary64 (.finite s m e positive) =
      if 2048 ≤ (e + Format.binary64.exponentBias + (52 : Nat)).toNat + 1 then
        packedInfinity Format.binary64 s
      else if m.log2 + 1 = Format.binary64.mantissaBits then
        packComponents Format.binary64 s
          (BitVec.ofNat 11 (e + Format.binary64.exponentBias + (52 : Nat)).toNat)
          (BitVec.ofNat 52 m)
      else packComponents Format.binary64 s 0#11 (BitVec.ofNat 52 m) := rfl

theorem mantissa_append (v : BitVec 52) : BitVec.ofNat 52 (hiddenBit + v.toNat) = v := by
  have hidden : hiddenBit = 2 ^ 52 := rfl
  have fraction := v.isLt
  apply BitVec.eq_of_toNat_eq
  rw [BitVec.toNat_ofNat]
  omega

theorem pack_unpack {b : BitVec Format.binary64.numBits} (valid : Format.binary64.Valid b) :
    pack Format.binary64 (unpack Format.binary64 b) = b := by
  have whole := packComponents_unpack b
  have exponent : (unpackExponent b).toNat < 2 ^ 11 := (unpackExponent b).isLt
  unfold unpack
  dsimp only
  by_cases top : unpackExponent b = -1#_
  · rw [if_pos top]
    by_cases none : unpackMantissa b = 0#_
    · rw [if_pos none]
      rwa [top, none] at whole
    · rw [if_neg none]
      exact (valid.eq_packedNaN top none).symm
  · rw [if_neg top]
    by_cases bottom : unpackExponent b = 0#_
    · rw [if_pos bottom]
      by_cases none : unpackMantissa b = 0#_
      · rw [dif_pos none]
        rwa [bottom, none] at whole
      · rw [dif_neg none, pack_finite, stored_exponent_succ, bottom, if_neg (by decide),
          if_neg (log2_unpackMantissa _ none), BitVec.ofNat_toNat, BitVec.setWidth_eq]
        rwa [bottom] at whole
    · have last : (unpackExponent b).toNat ≠ 2 ^ 11 - 1 := fun same =>
        top (BitVec.eq_of_toNat_eq same)
      rw [if_neg bottom, pack_finite, stored_exponent, Int.toNat_natCast, if_neg (by omega),
        if_pos (log2_one_append _), one_append, mantissa_append, BitVec.ofNat_toNat,
        BitVec.setWidth_eq]
      exact whole

theorem toBits_injective {x y : Float} (same : x.toBits = y.toBits) : x = y := by
  obtain ⟨⟨xbits, xvalid⟩⟩ := x
  obtain ⟨⟨ybits, yvalid⟩⟩ := y
  obtain rfl : xbits = ybits := same
  rfl

theorem toBits_ofBits {bits : UInt64} (valid : Format.binary64.Valid bits.toBitVec) :
    (Float.ofBits bits).toBits = bits :=
  UInt64.toBitVec_inj.mp (pack_unpack valid)

theorem ofBits_toBits (x : Float) : Float.ofBits x.toBits = x :=
  toBits_injective (toBits_ofBits x.toModel.valid)

theorem unpackSign_toNat (b : BitVec Format.binary64.numBits) :
    (unpackSign b).toNat = b.toNat / signBit := by
  have top : (unpackSign b).toNat = b.toNat >>> 63 % 2 ^ 1 := BitVec.extractLsb_toNat 63 63 b
  have sign : signBit = 2 ^ 63 := rfl
  have width : b.toNat < 2 ^ 64 := b.isLt
  rw [top, Nat.shiftRight_eq_div_pow, sign]
  omega

theorem unpackExponent_toNat (b : BitVec Format.binary64.numBits) :
    (unpackExponent b).toNat = b.toNat / hiddenBit % 2048 := by
  have hidden : hiddenBit = 2 ^ 52 := rfl
  rw [hidden, ← Nat.shiftRight_eq_div_pow]
  exact BitVec.extractLsb_toNat 62 52 b

theorem unpackMantissa_toNat (b : BitVec Format.binary64.numBits) :
    (unpackMantissa b).toNat = b.toNat % hiddenBit := by
  have low : (unpackMantissa b).toNat = b.toNat >>> 0 % 2 ^ 52 := BitVec.extractLsb_toNat 51 0 b
  rw [low, Nat.shiftRight_zero]
  rfl

theorem mantissa_of_le {b : BitVec Format.binary64.numBits} (within : b.toNat ≤ infinityBits)
    (top : unpackExponent b = -1#_) : unpackMantissa b = 0#_ := by
  have limit : infinityBits = 2047 * hiddenBit := rfl
  have hidden : hiddenBit = 2 ^ 52 := rfl
  have field : b.toNat / hiddenBit % 2048 = 2047 := by
    rw [← unpackExponent_toNat, top]
    rfl
  apply BitVec.eq_of_toNat_eq
  rw [unpackMantissa_toNat]
  change b.toNat % hiddenBit = 0
  rw [hidden] at limit field ⊢
  omega

theorem valid_of_le {bits : UInt64} (within : bits.toNat ≤ infinityBits) :
    Format.binary64.Valid bits.toBitVec :=
  ⟨fun top some => absurd (mantissa_of_le within top) some⟩

theorem ofBits_toBits_toNat (x : Float) : Float.ofBits (UInt64.ofNat x.toBits.toNat) = x := by
  rw [UInt64.ofNat_toNat, ofBits_toBits]

theorem toBits_ofBits_ofNat {bits : Nat} (within : bits ≤ infinityBits) :
    (Float.ofBits (UInt64.ofNat bits)).toBits.toNat = bits := by
  have small : bits < 2 ^ 64 := Nat.lt_of_le_of_lt within (by decide)
  have whole : (UInt64.ofNat bits).toNat = bits := UInt64.toNat_ofNat_of_lt' small
  rw [toBits_ofBits (valid_of_le (by rwa [whole])), whole]

end Calculator
