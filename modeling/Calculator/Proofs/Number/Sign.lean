import Calculator.Number.Text
import Calculator.Proofs.Number.Binary64

/- The sign of a float is its top bit. Every float is a NaN, or a float without the sign, or the
   opposite of one; and there is only one NaN. -/
namespace Calculator

open Float.Model (Format UnpackedFloat)
open Float.Model.UnpackedFloat

def Binary64.opposite : Binary64 → Binary64
  | .nan => .nan
  | .infinite negative => .infinite !negative
  | .finite negative mantissa exponent => .finite (!negative) mantissa exponent

inductive Upward : UnpackedFloat → Prop where
  | zero : Upward (.zero .positive)
  | finite (mantissa : Nat) (exponent : Int) (some : 0 < mantissa) :
      Upward (.finite .positive mantissa exponent some)
  | infinity : Upward (.infinity .positive)

variable {x y : Float} {bits : Nat}

theorem unpackSign_of_lt {b : BitVec Format.binary64.numBits} (below : b.toNat < signBit) :
    unpackSign b = 0#1 := by
  apply BitVec.eq_of_toNat_eq
  rw [unpackSign_toNat]
  exact Nat.div_eq_of_lt below

theorem unpack_upward {b : BitVec Format.binary64.numBits} (within : b.toNat ≤ infinityBits) :
    Upward (unpack Format.binary64 b) := by
  have below : b.toNat < signBit := Nat.lt_of_le_of_lt within (by decide)
  unfold unpack
  dsimp only
  rw [unpackSign_of_lt below]
  by_cases top : unpackExponent b = -1#_
  · rw [if_pos top, if_pos (mantissa_of_le within top)]
    exact .infinity
  · rw [if_neg top]
    by_cases bottom : unpackExponent b = 0#_
    · rw [if_pos bottom]
      by_cases none : unpackMantissa b = 0#_
      · rw [dif_pos none]
        exact .zero
      · rw [dif_neg none]
        exact .finite ..
    · rw [if_neg bottom]
      exact .finite ..

theorem nonneg_of_le (within : x.toBits.toNat ≤ infinityBits) : 0 ≤ x ∧ x.isNaN = false := by
  have zero : (0 : Float).toModel.unpack = .zero .positive := by rfl
  have upward : Upward x.toModel.unpack := unpack_upward within
  have above (u : UnpackedFloat) (upward : Upward u) :
      (UnpackedFloat.zero .positive).le u = true ∧ u.isNaN = false := by
    cases upward <;> exact ⟨rfl, rfl⟩
  obtain ⟨least, number⟩ := above _ upward
  rw [← zero] at least
  exact ⟨decide_eq_true least, number⟩

theorem neg_finite {m n : Nat} {d e : Int} {left : 0 < m} {right : 0 < n} (mantissa : m = n)
    (exponent : d = e) :
    (UnpackedFloat.finite .positive m d left).neg = .finite .negative n e right := by
  subst mantissa exponent
  rfl

theorem neg_unpack {a b : BitVec Format.binary64.numBits} (signed : a.toNat = signBit + b.toNat) :
    (unpack Format.binary64 b).neg = unpack Format.binary64 a := by
  have width : a.toNat < 2 ^ 64 := a.isLt
  have sign : signBit = 2 ^ 63 := rfl
  have hidden : hiddenBit = 2 ^ 52 := rfl
  have exponent : unpackExponent b = unpackExponent a := by
    apply BitVec.eq_of_toNat_eq
    rw [unpackExponent_toNat, unpackExponent_toNat, hidden]
    omega
  have mantissa : unpackMantissa b = unpackMantissa a := by
    apply BitVec.eq_of_toNat_eq
    rw [unpackMantissa_toNat, unpackMantissa_toNat, hidden]
    omega
  have positive := unpackSign_of_lt (b := b) (by omega)
  have negative : unpackSign a = 1#1 := by
    apply BitVec.eq_of_toNat_eq
    rw [unpackSign_toNat, sign]
    change a.toNat / 2 ^ 63 = 1
    omega
  unfold unpack
  dsimp only
  -- the mantissa cannot be rewritten yet, for a finite float holds a proof that it is not zero
  rw [positive, negative, exponent]
  by_cases top : unpackExponent a = -1#_
  · rw [if_pos top, if_pos top, mantissa]
    split <;> rfl
  · rw [if_neg top, if_neg top]
    by_cases bottom : unpackExponent a = 0#_
    · rw [if_pos bottom, if_pos bottom]
      by_cases none : unpackMantissa a = 0#_
      · rw [dif_pos none, dif_pos (mantissa.trans none)]
        rfl
      · rw [dif_neg none, dif_neg (mantissa ▸ none)]
        exact neg_finite (by rw [mantissa]) rfl
    · rw [if_neg bottom, if_neg bottom]
      exact neg_finite (by rw [mantissa]) rfl

theorem neg_of_signed (signed : x.toBits.toNat = signBit + y.toBits.toNat) : -y = x := by
  apply toBits_injective
  apply UInt64.toBitVec_inj.mp
  change pack Format.binary64 (unpack Format.binary64 y.toBits.toBitVec).neg = x.toBits.toBitVec
  rw [neg_unpack signed]
  exact pack_unpack x.toModel.valid

theorem eq_nan (nan : Binary64.ofFloat x = .nan) : x = 0 / 0 := by
  have bits : (0 / 0 : Float).toBits.toBitVec = packedNaN Format.binary64 := by rfl
  apply toBits_injective
  apply UInt64.toBitVec_inj.mp
  rw [bits]
  simp only [Binary64.ofFloat, Binary64.ofBits] at nan
  split at nan
  · rename_i field
    split at nan
    · cases nan
    · rename_i some
      apply x.toModel.valid.eq_packedNaN
      · apply BitVec.eq_of_toNat_eq
        rw [unpackExponent_toNat]
        exact field
      · intro zero
        rw [← BitVec.toNat_inj, unpackMantissa_toNat] at zero
        exact some zero
  · split at nan <;> cases nan

theorem eq_infinity (infinite : Binary64.ofFloat x = .infinite false) : x = 1 / 0 := by
  have bits : (1 / 0 : Float).toBits.toNat = infinityBits := by rfl
  have hidden : hiddenBit = 0x10000000000000 := rfl
  apply toBits_injective
  apply UInt64.toNat_inj.mp
  rw [bits, infinityBits]
  have width : x.toBits.toNat < 2 ^ 64 := x.toBits.toNat_lt
  simp only [Binary64.ofFloat, Binary64.ofBits, hidden] at infinite
  split at infinite
  · split at infinite
    · have positive := decide_eq_false_iff_not.mp (Binary64.infinite.inj infinite)
      omega
    · cases infinite
  · split at infinite <;> cases infinite

theorem ofBits_above (above : infinityBits < bits) (below : bits < signBit) :
    Binary64.ofBits bits = .nan := by
  have hidden : hiddenBit = 0x10000000000000 := rfl
  rw [infinityBits] at above
  rw [signBit] at below
  simp only [Binary64.ofBits, hidden]
  rw [if_pos (by omega), if_neg (by omega)]

theorem ofBits_signed (below : bits < signBit) :
    Binary64.ofBits (signBit + bits) = (Binary64.ofBits bits).opposite := by
  have hidden : hiddenBit = 0x10000000000000 := rfl
  have sign : signBit = 0x8000000000000000 := rfl
  have field : (signBit + bits) / hiddenBit % 2048 = bits / hiddenBit % 2048 := by
    rw [hidden]
    omega
  have fraction : (signBit + bits) % hiddenBit = bits % hiddenBit := by
    rw [hidden]
    omega
  have negative : decide (0x8000000000000000 ≤ signBit + bits) = true :=
    decide_eq_true (Nat.le_add_right signBit bits)
  have positive : decide (0x8000000000000000 ≤ bits) = false :=
    decide_eq_false (Nat.not_le_of_lt below)
  simp only [Binary64.ofBits, field, fraction, negative, positive]
  split
  · split <;> rfl
  · split <;> rfl

theorem sign_cases (x : Float) : x = 0 / 0 ∨ ∃ y : Float, y.toBits.toNat ≤ infinityBits ∧
    (x = y ∨ x = -y ∧ Binary64.ofFloat x = (Binary64.ofFloat y).opposite) := by
  have width : x.toBits.toNat < 2 ^ 64 := x.toBits.toNat_lt
  have sign : signBit = 2 ^ 63 := rfl
  rcases Nat.lt_or_ge x.toBits.toNat signBit with unsigned | signed
  · rcases Nat.lt_or_ge infinityBits x.toBits.toNat with above | within
    · exact .inl (eq_nan (ofBits_above above unsigned))
    · exact .inr ⟨x, within, .inl rfl⟩
  · obtain ⟨bits, split⟩ := Nat.exists_eq_add_of_le signed
    have below : bits < signBit := by omega
    have opposite : Binary64.ofFloat x = (Binary64.ofBits bits).opposite := by
      rw [Binary64.ofFloat, split, ofBits_signed below]
    rcases Nat.lt_or_ge infinityBits bits with above | within
    · rw [ofBits_above above below] at opposite
      exact .inl (eq_nan opposite)
    · have same := toBits_ofBits_ofNat within
      refine .inr ⟨.ofBits (.ofNat bits), by rwa [same], .inr ⟨?_, ?_⟩⟩
      · exact (neg_of_signed (by rw [same, split])).symm
      · rw [opposite, Binary64.ofFloat, same]

theorem writeNumber_nan : writeNumber (0 / 0) = ['N', 'a', 'N'] := by
  have nan : Binary64.ofFloat (0 / 0) = .nan := by decide
  rw [writeNumber, nan, Binary64.write]

end Calculator
