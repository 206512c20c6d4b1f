import Mathlib
import Drafting.Number.Binary32

namespace Drafting.Binary32

open Float.Model (Format UnpackedFloat)
open Float.Model.UnpackedFloat (Sign packComponents roundWithAccuracy)

theorem isNaN_unpack_packComponents {spec : Format} {sign : Sign}
    {exponent : BitVec spec.exponentBits} {mantissa : BitVec spec.mantissaBitsWithoutImplicit}
    (h : exponent ≠ -1#_ ∨ mantissa = 0) :
    (UnpackedFloat.unpack spec (packComponents spec sign exponent mantissa)).isNaN = false := by
  rw [UnpackedFloat.unpack]
  simp only [UnpackedFloat.unpackExponent_packComponents,
    UnpackedFloat.unpackMantissa_packComponents]
  split_ifs <;> simp_all [UnpackedFloat.isNaN]

theorem isNaN_unpack_pack {spec : Format} {u : UnpackedFloat} (h : u.isNaN = false) :
    (UnpackedFloat.unpack spec (UnpackedFloat.pack spec u)).isNaN = false := by
  fun_cases UnpackedFloat.pack spec u with
  | case1 => simp [UnpackedFloat.isNaN] at h
  | case2 s => exact isNaN_unpack_packComponents (.inr rfl)
  | case3 s => exact isNaN_unpack_packComponents (.inr rfl)
  | case4 s m e hm biased hb => exact isNaN_unpack_packComponents (.inr rfl)
  | case5 s m e hm bits biased hb hn =>
    refine isNaN_unpack_packComponents (.inl fun he => ?_)
    have hv := congrArg BitVec.toNat he
    rw [BitVec.toNat_ofNat, BitVec.neg_one_eq_allOnes, BitVec.toNat_allOnes,
      Nat.mod_eq_of_lt (by omega)] at hv
    omega
  | case6 s m e hm bits biased hb hn =>
    refine isNaN_unpack_packComponents (.inl ?_)
    simp [Nat.pos_iff_ne_zero.1 spec.he]

theorem isNaN_roundWithAccuracy (spec : Format) (sign : Sign) (mantissa : Nat) (exponent : Int)
    (accuracy : UnpackedFloat.Accuracy) :
    (roundWithAccuracy spec sign mantissa exponent accuracy).isNaN = false := by
  simp only [roundWithAccuracy]
  split <;> rfl

theorem isNaN_normalize (spec : Format) (mantissa exponent : Int) (sign : Sign) :
    (UnpackedFloat.normalize spec mantissa exponent sign).isNaN = false := by
  rw [UnpackedFloat.normalize]
  split
  · exact isNaN_roundWithAccuracy ..
  · rfl
  · exact isNaN_roundWithAccuracy ..

theorem isNaN_ofModel_pack {u : UnpackedFloat} (h : u.isNaN = false) :
    (Float32.ofModel (.pack u)).isNaN = false := isNaN_unpack_pack h

variable {x y low high : Float32}

theorem lt_iff : x < y ↔ x.toModel.unpack.lt y.toModel.unpack := by
  change decide (x.toModel < y.toModel) = true ↔ _
  rw [decide_eq_true_eq]
  rfl

theorem unpack_zero : (0 : Float32).toModel.unpack = .zero .positive := rfl

theorem zero_lt_iff : 0 < x ↔ (∃ m e h, x.toModel.unpack = .finite .positive m e h) ∨
    x.toModel.unpack = .infinity .positive := by
  rw [lt_iff, unpack_zero]
  rcases x.toModel.unpack with (_ | _) | _ | _ | ⟨_ | _, m, e, h⟩ <;>
    simp [UnpackedFloat.lt, UnpackedFloat.compare, *]

theorem isNaN_mul (hx : x.isNaN = false) (hy : y.isFinite) (h : 0 < y) : (x * y).isNaN = false := by
  refine isNaN_ofModel_pack ?_
  change x.toModel.unpack.isNaN = false at hx
  change y.toModel.unpack.isFinite at hy
  obtain ⟨m, e, hm, hu⟩ | hu := zero_lt_iff.1 h
  · rw [hu]
    rcases hv : x.toModel.unpack with _ | _ | _ | _
    · rfl
    · simp [hv, UnpackedFloat.isNaN] at hx
    · rfl
    · exact isNaN_roundWithAccuracy ..
  · simp [hu, UnpackedFloat.isFinite] at hy

theorem isNaN_add (hx : x.isNaN = false) (hy : y.isFinite) : (x + y).isNaN = false := by
  refine isNaN_ofModel_pack ?_
  change x.toModel.unpack.isNaN = false at hx
  change y.toModel.unpack.isFinite at hy
  generalize x.toModel.unpack = u at *
  generalize y.toModel.unpack = v at *
  fun_cases UnpackedFloat.add Format.binary32 u v with
  | case11 => exact isNaN_normalize ..
  | _ => simp_all [UnpackedFloat.isFinite, UnpackedFloat.isNaN]

theorem ofModel_pack_unpack (x : Float32) : Float32.ofModel (.pack x.toModel.unpack) = x := by
  obtain ⟨⟨bits, hvalid⟩⟩ := x
  have hbits := UnpackedFloat.pack_unpack_of_valid hvalid (by decide)
  simp only [Float32.Model.pack, Float32.Model.unpack, hbits]

/-- Adding zero changes the negative zero and nothing else. -/
theorem add_zero_iff : x + 0 = x ↔ x ≠ -0 := by
  constructor
  · rintro h rfl
    exact absurd h (by decide +kernel)
  · intro h
    have hunpack : x.toModel.unpack ≠ .zero .negative := by
      intro hu
      refine h ?_
      rw [← ofModel_pack_unpack x, hu]
      rfl
    have hadd : UnpackedFloat.add Format.binary32 x.toModel.unpack (.zero .positive) =
        x.toModel.unpack := by
      generalize x.toModel.unpack = u at hunpack
      rcases u with (_ | _) | _ | (_ | _) | ⟨_ | _, m, e, hm⟩ <;>
        first | rfl | exact absurd rfl hunpack
    change Float32.ofModel (.pack (.add Format.binary32 x.toModel.unpack (.zero .positive))) = x
    rw [hadd, ofModel_pack_unpack]

theorem isNaN_ofScientific (spec : Format) (m e : Nat) :
    (UnpackedFloat.ofScientific spec m e).isNaN = false := by
  fun_cases UnpackedFloat.ofScientific spec m e with
  | case4 => exact isNaN_roundWithAccuracy ..
  | case5 => omega
  | _ => rfl

theorem isNaN_ofNat (n : Nat) : (Float32.ofNat n).isNaN = false := by
  have hone : Float32.exactlyRepresentablePowersOfTen[0] = Float32.ofBits 0x3F800000 := rfl
  change (Float32.ofScientific n false 0).isNaN = false
  rw [Float32.ofScientific]
  split
  · dsimp only
    rw [hone]
    exact isNaN_mul (isNaN_ofModel_pack (isNaN_normalize ..)) (by decide +kernel)
      (by decide +kernel)
  · exact isNaN_ofModel_pack (isNaN_ofScientific ..)

/-- What does not lie below a positive number is one. -/
theorem pos_of_not_lt (hx : x.isNaN = false) (hl : 0 < low) (h : ¬ x < low) : 0 < x := by
  change x.toModel.unpack.isNaN = false at hx
  rw [zero_lt_iff] at hl ⊢
  rw [lt_iff] at h
  rcases hu : x.toModel.unpack with (_ | _) | _ | _ | ⟨_ | _, m, e, hm⟩
  case infinity.positive => exact .inr rfl
  case finite.positive => exact .inl ⟨m, e, hm, rfl⟩
  case notANumber => simp [hu, UnpackedFloat.isNaN] at hx
  all_goals
    refine absurd ?_ h
    rcases hl with ⟨_, _, _, hl⟩ | hl <;> rw [hl, hu] <;> rfl

theorem isNaN_of_le_self (h : x ≤ x) : x.isNaN = false := by
  have hle : x.toModel.unpack.le x.toModel.unpack := by
    change decide (x.toModel ≤ x.toModel) = true at h
    exact of_decide_eq_true h
  change x.toModel.unpack.isNaN = false
  cases hu : x.toModel.unpack with
  | notANumber => simp [hu, UnpackedFloat.le, UnpackedFloat.compare] at hle
  | infinity | zero | finite => rfl

theorem greatest_pos (h : 0 < y) : 0 < Scalar.greatest x y := by
  rw [Scalar.greatest]
  split
  next => exact h
  next hn =>
    obtain ⟨hlt, hle⟩ := not_or.1 hn
    exact pos_of_not_lt (isNaN_of_le_self (Decidable.not_not.1 hle)) h hlt

theorem clamp_pos (hx : x.isNaN = false) (hl : 0 < low) (hh : 0 < high) :
    0 < Scalar.clamp low high x := by
  rw [Scalar.clamp]
  split_ifs with hlow hhigh
  · exact hl
  · exact hh
  · exact pos_of_not_lt hx hl hlow

end Drafting.Binary32
