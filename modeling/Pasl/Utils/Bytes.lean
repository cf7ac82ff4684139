import Pasl.Utils.Binary

/-!
# `SerializeBytes` and `DeserializeBytes`

The two helpers frame a byte slice with a two-byte little-endian length.  The
writer keeps the low 16 bits of the length.  The reader reads the same two
bytes into an `int16`, so a length of `2^15` or more comes back negative and
`make([]byte, size)` panics: the round trip holds exactly below `2^15`.
-/

namespace Pasl.Utils

/-- `utils.SerializeBytes(data)`. -/
def serializeBytes (data : List UInt8) : List UInt8 :=
  let dataLen := data.length
  [UInt8.ofNat (dataLen &&& 0xFF), UInt8.ofNat (dataLen >>> 8)] ++ data

/-- `utils.DeserializeBytes(reader)` on a buffer holding `r`: its results
`(data, err)`, as `.ok data` or `.error err`, and the unread rest. -/
def deserializeBytes (r : List UInt8) : Except Fault (Except String (List UInt8) × List UInt8) :=
  match readFull 2 r with
  | (.error err, r) => pure (.error err, r)
  | (.ok bs, r) =>
      let size := (BitVec.ofNat 16 (ofLittleEndian bs)).toInt
      if size < 0 then throw (.panic "runtime error: makeslice: len out of range")
      else
        match readFull size.toNat r with
        | (.error err, r) => pure (.error err, r)
        | (.ok data, r) => pure (.ok data, r)

private theorem uint8_ofNat_mod (m : Nat) : UInt8.ofNat (m % 256) = UInt8.ofNat m := by
  apply UInt8.eq_of_toBitVec_eq
  apply BitVec.eq_of_toNat_eq
  simp [UInt8.ofNat]

theorem serializeBytes_eq (data : List UInt8) :
    serializeBytes data = littleEndian 2 data.length ++ data := by
  have hlo : data.length &&& 0xFF = data.length % 256 :=
    Nat.and_pow_two_sub_one_eq_mod data.length 8
  have hhi : data.length >>> 8 = data.length / 256 := Nat.shiftRight_eq_div_pow _ 8
  simp only [serializeBytes, littleEndian, hlo, hhi, uint8_ofNat_mod, List.cons_append,
    List.singleton_append]

private theorem int16_of_length {n : Nat} (h : n < 2 ^ 16) :
    (BitVec.ofNat 16 (ofLittleEndian (littleEndian 2 n))).toInt =
      if n < 2 ^ 15 then (n : Int) else (n : Int) - 2 ^ 16 := by
  rw [BitVec.toInt_eq_toNat_cond, BitVec.toNat_ofNat, ofLittleEndian_littleEndian]
  simp only [show (256 : Nat) ^ 2 = 2 ^ 16 by norm_num, Nat.mod_eq_of_lt h,
    Nat.mod_eq_of_lt (show n < 2 ^ 16 from h)]
  split <;> split <;> first | rfl | omega

theorem deserializeBytes_serializeBytes (data rest : List UInt8) (h : data.length < 2 ^ 16) :
    deserializeBytes (serializeBytes data ++ rest) =
      if data.length < 2 ^ 15 then .ok (.ok data, rest)
      else .error (.panic "runtime error: makeslice: len out of range") := by
  rw [serializeBytes_eq, List.append_assoc, deserializeBytes,
    readFull_append (length_littleEndian 2 _)]
  simp only [int16_of_length h]
  by_cases hs : data.length < 2 ^ 15
  · have hpos : ¬ ((data.length : Int) < 0) := by omega
    simp only [hs, ↓reduceIte, hpos, Int.toNat_ofNat, readFull_append rfl]
    rfl
  · have hneg : (data.length : Int) - 2 ^ 16 < 0 := by omega
    simp only [hs, ↓reduceIte, hneg]
    rfl

theorem deserializeBytes_serializeBytes_32768 :
    (List.replicate 32768 (0 : UInt8)).length < 2 ^ 16 ∧
    deserializeBytes (serializeBytes (List.replicate 32768 0) ++ []) =
      .error (.panic "runtime error: makeslice: len out of range") := by
  have hlen : (List.replicate 32768 (0 : UInt8)).length = 32768 := List.length_replicate _ _
  refine ⟨by rw [hlen]; omega, ?_⟩
  rw [deserializeBytes_serializeBytes _ _ (by rw [hlen]; omega), hlen]
  rfl

end Pasl.Utils
