import Mathlib.Tactic.Ring
import Mathlib.Data.List.Basic

/-!
# Little-endian integers and `io.ReadFull`

The two primitives of `encoding/binary` that the codec uses.  `binary.Write`
of a fixed-width unsigned integer writes its low bytes, least significant
first; `binary.Read` first takes exactly as many bytes as the target holds
with `io.ReadFull`, which on a `bytes.Buffer` either succeeds or drains the
buffer and fails.
-/

namespace Pasl.Utils

/-- A Go panic, a slice the runtime cannot make, or a run of the loop that was
given too little fuel.  `makeSlice len` is `reflect.MakeSlice` of `len`
elements failing: `int(len)` is negative on a 32-bit platform, or the
allocation exceeds what the runtime can give. -/
inductive Fault where
  | panic (msg : String)
  | makeSlice (len : Nat)
  | outOfFuel
  deriving DecidableEq, Repr

@[simp] theorem ok_bind {ε α β : Type} (a : α) (f : α → Except ε β) :
    (Except.ok a >>= f) = f a := rfl

@[simp] theorem error_bind {ε α β : Type} (e : ε) (f : α → Except ε β) :
    (Except.error e >>= f) = Except.error e := rfl

@[simp] theorem throw_eq_error {ε α : Type} (e : ε) : (throw e : Except ε α) = .error e := rfl

theorem bind_eq_ok {ε α β : Type} {x : Except ε α} {f : α → Except ε β} {b : β} :
    x >>= f = .ok b ↔ ∃ a, x = .ok a ∧ f a = .ok b := by
  cases x <;> simp

theorem map_eq_ok {ε α β : Type} {f : α → β} {x : Except ε α} {b : β} :
    f <$> x = .ok b ↔ ∃ a, x = .ok a ∧ f a = b := by
  cases x <;> simp [Functor.map, Except.map]

/-- The `width` little-endian bytes of `n`; bits above `8 * width` are dropped,
as the conversions `uint16(len(value))` and `uint32(value.Len())` drop them. -/
def littleEndian : Nat → Nat → List UInt8
  | 0, _ => []
  | width + 1, n => UInt8.ofNat (n % 256) :: littleEndian width (n / 256)

def ofLittleEndian : List UInt8 → Nat
  | [] => 0
  | b :: bs => b.toNat + 256 * ofLittleEndian bs

@[simp] theorem length_littleEndian (width n : Nat) :
    (littleEndian width n).length = width := by
  induction width generalizing n with
  | zero => rfl
  | succ width ih => simp [littleEndian, ih]

private theorem toNat_ofNat_mod (n : Nat) : (UInt8.ofNat (n % 256)).toNat = n % 256 :=
  UInt8.toNat_ofNat_of_lt (Nat.mod_lt n (by decide))

theorem ofLittleEndian_littleEndian (width n : Nat) :
    ofLittleEndian (littleEndian width n) = n % 256 ^ width := by
  induction width generalizing n with
  | zero => simp [littleEndian, ofLittleEndian, Nat.mod_one]
  | succ width ih =>
      rw [littleEndian, ofLittleEndian, ih, toNat_ofNat_mod, pow_succ', Nat.mod_mul]

theorem littleEndian_ofLittleEndian (bs : List UInt8) :
    littleEndian bs.length (ofLittleEndian bs) = bs := by
  induction bs with
  | nil => rfl
  | cons b bs ih =>
      have hb : b.toNat < 256 := b.toBitVec.isLt
      have hmod : (b.toNat + 256 * ofLittleEndian bs) % 256 = b.toNat := by omega
      have hdiv : (b.toNat + 256 * ofLittleEndian bs) / 256 = ofLittleEndian bs := by omega
      have hofNat : UInt8.ofNat b.toNat = b := UInt8.toNat.inj (UInt8.toNat_ofNat_of_lt hb)
      rw [List.length_cons, ofLittleEndian, littleEndian, hmod, hdiv, ih, hofNat]

theorem ofLittleEndian_lt (bs : List UInt8) : ofLittleEndian bs < 256 ^ bs.length := by
  induction bs with
  | nil => simp [ofLittleEndian]
  | cons b bs ih =>
      have hb : b.toNat < 256 := b.toBitVec.isLt
      rw [ofLittleEndian, List.length_cons, pow_succ]
      omega

theorem littleEndian_mod (width n : Nat) :
    littleEndian width (n % 256 ^ width) = littleEndian width n := by
  induction width generalizing n with
  | zero => rfl
  | succ width ih =>
      have hdiv : n % 256 ^ (width + 1) / 256 = n / 256 % 256 ^ width := by
        rw [pow_succ', Nat.mod_mul_right_div_self]
      have hmod : n % 256 ^ (width + 1) % 256 = n % 256 := by
        rw [pow_succ', Nat.mod_mul_right_mod]
      rw [littleEndian, littleEndian, hdiv, hmod, ih]

/-- `io.ReadFull(r, buf[:n])` on a `bytes.Buffer` holding `r`: the bytes and the
rest of the buffer, or `EOF` / `unexpected EOF` with the buffer drained. -/
def readFull (n : Nat) (r : List UInt8) : Except String (List UInt8) × List UInt8 :=
  if n ≤ r.length then (.ok (r.take n), r.drop n)
  else (.error (if r = [] then "EOF" else "unexpected EOF"), [])

theorem readFull_append {bs : List UInt8} {n : Nat} (h : bs.length = n)
    (rest : List UInt8) : readFull n (bs ++ rest) = (.ok bs, rest) := by
  simp [readFull, List.take_left' h, List.drop_left' h, ← h]

@[simp] theorem readFull_zero (r : List UInt8) : readFull 0 r = (.ok [], r) := by
  simp [readFull]

theorem readFull_short {n : Nat} {r : List UInt8} (h : r.length < n) :
    (readFull n r).2 = [] := by
  simp [readFull, Nat.not_le.mpr h]

/-- What `binary.Read` into a fresh unsigned integer leaves there: the value
read, or zero when the read failed. -/
def readUint (width : Nat) (r : List UInt8) : Nat × List UInt8 :=
  match readFull width r with
  | (.ok bs, rest) => (ofLittleEndian bs, rest)
  | (.error _, rest) => (0, rest)

@[simp] theorem readUint_nil (width : Nat) : readUint width [] = (0, []) := by
  cases width <;> rfl

theorem readUint_littleEndian (width n : Nat) (rest : List UInt8) :
    readUint width (littleEndian width n ++ rest) = (n % 256 ^ width, rest) := by
  simp [readUint, readFull_append (length_littleEndian width n), ofLittleEndian_littleEndian]

theorem readUint_lt (width : Nat) (r : List UInt8) : (readUint width r).1 < 256 ^ width := by
  by_cases h : width ≤ r.length
  · have hl : (r.take width).length = width := by simp only [List.length_take]; omega
    simpa [readUint, readFull, h, hl] using ofLittleEndian_lt (r.take width)
  · simp [readUint, readFull, h]

end Pasl.Utils
