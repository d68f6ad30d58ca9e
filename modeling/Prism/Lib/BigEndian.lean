import Mathlib.Data.Nat.Size
import Mathlib.Data.List.Induction
import Mathlib.Tactic.Ring

/-!
Big-endian byte strings.

`ofBytes` reads a byte string as a number, most significant byte first, and
`toBytes` writes a number in a given number of bytes. The two are inverse on
numbers that fit (`ofBytes_toBytes`) and on byte strings of the given length
(`toBytes_ofBytes`).

Reading forgets the length: leading zero bytes do not change the number
(`ofBytes_zero_cons`). A string that starts with a nonzero byte is recovered from
its number alone, because the bit length determines the byte length
(`toBytes_byteLength`).
-/

namespace Prism.Lib.BigEndian

/-- The number a byte string spells, most significant byte first. -/
def ofBytes (bs : List UInt8) : ℕ :=
  bs.foldl (fun n b => n * 256 + b.toNat) 0

/-- The last `len` base-256 digits of `n`, most significant first. -/
def toBytes (n : ℕ) : ℕ → List UInt8
  | 0 => []
  | len + 1 => toBytes (n / 256) len ++ [UInt8.ofNat n]

/-- The number of bytes that hold the bits of `n`. -/
def byteLength (n : ℕ) : ℕ := (n.size + 7) / 8

@[simp] theorem ofBytes_nil : ofBytes [] = 0 := rfl

@[simp] theorem length_toBytes (n len : ℕ) : (toBytes n len).length = len := by
  induction len generalizing n with
  | zero => rfl
  | succ len ih => simp [toBytes, ih]

theorem ofBytes_concat (bs : List UInt8) (b : UInt8) :
    ofBytes (bs ++ [b]) = ofBytes bs * 256 + b.toNat := by
  simp [ofBytes]

theorem ofBytes_append (as bs : List UInt8) :
    ofBytes (as ++ bs) = ofBytes as * 256 ^ bs.length + ofBytes bs := by
  induction bs using List.reverseRecOn with
  | nil => simp
  | append_singleton bs b ih =>
      rw [← List.append_assoc, ofBytes_concat, ih, ofBytes_concat, List.length_append,
        List.length_singleton, pow_succ]
      ring

theorem ofBytes_cons (b : UInt8) (bs : List UInt8) :
    ofBytes (b :: bs) = b.toNat * 256 ^ bs.length + ofBytes bs := by
  rw [← List.singleton_append, ofBytes_append]
  simp [ofBytes]

/-- Leading zero bytes do not change the number that is read. -/
theorem ofBytes_zero_cons (bs : List UInt8) : ofBytes (0 :: bs) = ofBytes bs := by
  simp [ofBytes_cons]

theorem ofBytes_lt (bs : List UInt8) : ofBytes bs < 256 ^ bs.length := by
  induction bs using List.reverseRecOn with
  | nil => simp
  | append_singleton bs b ih =>
      have hb : b.toNat < 256 := b.toNat_lt
      rw [ofBytes_concat, List.length_append, List.length_singleton, pow_succ]
      omega

/-- Reading what was written gives the number modulo what fits. -/
theorem ofBytes_toBytes_mod (n len : ℕ) : ofBytes (toBytes n len) = n % 256 ^ len := by
  induction len generalizing n with
  | zero => simp [toBytes, Nat.mod_one]
  | succ len ih =>
      have hb : (UInt8.ofNat n).toNat = n % 256 := by simp
      rw [toBytes, ofBytes_concat, ih, hb, pow_succ, mul_comm (256 ^ len) 256, Nat.mod_mul]
      ring

/-- A number that fits is read back. -/
theorem ofBytes_toBytes {n len : ℕ} (fits : n < 256 ^ len) : ofBytes (toBytes n len) = n := by
  rw [ofBytes_toBytes_mod, Nat.mod_eq_of_lt fits]

/-- Writing a read number in the original length gives the original bytes. -/
theorem toBytes_ofBytes (bs : List UInt8) : toBytes (ofBytes bs) bs.length = bs := by
  induction bs using List.reverseRecOn with
  | nil => rfl
  | append_singleton bs b ih =>
      have hb : b.toNat < 256 := b.toNat_lt
      rw [List.length_append, List.length_singleton, toBytes, ofBytes_concat]
      have quotient : (ofBytes bs * 256 + b.toNat) / 256 = ofBytes bs := by omega
      have digit : UInt8.ofNat (ofBytes bs * 256 + b.toNat) = b := by
        apply UInt8.toNat_inj.mp
        simp only [UInt8.toNat_ofNat']
        omega
      rw [quotient, ih, digit]

/-- The byte length of a number is the length of any string that spells it
without a leading zero byte. -/
theorem byteLength_ofBytes {b : UInt8} (nonzero : b ≠ 0) (bs : List UInt8) :
    byteLength (ofBytes (b :: bs)) = bs.length + 1 := by
  have hb : 1 ≤ b.toNat := by
    refine Nat.one_le_iff_ne_zero.mpr fun eq => nonzero ?_
    exact UInt8.toNat_inj.mp (by simpa using eq)
  have lower : 2 ^ (8 * bs.length) ≤ ofBytes (b :: bs) := by
    rw [ofBytes_cons, show (256 : ℕ) = 2 ^ 8 from rfl, ← pow_mul]
    exact le_trans (Nat.le_mul_of_pos_left _ hb) (Nat.le_add_right _ _)
  have upper : ofBytes (b :: bs) < 2 ^ (8 * (bs.length + 1)) := by
    have := ofBytes_lt (b :: bs)
    rwa [List.length_cons, show (256 : ℕ) = 2 ^ 8 from rfl, ← pow_mul] at this
  have lt := Nat.lt_size.mpr lower
  have le := Nat.size_le.mpr upper
  unfold byteLength
  omega

/-- A string without a leading zero byte is recovered from its number. -/
theorem toBytes_byteLength {b : UInt8} (nonzero : b ≠ 0) (bs : List UInt8) :
    toBytes (ofBytes (b :: bs)) (byteLength (ofBytes (b :: bs))) = b :: bs := by
  rw [byteLength_ofBytes nonzero, ← List.length_cons (a := b), toBytes_ofBytes]

/-- Two strings without leading zero bytes that spell one number are equal. -/
theorem ofBytes_inj_of_nonzero {a b : UInt8} {as bs : List UInt8} (ha : a ≠ 0) (hb : b ≠ 0)
    (eq : ofBytes (a :: as) = ofBytes (b :: bs)) : a :: as = b :: bs := by
  rw [← toBytes_byteLength ha as, ← toBytes_byteLength hb bs, eq]

end Prism.Lib.BigEndian
