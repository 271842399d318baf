import Mathlib.Tactic.Ring

/-!
# Numbers in bytes

`beNat` and `leNat` read a number from big-endian and from little-endian bytes,
`natBe` and `natLe` write its low bytes; `beNat_natBe` and `leNat_natLe` read
back what was written.
-/

namespace NC

open List

/-- The number that big-endian bytes denote. -/
def beNat (b : List UInt8) : Nat := b.foldl (fun n c => n * 256 + c.toNat) 0

/-- `n` in `len` big-endian bytes. -/
def natBe (len n : Nat) : List UInt8 :=
  (List.range len).reverse.map fun i => UInt8.ofNat (n / 256 ^ i)

/-- The number that little-endian bytes denote. -/
def leNat : List UInt8 → Nat
  | [] => 0
  | c :: b => c.toNat + 256 * leNat b

/-- `n` in `len` little-endian bytes. -/
def natLe : Nat → Nat → List UInt8
  | 0, _ => []
  | len + 1, n => UInt8.ofNat n :: natLe len (n / 256)

@[simp] theorem length_natLe (len n : Nat) : (natLe len n).length = len := by
  induction len generalizing n with
  | zero => rfl
  | succ len ih => rw [natLe, length_cons, ih]

theorem leNat_natLe {len n : Nat} (h : n < 256 ^ len) : leNat (natLe len n) = n := by
  induction len generalizing n with
  | zero => rw [Nat.pow_zero, Nat.lt_one_iff] at h; rw [h]; rfl
  | succ len ih =>
    have hq : n / 256 < 256 ^ len := Nat.div_lt_of_lt_mul (by rwa [Nat.pow_succ'] at h)
    rw [natLe, leNat, ih hq, UInt8.toNat_ofNat']
    omega

@[simp] theorem length_natBe (len n : Nat) : (natBe len n).length = len := by simp [natBe]

theorem natBe_succ (len n : Nat) :
    natBe (len + 1) n = UInt8.ofNat (n / 256 ^ len) :: natBe len n := by
  simp [natBe, range_succ]

theorem beNat_cons (c : UInt8) (b : List UInt8) :
    beNat (c :: b) = c.toNat * 256 ^ b.length + beNat b := by
  have hfrom : ∀ (b : List UInt8) (n : Nat),
      b.foldl (fun n c => n * 256 + c.toNat) n = n * 256 ^ b.length + beNat b := by
    intro b
    induction b with
    | nil => simp [beNat]
    | cons d b ih =>
      intro n
      rw [beNat, foldl_cons, foldl_cons, ih, ih, length_cons, Nat.pow_succ]
      grind
  rw [beNat, foldl_cons, hfrom]
  simp

theorem beNat_lt (b : List UInt8) : beNat b < 256 ^ b.length := by
  induction b with
  | nil => exact Nat.one_pos
  | cons c b ih =>
    have hc : (c.toNat + 1) * 256 ^ b.length ≤ 256 * 256 ^ b.length := Nat.mul_le_mul_right _ c.toNat_lt
    rw [Nat.add_one_mul] at hc
    rw [beNat_cons, length_cons, Nat.pow_succ']
    omega

/-- Big-endian bytes are read back as they were written. -/
theorem beNat_natBe {len n : Nat} (h : n < 256 ^ len) : beNat (natBe len n) = n := by
  have hmod : ∀ len, beNat (natBe len n) = n % 256 ^ len := by
    intro len
    induction len with
    | zero => simp [natBe, beNat, Nat.mod_one]
    | succ len ih =>
      have hbyte : (UInt8.ofNat (n / 256 ^ len)).toNat = n / 256 ^ len % 256 := UInt8.toNat_ofNat'
      rw [natBe_succ, beNat_cons, ih, length_natBe, hbyte, Nat.pow_succ 256 len, Nat.mod_mul,
        Nat.mul_comm (256 ^ len), Nat.add_comm]
  rw [hmod, Nat.mod_eq_of_lt h]

end NC
