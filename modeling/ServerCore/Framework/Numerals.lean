import Mathlib.Data.Nat.Basic
import Mathlib.Tactic.Ring

namespace ServerCore.Framework

/-- The base-128 digits of a number, the lowest first, all but the last with their top bit set. The
first argument bounds the digits. -/
def writeVarint : ℕ → ℕ → List UInt8
  | 0, _ => []
  | digits + 1, n =>
      if n < 128 then [UInt8.ofNat n]
      else UInt8.ofNat (n % 128 + 128) :: writeVarint digits (n / 128)

/-- The number of at most so many digits at the front of `bytes`, and what is behind it. -/
def readVarint : ℕ → List UInt8 → Option (ℕ × List UInt8)
  | 0, _ => none
  | _ + 1, [] => none
  | digits + 1, byte :: bytes =>
      if byte.toNat < 128 then some (byte.toNat, bytes)
      else (readVarint digits bytes).map fun r => (byte.toNat - 128 + 128 * r.1, r.2)

/-- The low `width` bytes of a number, the lowest first. -/
def writeFixed : ℕ → ℕ → List UInt8
  | 0, _ => []
  | width + 1, n => UInt8.ofNat n :: writeFixed width (n / 256)

/-- The number in the first `width` bytes, and what is behind them. -/
def readFixed : ℕ → List UInt8 → Option (ℕ × List UInt8)
  | 0, bytes => some (0, bytes)
  | _ + 1, [] => none
  | width + 1, byte :: bytes =>
      (readFixed width bytes).map fun r => (byte.toNat + 256 * r.1, r.2)

section Varint

variable {digits n : ℕ} {bytes rest : List UInt8}

theorem writeVarint_ne_nil (digits n : ℕ) : writeVarint (digits + 1) n ≠ [] := by
  rw [writeVarint]
  split <;> exact List.cons_ne_nil _ _

/-- Reading gives back what was written, whatever stands behind it. -/
theorem readVarint_writeVarint (h : n < 128 ^ (digits + 1)) (rest : List UInt8) :
    readVarint (digits + 1) (writeVarint (digits + 1) n ++ rest) = some (n, rest) := by
  induction digits generalizing n with
  | zero =>
    have hsmall : n < 128 := by simpa using h
    have hbyte : (UInt8.ofNat n).toNat = n := by
      rw [UInt8.toNat_ofNat']
      omega
    rw [writeVarint, if_pos hsmall, List.singleton_append, readVarint, hbyte, if_pos hsmall]
  | succ digits ih =>
    rw [writeVarint]
    by_cases hsmall : n < 128
    · have hbyte : (UInt8.ofNat n).toNat = n := by
        rw [UInt8.toNat_ofNat']
        omega
      rw [if_pos hsmall, List.singleton_append, readVarint, hbyte, if_pos hsmall]
    · have hbyte : (UInt8.ofNat (n % 128 + 128)).toNat = n % 128 + 128 := by
        rw [UInt8.toNat_ofNat']
        omega
      have hrest : n / 128 < 128 ^ (digits + 1) := by
        apply Nat.div_lt_of_lt_mul
        rw [pow_succ] at h
        omega
      rw [if_neg hsmall, List.cons_append, readVarint, hbyte, if_neg (by omega), ih hrest,
        Option.map_some]
      have hsum : n % 128 + 128 - 128 + 128 * (n / 128) = n := by omega
      rw [hsum]

/-- A number takes at least one byte. -/
theorem readVarint_shorter (h : readVarint digits bytes = some (n, rest)) :
    rest.length < bytes.length := by
  induction digits generalizing bytes n with
  | zero => simp [readVarint] at h
  | succ digits ih =>
    cases bytes with
    | nil => simp [readVarint] at h
    | cons byte bytes =>
      rw [readVarint] at h
      split at h
      · obtain ⟨_, rfl⟩ := Prod.mk.inj (Option.some.inj h)
        exact Nat.lt_succ_self _
      · obtain ⟨⟨m, more⟩, hread, heq⟩ := Option.map_eq_some_iff.mp h
        obtain ⟨_, rfl⟩ := Prod.mk.inj heq
        exact (ih hread).trans (Nat.lt_succ_self _)

theorem length_writeVarint_le (digits n : ℕ) : (writeVarint digits n).length ≤ digits := by
  induction digits generalizing n with
  | zero => simp [writeVarint]
  | succ digits ih =>
    rw [writeVarint]
    split
    · simp
    · have hrest := ih (n / 128)
      rw [List.length_cons]
      omega

theorem log2_div_128 (h : 128 ≤ n) : n.log2 = (n / 128).log2 + 7 := by
  have hn : n / 128 ≠ 0 := by omega
  obtain ⟨hlow, hhigh⟩ := (Nat.log2_eq_iff hn).mp rfl
  have hpow (k : ℕ) : 2 ^ (k + 7) = 2 ^ k * 128 := pow_add 2 k 7
  apply (Nat.log2_eq_iff (by omega)).mpr
  constructor
  · rw [hpow]
    omega
  · rw [Nat.add_right_comm, hpow]
    omega

/-- Every digit has seven bits. -/
theorem length_writeVarint (h : n < 128 ^ (digits + 1)) :
    (writeVarint (digits + 1) n).length = n.log2 / 7 + 1 := by
  have hone (n : ℕ) (hsmall : n < 128) : n.log2 < 7 := by
    rcases Nat.eq_zero_or_pos n with rfl | hpos
    · decide
    · exact (Nat.log2_lt (by omega)).mpr hsmall
  induction digits generalizing n with
  | zero =>
    have hsmall : n < 128 := by simpa using h
    have hlog := hone n hsmall
    rw [writeVarint, if_pos hsmall, List.length_singleton]
    omega
  | succ digits ih =>
    rw [writeVarint]
    by_cases hsmall : n < 128
    · have hlog := hone n hsmall
      rw [if_pos hsmall, List.length_singleton]
      omega
    · have hrest : n / 128 < 128 ^ (digits + 1) := by
        apply Nat.div_lt_of_lt_mul
        rw [pow_succ] at h
        omega
      have hlog := log2_div_128 (Nat.not_lt.mp hsmall)
      rw [if_neg hsmall, List.length_cons, ih hrest]
      omega

end Varint

section Fixed

variable {width n : ℕ} {bytes rest : List UInt8}

@[simp] theorem length_writeFixed (width n : ℕ) : (writeFixed width n).length = width := by
  induction width generalizing n with
  | zero => rfl
  | succ width ih => rw [writeFixed, List.length_cons, ih]

theorem readFixed_writeFixed (h : n < 256 ^ width) (rest : List UInt8) :
    readFixed width (writeFixed width n ++ rest) = some (n, rest) := by
  induction width generalizing n with
  | zero =>
    have hzero : n = 0 := by simpa using h
    rw [hzero]
    rfl
  | succ width ih =>
    have hrest : n / 256 < 256 ^ width := by
      apply Nat.div_lt_of_lt_mul
      rw [pow_succ] at h
      omega
    rw [writeFixed, List.cons_append, readFixed, ih hrest, Option.map_some, UInt8.toNat_ofNat']
    have hsum : n % 2 ^ 8 + 256 * (n / 256) = n := by omega
    rw [hsum]

theorem length_readFixed (h : readFixed width bytes = some (n, rest)) :
    rest.length + width = bytes.length := by
  induction width generalizing bytes n with
  | zero =>
    obtain ⟨_, rfl⟩ := Prod.mk.inj (Option.some.inj h)
    rfl
  | succ width ih =>
    cases bytes with
    | nil => simp [readFixed] at h
    | cons byte bytes =>
      obtain ⟨⟨m, more⟩, hread, heq⟩ := Option.map_eq_some_iff.mp h
      obtain ⟨_, rfl⟩ := Prod.mk.inj heq
      have hlen := ih hread
      rw [List.length_cons]
      omega

end Fixed

end ServerCore.Framework
