import ServerCore.Framework.Numerals
import ServerCore.Packets.PacketManager
import Mathlib.Data.Int.ModEq

namespace ServerCore.Packets

open Framework

def kSlopBytes : ℕ := 16

/-- `GetDefaultRecursionLimit()`. -/
def defaultRecursionLimit : ℕ := 100

/-- The loop of `VarintParseSlow32`, `VarintParseSlow64` and `ReadTagFallback` from byte `i` on. It
adds the bytes before `kept`, and takes back the top bit of the byte before. -/
def varintParseSlow (kept : ℕ) : ℕ → ℕ → Int → List UInt8 → Option (Int × List UInt8)
  | 0, _, _, _ => none
  | _ + 1, _, _, [] => none
  | n + 1, i, res, byte :: bytes =>
      let res := if i < kept then res + ((byte.toNat : Int) - 1) * 2 ^ (7 * i) else res
      if byte.toNat < 128 then some (res, bytes)
      else varintParseSlow kept n (i + 1) res bytes

/-- A varint of at most `n` bytes in an unsigned integer of `width` bits. -/
def varintParse (kept n width : ℕ) : List UInt8 → Option (ℕ × List UInt8)
  | [] => none
  | byte :: bytes =>
      if byte.toNat < 128 then some (byte.toNat, bytes)
      else (varintParseSlow kept (n - 1) 1 byte.toNat bytes).map fun r =>
        ((r.1 % 2 ^ width).toNat, r.2)

def readTag : List UInt8 → Option (ℕ × List UInt8) := varintParse 5 5 32

def readVarint32 : List UInt8 → Option (ℕ × List UInt8) := varintParse 5 10 32

def readVarint64 : List UInt8 → Option (ℕ × List UInt8) := varintParse 10 10 64

/-- The loop of `ReadSizeFallback` from byte `i` on, with the test of the last byte. -/
def readSizeFallback : ℕ → ℕ → Int → List UInt8 → Option (ℕ × List UInt8)
  | _, _, _, [] => none
  | 0, i, res, byte :: bytes =>
      if 8 ≤ byte.toNat then none
      else if (intMax : Int) - kSlopBytes < res + ((byte.toNat : Int) - 1) * 2 ^ (7 * i) then none
      else some ((res + ((byte.toNat : Int) - 1) * 2 ^ (7 * i)).toNat, bytes)
  | n + 1, i, res, byte :: bytes =>
      if byte.toNat < 128 then some ((res + ((byte.toNat : Int) - 1) * 2 ^ (7 * i)).toNat, bytes)
      else readSizeFallback n (i + 1) (res + ((byte.toNat : Int) - 1) * 2 ^ (7 * i)) bytes

def readSize : List UInt8 → Option (ℕ × List UInt8)
  | [] => none
  | byte :: bytes =>
      if byte.toNat < 128 then some (byte.toNat, bytes)
      else readSizeFallback 3 1 byte.toNat bytes

/-- `ReadString`. -/
def readString (size : ℕ) (bytes : List UInt8) : Option (List UInt8 × List UInt8) :=
  if size ≤ bytes.length then some (bytes.take size, bytes.drop size) else none

/-- A field that the type of the message does not have. -/
inductive UnknownField where
  | varint (number : ℕ) (value : UInt64)
  | fixed32 (number : ℕ) (value : UInt32)
  | fixed64 (number : ℕ) (value : UInt64)
  | lengthDelimited (number : ℕ) (value : List UInt8)
  | group (number : ℕ) (fields : List UnknownField)

/-- The switch of `FieldParser` on the wire type, for unknown fields; `parseGroup` also tells
`last_tag_minus_1_`. -/
def fieldOfType (parseGroup : List UInt8 → Option (List UnknownField × ℕ × List UInt8))
    (number : ℕ) : ℕ → List UInt8 → Option (UnknownField × List UInt8)
  | 0, bytes => (readVarint64 bytes).map fun r => (.varint number (UInt64.ofNat r.1), r.2)
  | 1, bytes => (readFixed 8 bytes).map fun r => (.fixed64 number (UInt64.ofNat r.1), r.2)
  | 2, bytes => (readSize bytes).bind fun r =>
      (readString r.1 r.2).map fun s => (.lengthDelimited number s.1, s.2)
  | 3, bytes => (parseGroup bytes).bind fun r =>
      if r.2.1 = number * 8 + 3 then some (.group number r.1, r.2.2) else none
  | 5, bytes => (readFixed 4 bytes).map fun r => (.fixed32 number (UInt32.ofNat r.1), r.2)
  | _, _ => none

def fieldParser (parseGroup : List UInt8 → Option (List UnknownField × ℕ × List UInt8)) (tag : ℕ)
    (bytes : List UInt8) : Option (UnknownField × List UInt8) :=
  if tag / 8 = 0 then none else fieldOfType parseGroup (tag / 8) (tag % 8) bytes

/-- The tag is zero or ends a group. -/
def endsParse (tag : ℕ) : Bool := tag = 0 ∨ tag % 8 = 4

/-- `WireFormatParser` with `depth_`, and `ParseGroup` inside it: the fields, what
`last_tag_minus_1_` is at the end, and the rest. The first argument bounds the iterations. -/
def wireFormatParser : ℕ → ℕ → List UInt8 → Option (List UnknownField × ℕ × List UInt8)
  | 0, _, _ => none
  | n + 1, depth, bytes =>
      if bytes = [] then some ([], 0, [])
      else
        (readTag bytes).bind fun t =>
          if endsParse t.1 then some ([], (t.1 + 2 ^ 32 - 1) % 2 ^ 32, t.2)
          else
            (fieldParser (fun bytes => if depth = 0 then none
              else wireFormatParser n (depth - 1) bytes) t.1 t.2).bind fun f =>
              (wireFormatParser n depth f.2).map fun r => (f.1 :: r.1, r.2)

/-- `ParseGroup` of a context with `depth_`. -/
def parseGroup (n depth : ℕ) (bytes : List UInt8) : Option (List UnknownField × ℕ × List UInt8) :=
  if depth = 0 then none else wireFormatParser n (depth - 1) bytes

/-- `MakeTag` in bytes. -/
def writeTag (number wireType : ℕ) : List UInt8 := writeVarint 5 (number * 8 + wireType)

/-- `InternalSerializeUnknownFieldsToArray`, for one field. -/
def UnknownField.serialize : UnknownField → List UInt8
  | .varint number value => writeTag number 0 ++ writeVarint 10 value.toNat
  | .fixed32 number value => writeTag number 5 ++ writeFixed 4 value.toNat
  | .fixed64 number value => writeTag number 1 ++ writeFixed 8 value.toNat
  | .lengthDelimited number value =>
      writeTag number 2 ++ writeVarint 5 value.length ++ value
  | .group number fields =>
      writeTag number 3 ++ fields.flatMap UnknownField.serialize ++ writeTag number 4

section Varint

variable {kept n width i : ℕ} {bytes : List UInt8}

/-- Whatever the loop takes back and drops, its result is a base-128 number within the width. -/
theorem varintParseSlow_eq (hkept : width ≤ 7 * kept) (res : Int) :
    (varintParseSlow kept n i res bytes).map (fun r => (r.1 % 2 ^ width, r.2)) =
      (readVarint n bytes).map fun r => ((res + (r.1 - 1) * 2 ^ (7 * i)) % 2 ^ width, r.2) := by
  induction n generalizing i res bytes with
  | zero => rfl
  | succ n ih =>
    cases bytes with
    | nil => rfl
    | cons byte bytes =>
      -- a byte that is not added would have been a multiple of the modulus
      have hres :
          (if i < kept then res + ((byte.toNat : Int) - 1) * 2 ^ (7 * i) else res) % 2 ^ width = (res + ((byte.toNat : Int) - 1) * 2 ^ (7 * i)) % 2 ^ width := by
        split
        · rfl
        · next hskip =>
          have hpow : (2 : Int) ^ width ∣ 2 ^ (7 * i) := pow_dvd_pow 2 (by omega)
          rw [Int.add_emod, Int.emod_eq_zero_of_dvd (hpow.mul_left _), add_zero,
            Int.emod_emod_of_dvd]
          exact dvd_refl _
      rw [varintParseSlow, readVarint]
      by_cases hlast : byte.toNat < 128
      · simp only [if_pos hlast, Option.map_some, hres]
      · simp only [if_neg hlast, ih, Option.map_map, Function.comp_def]
        congr 1
        funext r
        have hle : 128 ≤ byte.toNat := Nat.not_lt.mp hlast
        have hsum : res + ((byte.toNat : Int) - 1) * 2 ^ (7 * i) +
            ((r.1 : Int) - 1) * 2 ^ (7 * (i + 1)) =
            res + (((byte.toNat - 128 + 128 * r.1 : ℕ) : Int) - 1) * 2 ^ (7 * i) := by
          rw [Nat.cast_add, Nat.cast_sub hle, Nat.cast_mul, Nat.mul_add, pow_add]
          push_cast
          ring
        rw [← hsum, Int.add_emod, hres, ← Int.add_emod]

theorem varintParse_eq (hkept : width ≤ 7 * kept) (hwidth : 7 ≤ width) :
    varintParse kept (n + 1) width bytes =
      (readVarint (n + 1) bytes).map fun r => (r.1 % 2 ^ width, r.2) := by
  have hpow : 2 ^ 7 ≤ 2 ^ width := Nat.pow_le_pow_right (by decide) hwidth
  cases bytes with
  | nil => rfl
  | cons byte bytes =>
    rw [varintParse, readVarint, Nat.add_sub_cancel]
    by_cases hlast : byte.toNat < 128
    · rw [if_pos hlast, if_pos hlast, Option.map_some, Nat.mod_eq_of_lt (by omega)]
    · have hslow :
          (varintParseSlow kept n 1 byte.toNat bytes).map (fun r => (r.1 % 2 ^ width, r.2)) = _ :=
        varintParseSlow_eq hkept byte.toNat
      have hmap := congrArg (Option.map fun r : Int × List UInt8 => (r.1.toNat, r.2)) hslow
      simp only [Option.map_map, Function.comp_def] at hmap
      rw [if_neg hlast, if_neg hlast, hmap, Option.map_map]
      congr 1
      funext r
      have hsum : (byte.toNat : Int) + ((r.1 : Int) - 1) * 2 ^ (7 * 1) =
          ((byte.toNat - 128 + 128 * r.1 : ℕ) : Int) := by omega
      rw [hsum]
      exact Prod.ext (by simp only [Function.comp_apply]; exact_mod_cast Int.toNat_natCast _) rfl

theorem readTag_eq : readTag bytes = (readVarint 5 bytes).map fun r => (r.1 % 2 ^ 32, r.2) :=
  varintParse_eq (by decide) (by decide)

theorem readVarint32_eq :
    readVarint32 bytes = (readVarint 10 bytes).map fun r => (r.1 % 2 ^ 32, r.2) :=
  varintParse_eq (by decide) (by decide)

theorem readVarint64_eq :
    readVarint64 bytes = (readVarint 10 bytes).map fun r => (r.1 % 2 ^ 64, r.2) :=
  varintParse_eq (by decide) (by decide)

/-- The loop over sizes, where `part` is what the bytes before `i` make. -/
theorem readSizeFallback_eq {part : ℕ} (hi : n + i = 4) (hpart : part < 2 ^ (7 * i))
    (bytes : List UInt8) :
    readSizeFallback n i ((part + 2 ^ (7 * i) : ℕ) : Int) bytes =
      (readVarint (n + 1) bytes).bind fun r =>
        if part + r.1 * 2 ^ (7 * i) ≤ intMax - kSlopBytes
          then some (part + r.1 * 2 ^ (7 * i), r.2) else none := by
  have hlimit : intMax - kSlopBytes = 2147483631 := by norm_num [intMax, kSlopBytes]
  induction n generalizing i part bytes with
  | zero =>
    obtain rfl : i = 4 := by omega
    cases bytes with
    | nil => rfl
    | cons byte bytes =>
      rw [readSizeFallback, readVarint]
      by_cases hbig : 8 ≤ byte.toNat
      · rw [if_pos hbig]
        by_cases hlast : byte.toNat < 128
        · rw [if_pos hlast, Option.bind_some, hlimit, if_neg (by dsimp only; omega)]
        · rw [if_neg hlast]
          rfl
      · have hres : ((part + 2 ^ (7 * 4) : ℕ) : Int) + ((byte.toNat : Int) - 1) * 2 ^ (7 * 4) =
            ((part + byte.toNat * 2 ^ (7 * 4) : ℕ) : Int) := by omega
        have hle : kSlopBytes ≤ intMax := by norm_num [intMax, kSlopBytes]
        rw [if_neg hbig, hres, if_pos (show byte.toNat < 128 by omega), Option.bind_some,
          Int.toNat_natCast]
        by_cases hfits : part + byte.toNat * 2 ^ (7 * 4) ≤ intMax - kSlopBytes
        · rw [if_pos hfits, if_neg (by omega)]
        · rw [if_neg hfits, if_pos (by omega)]
  | succ n ih =>
    cases bytes with
    | nil => rfl
    | cons byte bytes =>
      have hpow : 2 ^ (7 * (i + 1)) = 2 ^ (7 * i) * 128 := by ring
      have hres : ((part + 2 ^ (7 * i) : ℕ) : Int) + ((byte.toNat : Int) - 1) * 2 ^ (7 * i) =
          ((part + byte.toNat * 2 ^ (7 * i) : ℕ) : Int) := by
        push_cast
        ring
      rw [readSizeFallback, readVarint, hres]
      by_cases hlast : byte.toNat < 128
      · have hsmall : 2 ^ (7 * (i + 1)) ≤ 2 ^ 28 := Nat.pow_le_pow_right (by decide) (by omega)
        have hmul : byte.toNat * 2 ^ (7 * i) ≤ 127 * 2 ^ (7 * i) :=
          Nat.mul_le_mul_right _ (by omega)
        rw [if_pos hlast, if_pos hlast, Option.bind_some, Int.toNat_natCast, hlimit,
          if_pos (by dsimp only; omega)]
      · obtain ⟨low, hlow⟩ := Nat.exists_eq_add_of_le (Nat.not_lt.mp hlast)
        have hbound := byte.toNat_lt
        have hmul : low * 2 ^ (7 * i) ≤ 127 * 2 ^ (7 * i) := Nat.mul_le_mul_right _ (by omega)
        have hnext : part + byte.toNat * 2 ^ (7 * i) =
            part + low * 2 ^ (7 * i) + 2 ^ (7 * (i + 1)) := by
          rw [hlow, hpow]
          ring
        rw [if_neg hlast, if_neg hlast, hnext, ih (by omega) (by omega), Option.bind_map]
        congr 1
        funext r
        have hsum : part + low * 2 ^ (7 * i) + r.1 * 2 ^ (7 * (i + 1)) =
            part + (byte.toNat - 128 + 128 * r.1) * 2 ^ (7 * i) := by
          rw [hlow, Nat.add_sub_cancel_left, hpow]
          ring
        rw [hsum, Function.comp_apply]

/-- A size is a varint of at most five bytes, and not absurdly large. -/
theorem readSize_eq : readSize bytes = (readVarint 5 bytes).bind fun r =>
    if r.1 ≤ intMax - kSlopBytes then some r else none := by
  cases bytes with
  | nil => rfl
  | cons byte bytes =>
    rw [readSize, readVarint]
    by_cases hlast : byte.toNat < 128
    · have hlimit : intMax - kSlopBytes = 2147483631 := by norm_num [intMax, kSlopBytes]
      rw [if_pos hlast, if_pos hlast, Option.bind_some, hlimit, if_pos (by dsimp only; omega)]
    · obtain ⟨low, hlow⟩ := Nat.exists_eq_add_of_le (Nat.not_lt.mp hlast)
      have hbound := byte.toNat_lt
      have hfirst : (byte.toNat : Int) = ((low + 2 ^ (7 * 1) : ℕ) : Int) := by omega
      have hslow := readSizeFallback_eq (n := 3) (i := 1) rfl
        (show low < 2 ^ (7 * 1) by omega) bytes
      rw [if_neg hlast, if_neg hlast, hfirst, hslow, Option.bind_map]
      refine congrArg (Option.bind (readVarint 4 bytes)) (funext fun r => ?_)
      have hsum : low + r.1 * 2 ^ (7 * 1) = byte.toNat - 128 + 128 * r.1 := by omega
      exact congrArg
        (fun size => if size ≤ intMax - kSlopBytes then some (size, r.2) else none) hsum

/-- The readers, each with a loop of its own, all read numbers in base 128 and differ in how many
bytes they take and how many bits they keep. -/
theorem readers_agree (bytes : List UInt8) :
    readTag bytes = (readVarint 5 bytes).map (fun r => (r.1 % 2 ^ 32, r.2)) ∧
    readVarint32 bytes = (readVarint 10 bytes).map (fun r => (r.1 % 2 ^ 32, r.2)) ∧
    readVarint64 bytes = (readVarint 10 bytes).map (fun r => (r.1 % 2 ^ 64, r.2)) ∧
    readSize bytes = (readVarint 5 bytes).bind fun r =>
      if r.1 ≤ intMax - kSlopBytes then some r else none :=
  ⟨readTag_eq, readVarint32_eq, readVarint64_eq, readSize_eq⟩

end Varint

end ServerCore.Packets
