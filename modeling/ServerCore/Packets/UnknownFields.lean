import ServerCore.Packets.WireFormat

namespace ServerCore.Packets

open Framework

/-- A field number that a tag can carry. -/
def ValidNumber (number : ℕ) : Prop := 0 < number ∧ number < 2 ^ 29

namespace UnknownField

def tag : UnknownField → ℕ
  | .varint number _ => number * 8
  | .fixed64 number _ => number * 8 + 1
  | .lengthDelimited number _ => number * 8 + 2
  | .group number _ => number * 8 + 3
  | .fixed32 number _ => number * 8 + 5

/-- What stands behind the tag. -/
def payload : UnknownField → List UInt8
  | .varint _ value => writeVarint 10 value.toNat
  | .fixed32 _ value => writeFixed 4 value.toNat
  | .fixed64 _ value => writeFixed 8 value.toNat
  | .lengthDelimited _ value => writeVarint 5 value.length ++ value
  | .group number fields => fields.flatMap serialize ++ writeTag number 4

/-- A field that the parser can return: groups are nested at most so deep. -/
inductive Wf : ℕ → UnknownField → Prop where
  | varint {depth number : ℕ} {value : UInt64} : ValidNumber number →
      Wf depth (.varint number value)
  | fixed32 {depth number : ℕ} {value : UInt32} : ValidNumber number →
      Wf depth (.fixed32 number value)
  | fixed64 {depth number : ℕ} {value : UInt64} : ValidNumber number →
      Wf depth (.fixed64 number value)
  | lengthDelimited {depth number : ℕ} {value : List UInt8} : ValidNumber number →
      value.length ≤ intMax - kSlopBytes → Wf depth (.lengthDelimited number value)
  | group {depth number : ℕ} {fields : List UnknownField} : ValidNumber number →
      (∀ f ∈ fields, Wf depth f) → Wf (depth + 1) (.group number fields)

theorem serialize_eq (f : UnknownField) : f.serialize = writeVarint 5 f.tag ++ f.payload := by
  cases f <;> simp [serialize, tag, payload, writeTag]

theorem Wf.tag_lt {depth : ℕ} {f : UnknownField} (h : f.Wf depth) : f.tag < 2 ^ 32 := by
  cases h with
  | varint h | fixed32 h | fixed64 h | lengthDelimited h | group h =>
    have hlt := h.2
    simp only [tag]
    omega

theorem Wf.not_end {depth : ℕ} {f : UnknownField} (h : f.Wf depth) : endsParse f.tag = false := by
  cases h with
  | varint h | fixed32 h | fixed64 h | lengthDelimited h | group h =>
    have hpos := h.1
    rw [endsParse, decide_eq_false_iff_not, tag]
    omega

end UnknownField

section Read

variable {bytes rest : List UInt8} {n : ℕ}

theorem readTag_writeVarint {tag : ℕ} (h : tag < 2 ^ 32) (rest : List UInt8) :
    readTag (writeVarint 5 tag ++ rest) = some (tag, rest) := by
  have hdigits : tag < 128 ^ (4 + 1) := by omega
  have hread := readVarint_writeVarint hdigits rest
  rw [readTag_eq, hread, Option.map_some, Nat.mod_eq_of_lt h]

theorem readVarint64_writeVarint (value : UInt64) (rest : List UInt8) :
    readVarint64 (writeVarint 10 value.toNat ++ rest) = some (value.toNat, rest) := by
  have hlt := value.toNat_lt
  have hdigits : value.toNat < 128 ^ (9 + 1) := by omega
  have hread := readVarint_writeVarint hdigits rest
  rw [readVarint64_eq, hread, Option.map_some, Nat.mod_eq_of_lt hlt]

theorem readSize_writeVarint (h : n ≤ intMax - kSlopBytes) (rest : List UInt8) :
    readSize (writeVarint 5 n ++ rest) = some (n, rest) := by
  have hsmall : n < 128 ^ (4 + 1) := by
    simp only [intMax, kSlopBytes] at h
    omega
  rw [readSize_eq, readVarint_writeVarint hsmall rest, Option.bind_some, if_pos h]

theorem readString_append (value rest : List UInt8) :
    readString value.length (value ++ rest) = some (value, rest) := by
  rw [readString, if_pos (by simp), List.take_left, List.drop_left]

theorem readTag_shorter {tag : ℕ} (h : readTag bytes = some (tag, rest)) :
    rest.length < bytes.length := by
  rw [readTag_eq] at h
  obtain ⟨⟨m, more⟩, hread, heq⟩ := Option.map_eq_some_iff.mp h
  obtain ⟨_, rfl⟩ := Prod.mk.inj heq
  exact readVarint_shorter hread

theorem readTag_lt {tag : ℕ} (h : readTag bytes = some (tag, rest)) : tag < 2 ^ 32 := by
  rw [readTag_eq] at h
  obtain ⟨⟨m, more⟩, _, heq⟩ := Option.map_eq_some_iff.mp h
  obtain ⟨rfl, _⟩ := Prod.mk.inj heq
  exact Nat.mod_lt _ (by decide)

theorem readSize_spec {size : ℕ} (h : readSize bytes = some (size, rest)) :
    rest.length < bytes.length ∧ size ≤ intMax - kSlopBytes := by
  rw [readSize_eq] at h
  obtain ⟨⟨m, more⟩, hread, hsize⟩ := Option.bind_eq_some_iff.mp h
  split at hsize
  · next hle =>
    obtain ⟨rfl, rfl⟩ := Prod.mk.inj (Option.some.inj hsize)
    exact ⟨readVarint_shorter hread, hle⟩
  · exact absurd hsize.symm (Option.some_ne_none _)

theorem readString_spec {size : ℕ} {value : List UInt8}
    (h : readString size bytes = some (value, rest)) :
    value.length = size ∧ rest.length ≤ bytes.length := by
  rw [readString] at h
  split at h
  · next hle =>
    obtain ⟨rfl, rfl⟩ := Prod.mk.inj (Option.some.inj h)
    exact ⟨List.length_take_of_le hle, by simp⟩
  · exact absurd h.symm (Option.some_ne_none _)

end Read

section Parser

variable {n depth tag : ℕ} {bytes rest : List UInt8} {f : UnknownField}

theorem wireFormatParser_succ (n depth : ℕ) (bytes : List UInt8) :
    wireFormatParser (n + 1) depth bytes =
      if bytes = [] then some ([], 0, [])
      else
        (readTag bytes).bind fun t =>
          if endsParse t.1 then some ([], (t.1 + 2 ^ 32 - 1) % 2 ^ 32, t.2)
          else
            (fieldParser (parseGroup n depth) t.1 t.2).bind fun f =>
              (wireFormatParser n depth f.2).map fun r => (f.1 :: r.1, r.2) := rfl

/-- The parser of a field reads back what the field is written as. -/
def ReadsBack (depth : ℕ) (f : UnknownField) : Prop :=
  ∀ n rest, (f.payload ++ rest).length < n →
    fieldParser (parseGroup n depth) f.tag (f.payload ++ rest) = some (f, rest)

theorem writeVarint_append_ne_nil (tag : ℕ) (rest : List UInt8) :
    writeVarint 5 tag ++ rest ≠ [] := by
  intro hnil
  exact writeVarint_ne_nil 4 tag (List.append_eq_nil_iff.mp hnil).1

/-- Fields that are each read back are read back one after another, up to the tag that ends the
group. -/
theorem wireFormatParser_serialize (fields : List UnknownField)
    (hwf : ∀ f ∈ fields, f.Wf depth) (hback : ∀ f ∈ fields, ReadsBack depth f)
    (htag : tag < 2 ^ 32) (hend : endsParse tag = true) (rest : List UInt8)
    (hn : (fields.flatMap UnknownField.serialize ++ (writeVarint 5 tag ++ rest)).length < n) :
    wireFormatParser n depth
        (fields.flatMap UnknownField.serialize ++ (writeVarint 5 tag ++ rest)) =
      some (fields, (tag + 2 ^ 32 - 1) % 2 ^ 32, rest) := by
  induction fields generalizing n with
  | nil =>
    obtain ⟨n, rfl⟩ := Nat.exists_eq_succ_of_ne_zero (by omega : n ≠ 0)
    rw [List.flatMap_nil, List.nil_append, wireFormatParser_succ,
      if_neg (writeVarint_append_ne_nil tag rest), readTag_writeVarint htag, Option.bind_some,
      if_pos hend]
  | cons f fields ih =>
    obtain ⟨n, rfl⟩ := Nat.exists_eq_succ_of_ne_zero (by omega : n ≠ 0)
    have hf := hwf f (by simp)
    rw [List.flatMap_cons, List.append_assoc, f.serialize_eq, List.append_assoc] at hn ⊢
    have hpos : 0 < (writeVarint 5 f.tag).length :=
      List.length_pos_iff.mpr (writeVarint_ne_nil 4 f.tag)
    rw [List.length_append] at hn
    have hrest := ih (n := n) (fun g hg => hwf g (by simp [hg]))
      (fun g hg => hback g (by simp [hg]))
      (by
        rw [List.length_append] at hn
        omega)
    rw [wireFormatParser_succ, if_neg (writeVarint_append_ne_nil _ _),
      readTag_writeVarint hf.tag_lt, Option.bind_some, hf.not_end, if_neg Bool.false_ne_true,
      hback f (by simp) n _ (by omega), Option.bind_some, hrest, Option.map_some]

theorem fieldParser_eq {number wireType : ℕ} (hpos : 0 < number) (hlt : wireType < 8)
    (group : List UInt8 → Option (List UnknownField × ℕ × List UInt8)) (bytes : List UInt8) :
    fieldParser group (number * 8 + wireType) bytes = fieldOfType group number wireType bytes := by
  have hnumber : (number * 8 + wireType) / 8 = number := by omega
  have htype : (number * 8 + wireType) % 8 = wireType := by omega
  rw [fieldParser, hnumber, htype, if_neg (by omega)]

theorem readsBack (h : f.Wf depth) : ReadsBack depth f := by
  induction h with
  | @varint depth number value hnumber =>
    intro n rest _
    have heq := fieldParser_eq hnumber.1 (by decide : 0 < 8) (parseGroup n depth)
    rw [UnknownField.tag, ← Nat.add_zero (number * 8), heq, UnknownField.payload, fieldOfType,
      readVarint64_writeVarint, Option.map_some, UInt64.ofNat_toNat]
  | @fixed32 depth number value hnumber =>
    intro n rest _
    have hlt : value.toNat < 256 ^ 4 := value.toNat_lt
    have hread := readFixed_writeFixed hlt rest
    have heq := fieldParser_eq hnumber.1 (by decide : 5 < 8) (parseGroup n depth)
    rw [UnknownField.tag, heq, UnknownField.payload, fieldOfType, hread, Option.map_some,
      UInt32.ofNat_toNat]
  | @fixed64 depth number value hnumber =>
    intro n rest _
    have hlt : value.toNat < 256 ^ 8 := value.toNat_lt
    have hread := readFixed_writeFixed hlt rest
    have heq := fieldParser_eq hnumber.1 (by decide : 1 < 8) (parseGroup n depth)
    rw [UnknownField.tag, heq, UnknownField.payload, fieldOfType, hread, Option.map_some,
      UInt64.ofNat_toNat]
  | @lengthDelimited depth number value hnumber hlen =>
    intro n rest _
    have heq := fieldParser_eq hnumber.1 (by decide : 2 < 8) (parseGroup n depth)
    rw [UnknownField.tag, heq, UnknownField.payload, fieldOfType, List.append_assoc,
      readSize_writeVarint hlen, Option.bind_some, readString_append, Option.map_some]
  | @group depth number fields hnumber hfields ih =>
    intro n rest hn
    obtain ⟨hpos, hlt⟩ := hnumber
    have hend : endsParse (number * 8 + 4) = true := by
      rw [endsParse, decide_eq_true_eq]
      omega
    have heq := fieldParser_eq hpos (by decide : 3 < 8) (parseGroup n (depth + 1))
    rw [UnknownField.payload, List.append_assoc, writeTag] at hn
    have hparse := wireFormatParser_serialize fields hfields ih (by omega) hend rest hn
    have hlast : (number * 8 + 4 + 2 ^ 32 - 1) % 2 ^ 32 = number * 8 + 3 := by omega
    rw [UnknownField.tag, heq, UnknownField.payload, fieldOfType, List.append_assoc, writeTag,
      parseGroup, if_neg (Nat.succ_ne_zero depth), Nat.add_sub_cancel, hparse, Option.bind_some,
      if_pos hlast]

/-- What the parser returns is well formed. -/
theorem fieldParser_wf {group : List UInt8 → Option (List UnknownField × ℕ × List UInt8)}
    (hgroup : ∀ bytes r, group bytes = some r → ∃ d, depth = d + 1 ∧ ∀ f ∈ r.1, f.Wf d)
    (htag : tag < 2 ^ 32) (h : fieldParser group tag bytes = some (f, rest)) : f.Wf depth := by
  rw [fieldParser] at h
  split at h
  · exact absurd h.symm (Option.some_ne_none _)
  next hzero =>
  have hnumber : ValidNumber (tag / 8) := ⟨by omega, by omega⟩
  unfold fieldOfType at h
  split at h
  · obtain ⟨r, _, heq⟩ := Option.map_eq_some_iff.mp h
    obtain ⟨rfl, _⟩ := Prod.mk.inj heq
    exact .varint hnumber
  · obtain ⟨r, _, heq⟩ := Option.map_eq_some_iff.mp h
    obtain ⟨rfl, _⟩ := Prod.mk.inj heq
    exact .fixed64 hnumber
  · obtain ⟨⟨size, more⟩, hsize, hstring⟩ := Option.bind_eq_some_iff.mp h
    obtain ⟨⟨value, more'⟩, hvalue, heq⟩ := Option.map_eq_some_iff.mp hstring
    obtain ⟨rfl, _⟩ := Prod.mk.inj heq
    have hle := (readSize_spec hsize).2
    have hlen := (readString_spec hvalue).1
    exact .lengthDelimited hnumber (hlen.trans_le hle)
  · obtain ⟨⟨fields, last, more⟩, hparse, heq⟩ := Option.bind_eq_some_iff.mp h
    obtain ⟨d, rfl, hfields⟩ := hgroup _ _ hparse
    split at heq
    · obtain ⟨rfl, _⟩ := Prod.mk.inj (Option.some.inj heq)
      exact .group hnumber hfields
    · exact absurd heq.symm (Option.some_ne_none _)
  · obtain ⟨r, _, heq⟩ := Option.map_eq_some_iff.mp h
    obtain ⟨rfl, _⟩ := Prod.mk.inj heq
    exact .fixed32 hnumber
  · exact absurd h.symm (Option.some_ne_none _)

theorem fieldParser_tag {group : List UInt8 → Option (List UnknownField × ℕ × List UInt8)}
    (h : fieldParser group tag bytes = some (f, rest)) : f.tag = tag := by
  rw [fieldParser] at h
  split at h
  · exact absurd h.symm (Option.some_ne_none _)
  generalize hnumber : tag / 8 = number at h
  generalize htype : tag % 8 = wireType at h
  unfold fieldOfType at h
  split at h
  · obtain ⟨r, _, heq⟩ := Option.map_eq_some_iff.mp h
    obtain ⟨rfl, _⟩ := Prod.mk.inj heq
    rw [UnknownField.tag]
    omega
  · obtain ⟨r, _, heq⟩ := Option.map_eq_some_iff.mp h
    obtain ⟨rfl, _⟩ := Prod.mk.inj heq
    rw [UnknownField.tag]
    omega
  · obtain ⟨r, _, hstring⟩ := Option.bind_eq_some_iff.mp h
    obtain ⟨s, _, heq⟩ := Option.map_eq_some_iff.mp hstring
    obtain ⟨rfl, _⟩ := Prod.mk.inj heq
    rw [UnknownField.tag]
    omega
  · obtain ⟨r, _, heq⟩ := Option.bind_eq_some_iff.mp h
    split at heq
    · obtain ⟨rfl, _⟩ := Prod.mk.inj (Option.some.inj heq)
      rw [UnknownField.tag]
      omega
    · exact absurd heq.symm (Option.some_ne_none _)
  · obtain ⟨r, _, heq⟩ := Option.map_eq_some_iff.mp h
    obtain ⟨rfl, _⟩ := Prod.mk.inj heq
    rw [UnknownField.tag]
    omega
  · exact absurd h.symm (Option.some_ne_none _)

theorem wireFormatParser_wf {r : List UnknownField × ℕ × List UInt8}
    (h : wireFormatParser n depth bytes = some r) : ∀ f ∈ r.1, f.Wf depth := by
  induction n generalizing depth bytes r with
  | zero => exact absurd h.symm (Option.some_ne_none _)
  | succ n ih =>
    rw [wireFormatParser_succ] at h
    split at h
    · obtain rfl := Option.some.inj h
      simp
    obtain ⟨⟨tag, more⟩, htag, h⟩ := Option.bind_eq_some_iff.mp h
    split at h
    · obtain rfl := Option.some.inj h
      simp
    obtain ⟨⟨f, more'⟩, hfield, h⟩ := Option.bind_eq_some_iff.mp h
    obtain ⟨r', hrest, rfl⟩ := Option.map_eq_some_iff.mp h
    intro g hg
    rcases List.mem_cons.mp hg with rfl | hg
    · refine fieldParser_wf ?_ (readTag_lt htag) hfield
      intro bytes r hgroup
      rw [parseGroup] at hgroup
      split at hgroup
      · exact absurd hgroup.symm (Option.some_ne_none _)
      next hdepth =>
      obtain ⟨d, rfl⟩ := Nat.exists_eq_succ_of_ne_zero hdepth
      exact ⟨d, rfl, ih hgroup⟩
    · exact ih hrest g hg

theorem parseGroup_wf {r : List UnknownField × ℕ × List UInt8}
    (h : parseGroup n depth bytes = some r) : ∃ d, depth = d + 1 ∧ ∀ f ∈ r.1, f.Wf d := by
  rw [parseGroup] at h
  split at h
  · exact absurd h.symm (Option.some_ne_none _)
  next hdepth =>
  obtain ⟨d, rfl⟩ := Nat.exists_eq_succ_of_ne_zero hdepth
  exact ⟨d, rfl, wireFormatParser_wf h⟩

theorem fieldParser_le {group : List UInt8 → Option (List UnknownField × ℕ × List UInt8)}
    (hgroup : ∀ r, group bytes = some r → r.2.2.length ≤ bytes.length)
    (h : fieldParser group tag bytes = some (f, rest)) : rest.length ≤ bytes.length := by
  rw [fieldParser] at h
  split at h
  · exact absurd h.symm (Option.some_ne_none _)
  unfold fieldOfType at h
  split at h
  · obtain ⟨r, hread, heq⟩ := Option.map_eq_some_iff.mp h
    obtain ⟨_, rfl⟩ := Prod.mk.inj heq
    rw [readVarint64_eq] at hread
    obtain ⟨r', hvarint, rfl⟩ := Option.map_eq_some_iff.mp hread
    exact (readVarint_shorter hvarint).le
  · obtain ⟨r, hread, heq⟩ := Option.map_eq_some_iff.mp h
    obtain ⟨_, rfl⟩ := Prod.mk.inj heq
    have hlen := length_readFixed hread
    omega
  · obtain ⟨r, hsize, hstring⟩ := Option.bind_eq_some_iff.mp h
    obtain ⟨s, hread, heq⟩ := Option.map_eq_some_iff.mp hstring
    obtain ⟨_, rfl⟩ := Prod.mk.inj heq
    have hlen := (readString_spec hread).2
    have hless := (readSize_spec hsize).1
    omega
  · obtain ⟨r, hparse, heq⟩ := Option.bind_eq_some_iff.mp h
    split at heq
    · obtain ⟨_, rfl⟩ := Prod.mk.inj (Option.some.inj heq)
      exact hgroup r hparse
    · exact absurd heq.symm (Option.some_ne_none _)
  · obtain ⟨r, hread, heq⟩ := Option.map_eq_some_iff.mp h
    obtain ⟨_, rfl⟩ := Prod.mk.inj heq
    have hlen := length_readFixed hread
    omega
  · exact absurd h.symm (Option.some_ne_none _)

theorem fieldParser_congr {group group' : List UInt8 → Option (List UnknownField × ℕ × List UInt8)}
    (h : group bytes = group' bytes) :
    fieldParser group tag bytes = fieldParser group' tag bytes := by
  rw [fieldParser, fieldParser]
  split
  · rfl
  unfold fieldOfType
  split
  case h_4 => rw [h]
  all_goals rfl

theorem wireFormatParser_le {r : List UnknownField × ℕ × List UInt8}
    (h : wireFormatParser n depth bytes = some r) : r.2.2.length ≤ bytes.length := by
  induction n generalizing depth bytes r with
  | zero => exact absurd h.symm (Option.some_ne_none _)
  | succ n ih =>
    rw [wireFormatParser_succ] at h
    split at h
    · obtain rfl := Option.some.inj h
      exact Nat.zero_le _
    obtain ⟨⟨tag, more⟩, htag, h⟩ := Option.bind_eq_some_iff.mp h
    have hless := readTag_shorter htag
    split at h
    · obtain rfl := Option.some.inj h
      exact hless.le
    obtain ⟨⟨f, more'⟩, hfield, h⟩ := Option.bind_eq_some_iff.mp h
    obtain ⟨r', hrest, rfl⟩ := Option.map_eq_some_iff.mp h
    have hgroup : ∀ r, parseGroup n depth more = some r → r.2.2.length ≤ more.length := by
      intro r hgroup
      rw [parseGroup] at hgroup
      split at hgroup
      · exact absurd hgroup.symm (Option.some_ne_none _)
      · exact ih hgroup
    have hle := fieldParser_le hgroup hfield
    have hlast := ih hrest
    dsimp only at hle hless hlast ⊢
    omega

theorem parseGroup_le {r : List UnknownField × ℕ × List UInt8}
    (h : parseGroup n depth bytes = some r) : r.2.2.length ≤ bytes.length := by
  rw [parseGroup] at h
  split at h
  · exact absurd h.symm (Option.some_ne_none _)
  · exact wireFormatParser_le h

/-- More iterations than bytes are never needed. -/
theorem wireFormatParser_fuel {n' : ℕ} (hn : bytes.length < n) (hn' : bytes.length < n') :
    wireFormatParser n depth bytes = wireFormatParser n' depth bytes := by
  induction n generalizing n' depth bytes with
  | zero => exact absurd hn (Nat.not_lt_zero _)
  | succ n ih =>
    obtain ⟨n', rfl⟩ := Nat.exists_eq_succ_of_ne_zero (by omega : n' ≠ 0)
    rw [wireFormatParser_succ, wireFormatParser_succ]
    split
    · rfl
    apply Option.bind_congr
    intro ⟨tag, more⟩ htag
    have hless := readTag_shorter htag
    have hgroup : parseGroup n depth more = parseGroup n' depth more := by
      have hmore : wireFormatParser n (depth - 1) more = wireFormatParser n' (depth - 1) more :=
        ih (by omega) (by omega)
      rw [parseGroup, parseGroup, hmore]
    rw [fieldParser_congr hgroup]
    split
    · rfl
    apply Option.bind_congr
    intro ⟨f, more'⟩ hfield
    have hle := fieldParser_le (fun _ => parseGroup_le) hfield
    have hrest : wireFormatParser n depth more' = wireFormatParser n' depth more' :=
      ih (by omega) (by omega)
    dsimp only
    rw [hrest]

end Parser

end ServerCore.Packets
