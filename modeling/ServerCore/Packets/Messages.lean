import ServerCore.Packets.UnknownFields

namespace ServerCore.Packets

open Framework

/-- `VerifyUTF8`. -/
def verifyUTF8 (bytes : List UInt8) : Bool := ByteArray.validateUTF8 ⟨bytes.toArray⟩

/-- `VarintSize32` and `VarintSize64`. -/
def varintSize (value : ℕ) : ℕ := ((value ||| 1).log2 * 9 + 73) / 64

/-- `VarintSize64PlusOne`. -/
def varintSizePlusOne (value : ℕ) : ℕ := ((value ||| 1).log2 * 9 + 73 + 64) / 64

/-- `static_cast<uint64_t>(int64_t{value})`. -/
def signExtended (value : Int32) : ℕ := (value.toInt % 2 ^ 64).toNat

/-- `ComputeUnknownFieldsSize`, for one field. -/
def UnknownField.computeSize : UnknownField → ℕ
  | .varint number value => varintSize (number * 8) + varintSize value.toNat
  | .fixed32 number _ => varintSize (number * 8 + 5) + 4
  | .fixed64 number _ => varintSize (number * 8 + 1) + 8
  | .lengthDelimited number value =>
      varintSize (number * 8 + 2) + varintSize value.length + value.length
  | .group number fields =>
      varintSize (number * 8 + 3) + (fields.map UnknownField.computeSize).sum +
        varintSize (number * 8 + 4)

/-- A field of a generated class: its case in the switch of `_InternalParse`, its part of
`_InternalSerialize` and of `ByteSizeLong`, and its setter applied to a getter. -/
structure KnownField (F : Type) where
  tag : ℕ
  isDefault : F → Bool
  parse : F → List UInt8 → Option (F × List UInt8)
  payload : F → List UInt8
  size : F → ℕ
  copy : F → F → F

/-- The part of a field in `_InternalSerialize`. -/
def KnownField.write {F : Type} (k : KnownField F) (m : F) : List UInt8 :=
  if k.isDefault m then [] else writeVarint 5 k.tag ++ k.payload m

/-- The part of a field in `ByteSizeLong`. -/
def KnownField.byteSize {F : Type} (k : KnownField F) (m : F) : ℕ :=
  if k.isDefault m then 0 else k.size m

/-- A field copied over unless it is left out when written. -/
def KnownField.merge {F : Type} (k : KnownField F) (source m : F) : F :=
  if k.isDefault source then m else k.copy m source

/-- A generated class: what its constructor sets, and its fields by their numbers. -/
structure MessageType (F : Type) where
  default : F
  known : List (KnownField F)

/-- An object of a generated class; `unknownFields` are in `_internal_metadata_`. -/
structure ProtoMessage (F : Type) where
  fields : F
  unknownFields : List UnknownField

section

variable {F : Type}

/-- A field of type `int32`. -/
def int32Field (number : ℕ) (get : F → Int32) (set : F → Int32 → F) : KnownField F where
  tag := number * 8
  isDefault m := get m = 0
  parse m bytes := (readVarint32 bytes).map fun r => (set m (Int32.ofNat r.1), r.2)
  payload m := writeVarint 10 (signExtended (get m))
  size m := varintSizePlusOne (signExtended (get m))
  copy to' source := set to' (get source)

/-- A field of type `string`. -/
def stringField (number : ℕ) (get : F → List UInt8) (set : F → List UInt8 → F) :
    KnownField F where
  tag := number * 8 + 2
  isDefault m := get m = []
  parse m bytes := (readSize bytes).bind fun r => (readString r.1 r.2).bind fun s =>
    if verifyUTF8 s.1 then some (set m s.1, s.2) else none
  payload m := writeVarint 5 (get m).length ++ get m
  size m := 1 + ((get m).length + varintSize (get m).length)
  copy to' source := set to' (get source)

namespace MessageType

variable (T : MessageType F)

/-- The case of the switch in `_InternalParse`, if there is one. -/
def switch (tag : ℕ) : Option (KnownField F) := T.known.find? fun k => k.tag = tag

/-- The loop of `_InternalParse`: the message, what `last_tag_minus_1_` is at the end, and the
rest. The first argument bounds the iterations. -/
def internalParse : ℕ → ProtoMessage F → List UInt8 → Option (ProtoMessage F × ℕ × List UInt8)
  | 0, _, _ => none
  | n + 1, m, bytes =>
      if bytes = [] then some (m, 0, [])
      else
        (readTag bytes).bind fun t =>
          match T.switch t.1 with
          | some k => (k.parse m.fields t.2).bind fun r =>
              internalParse n { m with fields := r.1 } r.2
          | none =>
              if endsParse t.1 then some (m, (t.1 + 2 ^ 32 - 1) % 2 ^ 32, t.2)
              else
                (fieldParser (parseGroup n defaultRecursionLimit) t.1 t.2).bind fun f =>
                  internalParse n { m with unknownFields := m.unknownFields ++ [f.1] } f.2

/-- `ParseFromArray`: the message has to end where the array does. -/
def parseFromArray (bytes : List UInt8) : Option (ProtoMessage F) :=
  (T.internalParse (bytes.length + 1) ⟨T.default, []⟩ bytes).bind fun r =>
    if r.2.1 = 0 then some r.1 else none

/-- `_InternalSerialize`. -/
def internalSerialize (m : ProtoMessage F) : List UInt8 :=
  T.known.flatMap (·.write m.fields) ++ m.unknownFields.flatMap UnknownField.serialize

/-- `ByteSizeLong`. -/
def byteSizeLong (m : ProtoMessage F) : ℕ :=
  (T.known.map (·.byteSize m.fields)).sum + (m.unknownFields.map UnknownField.computeSize).sum

/-- What `SerializeToArray` writes to `size` bytes, unless it fails. -/
def serializeToArray (m : ProtoMessage F) (size : Int) : Option (List UInt8) :=
  if intMax < T.byteSizeLong m then none
  else if size < T.byteSizeLong m then none
  else some (T.internalSerialize m)

end MessageType

end

structure CSChatRequest where
  sessionid : Int32
  msg : List UInt8
  deriving DecidableEq

def CSChatRequest.type : MessageType CSChatRequest where
  default := ⟨0, []⟩
  known :=
    [int32Field 2 (·.sessionid) fun m v => { m with sessionid := v },
      stringField 3 (·.msg) fun m v => { m with msg := v }]

structure SCChatResponse where
  sessionid : Int32
  msg : List UInt8
  deriving DecidableEq

def SCChatResponse.type : MessageType SCChatResponse where
  default := ⟨0, []⟩
  known :=
    [int32Field 2 (·.sessionid) fun m v => { m with sessionid := v },
      stringField 3 (·.msg) fun m v => { m with msg := v }]

/-- A message without fields. -/
structure CSGetIDRequest where
  deriving DecidableEq

def CSGetIDRequest.type : MessageType CSGetIDRequest where
  default := ⟨⟩
  known := []

structure SCGetIDResponse where
  sessionid : Int32
  roomid : Int32
  deriving DecidableEq

def SCGetIDResponse.type : MessageType SCGetIDResponse where
  default := ⟨0, 0⟩
  known :=
    [int32Field 2 (·.sessionid) fun m v => { m with sessionid := v },
      int32Field 3 (·.roomid) fun m v => { m with roomid := v }]

section Sizes

theorem log2_or_one (n : ℕ) : (n ||| 1).log2 = n.log2 := by
  rcases Nat.eq_zero_or_pos n with rfl | hpos
  · rfl
  have hn : n ≠ 0 := by omega
  have hle : n ≤ n ||| 1 := Nat.left_le_or
  obtain ⟨hlow, hhigh⟩ := (Nat.log2_eq_iff hn).mp rfl
  apply (Nat.log2_eq_iff (by omega)).mpr
  constructor
  · omega
  · exact Nat.or_lt_two_pow hhigh (Nat.one_lt_two_pow (by omega))

/-- The multiplication that replaces the division by seven. -/
theorem varintSize_eq {digits n : ℕ} (hn : n < 2 ^ 64) (h : n < 128 ^ (digits + 1)) :
    varintSize n = (writeVarint (digits + 1) n).length := by
  have hlog : n.log2 < 64 := by
    rcases Nat.eq_zero_or_pos n with rfl | hpos
    · decide
    · exact (Nat.log2_lt (by omega)).mpr hn
  rw [varintSize, log2_or_one, length_writeVarint h]
  omega

theorem varintSizePlusOne_eq (n : ℕ) : varintSizePlusOne n = 1 + varintSize n := by
  rw [varintSizePlusOne, varintSize]
  omega

theorem varintSize_tag {tag : ℕ} (h : tag < 2 ^ 32) : varintSize tag = (writeVarint 5 tag).length :=
  varintSize_eq (by omega) (by omega)

theorem varintSize_uint64 (value : UInt64) :
    varintSize value.toNat = (writeVarint 10 value.toNat).length := by
  have hlt := value.toNat_lt
  exact varintSize_eq hlt (by omega)

/-- `ComputeUnknownFieldsSize` counts what is written. -/
theorem UnknownField.Wf.computeSize_eq {depth : ℕ} {f : UnknownField} (h : f.Wf depth) :
    f.computeSize = f.serialize.length := by
  induction h with
  | @varint depth number value hnumber =>
    have hlt := hnumber.2
    rw [computeSize, serialize, writeTag, List.length_append, varintSize_tag (by omega),
      varintSize_uint64, Nat.add_zero]
  | @fixed32 depth number value hnumber =>
    have hlt := hnumber.2
    rw [computeSize, serialize, writeTag, List.length_append, varintSize_tag (by omega),
      length_writeFixed]
  | @fixed64 depth number value hnumber =>
    have hlt := hnumber.2
    rw [computeSize, serialize, writeTag, List.length_append, varintSize_tag (by omega),
      length_writeFixed]
  | @lengthDelimited depth number value hnumber hlen =>
    have hlt := hnumber.2
    have hsmall : value.length < 2 ^ 32 := by
      simp only [intMax, kSlopBytes] at hlen
      omega
    rw [computeSize, serialize, writeTag, List.length_append, List.length_append,
      varintSize_tag (by omega), varintSize_tag hsmall]
  | @group depth number fields hnumber hfields ih =>
    have hlt := hnumber.2
    have hsum : (fields.map computeSize).sum = (fields.flatMap serialize).length := by
      rw [List.length_flatMap, List.map_congr_left ih]
    rw [computeSize, serialize, writeTag, writeTag, List.length_append, List.length_append,
      varintSize_tag (by omega), varintSize_tag (by omega), hsum]

end Sizes

section Fields

variable {F : Type} {Valid : F → Prop}

/-- The field reads what it writes, and keeps `Valid`. -/
structure KnownField.Lawful (k : KnownField F) (Valid : F → Prop) : Prop where
  tag_lt : k.tag < 2 ^ 32
  reads : ∀ m source rest, Valid source →
    k.parse m (k.payload source ++ rest) = some (k.copy m source, rest)
  kept : ∀ m m' bytes rest, Valid m → k.parse m bytes = some (m', rest) → Valid m'
  shorter : ∀ m m' bytes rest, k.parse m bytes = some (m', rest) → rest.length < bytes.length
  size_eq : ∀ m, Valid m → k.size m = (writeVarint 5 k.tag ++ k.payload m).length

theorem signExtended_lt (value : Int32) : signExtended value < 2 ^ 64 := by
  have hpos : (0 : Int) < 2 ^ 64 := by norm_num
  have hlow := Int.emod_nonneg value.toInt hpos.ne'
  have hhigh := Int.emod_lt_of_pos value.toInt hpos
  rw [signExtended]
  omega

/-- The upper half of the ten bytes of a negative number is dropped again. -/
theorem ofNat_signExtended (value : Int32) :
    Int32.ofNat (signExtended value % 2 ^ 32) = value := by
  have hlow := value.le_toInt
  have hhigh := value.toInt_lt
  have hsize : Int32.size = 2 ^ 32 := rfl
  apply Int32.toInt_inj.mp
  rw [Int32.toInt_ofNat', signExtended, Int.bmod_def, hsize]
  split <;> omega

theorem int32Field_lawful {number : ℕ} {get : F → Int32} {set : F → Int32 → F}
    (hnumber : number < 16) (hset : ∀ m v, Valid m → Valid (set m v)) :
    (int32Field number get set).Lawful Valid where
  tag_lt := by
    simp only [int32Field]
    omega
  reads m source rest _ := by
    have hlt := signExtended_lt (get source)
    have hdigits : signExtended (get source) < 128 ^ (9 + 1) := by omega
    have hread := readVarint_writeVarint hdigits rest
    simp only [int32Field, readVarint32_eq, hread, Option.map_some, ofNat_signExtended]
  kept m m' bytes rest hm hparse := by
    obtain ⟨r, _, heq⟩ := Option.map_eq_some_iff.mp hparse
    obtain ⟨rfl, _⟩ := Prod.mk.inj heq
    exact hset _ _ hm
  shorter m m' bytes rest hparse := by
    obtain ⟨r, hread, heq⟩ := Option.map_eq_some_iff.mp hparse
    obtain ⟨_, rfl⟩ := Prod.mk.inj heq
    rw [readVarint32_eq] at hread
    obtain ⟨r', hvarint, rfl⟩ := Option.map_eq_some_iff.mp hread
    exact readVarint_shorter hvarint
  size_eq m _ := by
    have hlt := signExtended_lt (get m)
    have hdigits : signExtended (get m) < 128 ^ (9 + 1) := by omega
    have hone : varintSize (number * 8) = 1 := by
      have hlog : (number * 8).log2 < 7 := by
        rcases Nat.eq_zero_or_pos (number * 8) with hzero | hpos
        · rw [hzero]
          decide
        · exact (Nat.log2_lt (by omega)).mpr (by omega)
      rw [varintSize, log2_or_one]
      omega
    simp only [int32Field]
    rw [varintSizePlusOne_eq, varintSize_eq hlt hdigits, List.length_append,
      ← varintSize_tag (by omega), hone]

theorem stringField_lawful {number : ℕ} {get : F → List UInt8} {set : F → List UInt8 → F}
    (hnumber : number < 16)
    (hget : ∀ m, Valid m → verifyUTF8 (get m) = true ∧ (get m).length ≤ intMax - kSlopBytes)
    (hset : ∀ m s, Valid m → verifyUTF8 s = true → s.length ≤ intMax - kSlopBytes →
      Valid (set m s)) : (stringField number get set).Lawful Valid where
  tag_lt := by
    simp only [stringField]
    omega
  reads m source rest hsource := by
    obtain ⟨hutf8, hlen⟩ := hget source hsource
    simp only [stringField, List.append_assoc, readSize_writeVarint hlen, Option.bind_some,
      readString_append, hutf8, if_true]
  kept m m' bytes rest hm hparse := by
    obtain ⟨r, hsize, hparse⟩ := Option.bind_eq_some_iff.mp hparse
    obtain ⟨s, hstring, hparse⟩ := Option.bind_eq_some_iff.mp hparse
    have hlen := (readString_spec hstring).1
    have hle := (readSize_spec hsize).2
    split at hparse
    · next hutf8 =>
      obtain ⟨rfl, _⟩ := Prod.mk.inj (Option.some.inj hparse)
      exact hset _ _ hm hutf8 (by omega)
    · exact absurd hparse.symm (Option.some_ne_none _)
  shorter m m' bytes rest hparse := by
    obtain ⟨r, hsize, hparse⟩ := Option.bind_eq_some_iff.mp hparse
    obtain ⟨s, hstring, hparse⟩ := Option.bind_eq_some_iff.mp hparse
    have hlen := (readString_spec hstring).2
    have hless := (readSize_spec hsize).1
    split at hparse
    · obtain ⟨_, rfl⟩ := Prod.mk.inj (Option.some.inj hparse)
      omega
    · exact absurd hparse.symm (Option.some_ne_none _)
  size_eq m hm := by
    obtain ⟨_, hlen⟩ := hget m hm
    have hsmall : (get m).length < 2 ^ 32 := by
      simp only [intMax, kSlopBytes] at hlen
      omega
    have hone : varintSize (number * 8 + 2) = 1 := by
      have hlog : (number * 8 + 2).log2 < 7 := (Nat.log2_lt (by omega)).mpr (by omega)
      rw [varintSize, log2_or_one]
      omega
    simp only [stringField]
    rw [List.length_append, List.length_append, ← varintSize_tag (by omega), hone,
      varintSize_tag hsmall]
    omega

end Fields

section Types

variable {F : Type} {T : MessageType F} {Valid : F → Prop} {n : ℕ}

namespace MessageType

/-- What the generator guarantees. -/
structure Lawful (T : MessageType F) (Valid : F → Prop) : Prop where
  field : ∀ k ∈ T.known, k.Lawful Valid
  tags : (T.known.map (·.tag)).Nodup
  valid_default : Valid T.default
  merged : ∀ source, T.known.foldl (fun m k => k.merge source m) T.default = source

/-- The fields hold what they may, and no unknown field is one of them. -/
def Whole (T : MessageType F) (Valid : F → Prop) (m : ProtoMessage F) : Prop :=
  Valid m.fields ∧ ∀ f ∈ m.unknownFields, f.Wf defaultRecursionLimit ∧ T.switch f.tag = none

theorem Lawful.switch_tag (h : T.Lawful Valid) {k : KnownField F} (hk : k ∈ T.known) :
    T.switch k.tag = some k := by
  obtain ⟨k', hfind⟩ := Option.isSome_iff_exists.mp
    (List.find?_isSome.mpr ⟨k, hk, decide_eq_true rfl⟩ : (T.switch k.tag).isSome)
  have htag : k'.tag = k.tag := by simpa using List.find?_some hfind
  have hmem := List.mem_of_find?_eq_some hfind
  rw [switch, hfind, List.inj_on_of_nodup_map h.tags hmem hk htag]

theorem internalParse_known (h : T.Lawful Valid) {k : KnownField F} (hk : k ∈ T.known)
    {m : ProtoMessage F} {source : F} (hsource : Valid source) (rest : List UInt8) :
    T.internalParse (n + 1) m (writeVarint 5 k.tag ++ k.payload source ++ rest) =
      T.internalParse n { m with fields := k.copy m.fields source } rest := by
  have hlawful := h.field k hk
  rw [List.append_assoc, internalParse, if_neg (writeVarint_append_ne_nil _ _),
    readTag_writeVarint hlawful.tag_lt, Option.bind_some, h.switch_tag hk]
  simp only [hlawful.reads m.fields source rest hsource, Option.bind_some]

/-- The known fields are read one after another. -/
theorem internalParse_fields (h : T.Lawful Valid) {source : F} (hsource : Valid source)
    (ks : List (KnownField F)) (hks : ∀ k ∈ ks, k ∈ T.known) (m : ProtoMessage F)
    (rest : List UInt8) (hn : (ks.flatMap (·.write source) ++ rest).length < n) :
    ∃ n', rest.length < n' ∧
      T.internalParse n m (ks.flatMap (·.write source) ++ rest) =
        T.internalParse n' ⟨ks.foldl (fun m k => k.merge source m) m.fields, m.unknownFields⟩
          rest := by
  induction ks generalizing n m with
  | nil => exact ⟨n, hn, rfl⟩
  | cons k ks ih =>
    rw [List.flatMap_cons, List.append_assoc, KnownField.write] at hn ⊢
    rw [List.foldl_cons, KnownField.merge]
    by_cases hdefault : k.isDefault source = true
    · rw [if_pos hdefault, List.nil_append] at hn ⊢
      rw [if_pos hdefault]
      exact ih (fun k hk => hks k (by simp [hk])) m hn
    · obtain ⟨n, rfl⟩ := Nat.exists_eq_succ_of_ne_zero (by omega : n ≠ 0)
      rw [if_neg hdefault] at hn ⊢
      rw [if_neg hdefault, internalParse_known h (hks k (by simp)) hsource]
      apply ih (fun k hk => hks k (by simp [hk])) { m with fields := k.copy m.fields source }
      have hpos : 0 < (writeVarint 5 k.tag).length :=
        List.length_pos_iff.mpr (writeVarint_ne_nil 4 k.tag)
      rw [List.length_append, List.length_append] at hn
      omega

/-- The unknown fields are kept in order. -/
theorem internalParse_unknown (fields : List UnknownField)
    (hwf : ∀ f ∈ fields, f.Wf defaultRecursionLimit ∧ T.switch f.tag = none) (m : ProtoMessage F)
    (hn : (fields.flatMap UnknownField.serialize).length < n) :
    T.internalParse n m (fields.flatMap UnknownField.serialize) =
      some ({ m with unknownFields := m.unknownFields ++ fields }, 0, []) := by
  induction fields generalizing n m with
  | nil =>
    obtain ⟨n, rfl⟩ := Nat.exists_eq_succ_of_ne_zero (by omega : n ≠ 0)
    rw [List.flatMap_nil, internalParse, if_pos rfl, List.append_nil]
  | cons f fields ih =>
    obtain ⟨n, rfl⟩ := Nat.exists_eq_succ_of_ne_zero (by omega : n ≠ 0)
    obtain ⟨hf, hunknown⟩ := hwf f (by simp)
    have hpos : 0 < (writeVarint 5 f.tag).length :=
      List.length_pos_iff.mpr (writeVarint_ne_nil 4 f.tag)
    rw [List.flatMap_cons, f.serialize_eq, List.append_assoc] at hn ⊢
    rw [List.length_append] at hn
    have hback := readsBack hf n (fields.flatMap UnknownField.serialize) (by omega)
    rw [List.length_append] at hn
    rw [internalParse, if_neg (writeVarint_append_ne_nil _ _), readTag_writeVarint hf.tag_lt,
      Option.bind_some, hunknown]
    simp only [hf.not_end, Bool.false_eq_true, if_false, hback, Option.bind_some]
    rw [ih (fun g hg => hwf g (by simp [hg])) _ (by omega), List.append_assoc,
      List.singleton_append]

theorem parseFromArray_internalSerialize (h : T.Lawful Valid) {m : ProtoMessage F}
    (hm : T.Whole Valid m) : T.parseFromArray (T.internalSerialize m) = some m := by
  obtain ⟨hfields, hunknown⟩ := hm
  obtain ⟨n', hn', hparse⟩ := internalParse_fields h hfields T.known (fun _ hk => hk)
    ⟨T.default, []⟩ (m.unknownFields.flatMap UnknownField.serialize) (Nat.lt_succ_self _)
  rw [parseFromArray, internalSerialize, hparse, h.merged,
    internalParse_unknown m.unknownFields hunknown _ hn', Option.bind_some, if_pos rfl,
    List.nil_append]

/-- One iteration keeps it. -/
theorem internalParse_whole (h : T.Lawful Valid) {m : ProtoMessage F} (hm : T.Whole Valid m)
    {bytes : List UInt8} {r : ProtoMessage F × ℕ × List UInt8}
    (hparse : T.internalParse n m bytes = some r) : T.Whole Valid r.1 := by
  induction n generalizing m bytes with
  | zero => exact absurd hparse.symm (Option.some_ne_none _)
  | succ n ih =>
    rw [internalParse] at hparse
    split at hparse
    · obtain rfl := Option.some.inj hparse
      exact hm
    obtain ⟨⟨tag, rest⟩, htag, hparse⟩ := Option.bind_eq_some_iff.mp hparse
    cases hswitch : T.switch tag with
    | some k =>
      simp only [hswitch] at hparse
      obtain ⟨⟨fields, rest'⟩, hfield, hparse⟩ := Option.bind_eq_some_iff.mp hparse
      have hk := h.field k (List.mem_of_find?_eq_some hswitch)
      exact ih (m := ⟨fields, m.unknownFields⟩) ⟨hk.kept _ _ _ _ hm.1 hfield, hm.2⟩ hparse
    | none =>
      simp only [hswitch] at hparse
      split at hparse
      · obtain rfl := Option.some.inj hparse
        exact hm
      obtain ⟨⟨f, rest'⟩, hfield, hparse⟩ := Option.bind_eq_some_iff.mp hparse
      refine ih (m := ⟨m.fields, m.unknownFields ++ [f]⟩) ⟨hm.1, fun g hg => ?_⟩ hparse
      rcases List.mem_append.mp hg with hg | hg
      · exact hm.2 g hg
      · obtain rfl := List.mem_singleton.mp hg
        have hwf := fieldParser_wf (fun _ _ => parseGroup_wf) (readTag_lt htag) hfield
        exact ⟨hwf, by rw [fieldParser_tag hfield]; exact hswitch⟩

theorem parseFromArray_whole (h : T.Lawful Valid) {bytes : List UInt8} {m : ProtoMessage F}
    (hparse : T.parseFromArray bytes = some m) : T.Whole Valid m := by
  obtain ⟨r, hr, hlast⟩ := Option.bind_eq_some_iff.mp hparse
  split at hlast
  · obtain rfl := Option.some.inj hlast
    refine internalParse_whole h ⟨h.valid_default, ?_⟩ hr
    simp
  · exact absurd hlast.symm (Option.some_ne_none _)

/-- More iterations than bytes are never needed. -/
theorem internalParse_fuel (h : T.Lawful Valid) {n' : ℕ} {m : ProtoMessage F} {bytes : List UInt8}
    (hn : bytes.length < n) (hn' : bytes.length < n') :
    T.internalParse n m bytes = T.internalParse n' m bytes := by
  induction n generalizing n' m bytes with
  | zero => exact absurd hn (Nat.not_lt_zero _)
  | succ n ih =>
    obtain ⟨n', rfl⟩ := Nat.exists_eq_succ_of_ne_zero (by omega : n' ≠ 0)
    rw [internalParse, internalParse]
    split
    · rfl
    apply Option.bind_congr
    rintro ⟨tag, rest⟩ htag
    have hless := readTag_shorter htag
    cases hswitch : T.switch tag with
    | some k =>
      dsimp only
      apply Option.bind_congr
      rintro ⟨fields, rest'⟩ hfield
      have hshorter := (h.field k (List.mem_of_find?_eq_some hswitch)).shorter _ _ _ _ hfield
      have hn : rest'.length < n := by omega
      have hn' : rest'.length < n' := by omega
      exact ih hn hn'
    | none =>
      have hgroup : parseGroup n defaultRecursionLimit rest =
          parseGroup n' defaultRecursionLimit rest := by
        have hrest : wireFormatParser n (defaultRecursionLimit - 1) rest =
            wireFormatParser n' (defaultRecursionLimit - 1) rest :=
          wireFormatParser_fuel (by omega) (by omega)
        rw [parseGroup, parseGroup, hrest]
      dsimp only
      rw [fieldParser_congr hgroup]
      split
      · rfl
      apply Option.bind_congr
      rintro ⟨f, rest'⟩ hfield
      have hle := fieldParser_le (fun _ => parseGroup_le) hfield
      have hn : rest'.length < n := by omega
      have hn' : rest'.length < n' := by omega
      exact ih hn hn'

/-- `ByteSizeLong` counts what is written. -/
theorem byteSizeLong_eq (h : T.Lawful Valid) {m : ProtoMessage F} (hm : T.Whole Valid m) :
    T.byteSizeLong m = (T.internalSerialize m).length := by
  have hknown : ∀ k ∈ T.known, k.byteSize m.fields = (k.write m.fields).length := by
    intro k hk
    rw [KnownField.byteSize, KnownField.write]
    split
    · rfl
    · exact (h.field k hk).size_eq m.fields hm.1
  have hunknown : ∀ f ∈ m.unknownFields, f.computeSize = f.serialize.length :=
    fun f hf => (hm.2 f hf).1.computeSize_eq
  rw [byteSizeLong, internalSerialize, List.length_append, List.length_flatMap, List.length_flatMap,
    List.map_congr_left hknown, List.map_congr_left hunknown]

theorem Lawful.parseFromArray_iff (h : T.Lawful Valid) (m : ProtoMessage F) :
    T.parseFromArray (T.internalSerialize m) = some m ↔ T.Whole Valid m :=
  ⟨parseFromArray_whole h, parseFromArray_internalSerialize h⟩

/-- What is accepted is written again in as many bytes as `ByteSizeLong` says, and accepted. -/
theorem Lawful.accepted (h : T.Lawful Valid) {bytes : List UInt8} {m : ProtoMessage F}
    (hparse : T.parseFromArray bytes = some m) :
    T.byteSizeLong m = (T.internalSerialize m).length ∧
      T.parseFromArray (T.internalSerialize m) = some m := by
  have hm := parseFromArray_whole h hparse
  exact ⟨byteSizeLong_eq h hm, parseFromArray_internalSerialize h hm⟩

end MessageType

end Types

/-- The text of a message can be read back. -/
def ValidText (text : List UInt8) : Prop :=
  verifyUTF8 text = true ∧ text.length ≤ intMax - kSlopBytes

theorem ValidText.nil : ValidText [] := ⟨by decide, Nat.zero_le _⟩

theorem CSChatRequest.lawful : CSChatRequest.type.Lawful fun m => ValidText m.msg where
  field k hk := by
    rcases List.mem_pair.mp hk with rfl | rfl
    · exact int32Field_lawful (by decide) fun m v hm => hm
    · exact stringField_lawful (by decide) (fun m hm => hm) fun m s _ hutf8 hlen => ⟨hutf8, hlen⟩
  tags := by decide
  valid_default := ValidText.nil
  merged source := by
    obtain ⟨sessionid, msg⟩ := source
    by_cases hid : sessionid = 0 <;> by_cases hmsg : msg = [] <;>
      simp [CSChatRequest.type, KnownField.merge, int32Field, stringField, hid, hmsg]

theorem SCChatResponse.lawful : SCChatResponse.type.Lawful fun m => ValidText m.msg where
  field k hk := by
    rcases List.mem_pair.mp hk with rfl | rfl
    · exact int32Field_lawful (by decide) fun m v hm => hm
    · exact stringField_lawful (by decide) (fun m hm => hm) fun m s _ hutf8 hlen => ⟨hutf8, hlen⟩
  tags := by decide
  valid_default := ValidText.nil
  merged source := by
    obtain ⟨sessionid, msg⟩ := source
    by_cases hid : sessionid = 0 <;> by_cases hmsg : msg = [] <;>
      simp [SCChatResponse.type, KnownField.merge, int32Field, stringField, hid, hmsg]

theorem CSGetIDRequest.lawful : CSGetIDRequest.type.Lawful fun _ => True where
  field _ hk := absurd hk List.not_mem_nil
  tags := List.nodup_nil
  valid_default := trivial
  merged _ := rfl

theorem SCGetIDResponse.lawful : SCGetIDResponse.type.Lawful fun _ => True where
  field k hk := by
    rcases List.mem_pair.mp hk with rfl | rfl
    · exact int32Field_lawful (by decide) fun _ _ _ => trivial
    · exact int32Field_lawful (by decide) fun _ _ _ => trivial
  tags := by decide
  valid_default := trivial
  merged source := by
    obtain ⟨sessionid, roomid⟩ := source
    by_cases hid : sessionid = 0 <;> by_cases hroom : roomid = 0 <;>
      simp [SCGetIDResponse.type, KnownField.merge, int32Field, hid, hroom]

/-- A message survives serialization exactly when the parser can return it. -/
theorem protocol_round_trip :
    (∀ m : ProtoMessage CSChatRequest,
      CSChatRequest.type.parseFromArray (CSChatRequest.type.internalSerialize m) = some m ↔
        CSChatRequest.type.Whole (fun m => ValidText m.msg) m) ∧
    (∀ m : ProtoMessage SCChatResponse,
      SCChatResponse.type.parseFromArray (SCChatResponse.type.internalSerialize m) = some m ↔
        SCChatResponse.type.Whole (fun m => ValidText m.msg) m) ∧
    (∀ m : ProtoMessage CSGetIDRequest,
      CSGetIDRequest.type.parseFromArray (CSGetIDRequest.type.internalSerialize m) = some m ↔
        CSGetIDRequest.type.Whole (fun _ => True) m) ∧
    ∀ m : ProtoMessage SCGetIDResponse,
      SCGetIDResponse.type.parseFromArray (SCGetIDResponse.type.internalSerialize m) = some m ↔
        SCGetIDResponse.type.Whole (fun _ => True) m :=
  ⟨CSChatRequest.lawful.parseFromArray_iff, SCChatResponse.lawful.parseFromArray_iff,
    CSGetIDRequest.lawful.parseFromArray_iff, SCGetIDResponse.lawful.parseFromArray_iff⟩

/-- Whatever bytes come in: what is accepted fits the size that is reserved for it when it is sent
on, and is accepted there as the same message. -/
theorem protocol_accepted :
    (∀ bytes m, CSChatRequest.type.parseFromArray bytes = some m →
      CSChatRequest.type.byteSizeLong m = (CSChatRequest.type.internalSerialize m).length ∧
      CSChatRequest.type.parseFromArray (CSChatRequest.type.internalSerialize m) = some m) ∧
    (∀ bytes m, SCChatResponse.type.parseFromArray bytes = some m →
      SCChatResponse.type.byteSizeLong m = (SCChatResponse.type.internalSerialize m).length ∧
      SCChatResponse.type.parseFromArray (SCChatResponse.type.internalSerialize m) = some m) ∧
    (∀ bytes m, CSGetIDRequest.type.parseFromArray bytes = some m →
      CSGetIDRequest.type.byteSizeLong m = (CSGetIDRequest.type.internalSerialize m).length ∧
      CSGetIDRequest.type.parseFromArray (CSGetIDRequest.type.internalSerialize m) = some m) ∧
    ∀ bytes m, SCGetIDResponse.type.parseFromArray bytes = some m →
      SCGetIDResponse.type.byteSizeLong m = (SCGetIDResponse.type.internalSerialize m).length ∧
      SCGetIDResponse.type.parseFromArray (SCGetIDResponse.type.internalSerialize m) = some m :=
  ⟨fun _ _ => CSChatRequest.lawful.accepted, fun _ _ => SCChatResponse.lawful.accepted,
    fun _ _ => CSGetIDRequest.lawful.accepted, fun _ _ => SCGetIDResponse.lawful.accepted⟩

/-- A session ID written in one byte too many. -/
theorem protocol_accepted_long :
    CSChatRequest.type.parseFromArray [16, 0x85, 0] = some ⟨⟨5, []⟩, []⟩ ∧
      CSChatRequest.type.byteSizeLong ⟨⟨5, []⟩, []⟩ = 2 ∧
      CSChatRequest.type.parseFromArray [16, 5] = some ⟨⟨5, []⟩, []⟩ := by
  have hlong : CSChatRequest.type.parseFromArray [16, 0x85, 0] = some ⟨⟨5, []⟩, []⟩ := rfl
  obtain ⟨hsize, hparse⟩ := protocol_accepted.1 [16, 0x85, 0] ⟨⟨5, []⟩, []⟩ hlong
  exact ⟨hlong, hsize, hparse⟩

end ServerCore.Packets
