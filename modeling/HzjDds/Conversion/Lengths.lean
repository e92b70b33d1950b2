import HzjDds.Conversion.Copy

/-!
# Length companions

Library `Conversion`. Source: `rospubsub_conversion.py:132–207`. After the copy a field with a
length companion shows the number of elements it received, unless it received the memory of an
array whose elements are wider than a byte: then the companion counts bytes.
-/

namespace HzjDds.Conversion

/-- `itemsize` of an `array.array`, by typecode. -/
def typecodeSize (typecode : Char) : Option ℕ :=
  if typecode = 'b' ∨ typecode = 'B' then some 1
  else if typecode = 'h' ∨ typecode = 'H' then some 2
  else if typecode = 'i' ∨ typecode = 'I' ∨ typecode = 'f' ∨ typecode = 'u' then some 4
  else if typecode = 'l' ∨ typecode = 'L' ∨ typecode = 'q' ∨ typecode = 'Q' ∨ typecode = 'd' then
    some 8
  else none

/-- `itemsize` of a numeric numpy array, by dtype. -/
def dtypeSize (dtype : String) : Option ℕ :=
  if dtype ∈ ["bool", "int8", "uint8"] then some 1
  else if dtype ∈ ["int16", "uint16", "float16"] then some 2
  else if dtype ∈ ["int32", "uint32", "float32"] then some 4
  else if dtype ∈ ["int64", "uint64", "float64"] then some 8
  else none

namespace Val

/-- Number of elements of a sequence. -/
def elements? : Val → Option ℕ
  | list items => some items.length
  | tuple items => some items.length
  | bytes data => some data.length
  | bytearray data => some data.length
  | array typecode data => (typecodeSize typecode).map (data.length / ·)
  | ndarray dtype data => (dtypeSize dtype).map (data.length / ·)
  | _ => none

/-- An array has elements of one byte, or none. -/
def OneByte : Val → Prop
  | array typecode data => ∀ size, typecodeSize typecode = some size → size = 1 ∨ data = []
  | ndarray dtype data => ∀ size, dtypeSize dtype = some size → size = 1 ∨ data = []
  | _ => True

end Val

/-- No later field goes to the same attribute. -/
def IsLast (name : String) (later : List (String × String × Val)) : Prop :=
  ∀ field ∈ later, lcmFieldName field.1 ≠ lcmFieldName name

/-- No field goes to the length companion of another one. -/
def NoCompanion (fields : List (String × String × Val)) : Prop :=
  ∀ field ∈ fields, ∀ other ∈ fields, lcmFieldName field.1 ≠ lengthField (lcmFieldName other.1)

mutual

/-- No ROS field is named like a length companion, at any level. -/
def NoCompanions : Val → Prop
  | .ros _ fields => NoCompanion fields ∧ FieldsNoCompanions fields
  | .list items => ItemsNoCompanions items
  | .tuple items => ItemsNoCompanions items
  | _ => True

@[inherit_doc NoCompanions]
def FieldsNoCompanions : List (String × String × Val) → Prop
  | [] => True
  | (_, _, value) :: fields => NoCompanions value ∧ FieldsNoCompanions fields

@[inherit_doc NoCompanions]
def ItemsNoCompanions : List Val → Prop
  | [] => True
  | item :: items => NoCompanions item ∧ ItemsNoCompanions items

end

mutual

/-- At every level of a copy, a length companion shows the number of elements that its field
received. -/
def Lengths : Val → Val → Prop
  | .ros _ fields, copy =>
    match copy with
    | .lcm _ attrs => FieldLengths fields attrs
    | _ => True
  | .list items, copy =>
    match copy with
    | .list copies => startsWithRos items = true → ItemLengths items copies
    | _ => True
  | .tuple items, copy =>
    match copy with
    | .list copies => startsWithRos items = true → ItemLengths items copies
    | _ => True
  | _, _ => True

/-- The declared fields, with the attributes after the copy. An attribute has received what the
last field that goes to it holds. -/
def FieldLengths : List (String × String × Val) → List (String × Val) → Prop
  | [], _ => True
  | (name, _, value) :: fields, attrs =>
    (IsLast name fields → ∀ copy, attrs.lookup (lcmFieldName name) = some copy →
      (∀ n length, value.elements? = some n →
        attrs.lookup (lengthField (lcmFieldName name)) = some length → length = .prim (.int n)) ∧
      Lengths value copy) ∧
    FieldLengths fields attrs

/-- The items of a message array. -/
def ItemLengths : List Val → List Val → Prop
  | item :: items, copy :: copies => Lengths item copy ∧ ItemLengths items copies
  | _, _ => True

end

mutual

/-- Every array that a field with a length companion receives has elements of one byte, or none.
The second value is what the LCM side holds before the copy. -/
def ByteArrays (classes : Classes) : Val → Val → Prop
  | .ros _ fields, lcmValue =>
    match lcmValue with
    | .lcm _ attrs => FieldByteArrays classes fields attrs
    | _ => True
  | .list items, lcmValue => startsWithRos items = true → ItemByteArrays classes items lcmValue
  | .tuple items, lcmValue => startsWithRos items = true → ItemByteArrays classes items lcmValue
  | _, _ => True

/-- The declared fields, each with the attributes before its step. -/
def FieldByteArrays (classes : Classes) :
    List (String × String × Val) → List (String × Val) → Prop
  | [], _ => True
  | (name, _, value) :: fields, attrs =>
    match attrs.lookup (lcmFieldName name) with
    | none => FieldByteArrays classes fields attrs
    | some lcmValue =>
      (IsLast name fields →
        (attrs.lookup (lengthField (lcmFieldName name)) ≠ none → value.OneByte) ∧
        ByteArrays classes value lcmValue) ∧
      ∀ copy, copyValueToLcm classes value lcmValue = some copy →
        FieldByteArrays classes fields (storeField attrs (lcmFieldName name) copy)

/-- The items of a message array, each with its new instance. -/
def ItemByteArrays (classes : Classes) : List Val → Val → Prop
  | [], _ => True
  | item :: items, lcmValue =>
    (∀ fresh, newLcmItem classes item lcmValue = some fresh → ByteArrays classes item fresh) ∧
      ItemByteArrays classes items lcmValue

end

private theorem length_div_iff (size? : Option ℕ) (data : List UInt8) :
    (∀ size, size? = some size → size = 1 ∨ data = []) ↔
      ∀ n, size?.map (data.length / ·) = some n → some data.length = some n := by
  cases size? with
  | none => simp
  | some size =>
    have hdiv : data.length / size = data.length ↔ size = 1 ∨ data = [] := by
      rw [Nat.div_eq_self, List.length_eq_zero_iff, or_comm]
    simp [← hdiv, eq_comm]

private theorem oneByte_iff (value : Val) :
    value.OneByte ↔ ∀ n, value.elements? = some n → value.seqLen? = some n := by
  cases value with
  | array typecode data => exact length_div_iff (typecodeSize typecode) data
  | ndarray dtype data => exact length_div_iff (dtypeSize dtype) data
  | _ => simp [Val.OneByte, Val.elements?, Val.seqLen?]

private theorem seqLen?_ne_none {value : Val} {n : ℕ} (h : value.elements? = some n) :
    value.seqLen? ≠ none := by
  cases value <;> simp [Val.elements?, Val.seqLen?] at h ⊢

private theorem lookup_copyFieldsToLcm_isSome {classes : Classes} {fields : List (String × String × Val)}
    {attrs final : List (String × Val)} (h : copyFieldsToLcm classes fields attrs = some final)
    (key : String) : (final.lookup key).isSome = (attrs.lookup key).isSome := by
  induction fields generalizing attrs with
  | nil =>
    rw [copyFieldsToLcm] at h
    cases h
    rfl
  | cons field fields ih =>
    obtain ⟨name, hint, value⟩ := field
    rw [copyFieldsToLcm] at h
    split at h
    · exact ih h
    · next lcmValue hlookup =>
      obtain ⟨copy, -, h⟩ := Option.bind_eq_some_iff.mp h
      rw [ih h]
      by_cases hkey : key = lcmFieldName name
      · rw [hkey, lookup_storeField_self hlookup, hlookup]
        rfl
      · rw [lookup_storeField hlookup hkey, Option.isSome_map]

private theorem lookup_copyFieldsToLcm {classes : Classes} {fields : List (String × String × Val)}
    {attrs final : List (String × Val)} (h : copyFieldsToLcm classes fields attrs = some final)
    {key : String} (hkey : ∀ field ∈ fields, lcmFieldName field.1 ≠ key ∧
      lengthField (lcmFieldName field.1) ≠ key) : final.lookup key = attrs.lookup key := by
  induction fields generalizing attrs with
  | nil =>
    rw [copyFieldsToLcm] at h
    cases h
    rfl
  | cons field fields ih =>
    obtain ⟨name, hint, value⟩ := field
    obtain ⟨⟨hname, hcompanion⟩, hkey⟩ := List.forall_mem_cons.mp hkey
    rw [copyFieldsToLcm] at h
    split at h
    · exact ih h hkey
    · next lcmValue hlookup =>
      obtain ⟨copy, -, h⟩ := Option.bind_eq_some_iff.mp h
      rw [ih h hkey, lookup_storeField hlookup (Ne.symm hname), if_neg hcompanion]
      exact Option.map_id'

section

variable {classes : Classes} {name hint : String} {value lcmValue copy : Val}
  {fields : List (String × String × Val)} {attrs final : List (String × Val)}

private theorem lookup_of_isLast (hlookup : attrs.lookup (lcmFieldName name) = some lcmValue)
    (hfinal : copyFieldsToLcm classes fields (storeField attrs (lcmFieldName name) copy) =
      some final)
    (hno : NoCompanion ((name, hint, value) :: fields)) (hlast : IsLast name fields) :
    final.lookup (lcmFieldName name) = some copy ∧
      final.lookup (lengthField (lcmFieldName name)) =
        (attrs.lookup (lengthField (lcmFieldName name))).map (withLength copy.len?) := by
  constructor
  · rw [lookup_copyFieldsToLcm hfinal, lookup_storeField_self hlookup]
    intro field hfield
    constructor
    · exact hlast field hfield
    · exact (hno _ List.mem_cons_self field (List.mem_cons_of_mem _ hfield)).symm
  · rw [lookup_copyFieldsToLcm hfinal, lookup_storeField hlookup (lengthField_ne _), if_pos rfl]
    intro field hfield
    constructor
    · exact hno field (List.mem_cons_of_mem _ hfield) _ List.mem_cons_self
    · exact fun heq ↦ hlast field hfield (lengthField_injective heq)

/-- The companion shows the number of elements exactly if there is none, or the field received no
array of wider elements. -/
theorem companion_iff (hcopy : copyValueToLcm classes value lcmValue = some copy)
    (current : Option Val) :
    (∀ n length, value.elements? = some n →
        current.map (withLength copy.len?) = some length → length = .prim (.int n)) ↔
      (current ≠ none → value.OneByte) := by
  cases current with
  | none => simp
  | some c =>
    cases hros : value.isRos with
    | true =>
      cases value with
      | ros type fields => simp [Val.elements?, Val.OneByte]
      | _ => contradiction
    | false =>
      rw [len?_copyValueToLcm hros hcopy, oneByte_iff]
      constructor
      · intro h _ n hn
        have hshown := h n _ hn rfl
        cases hlen : value.seqLen? with
        | none => exact absurd hlen (seqLen?_ne_none hn)
        | some m =>
          rw [hlen] at hshown
          have hmn : (m : ℤ) = n := by simpa [withLength] using hshown
          exact congrArg some (by omega)
      · intro h n length hn hlength
        rw [h (Option.some_ne_none c) n hn] at hlength
        exact (Option.some.inj hlength).symm

end

mutual

/-- The copy of a value. -/
theorem value_lengths (classes : Classes) : ∀ (value lcmValue copy : Val),
    copyValueToLcm classes value lcmValue = some copy → NoCompanions value →
      (Lengths value copy ↔ ByteArrays classes value lcmValue)
  | .ros type fields, lcmValue, copy, h, hno => by
    rw [NoCompanions] at hno
    cases lcmValue with
    | lcm lcmType attrs =>
      rw [copyValueToLcm] at h
      obtain ⟨final, hfinal, rfl⟩ := Option.map_eq_some_iff.mp h
      rw [Lengths, ByteArrays]
      exact fields_lengths classes fields attrs final hfinal hno.1 hno.2
    | _ =>
      rw [copyValueToLcm] at h <;> cases h <;> simp [Lengths, ByteArrays]
  | .list items, lcmValue, copy, h, hno => by
    rw [NoCompanions] at hno
    rw [copyValueToLcm] at h
    rw [ByteArrays]
    split at h
    · next hros =>
      obtain ⟨copies, hcopies, rfl⟩ := Option.map_eq_some_iff.mp h
      rw [Lengths]
      exact imp_congr_right fun _ ↦ items_lengths classes items lcmValue copies hcopies hno
    · next hros =>
      cases h
      rw [Lengths]
      simp [hros]
  | .tuple items, lcmValue, copy, h, hno => by
    rw [NoCompanions] at hno
    rw [copyValueToLcm] at h
    rw [ByteArrays]
    split at h
    · next hros =>
      obtain ⟨copies, hcopies, rfl⟩ := Option.map_eq_some_iff.mp h
      rw [Lengths]
      exact imp_congr_right fun _ ↦ items_lengths classes items lcmValue copies hcopies hno
    · next hros =>
      split at h <;> cases h <;> rw [Lengths] <;> simp [hros]
  | .prim p, _, copy, _, _ => by simp [Lengths, ByteArrays]
  | .bytes data, _, copy, _, _ => by simp [Lengths, ByteArrays]
  | .bytearray data, _, copy, _, _ => by simp [Lengths, ByteArrays]
  | .array typecode data, _, copy, _, _ => by simp [Lengths, ByteArrays]
  | .ndarray dtype data, _, copy, _, _ => by simp [Lengths, ByteArrays]
  | .lcm type attrs, _, copy, _, _ => by simp [Lengths, ByteArrays]

/-- The copies of the declared fields. -/
theorem fields_lengths (classes : Classes) : ∀ (fields : List (String × String × Val))
    (attrs final : List (String × Val)), copyFieldsToLcm classes fields attrs = some final →
      NoCompanion fields → FieldsNoCompanions fields →
      (FieldLengths fields final ↔ FieldByteArrays classes fields attrs)
  | [], _, _, _, _, _ => by simp [FieldLengths, FieldByteArrays]
  | (name, hint, value) :: fields, attrs, final, h, hno, hnos => by
    rw [FieldsNoCompanions] at hnos
    have hnoRest : NoCompanion fields := fun field hfield other hother ↦
      hno field (List.mem_cons_of_mem _ hfield) other (List.mem_cons_of_mem _ hother)
    rw [copyFieldsToLcm] at h
    rw [FieldLengths, FieldByteArrays]
    cases hlookup : attrs.lookup (lcmFieldName name) with
    | none =>
      rw [hlookup] at h
      have hnone : final.lookup (lcmFieldName name) = none := by
        have hsome := lookup_copyFieldsToLcm_isSome h (lcmFieldName name)
        rw [hlookup] at hsome
        simpa using hsome
      have hrest := fields_lengths classes fields attrs final h hnoRest hnos.2
      simp [hnone, hrest]
    | some lcmValue =>
      rw [hlookup] at h
      obtain ⟨copy, hcopy, hfinal⟩ := Option.bind_eq_some_iff.mp h
      have hvalue := value_lengths classes value lcmValue copy hcopy hnos.1
      have hrest := fields_lengths classes fields _ final hfinal hnoRest hnos.2
      apply and_congr
      · refine imp_congr_right fun hlast ↦ ?_
        obtain ⟨hself, hcompanion⟩ := lookup_of_isLast hlookup hfinal hno hlast
        simp only [hself, hcompanion, Option.some.injEq, forall_eq', companion_iff hcopy, hvalue]
      · simp only [hcopy, Option.some.injEq, forall_eq']
        exact hrest

private theorem items_lengths (classes : Classes) : ∀ (items : List Val) (lcmValue : Val)
    (copies : List Val), copyItemsToLcm classes items lcmValue = some copies →
      ItemsNoCompanions items →
      (ItemLengths items copies ↔ ItemByteArrays classes items lcmValue)
  | [], _, copies, _, _ => by simp [ItemLengths, ItemByteArrays]
  | item :: items, lcmValue, copies, h, hno => by
    rw [ItemsNoCompanions] at hno
    rw [copyItemsToLcm] at h
    obtain ⟨fresh, hfresh, h⟩ := Option.bind_eq_some_iff.mp h
    cases item with
    | ros type fields =>
      obtain ⟨copy, hcopy, h⟩ := Option.bind_eq_some_iff.mp h
      obtain ⟨rest, hrest, rfl⟩ := Option.map_eq_some_iff.mp h
      have hitem := value_lengths classes (.ros type fields) fresh copy hcopy hno.1
      have hitems := items_lengths classes items lcmValue rest hrest hno.2
      rw [ItemLengths, ItemByteArrays, hitem, hitems]
      simp [hfresh]
    | _ => contradiction

end

/-- After a copy that returns, at every nesting level and in every element of every message array
every length companion shows the number of elements that its field received, exactly if every array
that a field with a companion receives has elements of one byte, or none. -/
theorem copyRosToLcm_lengths_iff {classes : Classes} {rosMsg lcmMsg copy : Val}
    (hcopy : copyRosToLcmRecursive classes rosMsg lcmMsg = some copy)
    (hno : NoCompanions rosMsg) :
    Lengths rosMsg copy ↔ ByteArrays classes rosMsg lcmMsg := by
  unfold copyRosToLcmRecursive at hcopy
  split at hcopy
  · exact value_lengths classes rosMsg lcmMsg copy hcopy hno
  · contradiction

/-- Classes that cannot be imported. -/
def noClasses : Classes := ⟨fun _ ↦ none, fun _ ↦ none, fun _ value ↦ some value⟩

/-- A multi-array message with its data. -/
def multiArrayOf (data : Val) : Val :=
  .ros ⟨"std_msgs", "MultiArray"⟩ [("data", "sequence", data), ("name", "string", .prim (.str "a"))]

/-- Its LCM instance, with a length companion of the data. -/
def multiArrayTarget (length : ℤ) (data : Val) (name : String) : Val :=
  .lcm ⟨"std_msgs", "MultiArray"⟩
    [("data_length", .prim (.int length)), ("data", data), ("name", .prim (.str name))]

private theorem noCompanions_multiArrayOf {data : Val} (h : NoCompanions data) :
    NoCompanions (multiArrayOf data) := by
  rw [multiArrayOf, NoCompanions, FieldsNoCompanions, FieldsNoCompanions, FieldsNoCompanions]
  refine ⟨?_, h, by simp [NoCompanions], trivial⟩
  simp [NoCompanion, lcmFieldName, lengthField]

/-- An array of three bytes. -/
theorem copyRosToLcm_lengths_iff_bytes :
    Lengths (multiArrayOf (.array 'B' [1, 2, 3])) (multiArrayTarget 3 (.bytes [1, 2, 3]) "a") ↔
      ByteArrays noClasses (multiArrayOf (.array 'B' [1, 2, 3]))
        (multiArrayTarget 0 (.list []) "") := by
  have hcopy : copyRosToLcmRecursive noClasses (multiArrayOf (.array 'B' [1, 2, 3]))
      (multiArrayTarget 0 (.list []) "") = some (multiArrayTarget 3 (.bytes [1, 2, 3]) "a") := rfl
  exact copyRosToLcm_lengths_iff hcopy (noCompanions_multiArrayOf (by simp [NoCompanions]))

/-- The companion of an array of two doubles shows sixteen elements. -/
theorem doubles_counted_as_bytes :
    ¬ ∀ (classes : Classes) (rosMsg lcmMsg copy : Val),
      copyRosToLcmRecursive classes rosMsg lcmMsg = some copy → NoCompanions rosMsg →
        Lengths rosMsg copy := by
  intro h
  have hlengths := h noClasses (multiArrayOf (.array 'd' (List.replicate 16 0)))
    (multiArrayTarget 0 (.list []) "")
    (multiArrayTarget 16 (.bytes (List.replicate 16 0)) "a") rfl
    (noCompanions_multiArrayOf (by simp [NoCompanions]))
  rw [multiArrayOf, multiArrayTarget, Lengths, FieldLengths] at hlengths
  have hlast : IsLast "data" [("name", "string", .prim (.str "a"))] := by
    simp [IsLast, lcmFieldName]
  have hshown := (hlengths.1 hlast _ rfl).1 2 (.prim (.int 16)) (by decide) rfl
  simp at hshown

end HzjDds.Conversion
