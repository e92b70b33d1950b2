import HzjDds.Conversion.Value

/-!
# Recursive field copy

Library `Conversion`. Source: `rospubsub_conversion.py:132–249,263–318`. Both directions walk
the declared fields of the ROS message and decide by the kind of the value. A copy that
raises is `none`. LCM attributes are plain; ROS fields are assigned by their setters.
-/

namespace HzjDds.Conversion

/-- Write the length companion of an attribute, if the message has one and the attribute's
value has a length (`rospubsub_conversion.py:203–207`). -/
def updateLength (attrs : List (String × Val)) (name : String) : List (String × Val) :=
  match attrs.lookup (lengthField name), (attrs.lookup name).bind Val.len? with
  | some _, some n => setAttr attrs (lengthField name) (.prim (.int n))
  | _, _ => attrs

/-- Store the copy of a field, then its length. -/
def storeField (attrs : List (String × Val)) (name : String) (value : Val) :
    List (String × Val) :=
  updateLength (setAttr attrs name value) name

/-- Value of an attribute after a length was written to it, if one was. -/
def withLength (length : Option ℕ) (current : Val) : Val :=
  match length with
  | some n => .prim (.int n)
  | none => current

/-- What a stored field leaves in an attribute other than its own. -/
theorem lookup_storeField {attrs : List (String × Val)} {name other : String} {old : Val}
    (hold : attrs.lookup name = some old) (h : other ≠ name) (value : Val) :
    (storeField attrs name value).lookup other =
      (attrs.lookup other).map
        (withLength (if lengthField name = other then value.len? else none)) := by
  have hcompanion : (setAttr attrs name value).lookup (lengthField name) =
      attrs.lookup (lengthField name) := lookup_setAttr_ne (lengthField_ne name) value
  have hother : (setAttr attrs name value).lookup other = attrs.lookup other :=
    lookup_setAttr_ne h value
  unfold storeField updateLength
  rw [hcompanion, lookup_setAttr_self hold, Option.bind_some]
  split
  next c n hc hlen =>
    split
    next heq =>
      subst heq
      rw [lookup_setAttr_self (hcompanion.trans hc), hc, hlen]
      rfl
    next hne =>
      rw [lookup_setAttr_ne (Ne.symm hne), hother]
      exact Option.map_id'.symm
  next hnone =>
    rw [hother]
    split
    next heq =>
      subst heq
      cases hc : attrs.lookup (lengthField name) with
      | none => rfl
      | some c =>
        cases hlen : value.len? with
        | none => rfl
        | some n => exact absurd hlen (hnone c n hc)
    next => exact Option.map_id'.symm

/-- A stored field has its new value. -/
theorem lookup_storeField_self {attrs : List (String × Val)} {name : String} {old : Val}
    (hold : attrs.lookup name = some old) (value : Val) :
    (storeField attrs name value).lookup name = some value := by
  unfold storeField updateLength
  split
  next => rw [lookup_setAttr_ne (lengthField_ne name).symm, lookup_setAttr_self hold]
  next => exact lookup_setAttr_self hold value

/-- The first item is a ROS message, which decides for the whole array. -/
def startsWithRos (items : List Val) : Bool := (items.head?.map Val.isRos).getD false

/-- The first item is an LCM instance, which decides for the whole array. -/
def startsWithLcm (items : List Val) : Bool := (items.head?.map Val.isLcm).getD false

/-- LCM instance for an item of a message array: like the first element the attribute holds,
else of the class named like the ROS item's (`_create_lcm_instance_for_ros_msg`). -/
def newLcmItem (classes : Classes) (item lcmValue : Val) : Option Val :=
  match lcmValue, item with
  | .list (first :: _), _ => first.newLike classes
  | _, .ros type _ => classes.lcmNew type
  | _, _ => none

/-- `_create_ros_instance_for_lcm_msg`. -/
def newRosItem (classes : Classes) (item : Val) (hint : String) : Option Val :=
  match typeOfHint hint, item with
  | some type, _ => classes.rosNew type
  | none, .lcm type _ => classes.rosNew type
  | none, _ => none

mutual

/-- New value of an LCM attribute that holds `lcmValue` (`rospubsub_conversion.py:171–200`). A
nested message is copied into the instance that is there; an attribute that is no instance
exposes none of its fields. -/
def copyValueToLcm (classes : Classes) : Val → Val → Option Val
  | .ros _ fields, lcmValue =>
    match lcmValue with
    | .lcm type attrs => (copyFieldsToLcm classes fields attrs).map (.lcm type)
    | lcmValue => some lcmValue
  | .list items, lcmValue =>
    if startsWithRos items then (copyItemsToLcm classes items lcmValue).map .list
    else some (.list items)
  | .tuple items, lcmValue =>
    if startsWithRos items then (copyItemsToLcm classes items lcmValue).map .list
    else if items.isEmpty then some (.tuple items)
    else some (.list items)
  | .bytes data, _ => some (.bytes data)
  | .bytearray data, _ => some (.bytes data)
  | .array _ data, _ => some (.bytes data)
  | .ndarray _ data, _ => some (.bytes data)
  | value, _ => some value

/-- The loop over the declared fields; fields the LCM side does not expose are skipped. -/
def copyFieldsToLcm (classes : Classes) :
    List (String × String × Val) → List (String × Val) → Option (List (String × Val))
  | [], attrs => some attrs
  | (name, _, value) :: fields, attrs =>
    match attrs.lookup (lcmFieldName name) with
    | none => copyFieldsToLcm classes fields attrs
    | some lcmValue => (copyValueToLcm classes value lcmValue).bind fun copy ↦
        copyFieldsToLcm classes fields (storeField attrs (lcmFieldName name) copy)

/-- The loop over a message array (`rospubsub_conversion.py:178–189`). -/
def copyItemsToLcm (classes : Classes) : List Val → Val → Option (List Val)
  | [], _ => some []
  | item :: items, lcmValue =>
    (newLcmItem classes item lcmValue).bind fun fresh ↦
      match item with
      | .ros type fields => (copyValueToLcm classes (.ros type fields) fresh).bind fun copy ↦
          (copyItemsToLcm classes items lcmValue).map (copy :: ·)
      | _ => none

end

/-- Length that a sequence has after its copy. -/
def Val.seqLen? : Val → Option ℕ
  | list items => some items.length
  | tuple items => some items.length
  | bytes data => some data.length
  | bytearray data => some data.length
  | array _ data => some data.length
  | ndarray _ data => some data.length
  | _ => none

private theorem length_copyItemsToLcm {classes : Classes} {items copies : List Val} {lcmValue : Val}
    (h : copyItemsToLcm classes items lcmValue = some copies) : copies.length = items.length := by
  induction items generalizing copies with
  | nil =>
    rw [copyItemsToLcm] at h
    cases h
    rfl
  | cons item items ih =>
    rw [copyItemsToLcm] at h
    obtain ⟨fresh, -, h⟩ := Option.bind_eq_some_iff.mp h
    split at h
    · obtain ⟨copy, -, h⟩ := Option.bind_eq_some_iff.mp h
      obtain ⟨rest, hrest, rfl⟩ := Option.map_eq_some_iff.mp h
      rw [List.length_cons, List.length_cons, ih hrest]
    · contradiction

/-- The copy of a value that is no message has the length that its companion shows. -/
theorem len?_copyValueToLcm {classes : Classes} {value lcmValue copy : Val}
    (hvalue : value.isRos = false) (h : copyValueToLcm classes value lcmValue = some copy) :
    copy.len? = value.seqLen? := by
  cases value with
  | ros type fields => contradiction
  | list items =>
    rw [copyValueToLcm] at h
    split at h
    · obtain ⟨copies, hcopies, rfl⟩ := Option.map_eq_some_iff.mp h
      exact congrArg some (length_copyItemsToLcm hcopies)
    · cases h
      rfl
  | tuple items =>
    rw [copyValueToLcm] at h
    split at h
    · obtain ⟨copies, hcopies, rfl⟩ := Option.map_eq_some_iff.mp h
      exact congrArg some (length_copyItemsToLcm hcopies)
    · split at h <;> cases h <;> rfl
  | prim p =>
    cases h
    rfl
  | bytes data =>
    cases h
    rfl
  | bytearray data =>
    cases h
    rfl
  | array typecode data =>
    cases h
    rfl
  | ndarray dtype data =>
    cases h
    rfl
  | lcm type attrs =>
    cases h
    rfl

/-- `_copy_ros_to_lcm_recursive`: the LCM message after the copy. -/
def copyRosToLcmRecursive (classes : Classes) (rosMsg lcmMsg : Val) : Option Val :=
  if rosMsg.isRos then copyValueToLcm classes rosMsg lcmMsg else none

mutual

/-- New value of a ROS field that holds `rosValue` (`rospubsub_conversion.py:224–249`). A nested
message is copied into the one that is there; anything else is assigned. -/
def copyValueToRos (classes : Classes) : Val → Val → String → Option Val
  | lcmValue, .ros type fields, _ =>
    match lcmValue with
    | .lcm _ attrs => (fields.mapM fun field ↦ copyAttrToRos classes attrs field).map (.ros type)
    | _ => some (.ros type fields)
  | .list items, _, hint =>
    if startsWithLcm items then
      (copyItemsToRos classes items hint).bind fun copies ↦ classes.rosSet hint (.list copies)
    else classes.rosSet hint (.list items)
  | .tuple items, _, hint =>
    if startsWithLcm items then
      (copyItemsToRos classes items hint).bind fun copies ↦ classes.rosSet hint (.list copies)
    else if items.isEmpty then classes.rosSet hint (.tuple items)
    else classes.rosSet hint (.list items)
  | .bytes data, rosValue, hint =>
    classes.rosSet hint (if rosValue.hasFrombytes then .array 'B' data else .bytes data)
  | .bytearray data, rosValue, hint =>
    classes.rosSet hint (if rosValue.hasFrombytes then .array 'B' data else .bytes data)
  | value, _, hint => classes.rosSet hint value

/-- A declared field after the copy, found among the attributes by its LCM name. -/
def copyAttrToRos (classes : Classes) :
    List (String × Val) → String × String × Val → Option (String × String × Val)
  | [], field => some field
  | (name, value) :: attrs, (rosName, hint, rosValue) =>
    if lcmFieldName rosName = name then
      (copyValueToRos classes value rosValue hint).map fun copy ↦ (rosName, hint, copy)
    else copyAttrToRos classes attrs (rosName, hint, rosValue)

/-- The loop over an array of LCM instances (`rospubsub_conversion.py:229–236`). -/
def copyItemsToRos (classes : Classes) : List Val → String → Option (List Val)
  | [], _ => some []
  | item :: items, hint =>
    (newRosItem classes item hint).bind fun fresh ↦
      if fresh.isRos then (copyValueToRos classes item fresh hint).bind fun copy ↦
        (copyItemsToRos classes items hint).map (copy :: ·)
      else none

end

/-- The attribute of a declared field is the first one with its LCM name. -/
theorem copyAttrToRos_eq (classes : Classes) (attrs : List (String × Val)) (name hint : String)
    (rosValue : Val) :
    copyAttrToRos classes attrs (name, hint, rosValue) =
      match attrs.lookup (lcmFieldName name) with
      | none => some (name, hint, rosValue)
      | some value => (copyValueToRos classes value rosValue hint).map fun copy ↦
          (name, hint, copy) := by
  induction attrs with
  | nil => rfl
  | cons attr attrs ih =>
    obtain ⟨key, value⟩ := attr
    rw [copyAttrToRos, List.lookup_cons]
    by_cases hkey : lcmFieldName name = key
    · rw [if_pos hkey, beq_iff_eq.mpr hkey]
    · rw [if_neg hkey, beq_eq_false_iff_ne.mpr hkey, ih]

/-- `_copy_lcm_to_ros_recursive`: the ROS message after the copy. -/
def copyLcmToRosRecursive (classes : Classes) (lcmMsg rosMsg : Val) : Option Val :=
  if rosMsg.isRos then copyValueToRos classes lcmMsg rosMsg "" else none

end HzjDds.Conversion
