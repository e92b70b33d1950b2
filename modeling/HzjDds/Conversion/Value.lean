import Mathlib.Data.Int.Notation
import Mathlib.Data.List.Basic

/-!
# Values and message objects

Library `Conversion`. Source: `rospubsub_conversion.py:49–57,132–155,263–318`. The copy functions
tell values apart by what Python attributes they have. A ROS message lists its declared
fields with their type hints; an LCM instance has attributes and no declared order.
-/

namespace HzjDds.Conversion

/-- Package and class name of a generated message class, ROS or LCM. -/
structure MsgType where
  package : String
  name : String
  deriving DecidableEq, Repr

/-- Python scalars and strings. A float is its IEEE double. -/
inductive Prim where
  | bool (b : Bool)
  | int (n : ℤ)
  | float (bits : UInt64)
  | str (s : String)
  deriving DecidableEq, Repr

/-- The values a message field can hold. An `array.array` and a numpy array are their memory
and what says how to read it. A field of a ROS message is its name, type hint and value. -/
inductive Val where
  | prim (p : Prim)
  | bytes (data : List UInt8)
  | bytearray (data : List UInt8)
  | list (items : List Val)
  | tuple (items : List Val)
  | array (typecode : Char) (data : List UInt8)
  | ndarray (dtype : String) (data : List UInt8)
  | ros (type : MsgType) (fields : List (String × String × Val))
  | lcm (type : MsgType) (attrs : List (String × Val))
  deriving Repr

/-- The generated message classes: a new instance of a type, if the class can be imported, and
what a ROS field with a type hint holds after an assignment, if its setter does not raise. -/
structure Classes where
  rosNew : MsgType → Option Val
  lcmNew : MsgType → Option Val
  rosSet : String → Val → Option Val

namespace Val

/-- `hasattr(value, "get_fields_and_field_types")`. -/
def isRos : Val → Bool
  | ros .. => true
  | _ => false

/-- `hasattr(value, "lcm_encode")`. -/
def isLcm : Val → Bool
  | lcm .. => true
  | _ => false

/-- `hasattr(value, "frombytes")`. -/
def hasFrombytes : Val → Bool
  | array .. => true
  | _ => false

/-- `len(value)`, for the types whose length is written to a companion field
(`rospubsub_conversion.py:206`). -/
def len? : Val → Option ℕ
  | list items => some items.length
  | tuple items => some items.length
  | bytes data => some data.length
  | bytearray data => some data.length
  | _ => none

/-- `type(value)()`; an `array.array` and a numpy array need arguments. -/
def newLike (classes : Classes) : Val → Option Val
  | prim (.bool _) => some (prim (.bool false))
  | prim (.int _) => some (prim (.int 0))
  | prim (.float _) => some (prim (.float 0))
  | prim (.str _) => some (prim (.str ""))
  | bytes _ => some (bytes [])
  | bytearray _ => some (bytearray [])
  | list _ => some (list [])
  | tuple _ => some (tuple [])
  | array .. => none
  | ndarray .. => none
  | ros type _ => classes.rosNew type
  | lcm type _ => classes.lcmNew type

end Val

/-- LCM name of a ROS field (`_ROS_TO_LCM_FIELD_MAP`). -/
def lcmFieldName (name : String) : String := if name = "nanosec" then "nsec" else name

/-- Name of the length companion of an LCM field (`rospubsub_conversion.py:203`). -/
def lengthField (name : String) : String := name ++ "_length"

/-- A name is not its own length companion. -/
theorem lengthField_ne (name : String) : lengthField name ≠ name := by
  intro h
  have hlength := congrArg String.length h
  simp [lengthField] at hlength

/-- A name has at most one companion, and a companion belongs to one name. -/
theorem lengthField_injective : Function.Injective lengthField := by
  intro a b h
  have hlist := congrArg String.toList h
  simp only [lengthField, String.toList_append] at hlist
  exact String.toList_injective (List.append_cancel_right hlist)

/-! ## Attributes -/

/-- `setattr(message, name, value)` of an existing attribute. -/
def setAttr (attrs : List (String × Val)) (name : String) (value : Val) : List (String × Val) :=
  attrs.map fun attr ↦ if attr.1 = name then (name, value) else attr

/-- An attribute that was set has its new value. -/
theorem lookup_setAttr_self {attrs : List (String × Val)} {name : String} {old : Val}
    (h : attrs.lookup name = some old) (value : Val) :
    (setAttr attrs name value).lookup name = some value := by
  induction attrs with
  | nil => contradiction
  | cons attr attrs ih =>
    obtain ⟨key, current⟩ := attr
    by_cases hkey : key = name
    · simp [setAttr, hkey]
    · have hbeq : (name == key) = false := beq_eq_false_iff_ne.mpr (Ne.symm hkey)
      rw [List.lookup_cons, hbeq] at h
      simp only [setAttr, List.map_cons, if_neg hkey, List.lookup_cons, hbeq]
      exact ih h

/-- Setting an attribute leaves the others alone. -/
theorem lookup_setAttr_ne {attrs : List (String × Val)} {name other : String}
    (h : other ≠ name) (value : Val) :
    (setAttr attrs name value).lookup other = attrs.lookup other := by
  induction attrs with
  | nil => rfl
  | cons attr attrs ih =>
    obtain ⟨key, current⟩ := attr
    simp only [setAttr] at ih
    by_cases hkey : key = name
    · have hbeq : (other == name) = false := beq_eq_false_iff_ne.mpr h
      simp only [setAttr, List.map_cons, hkey, if_true, List.lookup_cons, hbeq]
      exact ih
    · simp only [setAttr, List.map_cons, if_neg hkey, List.lookup_cons, ih]

/-! ## Type hints -/

/-- Characters that `\w` matches in a type name. -/
def isWord (c : Char) : Bool := c.isAlphanum || c == '_'

/-- First match of `(\w+)/(\w+)`. A match that begins at a character takes the whole run of
word characters there. -/
def searchType : List Char → Option MsgType
  | [] => none
  | c :: rest =>
    match (c :: rest).dropWhile isWord with
    | '/' :: after =>
      let package := (c :: rest).takeWhile isWord
      let name := after.takeWhile isWord
      if package.isEmpty || name.isEmpty then searchType rest
      else some ⟨String.ofList package, String.ofList name⟩
    | _ => searchType rest

/-- Message type that a ROS type hint names, such as `sequence<sensor_msgs/PointField>`. -/
def typeOfHint (hint : String) : Option MsgType := searchType hint.toList

example : typeOfHint "sequence<sensor_msgs/PointField, 8>" =
    some ⟨"sensor_msgs", "PointField"⟩ := by decide

end HzjDds.Conversion
