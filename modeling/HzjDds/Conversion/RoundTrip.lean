import HzjDds.Conversion.Copy

/-!
# ROS to LCM and back

Library `Conversion`. Source: `rospubsub_conversion.py:132–249`,
`test_rospubsub.py:180–214`. A copy to the LCM side and back returns the message unless a field
is an array of another element type than bytes, or a length companion is written over it. The
two recursions meet in what a copy must keep: its length, and the values its setters store.
-/

namespace HzjDds.Conversion

/-- Copy a message into an LCM instance and that into a fresh message. -/
def roundTrip (classes : Classes) (rosMsg lcmMsg fresh : Val) : Option Val :=
  (copyRosToLcmRecursive classes rosMsg lcmMsg).bind fun copy ↦
    copyLcmToRosRecursive classes copy fresh

/-! ## Messages and the instances they are copied into -/

namespace Val

/-- An element of a list of primitives. -/
def isPrimitive : Val → Bool
  | prim _ => true
  | bytes _ => true
  | _ => false

/-- The class of a message. -/
def type? : Val → Option MsgType
  | ros type _ => some type
  | _ => none

private theorem eq_ros_of_type? {value : Val} {type : MsgType} (h : value.type? = some type) :
    ∃ fields, value = ros type fields := by
  cases value with
  | ros valueType fields => exact ⟨fields, by rw [Option.some.inj h]⟩
  | _ => contradiction

end Val

/-- If an attribute holds elements, they are of the class named like the message's. -/
def HoldsLike (type : MsgType) : Val → Prop
  | .list (.lcm first _ :: _) => first = type
  | .list (_ :: _) => False
  | _ => True

/-- A ROS field with this type hint can hold the value: it stores the value as it is. -/
def CanHold (classes : Classes) (hint : String) (value : Val) : Prop :=
  classes.rosSet hint value = some value

/-- A ROS field of messages stores a list as it is, or refuses it. -/
def KeepsLists (classes : Classes) (hint : String) : Prop :=
  ∀ items value, classes.rosSet hint (.list items) = some value → value = .list items

mutual

/-- A value that a field with this type hint can have, with what the LCM attribute and the field
of the fresh message hold before the copies. Every field has an attribute of its own. -/
def Fits (classes : Classes) : Val → Val → Val → String → Prop
  | .prim p, _, fresh, hint => fresh.isRos = false ∧ CanHold classes hint (.prim p)
  | .bytes data, _, fresh, hint =>
    fresh.isRos = false ∧ fresh.hasFrombytes = false ∧ CanHold classes hint (.bytes data)
  | .array typecode data, _, fresh, hint =>
    fresh.hasFrombytes = true ∧ CanHold classes hint (.array typecode data)
  | .ndarray dtype data, _, fresh, hint =>
    fresh.isRos = false ∧ fresh.hasFrombytes = false ∧ CanHold classes hint (.ndarray dtype data)
  | .list items, lcmValue, fresh, hint =>
    fresh.isRos = false ∧ CanHold classes hint (.list items) ∧ (items.all Val.isPrimitive ∨
      ∃ type, typeOfHint hint = some type ∧ KeepsLists classes hint ∧ HoldsLike type lcmValue ∧
        FitsItems classes type items)
  | .ros type fields, lcmValue, fresh, _ =>
    ∃ lcmType attrs freshFields, lcmValue = .lcm lcmType attrs ∧ fresh = .ros type freshFields ∧
      (fields.map fun field ↦ lcmFieldName field.1).Nodup ∧
      FitsFields classes fields attrs freshFields
  | _, _, _, _ => False

/-- The fresh message declares the same fields, and the LCM instance exposes each of them. -/
def FitsFields (classes : Classes) :
    List (String × String × Val) → List (String × Val) → List (String × String × Val) → Prop
  | [], _, freshFields => freshFields = []
  | (name, hint, value) :: fields, attrs, freshFields =>
    ∃ fresh rest lcmValue, freshFields = (name, hint, fresh) :: rest ∧
      attrs.lookup (lcmFieldName name) = some lcmValue ∧
      Fits classes value lcmValue fresh hint ∧ FitsFields classes fields attrs rest

/-- Items of a list of messages of one type, each with new instances of its classes. -/
def FitsItems (classes : Classes) (type : MsgType) : List Val → Prop
  | [] => True
  | item :: items =>
    (item.type? = some type ∧ ∃ lcmFresh fresh, classes.lcmNew type = some lcmFresh ∧
      classes.rosNew type = some fresh ∧ Fits classes item lcmFresh fresh "") ∧
    FitsItems classes type items

end

/-- Length that a field writes to this attribute, if that is its length companion. -/
def writtenLen (attr : String) (field : String × String × Val) : Option ℕ :=
  if lengthField (lcmFieldName field.1) = attr then field.2.2.seqLen? else none

/-- Length that one of the fields writes to this attribute. -/
def companionLen (attr : String) (fields : List (String × String × Val)) : Option ℕ :=
  fields.findSome? (writtenLen attr)

/-- A field survives next to the other fields. If it has a length companion's name it takes the
length: a nested message is then never copied, another value is lost when the sequence is
declared later. -/
def FieldSurvives (classes : Classes) (declared later : List (String × String × Val))
    (name hint : String) (value fresh : Val) (survives : Prop) : Prop :=
  match value.isRos, companionLen (lcmFieldName name) declared,
    companionLen (lcmFieldName name) later with
  | true, some _, _ => value = fresh
  | false, _, some n => classes.rosSet hint (.prim (.int n)) = some value
  | _, _, _ => survives

mutual

/-- A value returns from the LCM side as it was. At every level, an array is one of bytes, or
its setter restores it from its bytes. -/
def Survives (classes : Classes) : Val → Val → String → Prop
  | .array typecode data, _, hint =>
    classes.rosSet hint (.array 'B' data) = some (.array typecode data)
  | .ndarray dtype data, _, hint => classes.rosSet hint (.bytes data) = some (.ndarray dtype data)
  | .list items, _, _ => ItemsSurvive classes items
  | .ros _ fields, fresh, _ =>
    match fresh with
    | .ros _ freshFields => FieldsSurvive classes fields fields freshFields
    | _ => False
  | _, _, _ => True

/-- Every field survives. -/
def FieldsSurvive (classes : Classes) (declared : List (String × String × Val)) :
    List (String × String × Val) → List (String × String × Val) → Prop
  | [], _ => True
  | _ :: _, [] => False
  | (name, hint, value) :: fields, (_, _, fresh) :: freshFields =>
    FieldSurvives classes declared fields name hint value fresh
        (Survives classes value fresh hint) ∧
      FieldsSurvive classes declared fields freshFields

/-- Every message of a list survives the copy into a new instance of its class. -/
def ItemsSurvive (classes : Classes) : List Val → Prop
  | [] => True
  | item :: items =>
    (∀ fresh, item.type?.bind classes.rosNew = some fresh → Survives classes item fresh "") ∧
    ItemsSurvive classes items

end

/-! ## One value -/

section

variable {classes : Classes} {value lcmValue fresh : Val} {hint : String}

/-- The copy of a value goes through and keeps its length, and it comes back unchanged exactly
if the value survives. -/
def Returns (classes : Classes) (value lcmValue fresh : Val) (hint : String) : Prop :=
  ∃ copy, copyValueToLcm classes value lcmValue = some copy ∧ copy.len? = value.seqLen? ∧
    copy.isLcm = value.isRos ∧
    (copyValueToRos classes copy fresh hint = some value ↔ Survives classes value fresh hint)

private theorem Fits.fresh_isRos (h : Fits classes value lcmValue fresh hint) :
    fresh.isRos = value.isRos := by
  cases value with
  | prim p => exact h.1
  | bytes data => exact h.1
  | bytearray data => exact h.elim
  | list items => exact h.1
  | tuple items => exact h.elim
  | array typecode data =>
    cases fresh with
    | array => rfl
    | _ => exact absurd h.1 Bool.false_ne_true
  | ndarray dtype data => exact h.1
  | ros type fields =>
    obtain ⟨_, _, _, _, rfl, _⟩ := h
    rfl
  | lcm type attrs => exact h.elim

private theorem Fits.of_prim (hvalue : value.isRos = false) (h : Fits classes value lcmValue fresh hint)
    (p : Prim) : Fits classes value (.prim p) fresh hint := by
  cases value with
  | list items =>
    obtain ⟨hfresh, hhold, hprimitive | ⟨type, htype, hkeeps, -, hitems⟩⟩ := h
    · exact ⟨hfresh, hhold, Or.inl hprimitive⟩
    · exact ⟨hfresh, hhold, Or.inr ⟨type, htype, hkeeps, trivial, hitems⟩⟩
  | ros type fields => contradiction
  | _ => exact h

private theorem copyValueToRos_prim (classes : Classes) (p : Prim) (fresh : Val) (hint : String) :
    copyValueToRos classes (.prim p) fresh hint =
      if fresh.isRos then some fresh else classes.rosSet hint (.prim p) := by
  cases fresh <;> rfl

private theorem copyValueToRos_list (classes : Classes) (items : List Val)
    (h : fresh.isRos = false) : copyValueToRos classes (.list items) fresh hint =
      if startsWithLcm items then
        (copyItemsToRos classes items hint).bind fun copies ↦ classes.rosSet hint (.list copies)
      else classes.rosSet hint (.list items) := by
  cases fresh with
  | ros type fields => contradiction
  | _ => rfl

private theorem copyValueToRos_bytes (classes : Classes) (data : List UInt8)
    (h : fresh.isRos = false) : copyValueToRos classes (.bytes data) fresh hint =
      classes.rosSet hint (if fresh.hasFrombytes then .array 'B' data else .bytes data) := by
  cases fresh with
  | ros type fields => contradiction
  | _ => rfl

private theorem copyValueToRos_hint (classes : Classes) (copy : Val) (h : fresh.isRos = true)
    (other : String) :
    copyValueToRos classes copy fresh hint = copyValueToRos classes copy fresh other := by
  cases fresh with
  | ros type fields => cases copy <;> rfl
  | _ => contradiction

private theorem itemsSurvive_of_primitive {items : List Val} (h : items.all Val.isPrimitive = true) :
    ItemsSurvive classes items := by
  induction items with
  | nil => trivial
  | cons item items ih =>
    rw [List.all_cons, Bool.and_eq_true] at h
    constructor
    · intro fresh hfresh
      cases item with
      | ros type fields => exact absurd h.1 Bool.false_ne_true
      | _ => contradiction
    · exact ih h.2

private theorem starts_of_primitive {items : List Val} (h : items.all Val.isPrimitive = true) :
    startsWithRos items = false ∧ startsWithLcm items = false := by
  cases items with
  | nil => exact ⟨rfl, rfl⟩
  | cons item items =>
    rw [List.all_cons, Bool.and_eq_true] at h
    cases item with
    | ros type fields => exact absurd h.1 Bool.false_ne_true
    | lcm type attrs => exact absurd h.1 Bool.false_ne_true
    | _ => exact ⟨rfl, rfl⟩

private theorem primitives_return {items : List Val} (h : items.all Val.isPrimitive = true)
    (hfresh : fresh.isRos = false) (hhold : CanHold classes hint (.list items)) :
    Returns classes (.list items) lcmValue fresh hint := by
  obtain ⟨hros, hlcm⟩ := starts_of_primitive h
  have hcopy : copyValueToLcm classes (.list items) lcmValue = some (.list items) := by
    rw [copyValueToLcm, if_neg (Bool.not_eq_true _ ▸ hros)]
  have hback : copyValueToRos classes (.list items) fresh hint = some (.list items) := by
    rw [copyValueToRos_list classes items hfresh, if_neg (Bool.not_eq_true _ ▸ hlcm)]
    exact hhold
  exact ⟨.list items, hcopy, rfl, rfl, iff_of_true hback (itemsSurvive_of_primitive h)⟩

end

/-! ## Fields -/

private theorem companionLen_cons (attr : String) (field : String × String × Val)
    (fields : List (String × String × Val)) :
    companionLen attr (field :: fields) =
      (writtenLen attr field).or (companionLen attr fields) := by
  rw [companionLen, List.findSome?_cons]
  cases writtenLen attr field <;> rfl

private theorem companionLen_append (attr : String) (earlier later : List (String × String × Val)) :
    companionLen attr (earlier ++ later) =
      (companionLen attr earlier).or (companionLen attr later) :=
  List.findSome?_append

private theorem writtenLen_self (name hint : String) (value : Val) :
    writtenLen (lcmFieldName name) (name, hint, value) = none :=
  if_neg (lengthField_ne _)

private theorem companionLen_of_notMem {name : String} {fields : List (String × String × Val)}
    (h : name ∉ fields.map fun field ↦ lcmFieldName field.1) :
    companionLen (lengthField name) fields = none := by
  rw [companionLen, List.findSome?_eq_none_iff]
  intro field hfield
  rw [writtenLen, if_neg]
  intro heq
  exact h (List.mem_map.mpr ⟨field, hfield, lengthField_injective heq⟩)

/-- What the earlier fields have left in an attribute that held `lcmValue`: a length, or still
that value. -/
def LeftBy (earlier : List (String × String × Val)) (attr : String) (lcmValue current : Val) :
    Prop :=
  match companionLen attr earlier with
  | some _ => ∃ n : ℕ, current = .prim (.int n)
  | none => current = lcmValue

/-- One field, between the fields before and after it. Its attribute finally holds its copy, or
the length of a later sequence. -/
theorem field_returns {classes : Classes} {name hint : String} {value lcmValue fresh : Val}
    {earlier : List (String × String × Val)} {current : Val}
    (later : List (String × String × Val))
    (hfit : Fits classes value lcmValue fresh hint)
    (hvalue : ∀ held, Fits classes value held fresh hint →
      Returns classes value held fresh hint)
    (hcurrent : LeftBy earlier (lcmFieldName name) lcmValue current) :
    ∃ copy, copyValueToLcm classes value current = some copy ∧ copy.len? = value.seqLen? ∧
      (copyValueToRos classes (withLength (companionLen (lcmFieldName name) later) copy) fresh
          hint = some value ↔
        FieldSurvives classes (earlier ++ (name, hint, value) :: later) later name hint value
          fresh (Survives classes value fresh hint)) := by
  have hfresh := hfit.fresh_isRos
  have hdeclared : companionLen (lcmFieldName name) (earlier ++ (name, hint, value) :: later) =
      (companionLen (lcmFieldName name) earlier).or
        (companionLen (lcmFieldName name) later) := by
    rw [companionLen_append, companionLen_cons, writtenLen_self, Option.none_or]
  rw [FieldSurvives, hdeclared]
  unfold LeftBy at hcurrent
  cases hros : value.isRos with
  | false =>
    have hheld : Fits classes value current fresh hint := by
      cases hearlier : companionLen (lcmFieldName name) earlier with
      | none =>
        rw [hearlier] at hcurrent
        exact hcurrent ▸ hfit
      | some n =>
        rw [hearlier] at hcurrent
        obtain ⟨m, rfl⟩ := hcurrent
        exact hfit.of_prim hros _
    obtain ⟨copy, hcopy, hlen, _, hiff⟩ := hvalue current hheld
    refine ⟨copy, hcopy, hlen, ?_⟩
    cases companionLen (lcmFieldName name) later with
    | none => simpa [withLength] using hiff
    | some n => simp [withLength, copyValueToRos_prim, hfresh, hros]
  | true =>
    cases hearlier : companionLen (lcmFieldName name) earlier with
    | none =>
      rw [hearlier] at hcurrent
      subst hcurrent
      obtain ⟨copy, hcopy, hlen, _, hiff⟩ := hvalue current hfit
      refine ⟨copy, hcopy, hlen, ?_⟩
      cases companionLen (lcmFieldName name) later with
      | none => simpa [withLength] using hiff
      | some n => simp [withLength, copyValueToRos_prim, hfresh, hros, eq_comm]
    | some m =>
      rw [hearlier] at hcurrent
      obtain ⟨m', rfl⟩ := hcurrent
      obtain ⟨type, fields, rfl⟩ : ∃ type fields, value = .ros type fields := by
        cases value with
        | ros type fields => exact ⟨type, fields, rfl⟩
        | _ => contradiction
      refine ⟨.prim (.int m'), rfl, rfl, ?_⟩
      cases companionLen (lcmFieldName name) later with
      | none => simp [withLength, copyValueToRos_prim, hfresh, hros, eq_comm]
      | some n => simp [withLength, copyValueToRos_prim, hfresh, hros, eq_comm]

/-- Storing one more field leaves a length, or what was there. -/
theorem LeftBy.append {earlier : List (String × String × Val)} {attr : String}
    {lcmValue current : Val} (h : LeftBy earlier attr lcmValue current)
    (field : String × String × Val) :
    LeftBy (earlier ++ [field]) attr lcmValue (withLength (writtenLen attr field) current) := by
  unfold LeftBy at h ⊢
  rw [companionLen_append, companionLen_cons]
  cases hearlier : companionLen attr earlier with
  | some m =>
    rw [hearlier] at h
    cases writtenLen attr field with
    | none => exact h
    | some n => exact ⟨n, rfl⟩
  | none =>
    rw [hearlier] at h
    cases writtenLen attr field with
    | none => exact h
    | some n => exact ⟨n, rfl⟩

/-! ## The recursion -/

private theorem newLcmItem_of_holdsLike (classes : Classes) {type : MsgType} {item lcmValue : Val}
    (hitem : item.type? = some type) (hlike : HoldsLike type lcmValue) :
    newLcmItem classes item lcmValue = classes.lcmNew type := by
  obtain ⟨fields, rfl⟩ := Val.eq_ros_of_type? hitem
  unfold newLcmItem
  split
  next first rest =>
    cases first with
    | lcm firstType attrs =>
      obtain rfl : firstType = type := hlike
      rfl
    | _ => exact hlike.elim
  next heq => rw [(Val.ros.inj heq).1]
  next h => exact absurd rfl (h _ _)

/-- The copies of the items of a message array go through, and they come back unchanged exactly
if every item survives. -/
def ItemsReturn (classes : Classes) (items : List Val) (lcmValue : Val) (hint : String) : Prop :=
  ∃ copies, copyItemsToLcm classes items lcmValue = some copies ∧
    copies.length = items.length ∧ startsWithLcm copies = startsWithRos items ∧
    (copyItemsToRos classes copies hint = some items ↔ ItemsSurvive classes items)

/-- A message array returns if its items do: its setter stores the list it is given. -/
theorem messages_return {classes : Classes} {type : MsgType} {items : List Val}
    {lcmValue fresh : Val} {hint : String} (hfresh : fresh.isRos = false)
    (hhold : CanHold classes hint (.list items)) (hkeeps : KeepsLists classes hint)
    (hitems : FitsItems classes type items) (h : ItemsReturn classes items lcmValue hint) :
    Returns classes (.list items) lcmValue fresh hint := by
  obtain ⟨copies, hcopies, hlength, hstarts, hiff⟩ := h
  cases items with
  | nil => exact primitives_return rfl hfresh hhold
  | cons item items =>
    have hros : startsWithRos (item :: items) = true := by
      obtain ⟨⟨hitem, -⟩, -⟩ := hitems
      cases item with
      | ros itemType fields => rfl
      | _ => contradiction
    have hcopy : copyValueToLcm classes (.list (item :: items)) lcmValue =
        some (.list copies) := by
      rw [copyValueToLcm, if_pos hros, hcopies, Option.map_some]
    refine ⟨.list copies, hcopy, congrArg some hlength, rfl, ?_⟩
    rw [copyValueToRos_list classes copies hfresh, if_pos (hstarts.trans hros), Survives, ← hiff]
    constructor
    · intro hback
      obtain ⟨backs, hbacks, hset⟩ := Option.bind_eq_some_iff.mp hback
      rw [hbacks, Val.list.inj (hkeeps backs _ hset)]
    · intro hbacks
      rw [hbacks, Option.bind_some]
      exact hhold

mutual

/-- Every value that fits returns exactly if it survives. -/
theorem value_returns (classes : Classes) : ∀ (value lcmValue fresh : Val) (hint : String),
    Fits classes value lcmValue fresh hint → Returns classes value lcmValue fresh hint
  | .prim p, lcmValue, fresh, hint, h => by
    have hback : copyValueToRos classes (.prim p) fresh hint = some (.prim p) := by
      rw [copyValueToRos_prim, if_neg (Bool.not_eq_true _ ▸ h.1)]
      exact h.2
    exact ⟨.prim p, rfl, rfl, rfl, iff_of_true hback trivial⟩
  | .bytes data, lcmValue, fresh, hint, h => by
    have hback : copyValueToRos classes (.bytes data) fresh hint = some (.bytes data) := by
      rw [copyValueToRos_bytes classes data h.1, if_neg (Bool.not_eq_true _ ▸ h.2.1)]
      exact h.2.2
    exact ⟨.bytes data, rfl, rfl, rfl, iff_of_true hback trivial⟩
  | .bytearray data, _, _, _, h => h.elim
  | .tuple items, _, _, _, h => h.elim
  | .array typecode data, lcmValue, fresh, hint, h => by
    have hfresh : fresh.isRos = false := Fits.fresh_isRos h
    refine ⟨.bytes data, rfl, rfl, rfl, ?_⟩
    rw [copyValueToRos_bytes classes data hfresh, if_pos h.1]
    rfl
  | .ndarray dtype data, lcmValue, fresh, hint, h => by
    refine ⟨.bytes data, rfl, rfl, rfl, ?_⟩
    rw [copyValueToRos_bytes classes data h.1, if_neg (Bool.not_eq_true _ ▸ h.2.1)]
    rfl
  | .list items, lcmValue, fresh, hint, h => by
    obtain ⟨hfresh, hhold, hprimitive | ⟨type, htype, hkeeps, hlike, hitems⟩⟩ := h
    · exact primitives_return hprimitive hfresh hhold
    · exact messages_return hfresh hhold hkeeps hitems
        (items_return classes type items lcmValue hint htype hlike hitems)
  | .ros type fields, lcmValue, fresh, hint, h => by
    obtain ⟨lcmType, attrs, freshFields, rfl, rfl, hnodup, hfields⟩ := h
    obtain ⟨out, hout, -, hiff⟩ :=
      fields_return classes fields [] attrs attrs freshFields hfields hnodup
        fun attr _ lcmValue hlookup ↦ ⟨lcmValue, hlookup, rfl⟩
    have hcopy : copyValueToLcm classes (.ros type fields) (.lcm lcmType attrs) =
        some (.lcm lcmType out) := by
      rw [copyValueToLcm, hout, Option.map_some]
    refine ⟨.lcm lcmType out, hcopy, rfl, rfl, ?_⟩
    rw [List.nil_append] at hiff
    rw [copyValueToRos, Survives, ← hiff]
    simp
  | .lcm type attrs, _, _, _, h => h.elim

/-- The fields of a message, after the copies of the `earlier` ones into its instance. -/
theorem fields_return (classes : Classes) : ∀ (fields earlier : List (String × String × Val))
    (attrs current : List (String × Val)) (freshFields : List (String × String × Val)),
    FitsFields classes fields attrs freshFields →
    (fields.map fun field ↦ lcmFieldName field.1).Nodup →
    (∀ attr ∈ fields.map fun field ↦ lcmFieldName field.1, ∀ lcmValue,
      attrs.lookup attr = some lcmValue →
        ∃ held, current.lookup attr = some held ∧ LeftBy earlier attr lcmValue held) →
    ∃ out, copyFieldsToLcm classes fields current = some out ∧
      (∀ attr, (attr ∉ fields.map fun field ↦ lcmFieldName field.1) →
        out.lookup attr = (current.lookup attr).map (withLength (companionLen attr fields))) ∧
      (freshFields.mapM (copyAttrToRos classes out) = some fields ↔
        FieldsSurvive classes (earlier ++ fields) fields freshFields)
  | [], earlier, attrs, current, freshFields, h, _, _ => by
    subst h
    refine ⟨current, rfl, fun attr _ ↦ ?_, by simp [FieldsSurvive]⟩
    exact Option.map_id'.symm
  | (name, hint, value) :: fields, earlier, attrs, current, freshFields, h, hnodup, hleft => by
    obtain ⟨fresh, rest, lcmValue, rfl, hlookup, hfit, hrest⟩ := h
    rw [List.map_cons, List.nodup_cons] at hnodup
    obtain ⟨held, hheld, hleftHead⟩ := hleft _ List.mem_cons_self lcmValue hlookup
    obtain ⟨copy, hcopy, hlen, hiff⟩ := field_returns fields hfit
      (fun held h ↦ value_returns classes value held fresh hint h) hleftHead
    -- what is stored now is what the later fields find
    have hstored {attr : String} (hattr : attr ≠ lcmFieldName name) :
        (storeField current (lcmFieldName name) copy).lookup attr =
          (current.lookup attr).map (withLength (writtenLen attr (name, hint, value))) := by
      rw [lookup_storeField hheld hattr, hlen, writtenLen]
    have hleftRest : ∀ attr ∈ fields.map fun field ↦ lcmFieldName field.1, ∀ lcmValue,
        attrs.lookup attr = some lcmValue → ∃ held,
          (storeField current (lcmFieldName name) copy).lookup attr = some held ∧
            LeftBy (earlier ++ [(name, hint, value)]) attr lcmValue held := by
      intro attr hattr lcmValue hlookup
      obtain ⟨held, hheld, hleft⟩ := hleft attr (List.mem_cons_of_mem _ hattr) lcmValue hlookup
      have hne : attr ≠ lcmFieldName name := fun heq ↦ hnodup.1 (heq ▸ hattr)
      exact ⟨_, by rw [hstored hne, hheld, Option.map_some], hleft.append _⟩
    obtain ⟨out, hout, hother, hrestIff⟩ :=
      fields_return classes fields (earlier ++ [(name, hint, value)]) attrs
        (storeField current (lcmFieldName name) copy) rest hrest hnodup.2 hleftRest
    have hhead : copyAttrToRos classes out (name, hint, fresh) =
        (copyValueToRos classes (withLength (companionLen (lcmFieldName name) fields) copy) fresh
          hint).map fun back ↦ (name, hint, back) := by
      rw [copyAttrToRos_eq, hother _ hnodup.1, lookup_storeField_self hheld]
      rfl
    refine ⟨out, ?_, ?_, ?_⟩
    · simp only [copyFieldsToLcm, hheld, hcopy, Option.bind_some, hout]
    · intro attr hattr
      rw [List.map_cons, List.mem_cons, not_or] at hattr
      rw [hother attr hattr.2, hstored hattr.1, Option.map_map, companionLen_cons]
      congr 1
      funext held
      rw [Function.comp_apply]
      cases hwritten : writtenLen attr (name, hint, value) with
      | none => rfl
      | some n =>
        obtain rfl : lengthField (lcmFieldName name) = attr := by
          by_contra hne
          rw [writtenLen, if_neg hne] at hwritten
          contradiction
        rw [companionLen_of_notMem hnodup.1]
        rfl
    · rw [List.append_assoc, List.singleton_append] at hrestIff
      rw [List.mapM_cons, hhead, FieldsSurvive, ← hiff, ← hrestIff]
      simp [Option.bind_eq_some_iff]

private theorem items_return (classes : Classes) (type : MsgType) : ∀ (items : List Val) (lcmValue : Val)
    (hint : String), typeOfHint hint = some type → HoldsLike type lcmValue →
    FitsItems classes type items → ItemsReturn classes items lcmValue hint
  | [], _, _, _, _, _ => ⟨[], rfl, rfl, rfl, by simp [copyItemsToRos, ItemsSurvive]⟩
  | item :: items, lcmValue, hint, htype, hlike, h => by
    obtain ⟨⟨hitem, lcmFresh, fresh, hlcmNew, hrosNew, hfit⟩, hitems⟩ := h
    obtain ⟨copy, hcopy, -, hlcm, hiff⟩ := value_returns classes item lcmFresh fresh "" hfit
    obtain ⟨copies, hcopies, hlength, -, hrestIff⟩ :=
      items_return classes type items lcmValue hint htype hlike hitems
    have hnew := newLcmItem_of_holdsLike classes hitem hlike
    obtain ⟨fields, rfl⟩ := Val.eq_ros_of_type? hitem
    have hfresh : fresh.isRos = true := hfit.fresh_isRos
    have hstarts : startsWithLcm (copy :: copies) = true := by
      simp [startsWithLcm, hlcm, Val.isRos]
    refine ⟨copy :: copies, ?_, congrArg Nat.succ hlength, hstarts, ?_⟩
    · rw [copyItemsToLcm, hnew, hlcmNew, Option.bind_some]
      simp only [hcopy, Option.bind_some, hcopies, Option.map_some]
    · rw [copyValueToRos_hint classes copy hfresh hint] at hiff
      rw [ItemsSurvive, ← hrestIff]
      simp [copyItemsToRos, newRosItem, htype, hrosNew, hfresh, Val.type?, hiff,
        Option.bind_eq_some_iff]

end

/-- For every message tree and every LCM instance that exposes its fields, the round trip
returns the message exactly if at every level its arrays are arrays of bytes or restored by
their setters, and no field is lost to the length of another one. -/
theorem roundTrip_iff_survives {classes : Classes} {rosMsg lcmMsg fresh : Val}
    (hros : rosMsg.isRos = true) (h : Fits classes rosMsg lcmMsg fresh "") :
    roundTrip classes rosMsg lcmMsg fresh = some rosMsg ↔ Survives classes rosMsg fresh "" := by
  obtain ⟨copy, hcopy, -, -, hiff⟩ := value_returns classes rosMsg lcmMsg fresh "" h
  have hfresh : fresh.isRos = true := h.fresh_isRos.trans hros
  rw [roundTrip, copyRosToLcmRecursive, if_pos hros, hcopy, Option.bind_some,
    copyLcmToRosRecursive, if_pos hfresh, hiff]

/-- Setters that assert the typecode of an array of doubles and store anything else. -/
def checkedSet (hint : String) : Val → Option Val
  | .array typecode data =>
    if hint = "sequence<double>" ∧ typecode ≠ 'd' then none else some (.array typecode data)
  | value => some value

/-- Message classes of a point cloud's fields. -/
def cloudClasses : Classes where
  rosNew type :=
    if type = ⟨"sensor_msgs", "PointField"⟩ then
      some (.ros type [("name", "string", .prim (.str "")), ("offset", "uint32", .prim (.int 0))])
    else none
  lcmNew type :=
    if type = ⟨"sensor_msgs", "PointField"⟩ then
      some (.lcm type [("name", .prim (.str "")), ("offset", .prim (.int 0))])
    else none
  rosSet := checkedSet

/-- A point cloud with a time stamp, one field description and `data`. -/
def cloud (sec nanosec : ℤ) (fields : List Val) (data : List UInt8) : Val :=
  .ros ⟨"sensor_msgs", "PointCloud2"⟩
    [("stamp", "builtin_interfaces/Time", .ros ⟨"builtin_interfaces", "Time"⟩
      [("sec", "int32", .prim (.int sec)), ("nanosec", "uint32", .prim (.int nanosec))]),
     ("fields", "sequence<sensor_msgs/PointField>", .list fields),
     ("data", "sequence<uint8>", .array 'B' data)]

/-- A new LCM point cloud. -/
def cloudLcm : Val :=
  .lcm ⟨"sensor_msgs", "PointCloud2"⟩
    [("stamp", .lcm ⟨"std_msgs", "Time"⟩ [("sec", .prim (.int 0)), ("nsec", .prim (.int 0))]),
     ("fields_length", .prim (.int 0)), ("fields", .list []),
     ("data_length", .prim (.int 0)), ("data", .bytes [])]

/-- A description of the `x` coordinate. -/
def cloudField : Val :=
  .ros ⟨"sensor_msgs", "PointField"⟩
    [("name", "string", .prim (.str "x")), ("offset", "uint32", .prim (.int 4))]

/-- A point cloud with a nested stamp, a message array and byte data returns as it was. -/
theorem roundTrip_iff_survives_cloud :
    roundTrip cloudClasses (cloud 1 2 [cloudField] [3, 4]) cloudLcm (cloud 0 0 [] []) =
      some (cloud 1 2 [cloudField] [3, 4]) := by
  apply (roundTrip_iff_survives rfl _).mpr
  · simp [Survives, FieldsSurvive, ItemsSurvive, FieldSurvives, cloud, cloudField, cloudClasses,
      checkedSet, companionLen, writtenLen, lengthField, lcmFieldName, Val.isRos, Val.type?]
  · have hhint : typeOfHint "sequence<sensor_msgs/PointField>" =
        some ⟨"sensor_msgs", "PointField"⟩ := by decide
    simp [Fits, FitsFields, FitsItems, CanHold, KeepsLists, HoldsLike, cloud, cloudLcm,
      cloudField, cloudClasses, checkedSet, lcmFieldName, Val.isRos, Val.hasFrombytes, Val.type?,
      Val.isPrimitive, List.lookup_cons, hhint]

/-- A message with an array of doubles. -/
def multiArray (data : Val) : Val :=
  .ros ⟨"std_msgs", "Float64MultiArray"⟩
    [("layout", "std_msgs/MultiArrayLayout", .ros ⟨"std_msgs", "MultiArrayLayout"⟩
      [("dim", "sequence<std_msgs/MultiArrayDimension>", .list []),
       ("data_offset", "uint32", .prim (.int 0))]),
     ("data", "sequence<double>", data)]

/-- A new LCM message with an array of doubles. -/
def multiArrayLcm : Val :=
  .lcm ⟨"std_msgs", "Float64MultiArray"⟩
    [("layout", .lcm ⟨"std_msgs", "MultiArrayLayout"⟩
      [("dim_length", .prim (.int 0)), ("dim", .list []), ("data_offset", .prim (.int 0))]),
     ("data_length", .prim (.int 0)), ("data", .list [])]

/-- The double 1.0, in memory order. -/
def oneAsBytes : List UInt8 := [0, 0, 0, 0, 0, 0, 0xf0, 0x3f]

/-- An array with the double 1.0 comes back as an array of its eight bytes, which the field's
setter refuses. -/
theorem roundTrip_loses_typecode :
    Fits cloudClasses (multiArray (.array 'd' oneAsBytes)) multiArrayLcm
      (multiArray (.array 'd' [])) "" ∧
    roundTrip cloudClasses (multiArray (.array 'd' oneAsBytes)) multiArrayLcm
      (multiArray (.array 'd' [])) ≠ some (multiArray (.array 'd' oneAsBytes)) := by
  constructor
  · simp [Fits, FitsFields, CanHold, multiArray, multiArrayLcm, cloudClasses, checkedSet,
      lcmFieldName, Val.isRos, Val.hasFrombytes, List.lookup_cons]
  · have hraises : roundTrip cloudClasses (multiArray (.array 'd' oneAsBytes)) multiArrayLcm
        (multiArray (.array 'd' [])) = none := rfl
    rw [hraises]
    exact (Option.some_ne_none _).symm

end HzjDds.Conversion
