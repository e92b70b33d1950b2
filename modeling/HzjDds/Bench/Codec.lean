import HzjDds.Bench.Message
import HzjDds.Python.Raises
import Mathlib.Algebra.Order.Monoid.Unbundled.MinMax
import Mathlib.Data.List.Basic

/-!
# Payloads of Chain A, as the echo reads them

Library `Bench`. Source: `scripts/bench/pingpong.py:538–586,651–664,722–760`. The decoder takes the
data field as Python has it, where an element is a `bytes` object or an integer, and tells the
representation from the first element; a case reports a size of its own.
-/

namespace HzjDds.Bench

/-- An element of a data field. -/
inductive DataItem where
  | bytes (octets : List UInt8)
  | int (n : ℤ)
  deriving DecidableEq, Repr

/-- What the decoder raises. -/
inductive DecodeError where
  | typeError
  | valueError
  deriving DecidableEq, Repr

/-- An element of the argument of `b"".join`. -/
def DataItem.joined : DataItem → Except DecodeError (List UInt8)
  | .bytes octets => .ok octets
  | .int _ => .error .typeError

/-- An element of the argument of `bytes`. -/
def DataItem.octet : DataItem → Except DecodeError UInt8
  | .bytes _ => .error .typeError
  | .int n => if 0 ≤ n ∧ n < 256 then .ok (UInt8.ofNat n.toNat) else .error .valueError

/-- `_blob_from_byte_multiarray`. -/
def blobFromByteMultiarray (data : List DataItem) : Except DecodeError (List UInt8) :=
  match data with
  | [] => .ok []
  | .bytes _ :: _ => (data.mapM DataItem.joined).map List.flatten
  | .int _ :: _ => data.mapM DataItem.octet

/-- The data field of a message. -/
def RosMsg.data : RosMsg → List DataItem
  | .byteMultiarray data => data.map .bytes
  | .uint8Multiarray data => data.map fun b ↦ .int b.toNat

/-- `_chain_a_unpack`. -/
def unpackData (ros_msg : RosMsgKind) (data : List DataItem) : Except DecodeError (List UInt8) :=
  match ros_msg with
  | .uint8Multiarray => data.mapM DataItem.octet
  | .byteMultiarray => blobFromByteMultiarray data

/-- Octets of the data field on the wire: both arrays hold one in each element. -/
def RosMsg.octets (message : RosMsg) : ℕ := message.data.length

/-- `pad`. -/
def padOf (msg_size : ℕ) : List UInt8 := (List.range (msg_size - 12)).map UInt8.ofNat

/-- What `on_pong` does with a data field: it raises, discards it, or reads both numbers. -/
def onPongReads (ros_msg : RosMsgKind) (data : List DataItem) :
    Except DecodeError (Option (ℕ × ℕ)) := do
  let blob ← unpackData ros_msg data
  return if blob.length < 12 then none else some (unpackHeader blob)

/-- What `_chain_a_case` reports of the payload. -/
structure ReportedPayload where
  impl : String
  ros_msg : String
  msg_size_bytes : ℕ
  payload_len_bytes : ℕ
  payload_field : String
  deriving DecidableEq, Repr

/-- `_chain_a_impl_label`. -/
def chainAImplLabel : RosMsgKind → String
  | .uint8Multiarray => "rclpy UInt8MultiArray ping-pong (contiguous uint8; " ++
      "lidar/PointCloud2-like; not DimosROS library QoS rewrite)"
  | .byteMultiarray => "rclpy ByteMultiArray ping-pong (not DimosROS library QoS rewrite)"

/-- The fields of `_chain_a_case` that describe the payload. -/
def chainACase (ros_msg : RosMsgKind) (msg_size : ℕ) : ReportedPayload where
  impl := chainAImplLabel ros_msg
  ros_msg := match ros_msg with
    | .uint8Multiarray => "uint8_multiarray"
    | .byteMultiarray => "byte_multiarray"
  msg_size_bytes := msg_size
  payload_len_bytes := msg_size
  payload_field := match ros_msg with
    | .uint8Multiarray => "UInt8MultiArray.data (uint8[]) including 12-byte seq+t0 header"
    | .byteMultiarray => "ByteMultiArray.data (byte[]) including 12-byte seq+t0 header"

/-! ## Unpacking -/

private theorem octet_toNat (b : UInt8) : DataItem.octet (.int b.toNat) = .ok b := by
  have hlt : b.toNat < 256 := UInt8.toNat_lt b
  rw [DataItem.octet, if_pos (by omega)]
  simp

private theorem joined_bytes (octets : List UInt8) : DataItem.joined (.bytes octets) = .ok octets := rfl

private theorem mapM_ok {α β ε : Type} {f : α → Except ε β} {g : β → α} (hf : ∀ b, f (g b) = .ok b)
    (bs : List β) : (bs.map g).mapM f = .ok bs := by
  have hmap := Python.mapM_map_ok (k := id) hf bs
  rwa [List.map_id] at hmap

private theorem blobFromByteMultiarray_bytes (data : List (List UInt8)) :
    blobFromByteMultiarray (data.map .bytes) = .ok data.flatten := by
  cases data with
  | nil => rfl
  | cons first rest =>
    have hjoined : ((first :: rest).map DataItem.bytes).mapM DataItem.joined =
        .ok (first :: rest) :=
      mapM_ok joined_bytes (first :: rest)
    change (((first :: rest).map DataItem.bytes).mapM DataItem.joined).map List.flatten = _
    rw [hjoined]
    rfl

/-- Kind of a message. -/
def RosMsg.kind : RosMsg → RosMsgKind
  | .byteMultiarray _ => .byteMultiarray
  | .uint8Multiarray _ => .uint8Multiarray

private theorem unpackData_data (message : RosMsg) :
    unpackData message.kind message.data = .ok (chainAUnpack message) := by
  cases message with
  | byteMultiarray data => exact blobFromByteMultiarray_bytes data
  | uint8Multiarray data => exact mapM_ok octet_toNat data

@[simp] theorem kind_pack (ros_msg : RosMsgKind) (blob : List UInt8) :
    (chainAPack ros_msg blob).kind = ros_msg := by
  cases ros_msg <;> rfl

private theorem unpackData_pack (ros_msg : RosMsgKind) (blob : List UInt8) :
    unpackData ros_msg (chainAPack ros_msg blob).data = .ok blob := by
  have hunpack := unpackData_data (chainAPack ros_msg blob)
  rwa [kind_pack, chainAUnpack_pack] at hunpack

@[simp] theorem octets_pack (ros_msg : RosMsgKind) (blob : List UInt8) :
    (chainAPack ros_msg blob).octets = blob.length := by
  cases ros_msg <;> simp [chainAPack, RosMsg.octets, RosMsg.data]

/-! ## The header -/

private theorem packHeader_of_fits {seq t0 : ℕ} (hseq : seq < 2 ^ 32) (ht0 : t0 < 2 ^ 64) :
    packHeader seq t0 = some (toLE 4 seq ++ toLE 8 t0) := if_pos ⟨hseq, ht0⟩

private theorem unpackHeader_pack {seq t0 : ℕ} {header : List UInt8}
    (hheader : packHeader seq t0 = some header) (pad : List UInt8) :
    unpackHeader (header ++ pad) = (seq, t0) := by
  apply Prod.ext
  · exact (unpackHeader_fst hheader pad).2
  · simp only [packHeader] at hheader
    split at hheader
    · next hfit =>
      cases hheader
      have hdrop : (toLE 4 seq ++ toLE 8 t0 ++ pad).drop 4 = toLE 8 t0 ++ pad := by
        rw [List.append_assoc, List.drop_left' (length_toLE 4 seq)]
      change ofLE (((toLE 4 seq ++ toLE 8 t0 ++ pad).drop 4).take 8) = t0
      rw [hdrop, List.take_left' (length_toLE 8 t0), ofLE_toLE (by omega)]
    · contradiction

private theorem length_packHeader {seq t0 : ℕ} {header : List UInt8}
    (hheader : packHeader seq t0 = some header) : header.length = 12 := by
  simp only [packHeader] at hheader
  split at hheader
  · cases hheader
    simp
  · contradiction

private theorem length_header_pad {seq t0 : ℕ} {header : List UInt8}
    (hheader : packHeader seq t0 = some header) (msg_size : ℕ) :
    (header ++ padOf msg_size).length = max 12 msg_size := by
  rw [List.length_append, length_packHeader hheader, padOf, List.length_map, List.length_range]
  omega

/-! ## An echo that comes back intact -/

/-- The codec does what a case says of it, for one ping. -/
structure CodecAgrees (ros_msg : RosMsgKind) (seq t0 msg_size : ℕ) (header : List UInt8)
    (message : RosMsg) : Prop where
  packed : packHeader seq t0 = some header
  published : (chainA ros_msg msg_size).encode seq t0 = .sent message
  unpacked : unpackData ros_msg message.data = .ok (header ++ padOf msg_size)
  decoded : unpackHeader (header ++ padOf msg_size) = (seq, t0)
  taken : onPongReads ros_msg message.data = .ok (some (seq, t0))
  msgSize : message.octets = (chainACase ros_msg msg_size).msg_size_bytes
  payloadLen : message.octets = (chainACase ros_msg msg_size).payload_len_bytes

private theorem echo_intact (ros_msg : RosMsgKind) {seq t0 : ℕ} {header : List UInt8}
    (hheader : packHeader seq t0 = some header) (msg_size : ℕ) :
    (chainA ros_msg msg_size).encode seq t0 =
        .sent (chainAPack ros_msg (header ++ padOf msg_size)) ∧
      onPongReads ros_msg (chainAPack ros_msg (header ++ padOf msg_size)).data =
        .ok (some (seq, t0)) := by
  constructor
  · simp only [chainA, hheader]
    rfl
  · have hlength : ¬ (header ++ padOf msg_size).length < 12 := by
      rw [length_header_pad hheader]
      omega
    rw [onPongReads, unpackData_pack]
    change Except.ok (if (header ++ padOf msg_size).length < 12 then none
      else some (unpackHeader (header ++ padOf msg_size))) = _
    rw [if_neg hlength, unpackHeader_pack hheader]

/-- The codec agrees with the reported sizes exactly for messages that have room for the header. -/
theorem codecAgrees_iff (ros_msg : RosMsgKind) (seq t0 msg_size : ℕ) (hseq : seq < 2 ^ 32)
    (ht0 : t0 < 2 ^ 64) :
    (∃ header message, CodecAgrees ros_msg seq t0 msg_size header message) ↔ 12 ≤ msg_size := by
  have hheader := packHeader_of_fits hseq ht0
  obtain ⟨hpublished, htaken⟩ := echo_intact ros_msg hheader msg_size
  have hlength := length_header_pad hheader msg_size
  constructor
  case mp =>
    rintro ⟨header, message, hagrees⟩
    have hsent := hagrees.published
    rw [hpublished] at hsent
    cases hsent
    have hsize := hagrees.msgSize
    rw [octets_pack, hlength] at hsize
    change max 12 msg_size = msg_size at hsize
    omega
  case mpr =>
    intro hroom
    have hoctets : (chainAPack ros_msg (toLE 4 seq ++ toLE 8 t0 ++ padOf msg_size)).octets =
        msg_size := by
      rw [octets_pack, hlength]
      omega
    exact ⟨_, _, {
      packed := hheader
      published := hpublished
      unpacked := unpackData_pack ros_msg _
      decoded := unpackHeader_pack hheader _
      taken := htaken
      msgSize := hoctets
      payloadLen := hoctets }⟩

theorem codecAgrees_iff_sixty_four :
    (∃ header message, CodecAgrees .uint8Multiarray 7 1000000 64 header message) ↔ 12 ≤ 64 :=
  codecAgrees_iff .uint8Multiarray 7 1000000 64 (by decide) (by decide)

/-- Eight bytes are asked for and reported, twelve are published. -/
theorem codec_small_size :
    (∃ message, (chainA .uint8Multiarray 8).encode 0 0 = .sent message ∧ message.octets = 12) ∧
      (chainACase .uint8Multiarray 8).payload_len_bytes = 8 ∧
      ¬ ∃ header message, CodecAgrees .uint8Multiarray 0 0 8 header message := by
  refine ⟨⟨_, rfl, by decide⟩, rfl, ?_⟩
  rintro ⟨header, message, hagrees⟩
  have hsent := hagrees.published
  cases hsent
  exact absurd hagrees.msgSize (by decide)

end HzjDds.Bench
