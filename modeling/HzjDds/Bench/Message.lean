import Mathlib.Algebra.Ring.Nat

/-!
# Ping messages of the two chains

Library `Bench`. Source: `scripts/bench/pingpong.py:105–111,278–305,538–586,722–760`,
`probe_types.py`. Chain B publishes a `BenchProbe`; Chain A packs sequence number and stamp
into twelve bytes, pads them to the message size and puts the bytes into one of two ROS
arrays. A chain is how a ping is built and what `on_pong` reads of a message.
-/

namespace HzjDds.Bench

universe u

/-! ## Little-endian numbers -/

/-- `width` bytes of a number, the lowest first. -/
def toLE : ℕ → ℕ → List UInt8
  | 0, _ => []
  | width + 1, n => UInt8.ofNat (n % 256) :: toLE width (n / 256)

/-- The number that bytes denote, the lowest first. -/
def ofLE : List UInt8 → ℕ
  | [] => 0
  | b :: bs => b.toNat + 256 * ofLE bs

@[simp] theorem length_toLE (width n : ℕ) : (toLE width n).length = width := by
  induction width generalizing n with
  | zero => rfl
  | succ width ih => simp [toLE, ih]

/-- A number that fits its width is read back. -/
theorem ofLE_toLE {width n : ℕ} (h : n < 256 ^ width) : ofLE (toLE width n) = n := by
  induction width generalizing n with
  | zero =>
    rw [pow_zero, Nat.lt_one_iff] at h
    rw [h]
    rfl
  | succ width ih =>
    have hrest : n / 256 < 256 ^ width := by
      rw [Nat.div_lt_iff_lt_mul (by decide), ← pow_succ]
      exact h
    rw [toLE, ofLE, ih hrest]
    simp only [UInt8.toNat_ofNat']
    omega

/-! ## Chains -/

/-- What becomes of a ping on its way out: it is published, it is lost without an error in
the loop, or the loop raises. -/
inductive Sending (W : Type u) where
  | sent (message : W)
  | lost
  | raised
  deriving DecidableEq, Repr

/-- A way to build pings and to read pongs. Every ping that is sent carries its number. -/
structure Chain (W : Type u) where
  encode : ℕ → ℕ → Sending W
  seqOf : W → Option ℕ
  seqOf_encode : ∀ seq t0 message, encode seq t0 = .sent message → seqOf message = some seq

/-- `BenchProbe` (`probe_types.py`). -/
structure BenchProbe where
  seq : ℕ
  t0Ns : ℕ
  payload : List UInt8
  deriving DecidableEq, Repr

/-- `_payload_pattern` (`pingpong.py:105–111`). -/
def payloadPattern (msgSize : ℕ) : List UInt8 :=
  let pat := (List.range 256).map UInt8.ofNat
  (List.replicate (msgSize / 256) pat).flatten ++ pat.take (msgSize % 256)

/-- Chain B (`pingpong.py:278–283,304–305`). `DDS.publish` logs a sample whose numbers do not fit
their IDL types, and the loop goes on. -/
def chainB (msgSize : ℕ) : Chain BenchProbe where
  encode seq t0 :=
    if seq < 2 ^ 32 ∧ t0 < 2 ^ 64 then .sent ⟨seq, t0, payloadPattern msgSize⟩ else .lost
  seqOf message := some message.seq
  seqOf_encode seq t0 message h := by
    split at h <;> cases h
    rfl

/-- The two values of `--ros-msg`. -/
inductive RosMsgKind where
  | byteMultiarray
  | uint8Multiarray
  deriving DecidableEq, Repr

/-- Data field of the ROS message: one `bytes` object for each octet, or contiguous octets. -/
inductive RosMsg where
  | byteMultiarray (data : List (List UInt8))
  | uint8Multiarray (data : List UInt8)
  deriving DecidableEq, Repr

/-- `_chain_a_pack` (`pingpong.py:538–580`). -/
def chainAPack : RosMsgKind → List UInt8 → RosMsg
  | .byteMultiarray, blob => .byteMultiarray (blob.map fun b ↦ [b])
  | .uint8Multiarray, blob => .uint8Multiarray blob

/-- `_chain_a_unpack` (`pingpong.py:543–549,583–586`). -/
def chainAUnpack : RosMsg → List UInt8
  | .byteMultiarray data => data.flatten
  | .uint8Multiarray data => data

/-- Unpacking gives back what was packed. -/
@[simp] theorem chainAUnpack_pack (kind : RosMsgKind) (blob : List UInt8) :
    chainAUnpack (chainAPack kind blob) = blob := by
  cases kind with
  | byteMultiarray =>
    induction blob with
    | nil => rfl
    | cons b blob ih =>
      simp only [chainAPack, chainAUnpack, List.map_cons, List.flatten_cons] at ih ⊢
      rw [ih]
      rfl
  | uint8Multiarray => rfl

/-- `struct.pack("<IQ", seq, t0)`; it raises when a number does not fit. -/
def packHeader (seq t0 : ℕ) : Option (List UInt8) :=
  if seq < 2 ^ 32 ∧ t0 < 2 ^ 64 then some (toLE 4 seq ++ toLE 8 t0) else none

/-- `struct.unpack_from("<IQ", blob, 0)`, of at least twelve bytes. -/
def unpackHeader (blob : List UInt8) : ℕ × ℕ :=
  (ofLE (blob.take 4), ofLE ((blob.drop 4).take 8))

/-- Sequence number that `on_pong` reads (`pingpong.py:724–727`); shorter messages are
discarded. -/
def chainASeqOf (message : RosMsg) : Option ℕ :=
  let blob := chainAUnpack message
  if blob.length < 12 then none else some (unpackHeader blob).1

/-- The first number of a packed header is read back. -/
theorem unpackHeader_fst {seq t0 : ℕ} {header : List UInt8} (h : packHeader seq t0 = some header)
    (pad : List UInt8) : 12 ≤ (header ++ pad).length ∧ (unpackHeader (header ++ pad)).1 = seq := by
  simp only [packHeader] at h
  split at h
  · next hfit =>
    cases h
    have htake : (toLE 4 seq ++ toLE 8 t0 ++ pad).take 4 = toLE 4 seq := by
      rw [List.append_assoc, List.take_left' (length_toLE 4 seq)]
    constructor
    · simp only [List.length_append, length_toLE]
      omega
    · change ofLE ((toLE 4 seq ++ toLE 8 t0 ++ pad).take 4) = seq
      rw [htake, ofLE_toLE (by omega)]
  · contradiction

/-- Chain A (`pingpong.py:722–731,744,759–760`). -/
def chainA (kind : RosMsgKind) (msgSize : ℕ) : Chain RosMsg where
  encode seq t0 :=
    match packHeader seq t0 with
    | none => .raised
    | some header =>
      .sent (chainAPack kind (header ++ (List.range (msgSize - 12)).map UInt8.ofNat))
  seqOf := chainASeqOf
  seqOf_encode seq t0 message h := by
    split at h
    · contradiction
    · next header hheader =>
      cases h
      obtain ⟨hlength, hseq⟩ := unpackHeader_fst hheader
        ((List.range (msgSize - 12)).map UInt8.ofNat)
      simp only [chainASeqOf, chainAUnpack_pack]
      rw [if_neg (by omega), hseq]

end HzjDds.Bench
