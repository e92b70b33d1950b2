import HzjDds.Python.Raises
import Mathlib.Algebra.BigOperators.Group.List.Basic
import Mathlib.Data.Nat.Sqrt
import Mathlib.Tactic.Ring

/-!
# Images of the benchmark payloads

Library `Bench`. Source: `dimos/protocol/pubsub/benchmark/testdata.py:40–64`. A number of bytes is
laid out as an RGB image that is nearly square. The square root is that of the whole numbers; `Image`
is a parameter.
-/

namespace HzjDds.Bench

open Python

/-! ## Arrays -/

/-- An array of NumPy: a shape, and as many bytes as it has places. -/
structure NdArray where
  shape : List ℕ
  data : List UInt8
  size_eq : data.length = shape.prod

namespace NdArray

/-- `np.frombuffer`. -/
def frombuffer (data : List UInt8) : NdArray := ⟨[data.length], data, (List.prod_singleton).symm⟩

/-- `reshape`. -/
def reshape (a : NdArray) (shape : List ℕ) : Call NdArray :=
  if h : a.data.length = shape.prod then .ok ⟨shape, a.data, h⟩
  else .error (.other "cannot reshape array")

end NdArray

/-! ## Payloads -/

/-- `make_data_bytes`. -/
def makeDataBytes (size : ℕ) : List UInt8 := (List.range size).map fun i ↦ .ofNat (i % 256)

/-- What `_rgb_image_geometry` returns. -/
structure Geometry where
  height : ℕ
  width : ℕ
  data : List UInt8
  deriving DecidableEq, Repr

/-- `_rgb_image_geometry`. -/
def rgbImageGeometry (size : ℕ) : Geometry :=
  let raw_data := makeDataBytes size
  let padded_size := (raw_data.length + 2) / 3 * 3
  let padded_data := raw_data ++ List.replicate (padded_size - raw_data.length) 0
  let pixels := padded_data.length / 3
  let height := max 1 (Nat.sqrt pixels)
  let width := pixels / height
  { height, width, data := padded_data.take (height * width * 3) }

/-- `make_data_image`; `image` makes an `Image` of the format RGB. -/
def makeDataImage {I : Type} (image : NdArray → I) (size : ℕ) : Call I := do
  let geometry := rgbImageGeometry size
  let data ← (NdArray.frombuffer geometry.data).reshape [geometry.height, geometry.width, 3]
  return image data

/-! ## Near-square layouts -/

private theorem one_le_sqrt {pixels : ℕ} (hpixels : 1 ≤ pixels) : 1 ≤ Nat.sqrt pixels :=
  Nat.sqrt_pos.mpr hpixels

private theorem div_sqrt_bounds {pixels : ℕ} (hpixels : 1 ≤ pixels) :
    Nat.sqrt pixels ≤ pixels / Nat.sqrt pixels ∧
      pixels / Nat.sqrt pixels ≤ Nat.sqrt pixels + 2 := by
  have hside := one_le_sqrt hpixels
  constructor
  · rw [Nat.le_div_iff_mul_le hside]
    exact Nat.sqrt_le pixels
  · apply Nat.le_of_lt_succ
    rw [Nat.div_lt_iff_lt_mul hside]
    have hupper := Nat.sqrt_le_add pixels
    calc pixels ≤ Nat.sqrt pixels * Nat.sqrt pixels + Nat.sqrt pixels + Nat.sqrt pixels := hupper
      _ < (Nat.sqrt pixels + 2 + 1) * Nat.sqrt pixels := by
        rw [Nat.add_mul, Nat.add_mul]
        omega

private theorem sqrt_mul_div {pixels : ℕ} (hpixels : 1 ≤ pixels) :
    Nat.sqrt pixels * (pixels / Nat.sqrt pixels) ≤ pixels ∧
      pixels < Nat.sqrt pixels * (pixels / Nat.sqrt pixels) + Nat.sqrt pixels := by
  have hrest := Nat.mod_lt pixels (one_le_sqrt hpixels)
  have hsplit := Nat.div_add_mod pixels (Nat.sqrt pixels)
  omega

/-! ## Laws of the geometry -/

private theorem length_makeDataBytes (size : ℕ) : (makeDataBytes size).length = size := by
  rw [makeDataBytes, List.length_map, List.length_range]

/-- The bytes of a size, with zeros up to whole pixels. -/
def paddedBytes (size : ℕ) : List UInt8 :=
  makeDataBytes size ++ List.replicate ((size + 2) / 3 * 3 - size) 0

private theorem length_paddedBytes (size : ℕ) : (paddedBytes size).length = (size + 2) / 3 * 3 := by
  rw [paddedBytes, List.length_append, length_makeDataBytes, List.length_replicate]
  omega

private theorem rgbImageGeometry_eq {size : ℕ} (hsize : 1 ≤ size) :
    rgbImageGeometry size =
      { height := Nat.sqrt ((size + 2) / 3)
        width := (size + 2) / 3 / Nat.sqrt ((size + 2) / 3)
        data := (paddedBytes size).take
          (Nat.sqrt ((size + 2) / 3) * ((size + 2) / 3 / Nat.sqrt ((size + 2) / 3)) * 3) } := by
  have hheight : max 1 (Nat.sqrt ((size + 2) / 3)) = Nat.sqrt ((size + 2) / 3) :=
    max_eq_right (one_le_sqrt (by omega))
  have hpixels : (paddedBytes size).length / 3 = (size + 2) / 3 := by
    rw [length_paddedBytes, Nat.mul_div_cancel _ (by omega)]
  have hpadded : makeDataBytes size ++
      List.replicate (((makeDataBytes size).length + 2) / 3 * 3 - (makeDataBytes size).length) 0 =
        paddedBytes size := by
    rw [length_makeDataBytes, paddedBytes]
  simp only [rgbImageGeometry, hpadded, hpixels, hheight]

/-- A size rounded up to a multiple of three. -/
structure RoundedUp (size padded : ℕ) : Prop where
  whole : 3 ∣ padded
  room : size ≤ padded
  least : padded < size + 3

/-- What the geometry of a size says, with the size rounded up to whole pixels. -/
structure GeometryLaws (size padded : ℕ) (geometry : Geometry) : Prop where
  rounded : RoundedUp size padded
  height : 1 ≤ geometry.height
  nearSquare : geometry.height ≤ geometry.width ∧ geometry.width ≤ geometry.height + 2
  length : geometry.data.length = 3 * geometry.height * geometry.width
  fits : geometry.data.length ≤ padded
  cut : padded - geometry.data.length < 3 * geometry.height
  isPrefix : geometry.data <+: makeDataBytes size ++ List.replicate (padded - size) 0
  bytes : geometry.data = (makeDataBytes size).take geometry.data.length ++
    List.replicate (geometry.data.length - size) 0
  image : ∃ a : NdArray, a.shape = [geometry.height, geometry.width, 3] ∧
    a.data = geometry.data ∧
    ∀ {I : Type} (image : NdArray → I), makeDataImage image size = .ok (image a)

private theorem take_paddedBytes {size n : ℕ} (hn : n ≤ (size + 2) / 3 * 3) :
    (paddedBytes size).take n =
      (makeDataBytes size).take n ++ List.replicate (n - size) 0 := by
  rw [paddedBytes, List.take_append, length_makeDataBytes, List.take_replicate]
  congr 2
  omega

private theorem reshape_frombuffer {data : List UInt8} {shape : List ℕ} (h : data.length = shape.prod) :
    (NdArray.frombuffer data).reshape shape = .ok ⟨shape, data, h⟩ := by
  have hdata : (NdArray.frombuffer data).data.length = shape.prod := h
  rw [NdArray.reshape, dif_pos hdata]
  rfl

/-- The geometry of every size of at least one byte obeys its laws. -/
theorem rgbImageGeometry_laws (size : ℕ) (hsize : 1 ≤ size) :
    ∃ padded, GeometryLaws size padded (rgbImageGeometry size) := by
  have hpixels : 1 ≤ (size + 2) / 3 := by omega
  obtain ⟨hused, hrest⟩ := sqrt_mul_div hpixels
  have hgeometry := rgbImageGeometry_eq hsize
  generalize hheight : Nat.sqrt ((size + 2) / 3) = height at *
  generalize hwidth : (size + 2) / 3 / height = width at *
  have hlength : (rgbImageGeometry size).data.length = height * width * 3 := by
    rw [hgeometry, List.length_take, length_paddedBytes, min_eq_left (by omega)]
  refine ⟨(size + 2) / 3 * 3, ?_⟩
  constructor
  case rounded => exact ⟨Nat.dvd_mul_left 3 _, by omega, by omega⟩
  case height =>
    rw [hgeometry, ← hheight]
    exact one_le_sqrt hpixels
  case nearSquare =>
    rw [hgeometry, ← hwidth, ← hheight]
    exact div_sqrt_bounds hpixels
  case length =>
    rw [hlength, hgeometry]
    ring
  case fits =>
    rw [hlength]
    omega
  case cut =>
    rw [hlength, hgeometry]
    dsimp only
    omega
  case isPrefix =>
    rw [hgeometry]
    exact List.take_prefix _ _
  case bytes =>
    rw [hlength, hgeometry]
    exact take_paddedBytes (by omega)
  case image =>
    have hshape : (rgbImageGeometry size).data.length =
        [(rgbImageGeometry size).height, (rgbImageGeometry size).width, 3].prod := by
      rw [hlength, hgeometry]
      simp only [List.prod_cons, List.prod_nil]
      ring
    refine ⟨⟨_, _, hshape⟩, rfl, rfl, fun {I} image ↦ ?_⟩
    rw [makeDataImage, reshape_frombuffer hshape]
    rfl

/-- Two bytes of the last pixel of ten bytes are zeros, and one pixel is cut. -/
theorem rgbImageGeometry_laws_ten : ∃ padded, GeometryLaws 10 padded (rgbImageGeometry 10) :=
  rgbImageGeometry_laws 10 (by decide)

end HzjDds.Bench
