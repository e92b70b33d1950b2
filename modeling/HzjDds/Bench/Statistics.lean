import HzjDds.Series.Gaps
import HzjDds.Series.Interpolation
import Mathlib.Data.Rat.Sqrt
import Mathlib.Data.Finset.Max
import Mathlib.Data.List.GetD
import Mathlib.Data.List.MinMax
import Mathlib.Data.List.Sort
import Mathlib.Data.Rat.Floor

/-!
# Statistics of the benchmark

Library `Bench`. Source: `scripts/bench/pingpong.py:33–54,124–220`. Percentiles of samples, and the
jitter of the gaps of a series of timestamps, in rational arithmetic; the square root is that of
`statistics.pstdev`.
-/

namespace HzjDds.Bench

/-! ## Percentiles -/

/-- `int(x)`: towards zero. -/
def truncate (x : ℚ) : ℤ := if 0 ≤ x then ⌊x⌋ else ⌈x⌉

/-- `pct`, of sorted samples. -/
def pct (xs : List ℤ) (p : ℚ) : ℚ :=
  if xs.length = 1 then xs.getD 0 0 / 1000
  else
    let k := ((xs.length : ℚ) - 1) * (p / 100)
    let lo := ⌊k⌋₊
    let hi := min (lo + 1) (xs.length - 1)
    let frac := k - lo
    (xs.getD lo 0 * (1 - frac) + xs.getD hi 0 * frac) / 1000

/-- What `percentiles_us` returns of samples. -/
structure Percentiles where
  p50_us : ℚ
  p95_us : ℚ
  p99_us : ℚ
  min_us : ℚ
  max_us : ℚ
  mean_us : ℚ
  stdev_us : ℚ
  deriving DecidableEq, Repr

section Sqrt

variable (sqrt : ℚ → ℚ)

/-- `statistics.pstdev`. -/
def pstdev (xs : List ℤ) : ℚ :=
  let mean := (xs.sum : ℚ) / xs.length
  sqrt ((xs.map fun x : ℤ ↦ ((x : ℚ) - mean) ^ 2).sum / xs.length)

/-- `percentiles_us`; there are no numbers for no samples. -/
def percentilesUs (samples_ns : List ℤ) : Option Percentiles :=
  if samples_ns = [] then none
  else
    let xs := samples_ns.insertionSort (· ≤ ·)
    some {
      p50_us := pct xs 50
      p95_us := pct xs 95
      p99_us := pct xs 99
      min_us := xs.getD 0 0 / 1000
      max_us := xs.getD (xs.length - 1) 0 / 1000
      mean_us := xs.sum / xs.length / 1000
      stdev_us := if 1 < xs.length then pstdev sqrt xs / 1000 else 0 }

/-! ## Series -/

/-- The numbers that `_interval_series_stats` returns of a series with gaps. -/
structure IntervalValues extends Percentiles where
  jitter_abs_p50_us : ℚ
  jitter_abs_p95_us : ℚ
  jitter_abs_p99_us : ℚ
  jitter_rfc3550_us : ℚ
  deriving DecidableEq, Repr

/-- What `_interval_series_stats` returns; without gaps all its numbers are NaN. -/
structure IntervalStats where
  count : ℕ
  values : Option IntervalValues
  target_us : Option ℚ
  deriving DecidableEq, Repr

/-- `abs_dev_ns`. -/
def absDevNs (gaps_ns : List ℤ) (target_ns : ℚ) : List ℚ :=
  gaps_ns.map fun g : ℤ ↦ |(g : ℚ) - target_ns|

/-- `rfc_us`. -/
def rfcUs (gaps_ns : List ℤ) : ℚ :=
  if 2 ≤ gaps_ns.length then
    Series.runningMean 16 0 ((Series.gaps gaps_ns).map fun d : ℤ ↦ |(d : ℚ)|) / 1000
  else 0

/-- What deviations are measured from: the target, or the median of the gaps. -/
def targetNs (target_interval_ms : ℚ) (stats : Percentiles) : ℚ :=
  if 0 < target_interval_ms then target_interval_ms * 1000000 else stats.p50_us * 1000

/-- The numbers of a series, from the percentiles of its gaps and those of the deviations. -/
def intervalValues (gaps_ns : List ℤ) (stats dev : Percentiles) : IntervalValues :=
  { stats with
    jitter_abs_p50_us := dev.p50_us
    jitter_abs_p95_us := dev.p95_us
    jitter_abs_p99_us := dev.p99_us
    jitter_rfc3550_us := rfcUs gaps_ns }

/-- `_interval_series_stats`. -/
def intervalSeriesStats (timestamps_ns : List ℤ) (target_interval_ms : ℚ) : IntervalStats :=
  let target_us := if 0 < target_interval_ms then some (target_interval_ms * 1000) else none
  if timestamps_ns.length < 2 then { count := 0, values := none, target_us := target_us }
  else
    let gaps_ns := Series.gaps timestamps_ns
    { count := gaps_ns.length
      values := do
        let stats ← percentilesUs sqrt gaps_ns
        let dev ← percentilesUs sqrt
          ((absDevNs gaps_ns (targetNs target_interval_ms stats)).map truncate)
        some (intervalValues gaps_ns stats dev)
      target_us := target_us }

/-- What `_jitter_fields` returns. -/
structure JitterFields where
  primary_metric : String := "jitter"
  rtt_jitter_p95_minus_p50_us : Option ℚ
  rtt_jitter_p99_minus_p50_us : Option ℚ
  rtt_stdev_us : Option ℚ
  pub_interval : IntervalStats
  arrival_interval : IntervalStats
  deriving DecidableEq, Repr

/-- `_jitter_fields`. -/
def jitterFields (rtt_ns pub_ns arrival_ns : List ℤ) (interval_ms : ℚ) : JitterFields :=
  let rtt := percentilesUs sqrt rtt_ns
  { rtt_jitter_p95_minus_p50_us := rtt.map fun rtt ↦ rtt.p95_us - rtt.p50_us
    rtt_jitter_p99_minus_p50_us := rtt.map fun rtt ↦ rtt.p99_us - rtt.p50_us
    rtt_stdev_us := rtt.map Percentiles.stdev_us
    pub_interval := intervalSeriesStats sqrt pub_ns interval_ms
    arrival_interval := intervalSeriesStats sqrt arrival_ns interval_ms }

end Sqrt

/-! ## Laws of the percentiles -/

/-- Entry of sorted samples; behind the last one it stays. -/
def entry (xs : List ℤ) (n : ℕ) : ℚ := xs.getD (min n (xs.length - 1)) 0

private theorem entry_mem {xs : List ℤ} (hxs : xs ≠ []) (n : ℕ) : ∃ x ∈ xs, entry xs n = x := by
  have hlength : 0 < xs.length := List.length_pos_iff.mpr hxs
  have hn : min n (xs.length - 1) < xs.length := by omega
  refine ⟨xs[min n (xs.length - 1)], List.getElem_mem hn, ?_⟩
  rw [entry, List.getD_eq_getElem xs 0 hn]

private theorem entry_mono {xs : List ℤ} (hxs : xs ≠ []) (hsorted : xs.Pairwise (· ≤ ·)) :
    Monotone (entry xs) := by
  intro n m hnm
  have hlength : 0 < xs.length := List.length_pos_iff.mpr hxs
  have hn : min n (xs.length - 1) < xs.length := by omega
  have hm : min m (xs.length - 1) < xs.length := by omega
  have hle : min n (xs.length - 1) ≤ min m (xs.length - 1) := by omega
  rw [entry, entry, List.getD_eq_getElem xs 0 hn, List.getD_eq_getElem xs 0 hm, Int.cast_le]
  rcases hle.eq_or_lt with hsame | hless
  · simp only [hsame, le_refl]
  · exact List.pairwise_iff_getElem.mp hsorted _ _ hn hm hless

/-- The position of a percentile. -/
def position (xs : List ℤ) (p : ℚ) : ℚ := ((xs.length : ℚ) - 1) * (p / 100)

/-- Samples leave room for positions. -/
theorem one_le_length {xs : List ℤ} (hxs : xs ≠ []) : (1 : ℚ) ≤ xs.length := by
  exact_mod_cast List.length_pos_iff.mpr hxs

/-- Positions are not negative. -/
theorem position_nonneg {xs : List ℤ} (hxs : xs ≠ []) {p : ℚ} (hp : 0 ≤ p) : 0 ≤ position xs p :=
  mul_nonneg (sub_nonneg.mpr (one_le_length hxs)) (by positivity)

private theorem position_mono {xs : List ℤ} (hxs : xs ≠ []) {p q : ℚ} (hpq : p ≤ q) :
    position xs p ≤ position xs q :=
  mul_le_mul_of_nonneg_left (by linarith) (sub_nonneg.mpr (one_le_length hxs))

/-- The index below a position is one of the samples. -/
theorem floor_position {xs : List ℤ} (hxs : xs ≠ []) {p : ℚ} (hp : p ≤ 100) :
    ⌊position xs p⌋₊ ≤ xs.length - 1 := by
  have hlast : position xs p ≤ (xs.length - 1 : ℕ) := by
    have htop := position_mono hxs hp
    rw [Nat.cast_sub (List.length_pos_iff.mpr hxs)]
    simpa [position] using htop
  exact Nat.floor_le_of_le hlast

/-- A percentile is interpolated between the entries. -/
theorem pct_eq {xs : List ℤ} (hxs : xs ≠ []) {p : ℚ} (hp : p ≤ 100) :
    pct xs p = Series.interpolate (entry xs) (position xs p) / 1000 := by
  unfold pct
  split
  · next hone =>
    have hzero : position xs p = 0 := by simp [position, hone]
    rw [hzero]
    simp [Series.interpolate, entry]
  · have hfloor := floor_position hxs hp
    have hlow : entry xs ⌊position xs p⌋₊ = xs.getD ⌊position xs p⌋₊ 0 := by
      rw [entry, min_eq_left hfloor]
    rw [Series.interpolate, hlow]
    rfl

private theorem pct_mono {xs : List ℤ} (hxs : xs ≠ []) (hsorted : xs.Pairwise (· ≤ ·)) {p q : ℚ}
    (hp : 0 ≤ p) (hpq : p ≤ q) (hq : q ≤ 100) : pct xs p ≤ pct xs q := by
  rw [pct_eq hxs (hpq.trans hq), pct_eq hxs hq]
  have hmono := Series.interpolate_mono (entry_mono hxs hsorted) (position_nonneg hxs hp)
    (position_mono hxs hpq)
  linarith

private theorem pct_bounds {xs : List ℤ} (hxs : xs ≠ []) (hsorted : xs.Pairwise (· ≤ ·)) {low high : ℤ}
    (hbounds : ∀ x ∈ xs, low ≤ x ∧ x ≤ high) {p : ℚ} (hp : 0 ≤ p) (hle : p ≤ 100) :
    (low : ℚ) / 1000 ≤ pct xs p ∧ pct xs p ≤ high / 1000 := by
  have hentry : ∀ n, (low : ℚ) ≤ entry xs n ∧ entry xs n ≤ high := by
    intro n
    obtain ⟨x, hx, heq⟩ := entry_mem hxs n
    rw [heq]
    exact_mod_cast hbounds x hx
  have hvalue := Series.interpolate_bounds (entry_mono hxs hsorted) (position_nonneg hxs hp)
    (fun n ↦ (hentry n).1) (fun n ↦ (hentry n).2)
  rw [pct_eq hxs hle]
  exact ⟨by linarith [hvalue.1], by linarith [hvalue.2]⟩

/-! ## Laws of what is reported -/

section Laws

variable (sqrt : ℚ → ℚ)

/-- What the percentiles of samples say about them. -/
structure PercentileLaws (samples_ns : List ℤ) (stats : Percentiles) : Prop where
  ordered : stats.p50_us ≤ stats.p95_us ∧ stats.p95_us ≤ stats.p99_us
  bounded : ∀ low high : ℤ, (∀ x ∈ samples_ns, low ≤ x ∧ x ≤ high) →
    (low : ℚ) / 1000 ≤ stats.p50_us ∧ stats.p99_us ≤ high / 1000
  mean : stats.mean_us * samples_ns.length * 1000 = samples_ns.sum
  least : ∃ x ∈ samples_ns, stats.min_us = x / 1000 ∧ ∀ y ∈ samples_ns, x ≤ y

/-- Sorting keeps the samples and puts them in order. -/
theorem insertionSort_laws {samples_ns : List ℤ} (hne : samples_ns ≠ []) :
    samples_ns.insertionSort (· ≤ ·) ≠ [] ∧
    (samples_ns.insertionSort (· ≤ ·)).Pairwise (· ≤ ·) ∧
    ∀ x, x ∈ samples_ns.insertionSort (· ≤ ·) ↔ x ∈ samples_ns := by
  refine ⟨?_, List.sortedLE_insertionSort.pairwise, fun x ↦ List.mem_insertionSort _⟩
  intro hnil
  have hlength := (List.perm_insertionSort (· ≤ ·) samples_ns).length_eq
  rw [hnil] at hlength
  exact hne (List.length_eq_zero_iff.mp hlength.symm)

/-- There are percentiles of samples, and they obey their laws. -/
theorem percentilesUs_laws {samples_ns : List ℤ} (hne : samples_ns ≠ []) :
    ∃ stats, percentilesUs sqrt samples_ns = some stats ∧ PercentileLaws samples_ns stats := by
  obtain ⟨hsortNe, hsorted, hmem⟩ := insertionSort_laws hne
  have hperm := List.perm_insertionSort (· ≤ ·) samples_ns
  refine ⟨_, if_neg hne, ?_⟩
  constructor
  case ordered =>
    exact ⟨pct_mono hsortNe hsorted (by norm_num) (by norm_num) (by norm_num),
      pct_mono hsortNe hsorted (by norm_num) (by norm_num) (by norm_num)⟩
  case bounded =>
    intro low high hbounds
    have hsort : ∀ x ∈ samples_ns.insertionSort (· ≤ ·), low ≤ x ∧ x ≤ high :=
      fun x hx ↦ hbounds x ((hmem x).mp hx)
    exact ⟨(pct_bounds hsortNe hsorted hsort (by norm_num) (by norm_num)).1,
      (pct_bounds hsortNe hsorted hsort (by norm_num) (by norm_num)).2⟩
  case mean =>
    have hlength : (samples_ns.length : ℚ) ≠ 0 := by
      exact_mod_cast (List.length_pos_iff.mpr hne).ne'
    simp only [hperm.sum_eq, hperm.length_eq]
    field_simp
  case least =>
    have hpos : 0 < (samples_ns.insertionSort (· ≤ ·)).length := List.length_pos_iff.mpr hsortNe
    refine ⟨(samples_ns.insertionSort (· ≤ ·))[0], (hmem _).mp (List.getElem_mem hpos), ?_, ?_⟩
    · simp only [List.getD_eq_getElem _ 0 hpos]
    · intro y hy
      obtain ⟨n, hn, rfl⟩ := List.getElem_of_mem ((hmem y).mpr hy)
      rcases Nat.eq_zero_or_pos n with rfl | hn0
      · exact le_refl _
      · exact List.pairwise_iff_getElem.mp hsorted 0 n hpos hn hn0

private theorem gaps_ne_nil {timestamps_ns : List ℤ} (hlength : 2 ≤ timestamps_ns.length) :
    Series.gaps timestamps_ns ≠ [] := by
  rw [← List.length_pos_iff, Series.length_gaps]
  omega

private theorem intervalSeriesStats_eq {timestamps_ns : List ℤ} (hlength : 2 ≤ timestamps_ns.length)
    (target_interval_ms : ℚ) :
    ∃ stats dev,
      PercentileLaws (Series.gaps timestamps_ns) stats ∧
      PercentileLaws ((absDevNs (Series.gaps timestamps_ns)
        (targetNs target_interval_ms stats)).map truncate) dev ∧
      (intervalSeriesStats sqrt timestamps_ns target_interval_ms).values =
        some (intervalValues (Series.gaps timestamps_ns) stats dev) := by
  have hgaps := gaps_ne_nil hlength
  obtain ⟨stats, hstats, hlaws⟩ := percentilesUs_laws sqrt hgaps
  have hdev : (absDevNs (Series.gaps timestamps_ns)
      (targetNs target_interval_ms stats)).map truncate ≠ [] := by
    rwa [absDevNs, ne_eq, List.map_eq_nil_iff, List.map_eq_nil_iff]
  obtain ⟨dev, hdevs, hdevLaws⟩ := percentilesUs_laws sqrt hdev
  refine ⟨stats, dev, hlaws, hdevLaws, ?_⟩
  simp only [intervalSeriesStats, if_neg (Nat.not_lt.mpr hlength), hstats, Option.bind_eq_bind,
    Option.bind_some, hdevs]

/-- The least gap that is reported is one of the gaps. -/
theorem min_of_values {sqrt : ℚ → ℚ} {timestamps_ns : List ℤ} {target_interval_ms : ℚ}
    {values : IntervalValues}
    (hvalues : (intervalSeriesStats sqrt timestamps_ns target_interval_ms).values = some values) :
    ∃ gap ∈ Series.gaps timestamps_ns, values.min_us = gap / 1000 := by
  by_cases hlength : 2 ≤ timestamps_ns.length
  · obtain ⟨stats, dev, hstats, _, hreported⟩ :=
      intervalSeriesStats_eq sqrt hlength target_interval_ms
    rw [hreported] at hvalues
    cases hvalues
    obtain ⟨gap, hgap, hleast, _⟩ := hstats.least
    exact ⟨gap, hgap, hleast⟩
  · rw [intervalSeriesStats, if_pos (Nat.not_le.mp hlength)] at hvalues
    contradiction

private theorem intervalSeriesStats_count {timestamps_ns : List ℤ} (hlength : 2 ≤ timestamps_ns.length)
    (target_interval_ms : ℚ) :
    (intervalSeriesStats sqrt timestamps_ns target_interval_ms).count =
      (Series.gaps timestamps_ns).length := by
  simp only [intervalSeriesStats, if_neg (Nat.not_lt.mpr hlength)]

private theorem intervalSeriesStats_shift (timestamps_ns : List ℤ) (target_interval_ms : ℚ) (c : ℤ) :
    intervalSeriesStats sqrt (timestamps_ns.map (· + c)) target_interval_ms =
      intervalSeriesStats sqrt timestamps_ns target_interval_ms := by
  simp only [intervalSeriesStats, List.length_map, Series.gaps_map_add]

/-! ## The running mean of the differences -/

/-- Absolute differences of consecutive gaps. -/
def absDiffs (gaps_ns : List ℤ) : List ℤ := (Series.gaps gaps_ns).map fun d : ℤ ↦ |d|

private theorem rfcUs_eq (gaps_ns : List ℤ) :
    rfcUs gaps_ns = Series.runningMean 16 0 ((absDiffs gaps_ns).map Int.cast) / 1000 := by
  have hcast : (absDiffs gaps_ns).map (Int.cast : ℤ → ℚ) =
      (Series.gaps gaps_ns).map fun d : ℤ ↦ |(d : ℚ)| := by
    simp [absDiffs, Function.comp_def]
  rw [hcast, rfcUs]
  split
  · rfl
  · next hshort =>
    have hnil : Series.gaps gaps_ns = [] := by
      rw [← List.length_eq_zero_iff, Series.length_gaps]
      omega
    simp [hnil, Series.runningMean]

private theorem absDiffs_bounds (gaps_ns : List ℤ) :
    ∀ d ∈ (absDiffs gaps_ns).map (Int.cast : ℤ → ℚ),
      0 ≤ d ∧ d ≤ ((absDiffs gaps_ns).foldr max 0 : ℤ) := by
  intro d hd
  obtain ⟨diff, hdiff, rfl⟩ := List.mem_map.mp hd
  obtain ⟨gap, _, rfl⟩ := List.mem_map.mp hdiff
  exact ⟨by exact_mod_cast abs_nonneg gap, by exact_mod_cast List.le_max_of_le' 0 hdiff le_rfl⟩

private theorem zero_le_foldr_max (diffs : List ℤ) : 0 ≤ diffs.foldr max 0 := by
  induction diffs with
  | nil => exact le_refl 0
  | cons d diffs ih => exact le_max_of_le_right ih

private theorem rfcUs_bounds (gaps_ns : List ℤ) :
    0 ≤ rfcUs gaps_ns ∧ rfcUs gaps_ns * 1000 ≤ ((absDiffs gaps_ns).foldr max 0 : ℤ) := by
  have hlargest : (0 : ℚ) ≤ ((absDiffs gaps_ns).foldr max 0 : ℤ) := by
    exact_mod_cast zero_le_foldr_max (absDiffs gaps_ns)
  have hmean := Series.runningMean_mem (n := 16) (by norm_num) _ (absDiffs_bounds gaps_ns)
    ⟨le_refl 0, hlargest⟩
  rw [rfcUs_eq]
  constructor
  · linarith [hmean.1]
  · linarith [hmean.2]

private theorem rfcUs_eq_zero_iff (gaps_ns : List ℤ) :
    rfcUs gaps_ns = 0 ↔ ∀ g ∈ gaps_ns, ∀ h ∈ gaps_ns, g = h := by
  have hmean := Series.runningMean_eq_zero_iff (n := 16) (by norm_num) _
    fun d hd ↦ (absDiffs_bounds gaps_ns d hd).1
  rw [rfcUs_eq, div_eq_zero_iff, or_iff_left (by norm_num), hmean,
    ← Series.forall_gaps_eq_zero_iff]
  simp [absDiffs]

/-! ## Deviations from the target -/

private theorem truncate_mono {x y : ℚ} (hx : 0 ≤ x) (hxy : x ≤ y) : truncate x ≤ truncate y := by
  rw [truncate, truncate, if_pos hx, if_pos (hx.trans hxy)]
  exact Int.floor_mono hxy

private theorem truncate_eq_zero {x : ℚ} (hx : 0 ≤ x) (hlt : x < 1) : truncate x = 0 := by
  rw [truncate, if_pos hx, Int.floor_eq_zero_iff]
  exact ⟨hx, hlt⟩

private theorem exists_extremes {xs : List ℚ} (hxs : xs ≠ []) :
    ∃ low ∈ xs, ∃ high ∈ xs, ∀ x ∈ xs, low ≤ x ∧ x ≤ high := by
  obtain ⟨first, hfirst⟩ := List.exists_mem_of_ne_nil xs hxs
  have hne : xs.toFinset.Nonempty := ⟨first, List.mem_toFinset.mpr hfirst⟩
  obtain ⟨low, hlow, hleast⟩ := xs.toFinset.exists_min_image id hne
  obtain ⟨high, hhigh, hmost⟩ := xs.toFinset.exists_max_image id hne
  refine ⟨low, List.mem_toFinset.mp hlow, high, List.mem_toFinset.mp hhigh, ?_⟩
  intro x hx
  exact ⟨hleast x (List.mem_toFinset.mpr hx), hmost x (List.mem_toFinset.mpr hx)⟩

/-- What the statistics of a series say about it; `target_ns` is the target in nanoseconds. -/
structure IntervalLaws (timestamps_ns : List ℤ) (target_interval_ms : ℚ)
    (values : IntervalValues) : Prop where
  reported : (intervalSeriesStats sqrt timestamps_ns target_interval_ms).values = some values
  count : (intervalSeriesStats sqrt timestamps_ns target_interval_ms).count + 1 =
    timestamps_ns.length
  mean : ∀ first ∈ timestamps_ns.head?, ∀ last ∈ timestamps_ns.getLast?,
    values.mean_us * (intervalSeriesStats sqrt timestamps_ns target_interval_ms).count * 1000 =
      last - first
  shift : ∀ c, intervalSeriesStats sqrt (timestamps_ns.map (· + c)) target_interval_ms =
    intervalSeriesStats sqrt timestamps_ns target_interval_ms
  rfcNonneg : 0 ≤ values.jitter_rfc3550_us
  rfcLargest : values.jitter_rfc3550_us * 1000 ≤
    ((absDiffs (Series.gaps timestamps_ns)).foldr max 0 : ℤ)
  rfcZero : values.jitter_rfc3550_us = 0 ↔
    ∀ g ∈ Series.gaps timestamps_ns, ∀ h ∈ Series.gaps timestamps_ns, g = h
  jitterOrdered : 0 < target_interval_ms →
    values.jitter_abs_p50_us ≤ values.jitter_abs_p95_us ∧
    values.jitter_abs_p95_us ≤ values.jitter_abs_p99_us
  jitterBounded : 0 < target_interval_ms →
    ∃ low ∈ absDevNs (Series.gaps timestamps_ns) (target_interval_ms * 1000000),
      ∃ high ∈ absDevNs (Series.gaps timestamps_ns) (target_interval_ms * 1000000),
        (∀ d ∈ absDevNs (Series.gaps timestamps_ns) (target_interval_ms * 1000000),
          low ≤ d ∧ d ≤ high) ∧
        (truncate low : ℚ) / 1000 ≤ values.jitter_abs_p50_us ∧
        values.jitter_abs_p99_us ≤ truncate high / 1000
  jitterZero : 0 < target_interval_ms →
    (∀ g ∈ Series.gaps timestamps_ns, |(g : ℚ) - target_interval_ms * 1000000| < 1) →
      values.jitter_abs_p50_us = 0 ∧ values.jitter_abs_p95_us = 0 ∧ values.jitter_abs_p99_us = 0

private theorem absDevNs_nonneg (gaps_ns : List ℤ) (target_ns : ℚ) :
    ∀ d ∈ absDevNs gaps_ns target_ns, 0 ≤ d := by
  intro d hd
  obtain ⟨g, _, rfl⟩ := List.mem_map.mp hd
  exact abs_nonneg _

private theorem dev_bounded {gaps_ns : List ℤ} (hne : gaps_ns ≠ []) {target_ns : ℚ} {dev : Percentiles}
    (hdev : PercentileLaws ((absDevNs gaps_ns target_ns).map truncate) dev) :
    ∃ low ∈ absDevNs gaps_ns target_ns, ∃ high ∈ absDevNs gaps_ns target_ns,
      (∀ d ∈ absDevNs gaps_ns target_ns, low ≤ d ∧ d ≤ high) ∧
      (truncate low : ℚ) / 1000 ≤ dev.p50_us ∧ dev.p99_us ≤ truncate high / 1000 := by
  have hdevNe : absDevNs gaps_ns target_ns ≠ [] := by rwa [absDevNs, ne_eq, List.map_eq_nil_iff]
  obtain ⟨low, hlow, high, hhigh, hall⟩ := exists_extremes hdevNe
  refine ⟨low, hlow, high, hhigh, hall, hdev.bounded _ _ ?_⟩
  intro x hx
  obtain ⟨d, hd, rfl⟩ := List.mem_map.mp hx
  exact ⟨truncate_mono (absDevNs_nonneg _ _ low hlow) (hall d hd).1,
    truncate_mono (absDevNs_nonneg _ _ d hd) (hall d hd).2⟩

private theorem dev_zero {gaps_ns : List ℤ} {target_ns : ℚ} {dev : Percentiles}
    (hdev : PercentileLaws ((absDevNs gaps_ns target_ns).map truncate) dev)
    (hclose : ∀ g ∈ gaps_ns, |(g : ℚ) - target_ns| < 1) :
    dev.p50_us = 0 ∧ dev.p95_us = 0 ∧ dev.p99_us = 0 := by
  have hzero := hdev.bounded 0 0 (by
    intro x hx
    obtain ⟨d, hd, rfl⟩ := List.mem_map.mp hx
    obtain ⟨g, hg, rfl⟩ := List.mem_map.mp hd
    rw [truncate_eq_zero (abs_nonneg _) (hclose g hg)]
    exact ⟨le_rfl, le_rfl⟩)
  obtain ⟨hfirst, hsecond⟩ := hdev.ordered
  simp only [Int.cast_zero, zero_div] at hzero
  refine ⟨?_, ?_, ?_⟩ <;> linarith [hzero.1, hzero.2]

/-- The statistics of every series of two timestamps or more obey their laws. -/
theorem intervalSeriesStats_laws (timestamps_ns : List ℤ) (hlength : 2 ≤ timestamps_ns.length)
    (target_interval_ms : ℚ) :
    ∃ values, IntervalLaws sqrt timestamps_ns target_interval_ms values := by
  obtain ⟨stats, dev, hstats, hdev, hvalues⟩ :=
    intervalSeriesStats_eq sqrt hlength target_interval_ms
  have hcount := intervalSeriesStats_count sqrt hlength target_interval_ms
  have htarget : 0 < target_interval_ms →
      targetNs target_interval_ms stats = target_interval_ms * 1000000 := fun hpos ↦ if_pos hpos
  refine ⟨intervalValues (Series.gaps timestamps_ns) stats dev, ?_⟩
  constructor
  case reported => exact hvalues
  case count =>
    rw [hcount, Series.length_gaps]
    omega
  case mean =>
    intro first hfirst last hlast
    obtain ⟨rest, rfl⟩ := List.head?_eq_some_iff.mp hfirst
    have hmean := hstats.mean
    rw [Series.sum_gaps] at hmean
    rw [hcount, ← Int.cast_sub]
    rw [List.getLast?_eq_some_getLast (List.cons_ne_nil first rest)] at hlast
    cases hlast
    exact hmean
  case shift => exact intervalSeriesStats_shift sqrt timestamps_ns target_interval_ms
  case rfcNonneg => exact (rfcUs_bounds _).1
  case rfcLargest => exact (rfcUs_bounds _).2
  case rfcZero => exact rfcUs_eq_zero_iff _
  case jitterOrdered =>
    intro _
    exact hdev.ordered
  case jitterBounded =>
    intro hpos
    rw [htarget hpos] at hdev
    exact dev_bounded (gaps_ne_nil hlength) hdev
  case jitterZero =>
    intro hpos hclose
    rw [htarget hpos] at hdev
    exact dev_zero hdev hclose

/-- `intervalSeriesStats_laws` for gaps whose standard deviation is a whole number of microseconds. -/
theorem intervalSeriesStats_laws_three :
    ∃ values, IntervalLaws Rat.sqrt [1000, 4998000, 10001000] 5 values ∧
      values.stdev_us = 3 := by
  obtain ⟨values, hlaws⟩ :=
    intervalSeriesStats_laws Rat.sqrt [1000, 4998000, 10001000] (by decide) 5
  refine ⟨values, hlaws, ?_⟩
  have hstdev : (intervalSeriesStats Rat.sqrt [1000, 4998000, 10001000] 5).values.map
      (·.stdev_us) = some 3 := by decide +kernel
  rw [hlaws.reported] at hstdev
  exact Option.some_inj.mp hstdev

end Laws

end HzjDds.Bench
