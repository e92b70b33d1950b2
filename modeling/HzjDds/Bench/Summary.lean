import HzjDds.Bench.Statistics
import HzjDds.Python.Indexing

/-!
# The percentile summary

Library `Bench`. Source: `scripts/bench/pingpong.py:33–54`. What `percentiles_us` says about samples
of either sign, in rational arithmetic: its indices, and what becomes of it when the samples are
rearranged, shifted or scaled.
-/

namespace HzjDds.Bench

open Python

/-! ## Indices -/

/-- `lo`. -/
def lowIndex (xs : List ℤ) (p : ℚ) : ℤ := truncate (position xs p)

/-- `hi`. -/
def highIndex (xs : List ℤ) (p : ℚ) : ℤ := min (lowIndex xs p + 1) ((xs.length : ℤ) - 1)

/-- `pct` with its indexing, which raises outside of the samples. -/
def pctIndexed (xs : List ℤ) (p : ℚ) : Call ℚ :=
  if xs.length = 1 then do
    let x ← getItem xs 0
    return (x : ℚ) / 1000
  else do
    let frac := position xs p - lowIndex xs p
    let low ← getItem xs (lowIndex xs p)
    let high ← getItem xs (highIndex xs p)
    return (low * (1 - frac) + high * frac) / 1000

section Sqrt

variable (sqrt : ℚ → ℚ)

/-- `percentiles_us` with its indexing. -/
def percentilesUsIndexed (samples_ns : List ℤ) : Call (Option Percentiles) :=
  if samples_ns = [] then return none
  else do
    let xs := samples_ns.insertionSort (· ≤ ·)
    let p50_us ← pctIndexed xs 50
    let p95_us ← pctIndexed xs 95
    let p99_us ← pctIndexed xs 99
    let first ← getItem xs 0
    let last ← getItem xs (-1)
    return some {
      p50_us, p95_us, p99_us
      min_us := first / 1000
      max_us := last / 1000
      mean_us := xs.sum / xs.length / 1000
      stdev_us := if 1 < xs.length then pstdev sqrt xs / 1000 else 0 }

end Sqrt

private theorem lowIndex_eq {xs : List ℤ} (hxs : xs ≠ []) {p : ℚ} (hp : 0 ≤ p) :
    lowIndex xs p = (⌊position xs p⌋₊ : ℕ) := by
  have hnonneg := position_nonneg hxs hp
  rw [lowIndex, truncate, if_pos hnonneg]
  exact (Int.natCast_floor_eq_floor hnonneg).symm

private theorem highIndex_eq {xs : List ℤ} (hxs : xs ≠ []) {p : ℚ} (hp : 0 ≤ p) :
    highIndex xs p = (min (⌊position xs p⌋₊ + 1) (xs.length - 1) : ℕ) := by
  have hlength : 0 < xs.length := List.length_pos_iff.mpr hxs
  rw [highIndex, lowIndex_eq hxs hp]
  omega

private theorem indices_inside {xs : List ℤ} (hxs : xs ≠ []) {p : ℚ} (hp : 0 ≤ p) (hle : p ≤ 100) :
    0 ≤ lowIndex xs p ∧ lowIndex xs p ≤ highIndex xs p ∧ highIndex xs p < xs.length := by
  have hlength : 0 < xs.length := List.length_pos_iff.mpr hxs
  have hfloor := floor_position hxs hle
  rw [highIndex_eq hxs hp, lowIndex_eq hxs hp]
  omega

private theorem pctIndexed_eq {xs : List ℤ} (hxs : xs ≠ []) {p : ℚ} (hp : 0 ≤ p) (hle : p ≤ 100) :
    pctIndexed xs p = .ok (pct xs p) := by
  have hlength : 0 < xs.length := List.length_pos_iff.mpr hxs
  unfold pctIndexed pct
  split
  · have hfirst := getItem_natCast hlength
    rw [Nat.cast_zero] at hfirst
    rw [hfirst, List.getD_eq_getElem xs 0 hlength]
    rfl
  · have hfloor := floor_position hxs hle
    have hlow : ⌊position xs p⌋₊ < xs.length := by omega
    have hhigh : min (⌊position xs p⌋₊ + 1) (xs.length - 1) < xs.length := by omega
    rw [highIndex_eq hxs hp, lowIndex_eq hxs hp, getItem_natCast hlow, getItem_natCast hhigh]
    show Except.ok _ = Except.ok _
    rw [← List.getD_eq_getElem xs 0 hlow, ← List.getD_eq_getElem xs 0 hhigh]
    rfl

private theorem percentilesUsIndexed_eq (sqrt : ℚ → ℚ) (samples_ns : List ℤ) :
    percentilesUsIndexed sqrt samples_ns = .ok (percentilesUs sqrt samples_ns) := by
  unfold percentilesUsIndexed percentilesUs
  split
  · rfl
  · next hne =>
    obtain ⟨hsortNe, -, -⟩ := insertionSort_laws hne
    have hlength := List.length_pos_iff.mpr hsortNe
    have hfirst := getItem_natCast hlength
    rw [Nat.cast_zero] at hfirst
    have hlast := getItem_natCast (Nat.sub_one_lt_of_lt hlength)
    have hpct : ∀ p : ℚ, 0 ≤ p → p ≤ 100 → pctIndexed (samples_ns.insertionSort (· ≤ ·)) p =
        .ok (pct (samples_ns.insertionSort (· ≤ ·)) p) := fun p ↦ pctIndexed_eq hsortNe
    dsimp only
    rw [hpct 50 (by norm_num) (by norm_num), hpct 95 (by norm_num) (by norm_num),
      hpct 99 (by norm_num) (by norm_num), getItem_neg_one hsortNe, hfirst, hlast,
      List.getD_eq_getElem _ 0 hlength, List.getD_eq_getElem _ 0 (Nat.sub_one_lt_of_lt hlength)]
    rfl

/-! ## Samples that are rearranged, shifted or scaled -/

private theorem insertionSort_eq_of_perm {xs ys : List ℤ} (h : ys.Perm xs) :
    ys.insertionSort (· ≤ ·) = xs.insertionSort (· ≤ ·) := by
  apply List.Perm.eq_of_sortedLE List.sortedLE_insertionSort List.sortedLE_insertionSort
  exact (List.perm_insertionSort _ ys).trans (h.trans (List.perm_insertionSort _ xs).symm)

private theorem map_insertionSort_of_monotone {f : ℚ → ℚ} (hf : Monotone f) {xs ys : List ℤ}
    (h : ys.map Int.cast = xs.map fun x : ℤ ↦ f x) :
    (ys.insertionSort (· ≤ ·)).map Int.cast =
      (xs.insertionSort (· ≤ ·)).map fun x : ℤ ↦ f x := by
  have hys : ((ys.insertionSort (· ≤ ·)).map (Int.cast : ℤ → ℚ)).SortedLE := by
    apply List.Pairwise.sortedLE
    exact List.sortedLE_insertionSort.pairwise.map _ fun _ _ hle ↦ Int.cast_le.mpr hle
  have hxs : ((xs.insertionSort (· ≤ ·)).map fun x : ℤ ↦ f x).SortedLE := by
    apply List.Pairwise.sortedLE
    exact List.sortedLE_insertionSort.pairwise.map _ fun _ _ hle ↦ hf (Int.cast_le.mpr hle)
  apply List.Perm.eq_of_sortedLE hys hxs
  calc ((ys.insertionSort (· ≤ ·)).map (Int.cast : ℤ → ℚ)).Perm (ys.map Int.cast) :=
        (List.perm_insertionSort _ ys).map _
    _ = xs.map fun x : ℤ ↦ f x := h
    _ |>.Perm ((xs.insertionSort (· ≤ ·)).map fun x : ℤ ↦ f x) :=
        ((List.perm_insertionSort _ xs).map _).symm

private theorem length_eq_of_map {f : ℤ → ℚ} {xs ys : List ℤ} (h : ys.map Int.cast = xs.map f) :
    ys.length = xs.length := by
  simpa using congrArg List.length h

private theorem entry_affine {a c : ℚ} {xs ys : List ℤ} (hxs : xs ≠ [])
    (h : ys.map Int.cast = xs.map fun x : ℤ ↦ a * x + c) :
    entry ys = fun n ↦ a * entry xs n + c := by
  funext n
  have hlength := length_eq_of_map h
  have hpos : 0 < xs.length := List.length_pos_iff.mpr hxs
  have hn : min n (xs.length - 1) < xs.length := by omega
  have hat := congrArg (fun l ↦ l[min n (xs.length - 1)]?) h
  rw [entry, entry, hlength, List.getD_eq_getElem xs 0 hn, List.getD_eq_getElem ys 0 (by omega)]
  simpa [hn, hlength] using hat

private theorem pct_affine {a c : ℚ} {xs ys : List ℤ} (hxs : xs ≠ [])
    (h : ys.map Int.cast = xs.map fun x : ℤ ↦ a * x + c) {p : ℚ} (hp : p ≤ 100) :
    pct ys p = a * pct xs p + c / 1000 := by
  have hlength := length_eq_of_map h
  have hys : ys ≠ [] := by
    rwa [← List.length_pos_iff, hlength, List.length_pos_iff]
  have hposition : position ys p = position xs p := by rw [position, position, hlength]
  rw [pct_eq hys hp, pct_eq hxs hp, hposition, entry_affine hxs h, Series.interpolate_affine]
  ring

/-- The percentiles, the extremes and the mean have changed by a function. -/
structure Percentiles.Changed (f : ℚ → ℚ) (stats changed : Percentiles) : Prop where
  p50 : changed.p50_us = f stats.p50_us
  p95 : changed.p95_us = f stats.p95_us
  p99 : changed.p99_us = f stats.p99_us
  min : changed.min_us = f stats.min_us
  max : changed.max_us = f stats.max_us
  mean : changed.mean_us = f stats.mean_us

private theorem sum_affine {a c : ℚ} {xs ys : List ℤ}
    (h : ys.map Int.cast = xs.map fun x : ℤ ↦ a * x + c) :
    (ys.sum : ℚ) = a * xs.sum + c * xs.length := by
  have hsum : ∀ l : List ℤ, (l.map fun x : ℤ ↦ a * (x : ℚ) + c).sum = a * l.sum + c * l.length := by
    intro l
    induction l with
    | nil => simp
    | cons x l ih =>
      rw [List.map_cons, List.sum_cons, ih, List.sum_cons, List.length_cons]
      push_cast
      ring
  rw [← hsum, ← h]
  exact map_list_sum (Int.castRingHom ℚ) ys

/-- The summary of samples that are scaled and shifted. -/
theorem percentilesUs_affine (sqrt : ℚ → ℚ) {a c : ℚ} (ha : 0 ≤ a) {xs ys : List ℤ} (hxs : xs ≠ [])
    (h : ys.map Int.cast = xs.map fun x : ℤ ↦ a * x + c) {stats : Percentiles}
    (hstats : percentilesUs sqrt xs = some stats) :
    ∃ changed, percentilesUs sqrt ys = some changed ∧
      stats.Changed (fun v ↦ a * v + c / 1000) changed := by
  have hlength := length_eq_of_map h
  have hys : ys ≠ [] := by
    rwa [← List.length_pos_iff, hlength, List.length_pos_iff]
  have hmono : Monotone fun v : ℚ ↦ a * v + c := by
    intro v v' hle
    have hscaled := mul_le_mul_of_nonneg_left hle ha
    dsimp only
    linarith
  have hsort := map_insertionSort_of_monotone hmono h
  obtain ⟨hsortNe, -, -⟩ := insertionSort_laws hxs
  have hentry := entry_affine hsortNe hsort
  have hcount : (ys.insertionSort (· ≤ ·)).length = (xs.insertionSort (· ≤ ·)).length := by
    rw [List.length_insertionSort, List.length_insertionSort, hlength]
  rw [percentilesUs, if_neg hxs] at hstats
  cases hstats
  refine ⟨_, if_neg hys, ?_⟩
  constructor
  case p50 => exact pct_affine hsortNe hsort (by norm_num)
  case p95 => exact pct_affine hsortNe hsort (by norm_num)
  case p99 => exact pct_affine hsortNe hsort (by norm_num)
  case min =>
    have hfirst := congrFun hentry 0
    simp only [entry, Nat.zero_min] at hfirst
    dsimp only
    rw [hfirst]
    ring
  case max =>
    have hlast := congrFun hentry ((xs.insertionSort (· ≤ ·)).length - 1)
    simp only [entry, hcount, min_self] at hlast
    dsimp only
    rw [hcount, hlast]
    ring
  case mean =>
    have hpos := one_le_length hsortNe
    have hne : ((xs.insertionSort (· ≤ ·)).length : ℚ) ≠ 0 := by linarith
    dsimp only
    rw [sum_affine hsort, hcount]
    field_simp

/-! ## Laws of the summary -/

section Laws

variable (sqrt : ℚ → ℚ)

/-- What the summary says about its samples. A scaled list is one whose samples are again whole
numbers; the factor need not be one. -/
structure SummaryLaws (samples_ns : List ℤ) (stats : Percentiles) : Prop where
  returned : percentilesUsIndexed sqrt samples_ns = .ok (some stats)
  inside : ∀ p ∈ ([50, 95, 99] : List ℚ),
    0 ≤ lowIndex (samples_ns.insertionSort (· ≤ ·)) p ∧
    lowIndex (samples_ns.insertionSort (· ≤ ·)) p ≤
      highIndex (samples_ns.insertionSort (· ≤ ·)) p ∧
    highIndex (samples_ns.insertionSort (· ≤ ·)) p < samples_ns.length
  order : ∀ other : List ℤ, other.Perm samples_ns →
    percentilesUsIndexed sqrt other = .ok (some stats)
  least : ∃ x ∈ samples_ns, stats.min_us = x / 1000 ∧ ∀ y ∈ samples_ns, x ≤ y
  most : ∃ x ∈ samples_ns, stats.max_us = x / 1000 ∧ ∀ y ∈ samples_ns, y ≤ x
  ordered : stats.min_us ≤ stats.p50_us ∧ stats.p50_us ≤ stats.p95_us ∧
    stats.p95_us ≤ stats.p99_us ∧ stats.p99_us ≤ stats.max_us
  shift : ∀ c : ℤ, ∃ shifted,
    percentilesUsIndexed sqrt (samples_ns.map (· + c)) = .ok (some shifted) ∧
      stats.Changed (fun v ↦ v + c / 1000) shifted
  scale : ∀ factor : ℚ, 0 ≤ factor → ∀ scaled_ns : List ℤ,
    scaled_ns.map Int.cast = samples_ns.map (fun x : ℤ ↦ factor * x) → ∃ scaled,
      percentilesUsIndexed sqrt scaled_ns = .ok (some scaled) ∧
        stats.Changed (fun v ↦ factor * v) scaled

private theorem exists_max_us {samples_ns : List ℤ} {stats : Percentiles}
    (hstats : percentilesUs sqrt samples_ns = some stats) :
    ∃ x ∈ samples_ns, stats.max_us = x / 1000 ∧ ∀ y ∈ samples_ns, y ≤ x := by
  unfold percentilesUs at hstats
  split at hstats
  · contradiction
  · next hne =>
    obtain ⟨hsortNe, hsorted, hmem⟩ := insertionSort_laws hne
    have hlength := List.length_pos_iff.mpr hsortNe
    have hlast := Nat.sub_one_lt_of_lt hlength
    cases hstats
    refine ⟨_, (hmem _).mp (List.getElem_mem hlast), ?_, ?_⟩
    · dsimp only
      rw [List.getD_eq_getElem _ 0 hlast]
    · intro y hy
      obtain ⟨n, hn, rfl⟩ := List.getElem_of_mem ((hmem y).mpr hy)
      rcases (Nat.le_sub_one_of_lt hn).eq_or_lt with rfl | hless
      · exact le_refl _
      · exact List.pairwise_iff_getElem.mp hsorted n _ hn hlast hless

/-- The summary of every list of samples obeys its laws. -/
theorem percentilesUs_summary (samples_ns : List ℤ) (hne : samples_ns ≠ []) :
    ∃ stats, SummaryLaws sqrt samples_ns stats := by
  obtain ⟨stats, hstats, hlaws⟩ := percentilesUs_laws sqrt hne
  obtain ⟨hsortNe, -, -⟩ := insertionSort_laws hne
  obtain ⟨first, hfirst, hmin, hleast⟩ := hlaws.least
  obtain ⟨last, hlast, hmax, hmost⟩ := exists_max_us sqrt hstats
  have hbounded := hlaws.bounded first last fun x hx ↦ ⟨hleast x hx, hmost x hx⟩
  refine ⟨stats, ?_⟩
  constructor
  case returned => rw [percentilesUsIndexed_eq, hstats]
  case inside =>
    intro p hp
    have hrange : 0 ≤ p ∧ p ≤ 100 := by
      simp only [List.mem_cons, List.not_mem_nil, or_false] at hp
      rcases hp with rfl | rfl | rfl <;> norm_num
    have hinside := indices_inside hsortNe hrange.1 hrange.2
    rwa [List.length_insertionSort] at hinside
  case order =>
    intro other hperm
    have hnil : other = [] ↔ samples_ns = [] := by
      rw [← List.length_eq_zero_iff, hperm.length_eq, List.length_eq_zero_iff]
    rw [percentilesUsIndexed_eq, ← hstats, percentilesUs, percentilesUs,
      insertionSort_eq_of_perm hperm]
    simp only [hnil]
  case least => exact ⟨first, hfirst, hmin, hleast⟩
  case most => exact ⟨last, hlast, hmax, hmost⟩
  case ordered =>
    rw [hmin, hmax]
    exact ⟨hbounded.1, hlaws.ordered.1, hlaws.ordered.2, hbounded.2⟩
  case shift =>
    intro c
    have hcast : (samples_ns.map (· + c)).map (Int.cast : ℤ → ℚ) =
        samples_ns.map fun x : ℤ ↦ 1 * (x : ℚ) + c := by
      simp
    obtain ⟨shifted, hshifted, hchanged⟩ := percentilesUs_affine sqrt zero_le_one hne hcast hstats
    refine ⟨shifted, by rw [percentilesUsIndexed_eq, hshifted], ?_⟩
    simpa only [one_mul] using hchanged
  case scale =>
    intro factor hfactor scaled_ns hscaled
    have hcast : scaled_ns.map (Int.cast : ℤ → ℚ) =
        samples_ns.map fun x : ℤ ↦ factor * (x : ℚ) + 0 := by
      rw [hscaled]
      simp only [add_zero]
    obtain ⟨scaled, hsame, hchanged⟩ := percentilesUs_affine sqrt hfactor hne hcast hstats
    refine ⟨scaled, by rw [percentilesUsIndexed_eq, hsame], ?_⟩
    simpa only [zero_div, add_zero] using hchanged

theorem percentilesUs_summary_two :
    ∃ stats, SummaryLaws (fun v ↦ (Nat.sqrt v.num.toNat : ℚ)) [7, -3] stats :=
  percentilesUs_summary (fun v ↦ (Nat.sqrt v.num.toNat : ℚ)) [7, -3] (by decide)

end Laws

end HzjDds.Bench
