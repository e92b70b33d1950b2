import HzjDds.Python.Path

/-!
# Cited paths

Source: `scripts/check_source_map.py:69–76,121–155` and `scripts/check_executor_map.py:93–100,144–186`.
Both scripts turn a citation of their map into a path of the repository; the second one leaves out
prose.
-/

namespace HzjDds.Gates

open Python

/-- `_REPO_PREFIXES`. -/
def repoPrefixes : List String :=
  ["vendor/", "scripts/", "docker/", "docs/", "config/", "dimos_bridge/"]

/-- `_looks_like_repo_path`. -/
def looksLikeRepoPath (raw : String) : Bool :=
  if raw = "" ∨ isIn "..." raw then false
  else if ["http://", "https://", "mailto:", "<", "/"].any (startsWith raw) then false
  else repoPrefixes.any (startsWith (lstripOf "./" raw)) || repoPrefixes.any (startsWith raw)

/-- The citation without its fragment, its angle brackets and what follows a blank. -/
def targetOf (raw : String) : String :=
  let target := strip (firstPart '#' raw)
  let target :=
    if startsWith target "<" && endsWith target ">" then
      strip (.ofList (target.toList.drop 1).dropLast)
    else target
  if isIn " " target then firstPart ' ' target else target

/-- `_to_repo_rel` of a script that takes some targets for prose; `none` for `None`. -/
def toRepoRel (isProse : String → Bool) (cwd : Place) (root mapPath : Path) (raw : String) :
    Option Path :=
  let target := targetOf raw
  if target = "" ∨ isIn "..." target then none
  else if ["http://", "https://", "mailto:", "<", "/"].any (startsWith target) then none
  else if isProse target then none
  else
    let dest :=
      if startsWith target "." then mapPath.parent.join (.ofString target)
      else if looksLikeRepoPath target then root.join (.ofString target)
      else mapPath.parent.join (.ofString target)
    (dest.resolve cwd).bind fun dest ↦
      (root.resolve cwd).bind fun root ↦
        (dest.path.relativeTo root.path).filter fun rel ↦
          rel.parts ≠ [] && !startsWith rel.str ".."

namespace SourceMap

/-- `_to_repo_rel` of `check_source_map.py`. -/
def toRepoRel : Place → Path → Path → String → Option Path := Gates.toRepoRel fun _ ↦ false

end SourceMap

namespace ExecutorMap

/-- Prose like `dimos_bridge` is not a path citation. -/
def isProse (target : String) : Bool :=
  !startsWith target "." && !looksLikeRepoPath target && !isIn "/" target &&
    (Path.ofString target).suffix == ""

/-- `_to_repo_rel` of `check_executor_map.py`. -/
def toRepoRel : Place → Path → Path → String → Option Path := Gates.toRepoRel isProse

end ExecutorMap

/-- A citation that is a bare word when its decoration is off: no leading dot, no slash, no
suffix. -/
structure BareWord (raw : String) : Prop where
  dot : startsWith (targetOf raw) "." = false
  slash : '/' ∉ (targetOf raw).toList
  suffix : (Path.ofString (targetOf raw)).suffix = ""

/-- A path that stays inside the repository when it is joined to the root. -/
structure Contained (cwd : Place) (root rel : Path) : Prop where
  relative : rel.absolute = false
  nonempty : rel.parts ≠ []
  noParent : ".." ∉ rel.parts
  below : ∃ base place, root.resolve cwd = some base ∧ (root.join rel).resolve cwd = some place ∧
    place.parts = base.parts ++ rel.parts

section

variable {isProse : String → Bool} {cwd : Place} {root mapPath rel : Path} {raw : String}

private theorem below_of_toRepoRel (h : toRepoRel isProse cwd root mapPath raw = some rel) :
    ∃ base place : Place, root.resolve cwd = some base ∧
      place.path.relativeTo base.path = some rel ∧ rel.parts ≠ [] := by
  simp only [toRepoRel, Option.ite_none_left_eq_some] at h
  obtain ⟨-, -, -, h⟩ := h
  obtain ⟨place, -, h⟩ := Option.bind_eq_some_iff.mp h
  obtain ⟨base, hbase, h⟩ := Option.bind_eq_some_iff.mp h
  obtain ⟨hrel, hkept⟩ := Option.filter_eq_some_iff.mp h
  rw [Bool.and_eq_true, decide_eq_true_eq] at hkept
  exact ⟨base, place, hbase, hrel, hkept.1⟩

private theorem contained_of_toRepoRel (h : toRepoRel isProse cwd root mapPath raw = some rel) :
    Contained cwd root rel := by
  obtain ⟨base, place, hbase, hrel, hne⟩ := below_of_toRepoRel h
  obtain ⟨habsolute, hparts⟩ := Path.relativeTo_eq_some_iff.mp hrel
  have hnames : ∀ part ∈ rel.parts, IsName part := by
    intro part hpart
    apply place.isName
    rw [hparts]
    exact List.mem_append_right _ hpart
  obtain ⟨full, hfull, hbelow⟩ := Path.resolve_join hbase habsolute hnames
  constructor
  case relative => exact habsolute
  case nonempty => exact hne
  case noParent => exact fun hparent ↦ (hnames _ hparent).notParent rfl
  case below => exact ⟨base, full, hbase, hfull, hbelow⟩

private theorem slash_of_looksLikeRepoPath {target : String} (h : looksLikeRepoPath target = true) :
    '/' ∈ target.toList := by
  have hslash : ∀ p ∈ repoPrefixes, '/' ∈ p.toList := by decide
  have hstarts : ∀ {s : String}, repoPrefixes.any (startsWith s) = true → '/' ∈ s.toList := by
    intro s hs
    obtain ⟨p, hp, hs⟩ := List.any_eq_true.mp hs
    exact (List.isPrefixOf_iff_prefix.mp hs).subset (hslash p hp)
  unfold looksLikeRepoPath at h
  split at h
  · contradiction
  split at h
  · contradiction
  rcases Bool.or_eq_true_iff.mp h with hstripped | hraw
  · have hmem := hstarts hstripped
    rw [lstripOf, String.toList_ofList] at hmem
    exact (List.dropWhile_suffix _).subset hmem
  · exact hstarts hraw

private theorem isProse_iff : ExecutorMap.isProse (targetOf raw) = true ↔ BareWord raw := by
  have hslash : isIn "/" (targetOf raw) = false ↔ '/' ∉ (targetOf raw).toList := by
    rw [← Bool.not_eq_true, isIn_iff]
    exact not_congr (List.singleton_infix_iff '/' _)
  rw [ExecutorMap.isProse]
  simp only [Bool.and_eq_true, Bool.not_eq_true', beq_iff_eq]
  rw [hslash]
  constructor
  · rintro ⟨⟨⟨hdot, -⟩, hslash⟩, hsuffix⟩
    exact ⟨hdot, hslash, hsuffix⟩
  · rintro ⟨hdot, hslash, hsuffix⟩
    have hlooks : looksLikeRepoPath (targetOf raw) = false := by
      rw [← Bool.not_eq_true]
      exact fun h ↦ hslash (slash_of_looksLikeRepoPath h)
    exact ⟨⟨⟨hdot, hlooks⟩, hslash⟩, hsuffix⟩

private theorem toRepoRel_of_isProse (h : isProse (targetOf raw) = true) :
    toRepoRel isProse cwd root mapPath raw = none := by
  simp [toRepoRel, h]

private theorem toRepoRel_of_not_isProse (h : isProse (targetOf raw) = false) :
    toRepoRel isProse cwd root mapPath raw = SourceMap.toRepoRel cwd root mapPath raw := by
  simp [SourceMap.toRepoRel, toRepoRel, h]

end

/-- The paths that the two scripts take from a citation stay inside the repository, and they are the
same but for bare words, which the second script leaves out. -/
theorem citations_contained_alike (cwd : Place) (root mapPath : Path) (raw : String) :
    (∀ rel, SourceMap.toRepoRel cwd root mapPath raw = some rel → Contained cwd root rel) ∧
      (∀ rel, ExecutorMap.toRepoRel cwd root mapPath raw = some rel → Contained cwd root rel) ∧
      (¬ BareWord raw →
        ExecutorMap.toRepoRel cwd root mapPath raw = SourceMap.toRepoRel cwd root mapPath raw) ∧
      (BareWord raw → ExecutorMap.toRepoRel cwd root mapPath raw = none) := by
  refine ⟨fun rel ↦ contained_of_toRepoRel, fun rel ↦ contained_of_toRepoRel, ?_, ?_⟩
  · intro hbare
    rw [← isProse_iff, Bool.not_eq_true] at hbare
    exact toRepoRel_of_not_isProse hbare
  · intro hbare
    exact toRepoRel_of_isProse (isProse_iff.mpr hbare)

end HzjDds.Gates
