import HzjDds.Python.Text
import Mathlib.Data.List.Infix

/-!
# Paths

Library `Python`. `pathlib.Path` on POSIX, for a file system without symbolic links: there
`resolve` depends on the working directory alone.
-/

namespace HzjDds.Python

/-- A name that a path has between its slashes. -/
def IsPart (part : String) : Prop := part ≠ "" ∧ part ≠ "." ∧ '/' ∉ part.toList

instance (part : String) : Decidable (IsPart part) :=
  inferInstanceAs (Decidable (part ≠ "" ∧ part ≠ "." ∧ '/' ∉ part.toList))

private theorem not_mem_of_mem_splitOn {sep : Char} {s cs : List Char} (h : cs ∈ s.splitOn sep) :
    sep ∉ cs := by
  induction s generalizing cs with
  | nil =>
    rw [List.splitOn_nil] at h
    obtain rfl := List.mem_singleton.mp h
    exact List.not_mem_nil
  | cons x s ih =>
    rw [List.splitOn_cons_eq_if_modifyHead] at h
    split at h
    · rcases List.mem_cons.mp h with rfl | h
      · exact List.not_mem_nil
      · exact ih h
    · next hx =>
      cases hsplit : s.splitOn sep with
      | nil => exact absurd hsplit (List.splitOn_ne_nil sep s)
      | cons first rest =>
        rw [hsplit, List.modifyHead_cons] at h
        rcases List.mem_cons.mp h with rfl | h
        · have hfirst := ih (hsplit ▸ List.mem_cons_self)
          simp only [List.mem_cons, not_or]
          exact ⟨fun heq ↦ hx (beq_iff_eq.mpr heq.symm), hfirst⟩
        · exact ih (hsplit ▸ List.mem_cons_of_mem first h)

/-- A path: whether it begins at the root directory, and the names on it. -/
structure Path where
  absolute : Bool
  parts : List String
  isPart : ∀ part ∈ parts, IsPart part

namespace Path

@[ext] theorem ext {p q : Path} (habsolute : p.absolute = q.absolute)
    (hparts : p.parts = q.parts) : p = q := by
  cases p
  cases q
  simp_all

/-- `Path(s)`. -/
def ofString (s : String) : Path where
  absolute := startsWith s "/"
  parts := ((s.toList.splitOn '/').map String.ofList).filter fun part ↦ part ≠ "" ∧ part ≠ "."
  isPart := by
    intro part hpart
    obtain ⟨hsplit, hpart⟩ := List.mem_filter.mp hpart
    obtain ⟨cs, hcs, rfl⟩ := List.mem_map.mp hsplit
    obtain ⟨hempty, hdot⟩ := of_decide_eq_true hpart
    refine ⟨hempty, hdot, ?_⟩
    rw [String.toList_ofList]
    exact not_mem_of_mem_splitOn hcs

/-- `str(p)`. -/
def str (p : Path) : String :=
  if p.absolute then "/" ++ "/".intercalate p.parts
  else if p.parts = [] then "." else "/".intercalate p.parts

/-- `p.parent`. -/
def parent (p : Path) : Path :=
  { p with
    parts := p.parts.dropLast
    isPart := fun part hpart ↦ p.isPart part (List.mem_of_mem_dropLast hpart) }

/-- `p.name`. -/
def name (p : Path) : String := p.parts.getLast?.getD ""

/-- `p.suffix`. A name that ends with its last dot has none. -/
def suffix (p : Path) : String :=
  let reversed := p.name.toList.reverse
  let ending := reversed.takeWhile (· ≠ '.')
  if ending ≠ [] ∧ ending.length + 1 < reversed.length then .ofList ('.' :: ending.reverse) else ""

/-- `p / q`. -/
def join (p q : Path) : Path :=
  if q.absolute then q else
    { absolute := p.absolute
      parts := p.parts ++ q.parts
      isPart := by
        intro part hpart
        rcases List.mem_append.mp hpart with hpart | hpart
        · exact p.isPart part hpart
        · exact q.isPart part hpart }

/-- `p.relative_to(base)`; `none` if it raises. -/
def relativeTo (p base : Path) : Option Path :=
  if p.absolute = base.absolute ∧ base.parts <+: p.parts then
    some
      { absolute := false
        parts := p.parts.drop base.parts.length
        isPart := fun part hpart ↦ p.isPart part (List.mem_of_mem_drop hpart) }
  else none

end Path

/-! ## Resolution -/

/-- A name that an entry of a directory can have. -/
structure IsName (part : String) : Prop where
  isPart : IsPart part
  notParent : part ≠ ".."
  noNul : '\x00' ∉ part.toList

/-- A place in the file system, given by the names from the root directory down to it. -/
structure Place where
  parts : List String
  isName : ∀ part ∈ parts, IsName part

/-- The path of a place. -/
def Place.path (d : Place) : Path := ⟨true, d.parts, fun part hpart ↦ (d.isName part hpart).isPart⟩

/-- The names one part of a path further; two dots lead to the directory above. -/
def walk (dir : List String) (part : String) : List String :=
  if part = ".." then dir.dropLast else dir ++ [part]

private theorem mem_foldl_walk {x : String} {parts dir : List String} (h : x ∈ parts.foldl walk dir) :
    x ∈ dir ∨ x ∈ parts ∧ x ≠ ".." := by
  induction parts generalizing dir with
  | nil => exact Or.inl h
  | cons part parts ih =>
    rcases ih h with hdir | ⟨hparts, hx⟩
    · unfold walk at hdir
      split at hdir
      · exact Or.inl (List.mem_of_mem_dropLast hdir)
      · next hpart =>
        rcases List.mem_append.mp hdir with hdir | hdir
        · exact Or.inl hdir
        · obtain rfl := List.mem_singleton.mp hdir
          exact Or.inr ⟨List.mem_cons_self, hpart⟩
    · exact Or.inr ⟨List.mem_cons_of_mem part hparts, hx⟩

private theorem foldl_walk {parts : List String} (h : ".." ∉ parts) (dir : List String) :
    parts.foldl walk dir = dir ++ parts := by
  induction parts generalizing dir with
  | nil => exact (List.append_nil dir).symm
  | cons part parts ih =>
    rw [List.mem_cons, not_or] at h
    rw [List.foldl_cons, ih h.2, walk, if_neg (Ne.symm h.1), List.append_assoc]
    rfl

namespace Path

/-- `p.resolve()` in a working directory; `none` if it raises. -/
def resolve (cwd : Place) (p : Path) : Option Place :=
  if hnul : ∃ part ∈ p.parts, '\x00' ∈ part.toList then none
  else
    some
      { parts := p.parts.foldl walk (if p.absolute then [] else cwd.parts)
        isName := by
          intro part hpart
          rcases mem_foldl_walk hpart with hpart | ⟨hpart, hparent⟩
          · split at hpart
            · contradiction
            · exact cwd.isName part hpart
          · exact ⟨p.isPart part hpart, hparent, fun h ↦ hnul ⟨part, hpart, h⟩⟩ }

variable {cwd base place : Place} {p q rel : Path}

/-- A path without NUL leads to a place. -/
theorem resolve_eq_some_iff : p.resolve cwd = some place ↔
    (∀ part ∈ p.parts, '\x00' ∉ part.toList) ∧
      place.parts = p.parts.foldl walk (if p.absolute then [] else cwd.parts) := by
  unfold resolve
  split
  · next hnul =>
    obtain ⟨part, hpart, hmem⟩ := hnul
    exact iff_of_false (by simp) fun h ↦ h.1 part hpart hmem
  · next hnul =>
    have hclean : ∀ part ∈ p.parts, '\x00' ∉ part.toList := fun part hpart hmem ↦
      hnul ⟨part, hpart, hmem⟩
    rw [Option.some.injEq]
    constructor
    · rintro rfl
      exact ⟨hclean, rfl⟩
    · rintro ⟨-, hparts⟩
      cases place
      simp_all

/-- The relative path from a place leads to what is below it. -/
theorem relativeTo_eq_some_iff : place.path.relativeTo base.path = some rel ↔
    rel.absolute = false ∧ place.parts = base.parts ++ rel.parts := by
  unfold relativeTo
  constructor
  · intro h
    split at h
    · next hbelow =>
      obtain rfl := Option.some.inj h
      obtain ⟨rest, hrest⟩ := hbelow.2
      change base.parts ++ rest = place.parts at hrest
      refine ⟨rfl, ?_⟩
      change place.parts = base.parts ++ place.parts.drop base.parts.length
      rw [← hrest, List.drop_left]
    · contradiction
  · rintro ⟨habsolute, hparts⟩
    rw [if_pos ⟨rfl, rel.parts, hparts.symm⟩, Option.some.injEq]
    apply Path.ext
    · exact habsolute.symm
    · change place.parts.drop base.parts.length = rel.parts
      rw [hparts, List.drop_left]

/-- A relative path of names leads below the place that it is joined to. -/
theorem resolve_join (hbase : p.resolve cwd = some base) (habsolute : q.absolute = false)
    (hnames : ∀ part ∈ q.parts, IsName part) :
    ∃ place, (p.join q).resolve cwd = some place ∧ place.parts = base.parts ++ q.parts := by
  obtain ⟨hclean, hbase⟩ := resolve_eq_some_iff.mp hbase
  have hparent : ".." ∉ q.parts := fun h ↦ (hnames _ h).notParent rfl
  let place : Place :=
    { parts := base.parts ++ q.parts
      isName := by
        intro part hpart
        rcases List.mem_append.mp hpart with hpart | hpart
        · exact base.isName part hpart
        · exact hnames part hpart }
  refine ⟨place, ?_, rfl⟩
  rw [join, if_neg (by simp [habsolute]), resolve_eq_some_iff]
  constructor
  · intro part hpart
    rcases List.mem_append.mp hpart with hpart | hpart
    · exact hclean part hpart
    · exact (hnames part hpart).noNul
  · change base.parts ++ q.parts = _
    rw [List.foldl_append, foldl_walk hparent, ← hbase]

end Path

end HzjDds.Python
