import HzjDds.Gates.CegaBridge
import HzjDds.Gates.DodEvidence
import HzjDds.Gates.ThreeChain

/-!
# Soundness of the fabrication gates

A gate is sound on a document if it has a hit exactly when the document makes a claim that nothing
on its line excuses. The scan reports every match of most patterns, or one on the same line. Two
places are blind: the patterns that are searched for once, and a match that the scan passes over
since it begins inside another match, on a later line.
-/

namespace HzjDds.Gates

open Python Regex

/-- The gates that look for fabricated claims. -/
inductive Gate where
  | threeChain
  | dodEvidence
  | cegaBridge
  deriving DecidableEq, Repr

namespace Gate

/-- The patterns of a gate. -/
def patterns (w : WordClass) : Gate → List Regex
  | threeChain => ThreeChain.statusFabricateRe w :: ThreeChain.fabricateRes w
  | dodEvidence =>
    DodEvidence.statusFabricateRe w :: DodEvidence.dodFabricateRe w :: DodEvidence.fabricateRes w
  | cegaBridge => CegaBridge.statusFabricateRe w :: CegaBridge.cegaFabricateRes w

/-- The words that excuse a match. -/
def prohibitionRe : Gate → Regex
  | threeChain => ThreeChain.prohibitionRe
  | dodEvidence => DodEvidence.prohibitionRe
  | cegaBridge => CegaBridge.prohibitionRe

/-- The hit list of a gate. -/
def fabricateHits (w : WordClass) : Gate → String → List String
  | threeChain => ThreeChain.fabricateHits w
  | dodEvidence => DodEvidence.fabricateHits w
  | cegaBridge => CegaBridge.fabricateHits w

/-- The files whose text a gate scans. -/
def documents : Gate → List String
  | threeChain => [ThreeChain.reproRel]
  | dodEvidence => [DodEvidence.dodRel]
  | cegaBridge => [CegaBridge.adrRel, CegaBridge.holdRel]

/-- The check that a gate makes. -/
def render (w : WordClass) : Gate → Files → String × ℕ
  | threeChain => ThreeChain.render w
  | dodEvidence => DodEvidence.render w
  | cegaBridge => CegaBridge.render w

end Gate

/-- A match of some pattern begins on a line without an excuse. -/
def Fabricates (w : WordClass) (gate : Gate) (text : String) : Prop :=
  ∃ pattern ∈ gate.patterns w, ∃ i, Unexcused gate.prohibitionRe pattern text.toList i

/-- The hit list tells whether a document makes a claim without an excuse, wherever its matches
are, and the gate fails on every repository with a document that does. -/
structure Sound (w : WordClass) (gate : Gate) (text : String) : Prop where
  hits : gate.fabricateHits w text ≠ [] ↔ Fabricates w gate text
  fails : Fabricates w gate text → ∀ files : Files, ∀ rel ∈ gate.documents,
    files rel = some text → (gate.render w files).2 = 1

/-- A claim that a gate notices: of a pattern that is searched for once its first match, of the
pattern about the runtime a match that does not begin inside an earlier one. -/
def Noticed (w : WordClass) (text : String) : Gate → Prop
  | .threeChain =>
    (∃ i, Unexcused ThreeChain.prohibitionRe (ThreeChain.statusFabricateRe w) text.toList i) ∨
      ∃ pattern ∈ ThreeChain.fabricateRes w, ∃ i,
        Unexcused ThreeChain.prohibitionRe pattern text.toList i ∧
          ∀ j < i, ¬ MatchesAt pattern text.toList j
  | .dodEvidence =>
    (∃ pattern ∈ Gate.dodEvidence.patterns w, pattern ≠ DodEvidence.humbleRe ∧
      ∃ i, Unexcused DodEvidence.prohibitionRe pattern text.toList i) ∨
      ∃ i, Unexcused DodEvidence.prohibitionRe DodEvidence.humbleRe text.toList i ∧
        ∀ j < i, ∀ m, matchAt DodEvidence.humbleRe text.toList j = some m →
          j + m.text.length ≤ i
  | .cegaBridge => Fabricates w .cegaBridge text

section

variable {p r : Regex} {text : List Char} {i j : ℕ}

private theorem hitsOfAll_ne_nil {rs : List Regex} {hitsOf : Regex → List String} :
    rs.flatMap hitsOf ≠ [] ↔ ∃ r ∈ rs, hitsOf r ≠ [] := by
  simp only [ne_eq, List.flatMap_eq_nil_iff, not_forall, exists_prop]

private theorem exists_of_finditerHits_ne_nil (h : finditerHits p r text ≠ []) :
    ∃ m ∈ finditer r text, Unexcused p r text m.start := by
  obtain ⟨hit, hhit⟩ := List.exists_mem_of_ne_nil _ h
  obtain ⟨m, -, hm, hunexcused, -⟩ := exists_of_mem_finditerHits hhit
  exact ⟨m, hm, hunexcused⟩

private theorem searchHits_ne_nil_iff : searchHits p r text ≠ [] ↔
    ∃ i, Unexcused p r text i ∧ ∀ j < i, ¬ MatchesAt r text j := by
  constructor
  · intro h
    obtain ⟨hit, hhit⟩ := List.exists_mem_of_ne_nil _ h
    obtain ⟨m, -, hunexcused, hfirst, -⟩ := exists_of_mem_searchHits hhit
    exact ⟨m.start, hunexcused, hfirst⟩
  · rintro ⟨i, hi, hfirst⟩
    exact searchHits_ne_nil hi hfirst

private theorem finditerHits_of_noInner (hr : nullable r = false) (hinner : NoInner r)
    (h : Unexcused p r text i) : finditerHits p r text ≠ [] := by
  obtain ⟨m, hm, rfl⟩ := exists_mem_finditer (nonempty_of_nullable hr) hinner h.1
  exact finditerHits_ne_nil hm h.2

private theorem finditerHits_of_line (hr : nullable r = false) (hline : takes '\n' r = false)
    (h : Unexcused p r text i) : finditerHits p r text ≠ [] := by
  obtain ⟨m, hm, hsame⟩ := exists_mem_finditer_line (nonempty_of_nullable hr) hline h.1
  apply finditerHits_ne_nil hm
  rw [excused, hsame]
  exact h.2

private theorem finditerHits_of_outer (hr : nullable r = false) (h : Unexcused p r text i)
    (houter : ∀ j < i, ∀ m, matchAt r text j = some m → j + m.text.length ≤ i) :
    finditerHits p r text ≠ [] := by
  have hi := lt_length_of_matchesAt (nonempty_of_nullable hr) h.1
  obtain ⟨m, hm, hstart, hstop⟩ := finditer_covers (nonempty_of_nullable hr) hi.le h.1
  have hfound := (mem_finditer hm).2
  rcases Nat.eq_or_lt_of_le hstart with rfl | hlt
  · exact finditerHits_ne_nil hm h.2
  · have hout := houter m.start hlt m hfound
    rw [Match.stop] at hstop
    rw [Match.start] at hout
    omega

end

/-! ## The patterns -/

section

variable (w : WordClass)

private theorem noInner_verdictRe {key : Regex} {ns : List Needle} {ws : List String}
    (hkey : Begins ns key) (hclear : ∀ n ∈ ns, clear 0 n (verdictRe w key ws) = true) :
    NoInner (verdictRe w key ws) := noInner_of_clear (hkey.seq _) hclear

private theorem noInner_cegaBridge : ∀ r ∈ Gate.cegaBridge.patterns w, nullable r = false ∧ NoInner r := by
  have hintegrat : NoInner CegaBridge.integratCega := by
    apply noInner_of_clear ((begins_literalCI "integrat").seq _)
    rw [List.forall_mem_singleton]
    rfl
  have htaken : NoInner (cat [literal "已接", spaces, literal "Cega"]) := by
    apply noInner_of_clear ((begins_literal "已接").seq _)
    rw [List.forall_mem_singleton]
    rfl
  simp only [Gate.patterns, CegaBridge.cegaFabricateRes, List.forall_mem_cons]
  refine ⟨⟨rfl, noInner_statusRe w rfl⟩, ⟨rfl, ?_⟩, ⟨rfl, htaken⟩, ⟨rfl, hintegrat⟩, ?_⟩
  · apply noInner_verdictRe w ((begins_literalCI "Cega").seq _)
    rw [List.forall_mem_singleton]
    rfl
  · exact fun r hr ↦ absurd hr List.not_mem_nil

private theorem noInner_dodEvidence : ∀ r ∈ Gate.dodEvidence.patterns w,
    nullable r = false ∧ (NoInner r ∨ takes '\n' r = false ∨ r = DodEvidence.humbleRe) := by
  have hdod : NoInner (DodEvidence.dodFabricateRe w) := by
    apply noInner_of_clear ((begins_literalCI "DoD:").seq _)
    rw [List.forall_mem_singleton]
    rfl
  simp only [Gate.patterns, DodEvidence.fabricateRes, List.forall_mem_cons]
  refine ⟨⟨rfl, Or.inl (noInner_statusRe w rfl)⟩, ⟨rfl, Or.inl hdod⟩, ⟨rfl, Or.inl ?_⟩,
    ⟨rfl, Or.inl ?_⟩, ⟨rfl, Or.inr (Or.inl rfl)⟩, ⟨rfl, Or.inr (Or.inr trivial)⟩, ?_⟩
  · apply noInner_verdictRe w
      ((begins_literalCI "dod evidence").alt ((begins_literalCI "产品").seq _))
    rw [List.singleton_append, List.forall_mem_cons, List.forall_mem_singleton]
    exact ⟨rfl, rfl⟩
  · apply noInner_verdictRe w ((begins_literalCI "measured").seq _)
    rw [List.forall_mem_singleton]
    rfl
  · exact fun r hr ↦ absurd hr List.not_mem_nil

end

section

variable {w : WordClass} {text : String}

/-- A reported match of the pattern about the runtime does not begin inside an earlier match. Only
a match of the second part can have one inside, of the first part; but then it is reported. -/
theorem humble_outer {m : Match} (hm : m ∈ finditer DodEvidence.humbleRe text.toList) :
    ∀ j < m.start, ∀ m', matchAt DodEvidence.humbleRe text.toList j = some m' →
      j + m'.text.length ≤ m.start := by
  intro j hj m' hm'
  by_contra hlong
  obtain ⟨-, htext, hlang⟩ := matchAt_spec hm'
  have hmatch : MatchesAt DodEvidence.humbleRe text.toList m.start :=
    matchesAt_of_matchAt (mem_finditer hm).2
  have hmatch' : MatchesAt DodEvidence.humbleRe text.toList j := matchesAt_of_matchAt hm'
  rcases hlang with hlang | hlang
  · have hbegins : Begins [needleCI "Humble", needleCI "本机"] DodEvidence.humbleRe :=
      ((begins_literalCI "Humble").seq _).alt ((begins_literalCI "本机").seq _)
    obtain ⟨n, hn, hstarts⟩ := hbegins.starts hmatch
    have hclear : ∀ n ∈ [needleCI "Humble", needleCI "本机"],
        clear 0 n DodEvidence.humbleHere = true := by
      rw [List.forall_mem_cons, List.forall_mem_singleton]
      exact ⟨rfl, rfl⟩
    exact hlong (stop_le_of_clear (hclear n hn) hlang htext hj hstarts)
  · have hne : Nonempty DodEvidence.humbleRe := nonempty_of_nullable rfl
    have hlength := lt_length_of_matchesAt hne hmatch'
    obtain ⟨m'', hm'', hstart, hstop⟩ := finditer_covers hne hlength.le hmatch'
    obtain ⟨-, hfound⟩ := mem_finditer hm''
    rw [Match.stop] at hstop
    rcases Nat.eq_or_lt_of_le hstart with rfl | hlt
    · obtain rfl := Option.some.inj (hfound.symm.trans hm')
      exact hlong (finditer_disjoint hm'' hm hj)
    · have hbegins : Begins [needleCI "本机"] DodEvidence.hostHumble :=
        (begins_literalCI "本机").seq _
      obtain ⟨n, hn, hstarts⟩ := hbegins m'.text hlang
      obtain rfl := List.mem_singleton.mp hn
      have hclear : clear 0 (needleCI "本机") DodEvidence.humbleRe = true := rfl
      obtain ⟨-, htext'', hlang''⟩ := matchAt_spec hfound
      have hout := stop_le_of_clear hclear hlang'' htext'' hlt (htext ▸ hstarts.append m'.after)
      rw [Match.start] at hout
      omega

/-- A gate has a hit exactly if there is a claim that it notices. -/
theorem fabricateHits_ne_nil_iff (gate : Gate) :
    gate.fabricateHits w text ≠ [] ↔ Noticed w text gate := by
  cases gate with
  | threeChain =>
    change ThreeChain.fabricateHits w text ≠ [] ↔ _
    rw [ThreeChain.fabricateHits, ne_eq, List.append_eq_nil_iff, not_and_or, Noticed]
    apply or_congr
    · constructor
      · intro h
        obtain ⟨m, -, hm⟩ := exists_of_finditerHits_ne_nil h
        exact ⟨m.start, hm⟩
      · rintro ⟨i, hi⟩
        exact finditerHits_of_noInner rfl (noInner_statusRe w rfl) hi
    · rw [← ne_eq, hitsOfAll_ne_nil]
      apply exists_congr
      intro pattern
      exact and_congr_right fun _ ↦ searchHits_ne_nil_iff
  | dodEvidence =>
    change DodEvidence.fabricateHits w text ≠ [] ↔ _
    rw [DodEvidence.fabricateHits, hitsOfAll_ne_nil, Noticed]
    constructor
    · rintro ⟨pattern, hpattern, h⟩
      obtain ⟨m, hm, hunexcused⟩ := exists_of_finditerHits_ne_nil h
      by_cases hhumble : pattern = DodEvidence.humbleRe
      · subst hhumble
        exact Or.inr ⟨m.start, hunexcused, humble_outer hm⟩
      · exact Or.inl ⟨pattern, hpattern, hhumble, m.start, hunexcused⟩
    · rintro (⟨pattern, hpattern, hhumble, i, hi⟩ | ⟨i, hi, houter⟩)
      · obtain ⟨hr, hinner | hline | heq⟩ := noInner_dodEvidence w pattern hpattern
        · exact ⟨pattern, hpattern, finditerHits_of_noInner hr hinner hi⟩
        · exact ⟨pattern, hpattern, finditerHits_of_line hr hline hi⟩
        · exact absurd heq hhumble
      · refine ⟨DodEvidence.humbleRe, ?_, finditerHits_of_outer rfl hi houter⟩
        simp [DodEvidence.fabricateRes]
  | cegaBridge =>
    change CegaBridge.fabricateHits w text ≠ [] ↔ _
    rw [CegaBridge.fabricateHits, hitsOfAll_ne_nil, Noticed, Fabricates]
    apply exists_congr
    intro pattern
    apply and_congr_right
    intro hpattern
    constructor
    · intro h
      obtain ⟨m, -, hm⟩ := exists_of_finditerHits_ne_nil h
      exact ⟨m.start, hm⟩
    · rintro ⟨i, hi⟩
      obtain ⟨hr, hinner⟩ := noInner_cegaBridge w pattern hpattern
      exact finditerHits_of_noInner hr hinner hi

private theorem fabricates_of_noticed {gate : Gate} (h : Noticed w text gate) :
    Fabricates w gate text := by
  cases gate with
  | threeChain =>
    rcases h with ⟨i, hi⟩ | ⟨pattern, hpattern, i, hi, -⟩
    · exact ⟨_, List.mem_cons_self, i, hi⟩
    · exact ⟨pattern, List.mem_cons_of_mem _ hpattern, i, hi⟩
  | dodEvidence =>
    rcases h with ⟨pattern, hpattern, -, i, hi⟩ | ⟨i, hi, -⟩
    · exact ⟨pattern, hpattern, i, hi⟩
    · refine ⟨DodEvidence.humbleRe, ?_, i, hi⟩
      simp [Gate.patterns, DodEvidence.fabricateRes]
  | cegaBridge => exact h

/-- A gate with a hit in a document fails. -/
theorem render_of_hits {gate : Gate} (h : gate.fabricateHits w text ≠ []) {files : Files}
    {rel : String} (hrel : rel ∈ gate.documents) (hfile : files rel = some text) :
    (gate.render w files).2 = 1 := by
  have hempty : (gate.fabricateHits w text).isEmpty = false := by simpa using h
  cases gate with
  | threeChain =>
    obtain rfl := List.mem_singleton.mp hrel
    apply finish_of_failures
    apply failures_all_ne_nil (List.mem_append_right _ List.mem_cons_self)
    rw [checkText, hfile]
    exact failures_all_ne_nil (List.mem_of_getElem? (i := 3) rfl) (failures_check hempty _ _ _)
  | dodEvidence =>
    obtain rfl := List.mem_singleton.mp hrel
    apply finish_of_failures
    apply failures_all_ne_nil (List.mem_append_right _ List.mem_cons_self)
    rw [checkText, hfile]
    exact failures_all_ne_nil (List.mem_of_getElem? (i := 4) rfl) (failures_check hempty _ _ _)
  | cegaBridge =>
    have hhits : ∀ failure line,
        (CegaBridge.failEach (CegaBridge.fabricateHits w text) failure line).failures ≠ [] := by
      intro failure line
      exact mt List.map_eq_nil_iff.mp h
    apply finish_of_failures
    rcases List.mem_cons.mp hrel with rfl | hrel
    · apply failures_all_ne_nil
        (List.mem_append_left _ (List.mem_append_right _ List.mem_cons_self))
      rw [checkText, hfile]
      exact failures_all_ne_nil (List.mem_of_getElem? (i := 2) rfl) (hhits _ _)
    · obtain rfl := List.mem_singleton.mp hrel
      apply failures_all_ne_nil (List.mem_append_left _
        (List.mem_append_right _ (List.mem_cons_of_mem _ List.mem_cons_self)))
      rw [checkText, hfile]
      exact failures_all_ne_nil (List.mem_of_getElem? (i := 2) rfl) (hhits _ _)

/-- A gate is sound on exactly the documents that make no claim without an excuse, or one that the
gate notices. -/
theorem sound_iff (w : WordClass) (gate : Gate) (text : String) :
    Sound w gate text ↔ (Fabricates w gate text → Noticed w text gate) := by
  constructor
  · intro hsound hclaim
    exact (fabricateHits_ne_nil_iff gate).mp (hsound.hits.mpr hclaim)
  · intro hnoticed
    refine ⟨⟨fun h ↦ fabricates_of_noticed ((fabricateHits_ne_nil_iff gate).mp h),
      fun h ↦ (fabricateHits_ne_nil_iff gate).mpr (hnoticed h)⟩, ?_⟩
    intro hclaim files rel hrel hfile
    exact render_of_hits ((fabricateHits_ne_nil_iff gate).mpr (hnoticed hclaim)) hrel hfile

/-- A class of word characters with nothing outside ASCII but what case folding puts there. -/
def asciiWords : WordClass := ⟨asciiWord, fun _ h ↦ h⟩

/-- The first match of `map = reproduce` is excused by its line and hides the second one, which is
not. A match about the runtime that is excused goes on to the next line and hides the one that
begins there. -/
theorem not_sound : ¬ Sound asciiWords .threeChain "do not write map = reproduce\nmap = reproduce" ∧
    ¬ Sound asciiWords .dodEvidence "不要 本机跑过\nHumble runtime ran here" := by
  constructor
  · intro hsound
    apply hsound.hits.mpr _
    · decide
    · refine ⟨_, List.mem_of_getElem? (i := 3) rfl, 29, ?_⟩
      constructor
      · decide
      · decide
  · intro hsound
    apply hsound.hits.mpr _
    · decide
    · refine ⟨_, List.mem_of_getElem? (i := 5) rfl, 8, ?_⟩
      constructor
      · decide
      · decide

end

end HzjDds.Gates
