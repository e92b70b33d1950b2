import HzjDds.Gates.CegaBridge
import HzjDds.Gates.DodEvidence
import HzjDds.Gates.DualChain
import HzjDds.Gates.ThreeChain

/-!
# Success markers

A gate prints its success marker exactly if it passes. What a report says by itself lacks the
marker; what it quotes from a document is a match of a pattern, and no match can complete the
marker, alone or with the text around it.
-/

namespace HzjDds.Gates

open Python Regex

private theorem not_mem_of_mem_sortedSet_findall {r : Regex} {c : Char} {text x : String}
    (hx : x ∈ sortedSet (findall r text)) (hc : takes c r = false) : c ∉ x.toList := by
  obtain ⟨m, hm, rfl⟩ := List.mem_map.mp (mem_sortedSet.mp hx)
  rw [String.toList_ofList]
  exact (matchAt_spec (mem_finditer hm).2).2.2.not_mem hc

private theorem sortedSet_ne_nil {xs : List String} (h : xs.isEmpty = false) : sortedSet xs ≠ [] := by
  obtain ⟨x, hx⟩ := List.exists_mem_of_ne_nil xs (by simpa using h)
  exact List.ne_nil_of_mem (mem_sortedSet.mpr hx)

namespace ThreeChain

private theorem not_mem_of_mem_fabricateHits {w : WordClass} {text hit : String}
    (h : hit ∈ fabricateHits w text) : '(' ∉ hit.toList := by
  rcases List.mem_append.mp h with h | h
  · exact not_mem_of_mem_finditerHits h rfl
  · obtain ⟨pattern, hpattern, hhit⟩ := List.mem_flatMap.mp h
    have htakes : ∀ r ∈ fabricateRes w, takes '(' r = false := by
      simp only [fabricateRes, List.forall_mem_cons]
      exact ⟨rfl, rfl, rfl, fun r hr ↦ absurd hr List.not_mem_nil⟩
    exact not_mem_of_mem_searchHits hhit (htakes pattern hpattern)

/-- The frame and the required files of the gate. -/
def wording : Wording successMarker where
  frame := frame
  required := required
  plain := plain_ofList (by decide)
  mem := List.mem_singleton_self _
  silentFrame := Frame.silent_ofList (by repeat' first | exact .nil | apply Spelled.cons)
    (by decide +kernel) (by decide +kernel) (by decide +kernel)
  silentFiles := by
    apply SpelledFiles.silent
    · repeat' first | exact .nil | apply SpelledFiles.cons | apply Spelled.cons
    · decide +kernel

private theorem lacks_chainDetail {u : List Char}
    (hu : ¬ ['(', 'm'] <:+: u ++ ['m', 'i', 's', 's', 'i', 'n', 'g', ' '])
    (hok : Lacks successMarker
      (.ofList u ++ "publish / History / wait→callback (or WaitSet/callback)"))
    (hasPublish hasHistory hasWait : Bool) :
    Lacks successMarker (.ofList u ++ (chainDetail hasPublish hasHistory hasWait).2) := by
  rw [chainDetail]
  split
  · exact hok
  · apply lacks_missing (by decide) (by decide) hu (by decide)
    · cases hasPublish <;> cases hasHistory <;> cases hasWait <;> simp_all
    · have hparts : ∀ x ∈ ["publish", "History", "wait→callback or WaitSet/callback"],
          '(' ∉ x.toList := by decide
      intro x hx
      apply hparts x
      simp only [List.mem_append] at hx
      rcases hx with (hx | hx) | hx
      · cases hasPublish <;> simp_all
      · cases hasHistory <;> simp_all
      · cases hasWait <;> simp_all

private theorem silent_reproReport (w : WordClass) (text : String) :
    (reproReport w text).Silent successMarker := by
  apply Report.Silent.all
  simp only [List.forall_mem_cons]
  refine ⟨?_, ?_, ?_, ?_, fun r hr ↦ absurd hr List.not_mem_nil⟩
  · exact silent_check (lacks_ofList_quote (by decide)) (fun _ ↦ lacks_ofList_quote (by decide))
      fun _ ↦ lacks_ofList_quote (by decide)
  · exact silent_check (lacks_ofList_quote (by decide)) (fun _ ↦ lacks_ofList_quote (by decide))
      fun _ ↦ lacks_ofList_quote (by decide)
  · exact silent_check
      (lacks_chainDetail (by decide) (lacks_ofList_append (by decide +kernel)) _ _ _)
      (fun _ ↦ lacks_chainDetail (by decide) (lacks_ofList_append (by decide +kernel)) _ _ _)
      fun _ ↦ lacks_chainDetail (by decide) (lacks_ofList_append (by decide +kernel)) _ _ _
  · have hjoin : ∀ u : List Char, ¬ ['(', 'm'] <:+: u → u.getLast? = some ' ' →
        (fabricateHits w text).isEmpty = false →
        Lacks successMarker (.ofList u ++ ", ".intercalate (fabricateHits w text)) := by
      intro u hu hlast hhits
      exact lacks_join_of_pair (by decide) (by decide) hu hlast (by decide)
        (List.isEmpty_eq_false_iff.mp hhits) fun hit hhit ↦ not_mem_of_mem_fabricateHits hhit
    exact silent_check (lacks_ofList (by decide +kernel)) (hjoin _ (by decide) (by decide))
      (hjoin _ (by decide) (by decide))

private theorem isIn_render (w : WordClass) (files : Files) :
    isIn successMarker (render w files).1 = true ↔ (render w files).2 = 0 := by
  apply wording.isIn_finish
  rw [List.forall_mem_singleton]
  exact silent_checkText (silent_reproReport w)

end ThreeChain

namespace DodEvidence

/-- The frame and the required files of the gate. -/
def wording : Wording successMarker where
  frame := frame
  required := required
  plain := plain_ofList (by decide)
  mem := List.mem_singleton_self _
  silentFrame := Frame.silent_ofList (by repeat' first | exact .nil | apply Spelled.cons)
    (by decide +kernel) (by decide +kernel) (by decide +kernel)
  silentFiles := by
    apply SpelledFiles.silent
    · repeat' first | exact .nil | apply SpelledFiles.cons | apply Spelled.cons
    · decide +kernel

private theorem foldCase_of_isSpace {c : Char} (h : isSpace c = true) : foldCase c = c := by
  have hne : ∀ d : Char, isSpace d = false → c ≠ d := by
    rintro d hd rfl
    rw [hd] at h
    contradiction
  have hupper : ¬ (c.val ≥ 'A'.val ∧ c.val ≤ 'Z'.val) := by
    rintro ⟨hA, hZ⟩
    have hA' : 65 ≤ c.toNat := UInt32.le_iff_toNat_le.mp hA
    have hZ' : c.toNat ≤ 90 := UInt32.le_iff_toNat_le.mp hZ
    simp [isSpace] at h
    omega
  have hi : ¬ (c = '\u0130' ∨ c = '\u0131') := by
    rintro (hc | hc)
    · exact hne '\u0130' rfl hc
    · exact hne '\u0131' rfl hc
  rw [foldCase, if_neg (hne '\u017f' rfl), if_neg (hne '\u212a' rfl), if_neg hi]
  exact dif_neg hupper

private theorem isSpace_of_foldCase {c d : Char} (h : foldCase c = d) (hd : isSpace d = false) :
    isSpace c = false := by
  by_contra hspace
  rw [Bool.not_eq_false] at hspace
  rw [← h, foldCase_of_isSpace hspace, hspace] at hd
  contradiction

private theorem not_mem_successMarker {c : Char} (h : foldCase c ∈ ['s', 'a', '机']) :
    c ∉ successMarker.toList := by
  have hmarker : (successMarker.toList.all fun c ↦ foldCase c ∉ ['s', 'a', '机']) = true := by decide
  exact fun hc ↦ of_decide_eq_true (List.all_eq_true.mp hmarker c hc) h

/-- The name of the host in the pattern with gaps: next to its end stands a character that the
marker lacks, and it does not begin with a space. -/
theorem exists_cut_host {x : List Char}
    (h : Lang (oneOf [cat [literalCI "this", char fun c ↦ c == '-' || c == ' ', literalCI "host"],
      literalCI "本机", literalCI "本自动化主机"]) x) :
    ∃ a c b, x = a ++ c :: b ∧ c ∉ successMarker.toList ∧ b.length ≤ 1 ∧
      ∃ x₀ rest, x = x₀ :: rest ∧ isSpace x₀ = false := by
  rcases h with ⟨p, q, rfl, hp, r, q', rfl, hr, t, e, rfl, ht, rfl⟩ | h | h
  · obtain ⟨a, c, b, rfl, -, hc, hb⟩ :=
      exists_cut (u := ['h', 'o']) (d := 's') (v := ['t']) (map_foldCase_of_lang ht)
    obtain ⟨a', c', b', rfl, ha', hc', -⟩ :=
      exists_cut (u := []) (d := 't') (v := ['h', 'i', 's']) (map_foldCase_of_lang hp)
    obtain rfl := List.map_eq_nil_iff.mp ha'
    refine ⟨(c' :: b') ++ (r ++ a), c, b, by simp, not_mem_successMarker (by simp [hc]), ?_,
      c', b' ++ (r ++ (a ++ c :: b ++ [])), by simp, isSpace_of_foldCase hc' rfl⟩
    rw [← List.length_map foldCase, hb]
    exact le_refl _
  · obtain ⟨a, c, b, rfl, ha, hc, hb⟩ :=
      exists_cut (u := ['本']) (d := '机') (v := []) (map_foldCase_of_lang h)
    obtain ⟨c', a', rfl, hc', -⟩ := List.map_eq_cons_iff.mp ha
    refine ⟨c' :: a', c, b, rfl, not_mem_successMarker (by simp [hc]), ?_, c', a' ++ c :: b, rfl,
      isSpace_of_foldCase hc' rfl⟩
    rw [← List.length_map foldCase, hb]
    exact Nat.zero_le _
  · obtain ⟨a, c, b, rfl, ha, hc, hb⟩ := exists_cut (u := ['本', '自', '动', '化', '主']) (d := '机')
      (v := []) (map_foldCase_of_lang h)
    obtain ⟨c', a', rfl, hc', -⟩ := List.map_eq_cons_iff.mp ha
    refine ⟨c' :: a', c, b, rfl, not_mem_successMarker (by simp [hc]), ?_, c', a' ++ c :: b, rfl,
      isSpace_of_foldCase hc' rfl⟩
    rw [← List.length_map foldCase, hb]
    exact Nat.zero_le _

/-- What was measured in the pattern with gaps: two characters that the marker lacks, near both
ends. -/
theorem exists_cut_measured {y : List Char}
    (h : Lang (alt measuredDelta (literalCI "baseline-vs-change")) y) :
    ∃ a c b d e, y = a ++ c :: (b ++ d :: e) ∧ c ∉ successMarker.toList ∧
      d ∉ successMarker.toList ∧ a.length ≤ 2 ∧ b.length ≤ 12 ∧ e.length ≤ 3 := by
  rcases h with ⟨p, q, rfl, hp, r, q', rfl, ⟨x, rfl, -⟩, t, e, rfl, ht, rfl⟩ | h
  · obtain ⟨a, c, b, rfl, ha, hc, hb⟩ := exists_cut (u := ['m', 'e']) (d := 'a')
      (v := ['s', 'u', 'r', 'e', 'd']) (map_foldCase_of_lang hp)
    obtain ⟨a', c', b', rfl, ha', hc', hb'⟩ :=
      exists_cut (u := ['d', 'e', 'l', 't']) (d := 'a') (v := []) (map_foldCase_of_lang ht)
    have hlengths := congrArg List.length ha
    have hlengths' := congrArg List.length hb
    have hlengths'' := congrArg List.length ha'
    obtain rfl := List.map_eq_nil_iff.mp hb'
    rw [List.length_map] at hlengths hlengths' hlengths''
    refine ⟨a, c, b ++ (x :: a'), c', [], by simp, not_mem_successMarker (by simp [hc]),
      not_mem_successMarker (by simp [hc']), hlengths.le, ?_, Nat.zero_le _⟩
    rw [List.length_append, List.length_cons, hlengths', hlengths'']
    decide
  · obtain ⟨a, c, rest, rfl, ha, hc, hrest⟩ := exists_cut (u := ['b']) (d := 'a')
      (v := ['s', 'e', 'l', 'i', 'n', 'e', '-', 'v', 's', '-', 'c', 'h', 'a', 'n', 'g', 'e'])
      (map_foldCase_of_lang h)
    obtain ⟨b, d, e, rfl, hb, hd, he⟩ := exists_cut (d := 'a') (v := ['n', 'g', 'e'])
      (u := ['s', 'e', 'l', 'i', 'n', 'e', '-', 'v', 's', '-', 'c', 'h']) hrest
    have hlengths := congrArg List.length ha
    have hlengths' := congrArg List.length hb
    have hlengths'' := congrArg List.length he
    rw [List.length_map] at hlengths hlengths' hlengths''
    exact ⟨a, c, b, d, e, rfl, not_mem_successMarker (by simp [hc]),
      not_mem_successMarker (by simp [hd]), hlengths.le.trans (by decide), hlengths'.le,
      hlengths''.le⟩

private theorem length_le_of_lang_words {z : List Char}
    (h : Lang (words ["PASS", "PROVEN", "OK", "测出"]) z) : z.length ≤ 6 := by
  have hlength : ∀ {t : String}, Lang (literalCI t) z → z.length = t.toList.length := by
    intro t ht
    rw [← List.length_map foldCase, map_foldCase_of_lang ht, List.length_map]
  rcases h with h | h | h | h
  · exact (hlength h).le.trans (by decide)
  · exact (hlength h).le.trans (by decide)
  · exact (hlength h).le.trans (by decide)
  · exact (hlength h).le.trans (by decide)

/-- A match of the pattern with gaps does not complete the marker: between two characters that the
marker lacks there is never room for it. -/
theorem lacks_thisHost {s : List Char} (hs : Lang thisHostRe s) :
    Lacks successMarker ("DoD doc fabricates product evidence: " ++ strip (.ofList s)) := by
  obtain ⟨x, s₁, rfl, hx, g, s₂, rfl, ⟨-, hg, -⟩, y, s₃, rfl, hy, g', s₄, rfl, ⟨-, hg', -⟩, z, s₅,
    rfl, hz, rfl⟩ := hs
  have hparen : '(' ∉ x := Lang.not_mem hx rfl
  obtain ⟨a, c, b, hxcut, hc, hb, x₀, xs, hxfirst, hx₀⟩ := exists_cut_host hx
  obtain ⟨a', c', b', d', e', rfl, hc', hd', ha', hb', he'⟩ := exists_cut_measured hy
  have hzlength := length_le_of_lang_words hz
  have hglength := hg 24 rfl
  have hglength' := hg' 16 rfl
  have hlength : successMarker.toList.length = 29 := by decide
  intro hwithin
  rw [String.toList_append, toList_strip, hxfirst] at hwithin
  have hfirst := stripList_starts hx₀
    (xs ++ (g ++ (a' ++ c' :: (b' ++ d' :: e') ++ (g' ++ (z ++ [])))))
  have hwhole := hwithin.trans ((List.prefix_append_right_inj _).mpr hfirst).isInfix
  rw [← List.cons_append, ← hxfirst, hxcut] at hwhole
  have hparts : "DoD doc fabricates product evidence: ".toList ++
      (a ++ c :: b ++ (g ++ (a' ++ c' :: (b' ++ d' :: e') ++ (g' ++ (z ++ []))))) =
      ("DoD doc fabricates product evidence: ".toList ++ a) ++
        c :: ((b ++ (g ++ a')) ++ c' :: (b' ++ d' :: (e' ++ (g' ++ z)))) := by
    simp only [List.append_assoc, List.cons_append, List.append_nil]
  rw [hparts, infix_append_cons hc, infix_append_cons hc', infix_append_cons hd'] at hwhole
  rcases hwhole with h | h | h | h
  · rw [← List.append_nil a] at h
    apply not_pair_within (c := '(') (d := 'b') (by decide) (by decide) _ (by decide)
      (List.IsInfix.trans (by decide) h)
    exact fun hmem ↦ hparen (hxcut ▸ List.mem_append_left _ hmem)
  · have hle := h.length_le
    simp only [List.length_append] at hle
    omega
  · have hle := h.length_le
    omega
  · have hle := h.length_le
    simp only [List.length_append] at hle
    omega

private theorem takes_paren (w : WordClass) :
    ∀ r ∈ statusFabricateRe w :: dodFabricateRe w :: fabricateRes w,
      takes '(' r = false ∨ r = thisHostRe := by
  simp only [fabricateRes, List.forall_mem_cons]
  exact ⟨Or.inl rfl, Or.inl rfl, Or.inl rfl, Or.inl rfl, Or.inr trivial, Or.inl rfl,
    fun r hr ↦ absurd hr List.not_mem_nil⟩

private theorem lacks_hit {w : WordClass} {text hit : String} (h : hit ∈ fabricateHits w text) :
    Lacks successMarker ("DoD doc fabricates product evidence: " ++ hit ++ "") := by
  obtain ⟨pattern, hpattern, hhit⟩ := List.mem_flatMap.mp h
  rcases takes_paren w pattern hpattern with htakes | rfl
  · exact lacks_of_pair (c := '(') (d := 'b') (by decide) (by decide) (by decide)
      (not_mem_of_mem_finditerHits hhit htakes) (by decide)
  · obtain ⟨m, hmatch, -, -, rfl⟩ := exists_of_mem_finditerHits hhit
    rw [String.append_empty]
    exact lacks_thisHost (matchAt_spec hmatch).2.2

private theorem lacks_items {text : String} {u : List Char}
    (hu : ¬ ['(', 'b'] <:+: u ++ ['m', 'i', 's', 's', 'i', 'n', 'g', ' '])
    (hok : Lacks successMarker
      (.ofList u ++ "five product DoD items named (all expected unmet)")) :
    Lacks successMarker (.ofList u ++ (hasFiveItems text).2) := by
  rw [hasFiveItems]
  split
  · next hmissing =>
    apply lacks_missing (by decide) (by decide) hu (by decide) hmissing
    have hlabels : ∀ label ∈ fiveItems.map Prod.fst, '(' ∉ label.toList := by decide
    intro label hlabel
    obtain ⟨item, hitem, rfl⟩ := List.mem_map.mp hlabel
    exact hlabels item.1 (List.mem_map_of_mem (List.mem_filter.mp hitem).1)
  · exact hok

private theorem silent_dodReport (w : WordClass) (text : String) :
    (dodReport w text).Silent successMarker := by
  apply Report.Silent.all
  simp only [List.forall_mem_cons]
  refine ⟨?_, ?_, ?_, ?_, ?_, ?_, fun r hr ↦ absurd hr List.not_mem_nil⟩
  · exact silent_check (lacks_ofList_quote (by decide)) (fun _ ↦ lacks_ofList_quote (by decide))
      fun _ ↦ lacks_ofList (by decide +kernel)
  · exact silent_check (lacks_ofList_quote (by decide)) (fun _ ↦ lacks_ofList_quote (by decide))
      fun _ ↦ lacks_ofList (by decide +kernel)
  · exact silent_check_ofList (by decide +kernel) (by decide +kernel) (by decide +kernel)
  · exact silent_check (lacks_items (by decide) (lacks_ofList_append (by decide +kernel)))
      (fun _ ↦ lacks_items (by decide) (lacks_ofList_append (by decide +kernel)))
      fun _ ↦ lacks_items (by decide) (lacks_ofList_append (by decide +kernel))
  · refine silent_check (lacks_ofList (by decide +kernel)) ?_ fun _ ↦
      lacks_ofList (by decide +kernel)
    intro hhits
    have hjoin := lacks_join wording.plain.comma (by decide)
      (List.isEmpty_eq_false_iff.mp hhits) fun hit hhit ↦ lacks_hit hhit
    rwa [String.append_empty] at hjoin
  · refine silent_check (lacks_ofList (by decide +kernel)) ?_ fun _ ↦
      lacks_ofList (by decide +kernel)
    intro hinvented
    exact lacks_join_of_pair (c := '(') (d := 'b') (by decide) (by decide) (by decide)
      (by decide) (by decide) (sortedSet_ne_nil hinvented)
      fun x hx ↦ not_mem_of_mem_sortedSet_findall hx rfl

private theorem isIn_render (w : WordClass) (files : Files) :
    isIn successMarker (render w files).1 = true ↔ (render w files).2 = 0 := by
  apply wording.isIn_finish
  rw [List.forall_mem_singleton]
  exact silent_checkText (silent_dodReport w)

end DodEvidence

namespace CegaBridge

/-- The frame and the required files of the gate. -/
def wording : Wording successMarker where
  frame := frame
  required := required
  plain := plain_ofList (by decide)
  mem := List.mem_singleton_self _
  silentFrame := Frame.silent_ofList (by repeat' first | exact .nil | apply Spelled.cons)
    (by decide +kernel) (by decide +kernel) (by decide +kernel)
  silentFiles := by
    apply SpelledFiles.silent
    · repeat' first | exact .nil | apply SpelledFiles.cons | apply Spelled.cons
    · decide +kernel

private theorem not_mem_of_mem_fabricateHits {w : WordClass} {text hit : String}
    (h : hit ∈ fabricateHits w text) : '(' ∉ hit.toList := by
  obtain ⟨pattern, hpattern, hhit⟩ := List.mem_flatMap.mp h
  have htakes : ∀ r ∈ statusFabricateRe w :: cegaFabricateRes w, takes '(' r = false := by
    simp only [cegaFabricateRes, List.forall_mem_cons]
    exact ⟨rfl, rfl, rfl, rfl, fun r hr ↦ absurd hr List.not_mem_nil⟩
  exact not_mem_of_mem_finditerHits hhit (htakes pattern hpattern)

private theorem lacks_hit {w : WordClass} {text hit : String} {u v : List Char}
    (h : hit ∈ fabricateHits w text) (hu : ¬ ['(', '4'] <:+: u) (hlast : u.getLast? ≠ some '(')
    (hv : ¬ ['(', '4'] <:+: v) : Lacks successMarker (.ofList u ++ hit ++ .ofList v) :=
  lacks_of_pair (by decide) hu hlast (not_mem_of_mem_fabricateHits h) hv

private theorem silent_failEach {marker : String} {items : List String} {failure line : String → String}
    (h : ∀ item ∈ items, Lacks marker (failure item) ∧ Lacks marker (line item)) :
    (failEach items failure line).Silent marker := by
  constructor
  · intro l hl
    obtain ⟨item, hitem, rfl⟩ := List.mem_map.mp hl
    exact (h item hitem).2
  · intro f hf
    obtain ⟨item, hitem, rfl⟩ := List.mem_map.mp hf
    exact (h item hitem).1

/-- What the check of the row in memory can find. -/
theorem lacks_of_mem_rowSelfCheck {w : WordClass} {text item : String}
    (h : item ∈ rowSelfCheck w text) :
    Lacks successMarker item ∧ Lacks successMarker ("- **FAIL " ++ item ++ "**") := by
  have hitems : ∀ item ∈ ["self-check: (4) **PASS** rewrite still matched",
      "self-check: (4) **Hold** … PASS cell still matched"],
      Lacks successMarker item ∧ Lacks successMarker ("- **FAIL " ++ item ++ "**") := by
    refine Spelled.forall_mem (by repeat' first | exact .nil | apply Spelled.cons) ?_
    intro c hc
    constructor
    · apply lacks_ofList
      revert c
      decide +kernel
    · rw [Lacks, String.toList_append, String.toList_append]
      repeat rw [String.toList_ofList]
      revert c
      decide +kernel
  apply hitems
  rcases List.mem_append.mp h with h | h
  · split at h
    · rw [List.mem_singleton.mp h]
      exact List.mem_cons_self
    · exact absurd h List.not_mem_nil
  · split at h
    · rw [List.mem_singleton.mp h]
      exact List.mem_cons_of_mem _ List.mem_cons_self
    · exact absurd h List.not_mem_nil

private theorem silent_adrReport (w : WordClass) (text : String) :
    (adrReport w text).Silent successMarker := by
  apply Report.Silent.all
  simp only [List.forall_mem_cons]
  refine ⟨?_, silent_failEach fun item hitem ↦ lacks_of_mem_rowSelfCheck hitem,
    silent_failEach fun hit hhit ↦ ⟨?_, ?_⟩, fun r hr ↦ absurd hr List.not_mem_nil⟩
  · exact silent_check (lacks_ofList_append (by decide +kernel))
      (fun _ ↦ lacks_ofList_append (by decide +kernel))
      fun _ ↦ lacks_ofList_append (by decide +kernel)
  · have hlacks : Lacks successMarker ("ADR positive claim: " ++ hit ++ "") :=
      lacks_hit hhit (by decide) (by decide) (by decide)
    rwa [String.append_empty] at hlacks
  · exact lacks_hit hhit (by decide) (by decide) (by decide)

private theorem silent_statusLineReport (w : WordClass) (text : String) :
    (statusLineReport w text).Silent successMarker := by
  have hfail : (⟨["- **FAIL status:** first `Status:` must be `Status: **Hold**`"],
      ["hold doc first `Status:` line is not `Status: **Hold**`"]⟩ : Report).Silent
      successMarker := by
    constructor
    · rw [List.forall_mem_singleton]
      exact lacks_ofList (by decide +kernel)
    · rw [List.forall_mem_singleton]
      exact lacks_ofList (by decide +kernel)
  rw [statusLineReport]
  split
  · split
    · exact silent_check (lacks_ofList (by decide +kernel))
        (fun _ ↦ lacks_ofList (by decide +kernel))
        fun _ ↦ lacks_ofList_append (by decide +kernel)
    · exact hfail
  · exact hfail

private theorem silent_phaseReport (text : String) : (phaseReport text).Silent successMarker := by
  have hjoin : ∀ u : List Char, ¬ ['(', '4'] <:+: u → u.getLast? = some ' ' →
      (["《3》", "《4》", "《5》", "《6》"].filter fun m ↦ !isIn m text).isEmpty = false →
      Lacks successMarker (.ofList u ++
        ", ".intercalate (["《3》", "《4》", "《5》", "《6》"].filter fun m ↦ !isIn m text)) := by
    intro u hu hlast hmissing
    apply lacks_join_of_pair (by decide) (by decide) hu hlast (by decide)
    · exact List.isEmpty_eq_false_iff.mp hmissing
    · have hphases : ∀ m ∈ ["《3》", "《4》", "《5》", "《6》"], '(' ∉ m.toList := by decide
      exact fun m hm ↦ hphases m (List.mem_filter.mp hm).1
  exact silent_check (lacks_ofList (by decide +kernel)) (hjoin _ (by decide) (by decide))
    (hjoin _ (by decide) (by decide))

private theorem silent_holdReport (w : WordClass) (text : String) :
    (holdReport w text).Silent successMarker := by
  apply Report.Silent.all
  simp only [List.forall_mem_cons]
  refine ⟨silent_statusLineReport w text, ?_, silent_failEach fun hit hhit ↦ ⟨?_, ?_⟩, ?_, ?_, ?_,
    silent_phaseReport text, fun r hr ↦ absurd hr List.not_mem_nil⟩
  · exact silent_check_ofList (by decide +kernel) (by decide +kernel) (by decide +kernel)
  · have hlacks : Lacks successMarker ("hold doc positive claim: " ++ hit ++ "") :=
      lacks_hit hhit (by decide) (by decide) (by decide)
    rwa [String.append_empty] at hlacks
  · exact lacks_hit hhit (by decide) (by decide) (by decide)
  · exact silent_check_ofList (by decide +kernel) (by decide +kernel) (by decide +kernel)
  · exact silent_check (lacks_ofList (by decide +kernel))
      (fun _ ↦ lacks_ofList (by decide +kernel)) fun _ ↦ lacks_ofList_append (by decide +kernel)
  · exact silent_check_ofList (by decide +kernel) (by decide +kernel) (by decide +kernel)

private theorem silent_runtimeReport (files : Files) :
    ∀ r ∈ runtimeRels.map (runtimeReport files), r.Silent successMarker := by
  have hrels : ∀ rel ∈ runtimeRels, Lacks successMarker rel := by
    refine Spelled.forall_mem (by repeat' first | exact .nil | apply Spelled.cons) ?_
    intro c hc
    apply lacks_ofList
    revert c
    decide +kernel
  intro r hr
  obtain ⟨rel, hrel, rfl⟩ := List.mem_map.mp hr
  have hlacks := hrels rel hrel
  have hquote := wording.plain.lacks (x := "`") (by decide)
  apply silent_check
  · exact wording.plain.lacks_quote (by decide) (by decide) hlacks
      (lacks_ofList (by decide +kernel)) (by decide)
  · exact fun _ ↦ lacks_quote wording.plain.quote (by decide) (by decide)
      (lacks_ofList (by decide +kernel)) hlacks hquote
  · exact fun _ ↦ lacks_quote wording.plain.quote (by decide) (by decide)
      (lacks_ofList (by decide +kernel)) hlacks hquote

private theorem isIn_render (w : WordClass) (files : Files) :
    isIn successMarker (render w files).1 = true ↔ (render w files).2 = 0 := by
  rw [render, List.append_assoc]
  apply wording.isIn_finish
  refine List.forall_mem_append.mpr ⟨?_, silent_runtimeReport files⟩
  rw [List.forall_mem_cons, List.forall_mem_singleton]
  exact ⟨silent_checkText (silent_adrReport w), silent_checkText (silent_holdReport w)⟩

end CegaBridge

namespace DualChain

/-- The frame and the required files of the gate, with its success marker. -/
def wording : Wording successMarker where
  frame := frame
  required := required
  plain := plain_ofList (by decide)
  mem := List.mem_cons_self
  silentFrame := Frame.silent_ofList (by repeat' first | exact .nil | apply Spelled.cons)
    (by decide +kernel) (by decide +kernel) (by decide +kernel)
  silentFiles := by
    apply SpelledFiles.silent
    · repeat' first | exact .nil | apply SpelledFiles.cons | apply Spelled.cons
    · decide +kernel

/-- The same with the marker of the paused mode. -/
def pausedWording : Wording pausedMarker where
  frame := frame
  required := required
  plain := plain_ofList (by decide)
  mem := List.mem_cons_of_mem _ List.mem_cons_self
  silentFrame := Frame.silent_ofList (by repeat' first | exact .nil | apply Spelled.cons)
    (by decide +kernel) (by decide +kernel) (by decide +kernel)
  silentFiles := by
    apply SpelledFiles.silent
    · repeat' first | exact .nil | apply SpelledFiles.cons | apply Spelled.cons
    · decide +kernel

private theorem lacks_both {u v x : List Char} (h : ∀ w ∈ [u, v], ¬ w <:+: x) :
    ∀ m ∈ [String.ofList u, String.ofList v], Lacks m (.ofList x) :=
  (Spelled.cons u (.cons v .nil)).forall_mem fun w hw ↦ lacks_ofList (h w hw)

private theorem lacks_both_append {u v x y : List Char} (h : ∀ w ∈ [u, v], ¬ w <:+: x ++ y) :
    ∀ m ∈ [String.ofList u, String.ofList v], Lacks m (.ofList x ++ .ofList y) := by
  rw [← String.ofList_append]
  exact lacks_both h

private theorem silent_both {passed : Bool} {u v ok failure fail : List Char}
    (h : ∀ w ∈ [u, v], ¬ w <:+: ok ∧ ¬ w <:+: failure ∧ ¬ w <:+: fail) :
    ∀ m ∈ [String.ofList u, String.ofList v],
      (check passed (.ofList ok) (.ofList failure) (.ofList fail)).Silent m :=
  (Spelled.cons u (.cons v .nil)).forall_mem fun w hw ↦
    silent_check_ofList (h w hw).1 (h w hw).2.1 (h w hw).2.2

private theorem lacks_invented {text : String} (h : (findall percentileRe text).isEmpty = false) :
    ∀ m ∈ frame.markers, Lacks m ("baseline doc invents booked percentile token(s): " ++
      ", ".intercalate (sortedSet (findall percentileRe text))) := by
  intro m hm
  rcases List.mem_cons.mp hm with rfl | hm
  · exact lacks_join_of_pair (c := '(') (d := 'n') (by decide) (by decide) (by decide) (by decide)
      (by decide) (sortedSet_ne_nil h) fun x hx ↦ not_mem_of_mem_sortedSet_findall hx rfl
  · obtain rfl := List.mem_singleton.mp hm
    exact lacks_join_of_pair (c := 'g') (d := 'y') (by decide) (by decide) (by decide) (by decide)
      (by decide) (sortedSet_ne_nil h) fun x hx ↦ not_mem_of_mem_sortedSet_findall hx rfl

private theorem silent_baselineReport (text : String) :
    ∀ m ∈ frame.markers, (baselineReport text).Silent m := by
  intro m hm
  apply Report.Silent.all
  simp only [List.forall_mem_cons]
  refine ⟨?_, ?_, ?_, ?_, ?_, fun r hr ↦ absurd hr List.not_mem_nil⟩
  · exact silent_both (by decide +kernel) m hm
  · exact silent_both (by decide +kernel) m hm
  · exact silent_both (by decide +kernel) m hm
  · exact silent_both (by decide +kernel) m hm
  · exact silent_check (lacks_both (by decide +kernel) m hm) (fun h ↦ lacks_invented h m hm)
      fun _ ↦ lacks_both (by decide +kernel) m hm

private theorem silent_chainAReport (text : String) :
    ∀ m ∈ frame.markers, (chainAReport text).Silent m :=
  silent_both (by decide +kernel)

private theorem silent_chainBReport (text : String) :
    ∀ m ∈ frame.markers, (chainBReport text).Silent m := by
  intro m hm
  apply Report.Silent.all
  simp only [List.forall_mem_cons]
  refine ⟨silent_both (by decide +kernel) m hm, ?_, fun r hr ↦ absurd hr List.not_mem_nil⟩
  split
  · constructor
    · rw [List.forall_mem_singleton]
      exact lacks_both (by decide +kernel) m hm
    · rw [List.forall_mem_singleton]
      exact lacks_both (by decide +kernel) m hm
  · exact silent_check (lacks_both_append (by decide +kernel) m hm)
      (fun _ ↦ lacks_both (by decide +kernel) m hm) fun _ ↦ lacks_both (by decide +kernel) m hm

private theorem silent_checks (files : Files) : ∀ m ∈ frame.markers,
    ∀ r ∈ [checkText files baselineRel baselineReport, checkText files chainARel chainAReport,
      checkText files chainBRel chainBReport], r.Silent m := by
  intro m hm
  simp only [List.forall_mem_cons]
  exact ⟨silent_checkText fun text ↦ silent_baselineReport text m hm,
    silent_checkText fun text ↦ silent_chainAReport text m hm,
    silent_checkText fun text ↦ silent_chainBReport text m hm,
    fun r hr ↦ absurd hr List.not_mem_nil⟩

private theorem isIn_render (files : Files) : ∀ m ∈ frame.markers,
    isIn m (render files).1 = true ↔ (render files).2 = 0 := by
  intro m hm
  have hchecks := silent_checks files m hm
  rcases List.mem_cons.mp hm with rfl | hm
  · exact wording.isIn_finish hchecks
  · obtain rfl := List.mem_singleton.mp hm
    exact pausedWording.isIn_finish hchecks

end DualChain

/-- Each of the four gates prints each of its success markers exactly if it passes, whatever the
files say. -/
theorem markers_iff (w : WordClass) (files : Files) :
    (isIn DodEvidence.successMarker (DodEvidence.render w files).1 = true ↔
        (DodEvidence.render w files).2 = 0) ∧
      (isIn DualChain.successMarker (DualChain.render files).1 = true ↔
        (DualChain.render files).2 = 0) ∧
      (isIn DualChain.pausedMarker (DualChain.render files).1 = true ↔
        (DualChain.render files).2 = 0) ∧
      (isIn ThreeChain.successMarker (ThreeChain.render w files).1 = true ↔
        (ThreeChain.render w files).2 = 0) ∧
      (isIn CegaBridge.successMarker (CegaBridge.render w files).1 = true ↔
        (CegaBridge.render w files).2 = 0) :=
  ⟨DodEvidence.isIn_render w files,
    DualChain.isIn_render files _ List.mem_cons_self,
    DualChain.isIn_render files _ (List.mem_cons_of_mem _ List.mem_cons_self),
    ThreeChain.isIn_render w files, CegaBridge.isIn_render w files⟩

end HzjDds.Gates
