import HzjDds.Gates.Percentiles
import HzjDds.Gates.Prototype

/-!
# Signatures of the watched functions

Source: `scripts/eval/test_api_surface.py:31–84,140–172`. The gate compares what it cuts out of the
header in the work tree and in the last commit. A declaration is what it is in C: comments stand
between its words and in its parameter list.
-/

namespace HzjDds.Gates.ApiSurface

open Python Regex

/-! ## The check -/

/-- `WATCHED_FUNCS`. -/
def watchedFuncs : List String := ["rmw_publish", "rmw_take", "rmw_wait",
  "rmw_get_implementation_identifier", "rmw_create_publisher", "rmw_create_subscription",
  "rmw_create_node"]

/-- Status of a check. -/
inductive CheckStatus where
  | pass
  | fail
  | blocked
  deriving DecidableEq, Repr

/-- A function whose prototype has changed. -/
structure Change where
  func : String
  head : String
  worktree : String
  deriving DecidableEq, Repr

/-- Result of a check; `changes` and `file` are its details. -/
structure CheckResult where
  name : String
  status : CheckStatus
  summary : String
  changes : List Change := []
  file : Option String := none
  deriving DecidableEq, Repr

/-- `RMW_H_REL`. -/
def rmwHRel : String := "vendor/rmw/rmw/include/rmw/rmw.h"

/-- Changes that the loop of `check_signatures_unchanged` collects. -/
def signatureChanges (w : IdentClass) (cur base : String) : List Change :=
  (watchedFuncs.map fun func ↦
    ⟨func, (extractPrototype w base func).getD "", (extractPrototype w cur func).getD ""⟩).filter
    fun change ↦ change.worktree ≠ change.head

/-- `check_signatures_unchanged`, given the texts of the header in the work tree and in the last
commit, if there are any. -/
def checkSignaturesUnchanged (w : IdentClass) (curText baseText : Option String) : CheckResult :=
  match curText, baseText with
  | none, _ => ⟨"api.signature_diff", .fail, "missing " ++ rmwHRel, [], none⟩
  | some _, none => ⟨"api.signature_diff", .blocked,
      "blocked: 无法从 git HEAD 取到 " ++ rmwHRel ++ "（不是 git 仓库或 HEAD 无此文件）", [],
      some rmwHRel⟩
  | some cur, some base =>
    let changes := signatureChanges w cur base
    if changes = [] then ⟨"api.signature_diff", .pass, "所有 watched 函数签名与 HEAD 一致（" ++
      toString watchedFuncs.length ++ " 个）", changes, none⟩
    else ⟨"api.signature_diff", .fail, toString changes.length ++
      " 个函数签名相对 HEAD 发生变化（ABI break 风险）", changes, none⟩

/-! ## Declarations -/

/-- Characters of a class and comments. -/
inductive Pieces (p : Char → Bool) : List Char → Prop where
  | nil : Pieces p []
  | char {c : Char} {s : List Char} (hc : p c = true) (hs : Pieces p s) : Pieces p (c :: s)
  | block {body s : List Char} (hbody : ¬ ['*', '/'] <:+: body ++ ['*']) (hs : Pieces p s) :
    Pieces p ('/' :: '*' :: (body ++ '*' :: '/' :: s))
  | line {body s : List Char} (hbody : '\n' ∉ body) (hs : Pieces p s) :
    Pieces p ('/' :: '/' :: (body ++ '\n' :: s))

/-- A parameter list. The parentheses outside its comments are nested. -/
inductive Nested : List Char → Prop where
  | nil : Nested []
  | char {c : Char} {s : List Char} (hc : c ≠ '(' ∧ c ≠ ')') (hs : Nested s) : Nested (c :: s)
  | block {body s : List Char} (hbody : ¬ ['*', '/'] <:+: body ++ ['*']) (hs : Nested s) :
    Nested ('/' :: '*' :: (body ++ '*' :: '/' :: s))
  | line {body s : List Char} (hbody : '\n' ∉ body) (hs : Nested s) :
    Nested ('/' :: '/' :: (body ++ '\n' :: s))
  | parens {s t : List Char} (hs : Nested s) (ht : Nested t) : Nested ('(' :: (s ++ ')' :: t))

/-- A declaration of a function in a text: its return type with all words before it, its name, its
parameter list, and what stands before and behind. -/
structure Declared (w : IdentClass) (func : String) (text : List Char) where
  before : List Char
  specifiers : List Char
  gap : List Char
  params : List Char
  after : List Char
  text_eq : text = before ++
    (specifiers ++ (func.toList ++ (gap ++ '(' :: (params ++ ')' :: after))))
  specifiersPieces : Pieces (isTypeChar w) specifiers
  begins : ∃ c s, specifiers = c :: s ∧ w.isWord c = true
  apart : ∀ c ∈ specifiers.getLast?, w.isWord c = false
  gapPieces : Pieces isSpace gap
  paramsNested : Nested params
  ends : ';' ∈ after

variable {w : IdentClass} {func : String} {text : List Char}

/-- The text of a declaration. -/
def Declared.chars (d : Declared w func text) : List Char :=
  d.specifiers ++ (func.toList ++ (d.gap ++ '(' :: (d.params ++ [')'])))

/-- What is cut out of a text is the declaration, with white space before it. -/
def Sees (d : Declared w func text) : Prop :=
  ∃ start, prototypeSpan w func text = some (start, (d.before ++ d.chars).length) ∧
    start ≤ d.before.length ∧ ∀ c ∈ d.before.drop start, isSpace c = true

/-- With `depth` parentheses open no closing one is too many, and at the end all are closed. -/
structure Balanced (depth : ℕ) (s : List Char) : Prop where
  open_ : ∀ a b, s = a ++ b → a.count ')' ≤ depth + a.count '('
  closed : s.count ')' = depth + s.count '('

/-- A declaration is written so that the gate finds it. No comment stands among its words or behind
its name, and those in its parameter list have balanced parentheses. It begins on a line of its own,
with no line of mere words above it, and no mention of the function stands before it. -/
structure Visible (d : Declared w func text) : Prop where
  specifiers : '/' ∉ d.specifiers
  gap : '/' ∉ d.gap
  params : Balanced 0 d.params
  ownLine : ∃ lead blank, d.before = lead ++ blank ∧ AtLine lead ∧ ∀ c ∈ blank, isSpace c = true
  noWords : ∀ lead line, d.before = lead ++ line → AtLine lead →
    (∀ c ∈ line, isTypeChar w c = true) → ∀ c ∈ line, isSpace c = true
  noMention : ∀ lead words gap rest, Mention w func text lead words gap rest →
    (d.before ++ d.specifiers).length ≤ (lead ++ words).length

section

variable {p q : Char → Bool} {s t : List Char}

/-- Pieces one after the other. -/
theorem Pieces.append (hs : Pieces p s) (ht : Pieces p t) : Pieces p (s ++ t) := by
  induction hs with
  | nil => exact ht
  | char hc _ ih => exact .char hc ih
  | block hbody _ ih => simpa using Pieces.block hbody ih
  | line hbody _ ih => simpa using Pieces.line hbody ih

/-- Pieces of a smaller class. -/
theorem Pieces.mono (hs : Pieces p s) (h : ∀ c, p c = true → q c = true) : Pieces q s := by
  induction hs with
  | nil => exact .nil
  | char hc _ ih => exact .char (h _ hc) ih
  | block hbody _ ih => exact .block hbody ih
  | line hbody _ ih => exact .line hbody ih

private theorem Pieces.of_forall (h : ∀ c ∈ s, p c = true) : Pieces p s := by
  induction s with
  | nil => exact .nil
  | cons c s ih =>
    rw [List.forall_mem_cons] at h
    exact .char h.1 (ih h.2)

private theorem Pieces.forall_of_noSlash (hs : Pieces p s) (h : '/' ∉ s) : ∀ c ∈ s, p c = true := by
  induction hs with
  | nil => exact fun c hc ↦ absurd hc List.not_mem_nil
  | char hc _ ih =>
    rw [List.mem_cons, not_or] at h
    exact List.forall_mem_cons.mpr ⟨hc, ih h.2⟩
  | block => exact absurd List.mem_cons_self h
  | line => exact absurd List.mem_cons_self h

private theorem Pieces.slash_mem {a b : List Char} {x : Char} (hs : Pieces p s) (hx : p x = false)
    (hslash : x ≠ '/') (hsplit : s = a ++ x :: b) : '/' ∈ a := by
  induction hs generalizing a with
  | nil => simp at hsplit
  | char hc _ ih =>
    cases a with
    | nil =>
      obtain ⟨rfl, -⟩ := List.cons_eq_cons.mp hsplit
      rw [hx] at hc
      contradiction
    | cons y a =>
      obtain ⟨rfl, htail⟩ := List.cons_eq_cons.mp hsplit
      exact List.mem_cons_of_mem _ (ih htail)
  | block | line =>
    cases a with
    | nil => exact absurd (List.cons_eq_cons.mp hsplit).1.symm hslash
    | cons y a =>
      obtain ⟨rfl, -⟩ := List.cons_eq_cons.mp hsplit
      exact List.mem_cons_self

end

/-! ## The scan of the parentheses -/

/-- One character further other parentheses are open. -/
theorem balanced_cons {depth depth' : ℕ} {c : Char} {s : List Char}
    (h : depth + [c].count '(' = depth' + [c].count ')') :
    Balanced depth (c :: s) ↔ Balanced depth' s := by
  have hcount : ∀ (x : Char) (a : List Char), (c :: a).count x = [c].count x + a.count x := by
    intro x a
    rw [← List.singleton_append, List.count_append]
  constructor
  · intro hbalanced
    constructor
    case open_ =>
      rintro a b rfl
      have hopen := hbalanced.open_ (c :: a) b rfl
      rw [hcount ')' a, hcount '(' a] at hopen
      omega
    case closed =>
      have hclosed := hbalanced.closed
      rw [hcount ')' s, hcount '(' s] at hclosed
      omega
  · intro hbalanced
    constructor
    case open_ =>
      intro a b hab
      cases a with
      | nil => simp
      | cons x a =>
        obtain ⟨rfl, htail⟩ := List.cons_eq_cons.mp hab
        have hopen := hbalanced.open_ a b htail
        rw [hcount ')' a, hcount '(' a]
        omega
    case closed =>
      have hclosed := hbalanced.closed
      rw [hcount ')' s, hcount '(' s]
      omega

/-- The scan ends at a parenthesis exactly if those before it are balanced. -/
theorem closing_eq_iff {depth : ℕ} {s t : List Char} (ht : t ≠ []) :
    closing (depth + 1) (s ++ ')' :: t) = s.length + 1 ↔ Balanced depth s := by
  induction s generalizing depth with
  | nil =>
    have hdepth : closing depth t = 0 ↔ depth = 0 := by
      obtain ⟨c, t, rfl⟩ := List.exists_cons_of_ne_nil ht
      cases depth with
      | zero => simp [closing]
      | succ depth => simp [closing]
    rw [List.nil_append, closing, if_neg (by decide), if_pos rfl, List.length_nil]
    constructor
    · intro h
      have hzero : closing depth t = 0 := by omega
      refine ⟨fun a b hab ↦ ?_, ?_⟩
      · obtain ⟨rfl, rfl⟩ := List.append_eq_nil_iff.mp hab.symm
        exact Nat.zero_le _
      · simp [hdepth.mp hzero]
    · intro h
      have hclosed := h.closed
      simp only [List.count_nil] at hclosed
      rw [hdepth.mpr (by omega)]
  | cons c s ih =>
    have hstep : ∀ n, 1 + n = (c :: s).length + 1 ↔ n = s.length + 1 := by
      intro n
      rw [List.length_cons]
      omega
    rw [List.cons_append, closing, hstep]
    by_cases hopen : c = '('
    · rw [if_pos hopen, ih]
      exact (balanced_cons (by subst hopen; rfl)).symm
    rw [if_neg hopen]
    by_cases hclose : c = ')'
    · rw [if_pos hclose]
      cases depth with
      | zero =>
        refine iff_of_false (by simp [closing]) fun h ↦ ?_
        have hfirst := h.open_ [c] s rfl
        subst hclose
        simp at hfirst
      | succ depth =>
        rw [ih]
        exact (balanced_cons (by subst hclose; rfl)).symm
    · rw [if_neg hclose, ih]
      exact (balanced_cons (by simp [hopen, hclose])).symm

/-! ## The declaration is found where it is visible -/

private theorem append_paren_inj {a b s t : List Char} (h : a ++ '(' :: s = b ++ '(' :: t) (ha : '(' ∉ a)
    (hb : '(' ∉ b) : a = b ∧ s = t := by
  rcases List.append_eq_append_iff.mp h with ⟨u, rfl, hu⟩ | ⟨u, rfl, hu⟩
  · cases u with
    | nil => exact ⟨(List.append_nil a).symm, (List.cons_eq_cons.mp hu).2⟩
    | cons x u =>
      obtain ⟨rfl, -⟩ := List.cons_eq_cons.mp hu
      exact absurd (by simp) hb
  · cases u with
    | nil => exact ⟨List.append_nil b, (List.cons_eq_cons.mp hu).2.symm⟩
    | cons x u =>
      obtain ⟨rfl, -⟩ := List.cons_eq_cons.mp hu
      exact absurd (by simp) ha

private theorem append_space_inj {a b s t : List Char} (h : a ++ s = b ++ t)
    (ha : ∀ c ∈ a.getLast?, isSpace c = false) (hb : ∀ c ∈ b.getLast?, isSpace c = false)
    (hs : ∀ c ∈ s, isSpace c = true) (ht : ∀ c ∈ t, isSpace c = true) : a = b ∧ s = t := by
  have hlast : ∀ (u v : List Char), (∀ c ∈ (u ++ v).getLast?, isSpace c = false) →
      (∀ c ∈ v, isSpace c = true) → v = [] := by
    intro u v huv hv
    by_contra hne
    have hmem : v.getLast hne ∈ (u ++ v).getLast? := by
      rw [List.getLast?_append, List.getLast?_eq_getLast_of_ne_nil hne]
      rfl
    have hspace := hv _ (List.getLast_mem hne)
    rw [huv _ hmem] at hspace
    contradiction
  rcases List.append_eq_append_iff.mp h with ⟨u, rfl, rfl⟩ | ⟨u, rfl, rfl⟩
  · obtain rfl := hlast a u hb fun c hc ↦ hs c (List.mem_append_left t hc)
    exact ⟨(List.append_nil a).symm, rfl⟩
  · obtain rfl := hlast b u ha fun c hc ↦ ht c (List.mem_append_left s hc)
    exact ⟨List.append_nil b, rfl⟩

section

variable {d : Declared w func text} {lead line : List Char}

private theorem isWord_of_mem (hfunc : Ident func) {c : Char} (hc : c ∈ func.toList) :
    w.isWord c = true := w.ascii c (hfunc.2 c hc)

/-- A declaration without comments is mentioned where a line begins with words before it. -/
theorem Declared.mention (hspecifiers : '/' ∉ d.specifiers) (hgap : '/' ∉ d.gap)
    (hbefore : d.before = lead ++ line) (hlead : AtLine lead)
    (hline : ∀ c ∈ line, isTypeChar w c = true) :
    Mention w func text lead (line ++ d.specifiers) d.gap (d.params ++ ')' :: d.after) := by
  obtain ⟨x, s, hbegins, -⟩ := d.begins
  have hne : d.specifiers ≠ [] := hbegins ▸ List.cons_ne_nil x s
  constructor
  case text_eq =>
    have htext := d.text_eq
    rw [hbefore] at htext
    exact htext.trans (by simp)
  case line => exact hlead
  case words_ne => exact List.append_ne_nil_of_right_ne_nil line hne
  case wordsType =>
    rw [List.forall_mem_append]
    exact ⟨hline, d.specifiersPieces.forall_of_noSlash hspecifiers⟩
  case apart =>
    intro c hc
    rw [List.getLast?_append_of_ne_nil line hne] at hc
    exact d.apart c hc
  case gapSpace => exact d.gapPieces.forall_of_noSlash hgap

private theorem Declared.paren_not_mem (d : Declared w func text) (hfunc : Ident func) {words : List Char}
    {rest : List Char} (hline : ∀ c ∈ line, isTypeChar w c = true) (hparen : '(' ∉ words)
    (hslash : '/' ∉ words)
    (h : words ++ '(' :: rest = line ++ (d.specifiers ++ (func.toList ++ d.gap)) ++
      '(' :: (d.params ++ ')' :: d.after)) :
    '(' ∉ line ++ (d.specifiers ++ (func.toList ++ d.gap)) := by
  have hpieces : Pieces (isTypeChar w) (line ++ (d.specifiers ++ (func.toList ++ d.gap))) := by
    apply (Pieces.of_forall hline).append
    apply d.specifiersPieces.append
    apply (Pieces.of_forall fun c hc ↦ ?_).append
    · apply d.gapPieces.mono
      intro c hc
      simp [isTypeChar, hc]
    · simp [isTypeChar, isWord_of_mem hfunc hc]
  intro hmem
  obtain ⟨a, b, hsplit, ha⟩ := List.eq_append_cons_of_mem hmem
  have hslash' := hpieces.slash_mem (not_isTypeChar (Or.inl rfl)) (by decide) hsplit
  rw [hsplit, List.append_assoc, List.cons_append] at h
  obtain ⟨rfl, -⟩ := append_paren_inj h hparen ha
  exact hslash hslash'

/-- What is cut out at a mention of a declaration that it does not pass is the declaration. -/
theorem Declared.words_eq (hfunc : Ident func) {words gap rest : List Char}
    (hmention : Mention w func text lead words gap rest) (hbefore : d.before = lead ++ line)
    (hline : ∀ c ∈ line, isSpace c = true) : words = line ++ d.specifiers ∧ '/' ∉ d.specifiers ∧
      '/' ∉ d.gap ∧ gap = d.gap ∧ rest = d.params ++ ')' :: d.after := by
  have htext : lead ++ (words ++ (func.toList ++ (gap ++ '(' :: rest))) =
      lead ++ (line ++ (d.specifiers ++ (func.toList ++ (d.gap ++ '(' ::
        (d.params ++ ')' :: d.after))))) := by
    rw [← hmention.text_eq, ← List.append_assoc lead, ← hbefore]
    exact d.text_eq
  have hsame : words ++ (func.toList ++ gap) ++ '(' :: rest =
      line ++ (d.specifiers ++ (func.toList ++ d.gap)) ++ '(' :: (d.params ++ ')' :: d.after) := by
    simpa using List.append_cancel_left htext
  have htype : ∀ c ∈ line, isTypeChar w c = true := fun c hc ↦ by simp [isTypeChar, hline c hc]
  have hslash := hmention.not_mem (Or.inr rfl) hfunc
  have hparen := hmention.not_mem (Or.inl rfl) hfunc
  obtain ⟨hwords, rfl⟩ := append_paren_inj hsame hparen
    (d.paren_not_mem hfunc htype hparen hslash hsame)
  rw [hwords] at hslash
  simp only [List.mem_append, not_or] at hslash
  have hgap := d.gapPieces.forall_of_noSlash hslash.2.2.2
  have hlast : ∀ u : List Char, ∀ c ∈ (u ++ func.toList).getLast?, isSpace c = false := by
    intro u c hc
    rw [List.getLast?_append_of_ne_nil u hfunc.1] at hc
    by_contra hspace
    rw [Bool.not_eq_false] at hspace
    have hword := isWord_of_mem (w := w) hfunc (List.mem_of_mem_getLast? hc)
    rw [w.notSpace c hspace] at hword
    contradiction
  have hstrip : words ++ func.toList ++ gap = line ++ d.specifiers ++ func.toList ++ d.gap := by
    simpa using hwords
  obtain ⟨hname, rfl⟩ := append_space_inj hstrip (hlast _) (hlast _) hmention.gapSpace hgap
  exact ⟨List.append_cancel_right hname, hslash.2.1, hslash.2.2.2, rfl, rfl⟩

private theorem blank_of_near {lead' blank : List Char} (hlead : AtLine lead)
    (hsplit : lead ++ blank = lead' ++ line) (hblank : ∀ c ∈ blank, isSpace c = true)
    (hnear : lead.length ≤ lead'.length + 1) : ∀ c ∈ line, isSpace c = true := by
  rcases List.append_eq_append_iff.mp hsplit with ⟨u, -, rfl⟩ | ⟨u, rfl, rfl⟩
  · exact fun c hc ↦ hblank c (List.mem_append_right u hc)
  · rw [List.forall_mem_append]
    refine ⟨fun c hc ↦ ?_, hblank⟩
    have hone : u = [c] := by
      rw [List.length_append] at hnear
      obtain ⟨x, rfl⟩ := List.length_eq_one_iff.mp
        (show u.length = 1 by have := List.length_pos_of_mem hc; omega)
      rw [List.mem_singleton.mp hc]
    have hbreak : c = '\n' := hlead c (by rw [hone]; simp)
    rw [hbreak]
    decide

/-- The gate sees only declarations that are visible. -/
theorem Sees.visible (hfunc : Ident func) (h : Sees d) : Visible d := by
  obtain ⟨start, hspan, hstart, hblank⟩ := h
  rcases prototypeSpan_cases hfunc text with ⟨hnone, -⟩ | ⟨lead, words, gap, rest, hmention, hsome,
    hfirst⟩
  · rw [hnone] at hspan
    contradiction
  rw [hsome, Option.some.injEq, Prod.mk.injEq] at hspan
  obtain ⟨rfl, hstop⟩ := hspan
  have hbefore : d.before = lead ++ d.before.drop lead.length := by
    have hlead : lead <+: d.before :=
      List.prefix_of_prefix_length_le ⟨_, hmention.text_eq.symm⟩ ⟨_, d.text_eq.symm⟩ hstart
    exact (List.prefix_iff_eq_append.mp hlead).symm
  obtain ⟨rfl, hspecifiers, hgap, rfl, rfl⟩ := d.words_eq hfunc hmention hbefore hblank
  constructor
  case specifiers => exact hspecifiers
  case gap => exact hgap
  case params =>
    have hne : d.after ≠ [] := List.ne_nil_of_mem d.ends
    rw [← closing_eq_iff hne]
    show closing 1 (d.params ++ ')' :: d.after) = d.params.length + 1
    have hlength := congrArg List.length hbefore
    rw [List.length_append] at hlength
    simp only [Declared.chars, List.length_append, List.length_cons, List.length_nil] at hstop
    omega
  case ownLine => exact ⟨lead, _, hbefore, hmention.line, hblank⟩
  case noWords =>
    intro lead' line hsplit hlead' hline
    have hmention' := Declared.mention hspecifiers hgap hsplit hlead' hline
    have hnear := hfirst _ _ _ _ hmention'
    rw [hbefore] at hsplit
    exact blank_of_near hmention.line hsplit hblank hnear
  case noMention =>
    intro lead' words' gap' rest' hmention'
    have hle := hmention.le_of_le hfunc hmention' (hfirst _ _ _ _ hmention')
    rwa [← List.append_assoc, ← hbefore] at hle

private theorem Visible.exists_mention (h : Visible d) : ∃ lead blank, d.before = lead ++ blank ∧
    Mention w func text lead (blank ++ d.specifiers) d.gap (d.params ++ ')' :: d.after) := by
  obtain ⟨lead, blank, hbefore, hlead, hblank⟩ := h.ownLine
  refine ⟨lead, blank, hbefore, Declared.mention h.specifiers h.gap hbefore hlead fun c hc ↦ ?_⟩
  simp [isTypeChar, hblank c hc]

private theorem Visible.append_eq (hfunc : Ident func) (h : Visible d) {words gap rest : List Char}
    (hmention : Mention w func text lead words gap rest)
    (hfirst : ∀ lead' words' gap' rest', Mention w func text lead' words' gap' rest' →
      lead.length ≤ lead'.length + 1) : lead ++ words = d.before ++ d.specifiers := by
  obtain ⟨lead₀, blank, hbefore₀, hmention₀⟩ := h.exists_mention
  have hname : (lead ++ words).length = (d.before ++ d.specifiers).length := by
    apply le_antisymm
    · have hle := hmention.le_of_le hfunc hmention₀ (hfirst _ _ _ _ hmention₀)
      rwa [← List.append_assoc, ← hbefore₀] at hle
    · exact h.noMention _ _ _ _ hmention
  have hfound : lead ++ words <+: text :=
    ⟨_, (List.append_assoc _ _ _).trans hmention.text_eq.symm⟩
  have hdeclared : d.before ++ d.specifiers <+: text :=
    ⟨_, (List.append_assoc _ _ _).trans d.text_eq.symm⟩
  exact (List.prefix_of_prefix_length_le hfound hdeclared hname.le).eq_of_length hname

private theorem Visible.isPrefix_before (h : Visible d) {words : List Char} (hlead : AtLine lead)
    (hsame : lead ++ words = d.before ++ d.specifiers)
    (hfirst : ∀ lead' words' gap' rest', Mention w func text lead' words' gap' rest' →
      lead.length ≤ lead'.length + 1) : lead <+: d.before := by
  obtain ⟨lead₀, blank, hbefore₀, hmention₀⟩ := h.exists_mention
  have hnear := hfirst _ _ _ _ hmention₀
  rcases List.append_eq_append_iff.mp hsame with ⟨u, hbefore, -⟩ | ⟨u, hlead', hspecifiers⟩
  · exact ⟨u, hbefore.symm⟩
  · -- the line break before the blanks would be the first character of the declaration
    cases u with
    | nil => rw [hlead', List.append_nil]
    | cons c u =>
      rw [hlead', hbefore₀] at hnear
      simp only [List.length_append, List.length_cons] at hnear
      obtain rfl : u = [] := List.eq_nil_of_length_eq_zero (by omega)
      have hbreak : c = '\n' := hlead c (by rw [hlead']; simp)
      obtain ⟨x, s, hbegins, hword⟩ := d.begins
      rw [hbegins] at hspecifiers
      obtain ⟨rfl, -⟩ := List.cons_eq_cons.mp hspecifiers
      rw [w.notSpace x (by rw [hbreak]; decide)] at hword
      contradiction

/-- The gate sees every declaration that is visible. -/
theorem Visible.sees (hfunc : Ident func) (h : Visible d) : Sees d := by
  rcases prototypeSpan_cases hfunc text with ⟨-, hnone⟩ | ⟨lead, words, gap, rest, hmention, hspan,
    hfirst⟩
  · obtain ⟨lead, blank, -, hmention⟩ := h.exists_mention
    exact absurd hmention (hnone _ _ _ _)
  have hsame := h.append_eq hfunc hmention hfirst
  obtain ⟨line, hbefore⟩ := h.isPrefix_before hmention.line hsame hfirst
  have hline : ∀ c ∈ line, isSpace c = true := by
    apply h.noWords lead line hbefore.symm hmention.line
    intro c hc
    apply hmention.wordsType
    rw [← hbefore, List.append_assoc] at hsame
    rw [List.append_cancel_left hsame]
    exact List.mem_append_left _ hc
  obtain ⟨rfl, -, -, rfl, rfl⟩ := d.words_eq hfunc hmention hbefore.symm hline
  refine ⟨lead.length, ?_, ?_, ?_⟩
  · have hclosing := (closing_eq_iff (List.ne_nil_of_mem d.ends)).mpr h.params
    rw [Nat.zero_add] at hclosing
    rw [hspan, hclosing, Option.some.injEq, Prod.mk.injEq]
    refine ⟨rfl, ?_⟩
    simp only [Declared.chars, ← hbefore, List.length_append, List.length_cons, List.length_nil]
    omega
  · rw [← hbefore, List.length_append]
    omega
  · rw [← hbefore, List.drop_left]
    exact hline

/-! ## What the gate reports -/

private theorem mem_stripList {p : Char → Bool} {c : Char} {s : List Char} (hc : p c = false)
    (h : c ∈ s) : c ∈ stripList p s := by
  have hdrop : ∀ {s : List Char}, c ∈ s → c ∈ s.dropWhile p := by
    intro s h
    rw [← List.takeWhile_append_dropWhile (p := p) (l := s), List.mem_append] at h
    rcases h with h | h
    · rw [List.mem_takeWhile_imp h] at hc
      contradiction
    · exact h
  rw [stripList, List.mem_reverse]
  exact hdrop (List.mem_reverse.mpr (hdrop h))

private theorem collapse_blank {c : Char} {s : List Char} (hc : isSpace c = false)
    (hline : ∀ x ∈ line, isSpace x = true) (behindSpace : Bool) :
    ∃ blank, collapse behindSpace (line ++ c :: s) = blank ++ c :: collapse false s ∧
      ∀ x ∈ blank, isSpace x = true := by
  induction line generalizing behindSpace with
  | nil => exact ⟨[], by simp [collapse, hc], fun x hx ↦ absurd hx List.not_mem_nil⟩
  | cons y line ih =>
    rw [List.forall_mem_cons] at hline
    obtain ⟨blank, hcollapse, hblank⟩ := ih hline.2 true
    rw [List.cons_append, collapse, if_pos hline.1, hcollapse]
    cases behindSpace with
    | true => exact ⟨blank, rfl, hblank⟩
    | false => exact ⟨' ' :: blank, rfl, List.forall_mem_cons.mpr ⟨rfl, hblank⟩⟩

private theorem normalize_blank {c : Char} {s : List Char} (hc : isSpace c = false)
    (hline : ∀ x ∈ line, isSpace x = true) : normalize (line ++ c :: s) = normalize (c :: s) := by
  obtain ⟨blank, hcollapse, hblank⟩ := collapse_blank (s := s) hc hline false
  rw [normalize, hcollapse, stripList, List.dropWhile_append_of_pos hblank, ← stripList, normalize,
    collapse, if_neg (by simp [hc])]

private theorem take_drop_eq {text before chars after : List Char} {start : ℕ}
    (htext : text = before ++ (chars ++ after)) (hstart : start ≤ before.length) :
    (text.drop start).take ((before ++ chars).length - start) = before.drop start ++ chars := by
  rw [htext, ← List.append_assoc, List.drop_append_of_le_length
    (by rw [List.length_append]; omega), List.take_left' (by rw [List.length_drop]),
    List.drop_append_of_le_length hstart]

private theorem Declared.text_chars (d : Declared w func text) :
    text = d.before ++ (d.chars ++ d.after) := by
  have htext := d.text_eq
  rw [Declared.chars]
  exact htext.trans (by simp)

private theorem Sees.extract {text : String} {d : Declared w func text.toList} (h : Sees d) :
    extractPrototype w text func = some (.ofList (normalize d.chars)) := by
  obtain ⟨start, hspan, hstart, hblank⟩ := h
  obtain ⟨c, s, hbegins, hword⟩ := d.begins
  have hc : isSpace c = false := by
    by_contra hspace
    rw [Bool.not_eq_false] at hspace
    rw [w.notSpace c hspace] at hword
    contradiction
  have hchars : d.chars = c :: (s ++ (func.toList ++ (d.gap ++ '(' :: (d.params ++ [')'])))) := by
    rw [Declared.chars, hbegins]
    rfl
  rw [extractPrototype, hspan, Option.bind_some]
  dsimp only
  rw [take_drop_eq d.text_chars hstart, hchars, normalize_blank hc hblank, if_neg]
  refine List.ne_nil_of_mem (mem_stripList hc ?_)
  rw [collapse, if_neg (by simp [hc])]
  exact List.mem_cons_self

end

private theorem ident_of_mem {func : String} (h : func ∈ watchedFuncs) : Ident func := by
  have hall : (watchedFuncs.all fun func ↦
      !func.toList.isEmpty && func.toList.all asciiWord) = true := by decide
  obtain ⟨hne, hword⟩ := Bool.and_eq_true_iff.mp (List.all_eq_true.mp hall func h)
  exact ⟨by simpa using hne, List.all_eq_true.mp hword⟩

/-- A header in which every watched function is declared. -/
structure Header (w : IdentClass) where
  text : String
  declared : ∀ func ∈ watchedFuncs, Declared w func text.toList

/-- The declaration of a watched function with its white space normalised. -/
def Header.normalized (h : Header w) (func : String) (hfunc : func ∈ watchedFuncs) : String :=
  .ofList (normalize (h.declared func hfunc).chars)

private theorem status_iff (cur base : String) :
    ((checkSignaturesUnchanged w (some cur) (some base)).status = .pass ↔
        signatureChanges w cur base = []) ∧
      ((checkSignaturesUnchanged w (some cur) (some base)).status = .fail ↔
        signatureChanges w cur base ≠ []) := by
  rw [checkSignaturesUnchanged]
  by_cases h : signatureChanges w cur base = []
  · rw [if_pos h]
    simp [h]
  · rw [if_neg h]
    simp [h]

private theorem signatureChanges_eq_nil_iff (cur base : String) : signatureChanges w cur base = [] ↔
    ∀ func ∈ watchedFuncs,
      (extractPrototype w cur func).getD "" = (extractPrototype w base func).getD "" := by
  simp [signatureChanges, List.filter_eq_nil_iff]

/-- The gate sees the declarations of two headers exactly where they are visible, and there it
extracts them and tells whether they differ. -/
theorem signatures_seen_iff (w : IdentClass) (cur base : Header w) :
    ((∀ func hfunc, Sees (cur.declared func hfunc) ∧ Sees (base.declared func hfunc)) ↔
        ∀ func hfunc, Visible (cur.declared func hfunc) ∧ Visible (base.declared func hfunc)) ∧
      ((∀ func hfunc, Visible (cur.declared func hfunc) ∧ Visible (base.declared func hfunc)) →
        (∀ func hfunc, extractPrototype w cur.text func = some (cur.normalized func hfunc) ∧
          extractPrototype w base.text func = some (base.normalized func hfunc)) ∧
        ((checkSignaturesUnchanged w (some cur.text) (some base.text)).status = .pass ↔
          ∀ func hfunc, cur.normalized func hfunc = base.normalized func hfunc) ∧
        ((checkSignaturesUnchanged w (some cur.text) (some base.text)).status = .fail ↔
          ∃ func hfunc, cur.normalized func hfunc ≠ base.normalized func hfunc)) := by
  have hiff : ∀ (h : Header w) func hfunc, Sees (h.declared func hfunc) ↔
      Visible (h.declared func hfunc) := fun h func hfunc ↦
    ⟨Sees.visible (ident_of_mem hfunc), Visible.sees (ident_of_mem hfunc)⟩
  refine ⟨forall₂_congr fun func hfunc ↦ and_congr (hiff cur func hfunc) (hiff base func hfunc), ?_⟩
  intro hvisible
  have hextract : ∀ func hfunc, extractPrototype w cur.text func =
      some (cur.normalized func hfunc) ∧
        extractPrototype w base.text func = some (base.normalized func hfunc) := by
    intro func hfunc
    obtain ⟨hcur, hbase⟩ := hvisible func hfunc
    exact ⟨((hiff cur func hfunc).mpr hcur).extract, ((hiff base func hfunc).mpr hbase).extract⟩
  have hchanges : signatureChanges w cur.text base.text = [] ↔
      ∀ func hfunc, cur.normalized func hfunc = base.normalized func hfunc := by
    rw [signatureChanges_eq_nil_iff]
    apply forall₂_congr
    intro func hfunc
    obtain ⟨hcur, hbase⟩ := hextract func hfunc
    rw [hcur, hbase]
    rfl
  obtain ⟨hpass, hfail⟩ := status_iff (w := w) cur.text base.text
  refine ⟨hextract, hpass.trans hchanges, ?_⟩
  rw [hfail, Ne, hchanges]
  push Not
  rfl

/-! ## A comment that hides a declaration -/

/-- A class with nothing outside ASCII but what case folding puts there. -/
def asciiIdent : IdentClass where
  isWord := asciiWord
  ascii := fun _ h ↦ h
  onlyAscii := fun _ _ h ↦ h
  notSpace := by
    intro c hc
    apply not_asciiWord_of_toNat
    · simp [isSpace] at hc
      omega
    · intro hstray
      simp only [Stray, List.mem_cons, List.not_mem_nil, or_false] at hstray
      rcases hstray with rfl | rfl | rfl | rfl <;> revert hc <;> decide

/-- A comment with a line that mentions a function, as one that documents it may. -/
def comment : List Char := "/*\n * rmw_publish(message)\n */\n".toList

/-- The parameters that a function is declared with: `rmw_publish` has its own. -/
def paramsOf (params : List Char) (func : String) : List Char :=
  if func = "rmw_publish" then params else []

/-- The line that declares a function. -/
def declarationLine (params : List Char) (func : String) : List Char :=
  "int ".toList ++ (func.toList ++ ([] ++ '(' :: (paramsOf params func ++ ')' :: ";\n".toList)))

/-- The comment, and a line for each watched function. -/
def headerText (params : List Char) : List Char :=
  comment ++ watchedFuncs.flatMap (declarationLine params)

private theorem takeWhile_cons_tail {α : Type*} [DecidableEq α] {x : α} {xs : List α} (h : x ∈ xs) :
    xs = xs.takeWhile (· ≠ x) ++ x :: (xs.dropWhile (· ≠ x)).tail := by
  induction xs with
  | nil => contradiction
  | cons y xs ih =>
    by_cases hy : y = x
    · subst hy
      simp
    · have hmem : x ∈ xs := (List.mem_cons.mp h).resolve_left (Ne.symm hy)
      rw [List.takeWhile_cons_of_pos (by simp [hy]), List.dropWhile_cons_of_pos (by simp [hy]),
        List.cons_append, ← ih hmem]

private theorem Nested.of_forall {s : List Char} (h : ∀ c ∈ s, c ≠ '(' ∧ c ≠ ')') : Nested s := by
  induction s with
  | nil => exact .nil
  | cons c s ih =>
    rw [List.forall_mem_cons] at h
    exact .char h.1 (ih h.2)

/-- The header with such a comment. -/
def headerOf (params : List Char) (hparams : ∀ c ∈ params, c ≠ '(' ∧ c ≠ ')') :
    Header asciiIdent where
  text := .ofList (headerText params)
  declared := fun func hfunc ↦
    { before := comment ++
        (watchedFuncs.takeWhile (· ≠ func)).flatMap (declarationLine params)
      specifiers := "int ".toList
      gap := []
      params := paramsOf params func
      after := ";\n".toList ++
        (watchedFuncs.dropWhile (· ≠ func)).tail.flatMap (declarationLine params)
      text_eq := by
        rw [String.toList_ofList, headerText]
        conv_lhs => rw [takeWhile_cons_tail hfunc]
        simp [declarationLine]
      specifiersPieces := .of_forall (List.all_eq_true.mp (by decide))
      begins := ⟨'i', ['n', 't', ' '], by simp, by decide⟩
      apart := by
        intro c hc
        have hlast : c = ' ' := by simpa using hc.symm
        rw [hlast]
        decide
      gapPieces := .nil
      paramsNested := by
        apply Nested.of_forall
        unfold paramsOf
        split
        · exact hparams
        · simp
      ends := by simp }

/-- What is cut out of a text before its white space is normalised. -/
def cut (w : IdentClass) (func : String) (text : List Char) : Option (List Char) :=
  (prototypeSpan w func text).map fun (start, stop) ↦ (text.drop start).take (stop - start)

private theorem extractPrototype_congr {s t : List Char} (h : cut w func s = cut w func t) :
    extractPrototype w (.ofList s) func = extractPrototype w (.ofList t) func := by
  have hcut : ∀ u : List Char, extractPrototype w (.ofList u) func = (cut w func u).bind fun s ↦
      if normalize s = [] then none else some (.ofList (normalize s)) := by
    intro u
    rw [extractPrototype, String.toList_ofList, cut, Option.bind_map]
    rfl
  rw [hcut, hcut, h]

private theorem cut_headerText : ∀ func ∈ watchedFuncs,
    cut asciiIdent func (headerText ['i', 'n', 't']) =
      cut asciiIdent func (headerText ['l', 'o', 'n', 'g']) := by
  decide +kernel

/-- The two headers declare `rmw_publish` with different parameters, and the check passes. -/
theorem comment_hides_change :
    (checkSignaturesUnchanged asciiIdent (some (headerOf ['i', 'n', 't'] (by simp)).text)
        (some (headerOf ['l', 'o', 'n', 'g'] (by simp)).text)).status = .pass ∧
      (headerOf ['i', 'n', 't'] (by simp)).normalized "rmw_publish" List.mem_cons_self ≠
        (headerOf ['l', 'o', 'n', 'g'] (by simp)).normalized "rmw_publish" List.mem_cons_self := by
  constructor
  · rw [(status_iff _ _).1, signatureChanges_eq_nil_iff]
    intro func hfunc
    exact congrArg (·.getD "") (extractPrototype_congr (cut_headerText func hfunc))
  · intro h
    have hchars := String.ofList_injective h
    change normalize ("int rmw_publish(int)".toList) =
      normalize ("int rmw_publish(long)".toList) at hchars
    revert hchars
    decide

end HzjDds.Gates.ApiSurface
