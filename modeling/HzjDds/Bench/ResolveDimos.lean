import HzjDds.Python.Raises
import HzjDds.Python.Text

/-!
# Locating a DimOS tree

Source: `scripts/bench/resolve_dimos.py:27–148`. What the file system and the subprocesses answer is
data of the run: each call of the script has an answer of its own, which may be an exception.
-/

namespace HzjDds.Bench

open Python

/-- Candidates, in the words of the record. -/
inductive Label where
  | topsunDimos
  | tmpCheckout
  | vendoredBridge
  deriving DecidableEq, Repr

/-- A subprocess that has ended. -/
structure Process where
  returncode : ℤ
  stdout : String
  stderr : String

/-- Answers that one call of `_git_sha` gets. -/
structure GitAnswers where
  exists_ : Look Bool
  revParse : Call String

/-- Answers about one candidate: whether it has the directory `dimos`, its import probe, and the
two looks at its commit, for the list of what was tried and for the record. -/
structure Site where
  isDir : Look Bool
  probe : Call Process
  entrySha : GitAnswers
  recordSha : GitAnswers

/-- Answers that a run gets. `environ` is the variable `TOPSUN_DIMOS`, empty if it is unset;
`expand` makes a path of it. The last five are about the clone. -/
structure Answers where
  environ : String
  expand : Call String
  bridge : String
  site : Label → Site
  mkdir : Look Unit
  isFile : Look Bool
  gitClone : Call Unit
  clonedProbe : Call Process
  clonedSha : GitAnswers

/-- Status of a candidate that was tried. -/
inductive EntryStatus where
  | missing
  | ok
  | importError
  deriving DecidableEq, Repr

/-- A candidate that was tried. -/
structure Entry where
  label : Label
  path : String
  status : EntryStatus
  detail : Option String := none
  gitSha : Option String := none
  deriving DecidableEq, Repr

/-- `PINNED_SHA`. -/
def pinnedSha : String := "a5259958db23c8ea6648544ed138eab19726ce93"

/-- The record that `resolve` returns. -/
inductive Record where
  | ok (root source : String) (label : Label) (gitSha : Option String) (tried : List Entry)
    (pinnedSha : String)
  | failed (error : String) (tried : List Entry) (pinnedSha : String)
  deriving DecidableEq, Repr

/-- The checkout that a clone makes. -/
def tmpPath : String := "/tmp/topsun_dimos"

/-- `_can_import_dds`. -/
def canImportDds (run : Call Process) : Call (Bool × String) :=
  match run with
  | .error (.osError message) => .ok (false, "spawn failed: " ++ message)
  | .error e => .error e
  | .ok proc =>
    if proc.returncode = 0 ∧ isIn "ok" proc.stdout then .ok (true, strip proc.stdout)
    else
      let output := if proc.stderr ≠ "" then proc.stderr
        else if proc.stdout ≠ "" then proc.stdout else "import failed"
      .ok (false, (splitlines (strip output)).getLast?.getD "import failed")

/-- `_git_sha`. -/
def gitSha (git : GitAnswers) : Call (Option String) := do
  if ← git.exists_.call then
    match git.revParse with
    | .error (.calledProcessError _) => return none
    | .error e => .error e
    | .ok out => return some (strip out)
  else return none

/-- `_clone`: how it ends, and whether it runs `git clone`. -/
def clone (answers : Answers) : Call Unit × Bool :=
  match answers.mkdir, answers.isFile with
  | .error message, _ => (.error (.osError message), false)
  | .ok (), .error message => (.error (.osError message), false)
  | .ok (), .ok true => (.ok (), false)
  | .ok (), .ok false => (answers.gitClone, true)

/-- Candidates with their paths. -/
def candidates (answers : Answers) : Call (List (Label × String)) := do
  let rest := [(.tmpCheckout, tmpPath), (.vendoredBridge, answers.bridge)]
  if strip answers.environ ≠ "" then
    return (.topsunDimos, ← answers.expand) :: rest
  else return rest

/-- `source` of a record. -/
def sourceOf (label : Label) : String :=
  if label ≠ .vendoredBridge then "temporary topsun_dimos checkout" else "vendored dimos_bridge"

/-- The commit that the entry of a candidate shows; the vendored tree has none. -/
def entrySha (site : Site) (label : Label) : Call (Option String) :=
  if label ≠ .vendoredBridge then gitSha site.entrySha else .ok none

/-- The body of the loop: the entry of a candidate, and whether its import probe succeeds. -/
def tryCandidate (site : Site) (label : Label) (path : String) : Call (Entry × Bool) := do
  if ← site.isDir.call then
    let (ok, detail) ← canImportDds site.probe
    let sha ← entrySha site label
    let status := if ok then .ok else .importError
    return (⟨label, path, status, some detail, sha.filter (· ≠ "")⟩, ok)
  else return (⟨label, path, .missing, none, none⟩, false)

/-- The loop over the candidates: a record, or what was tried without success. -/
def loop (answers : Answers) : List (Label × String) → List Entry → Call (Record ⊕ List Entry)
  | [], tried => return .inr tried
  | (label, path) :: rest, tried => do
    let (entry, ok) ← tryCandidate (answers.site label) label path
    if ok then
      let sha ← gitSha (answers.site label).recordSha
      return .inl (.ok path (sourceOf label) label sha (tried ++ [entry]) pinnedSha)
    else loop answers rest (tried ++ [entry])

/-- The part of `resolve` before the clone. -/
def tryAll (answers : Answers) : Call (Record ⊕ List Entry) := do
  loop answers (← candidates answers) []

/-- What follows a clone that has ended. -/
def afterClone (answers : Answers) (ended : Call Unit) (tried : List Entry) : Call Record :=
  match ended with
  | .error (.calledProcessError message) =>
    .ok (.failed ("git clone failed: " ++ message) tried pinnedSha)
  | .error e => .error e
  | .ok () => do
    let (ok, detail) ← canImportDds answers.clonedProbe
    if ok then
      let sha ← gitSha answers.clonedSha
      return .ok tmpPath (sourceOf .tmpCheckout) .tmpCheckout sha tried pinnedSha
    else return .failed ("checkout imported poorly: " ++ detail) tried pinnedSha

/-- How a run of `resolve` ends, and whether it runs `git clone`. -/
structure Outcome where
  result : Call Record
  cloned : Bool

/-- `resolve`. -/
def resolve (allowClone : Bool) (answers : Answers) : Outcome :=
  match tryAll answers with
  | .error e => ⟨.error e, false⟩
  | .ok (.inl record) => ⟨.ok record, false⟩
  | .ok (.inr tried) =>
    if allowClone then ⟨afterClone answers (clone answers).1 tried, (clone answers).2⟩
    else
      ⟨.ok (.failed "no importable DimOS tree (set TOPSUN_DIMOS or allow clone)" tried pinnedSha),
        false⟩

/-! ## What the answers say -/

/-- An import probe succeeds. -/
def ProbeSucceeds (run : Call Process) : Prop :=
  ∃ proc, run = .ok proc ∧ proc.returncode = 0 ∧ isIn "ok" proc.stdout = true

/-- A candidate is there and its import probe succeeds. -/
def Importable (site : Site) : Prop := site.isDir = .ok true ∧ ProbeSucceeds site.probe

/-- An import probe ends in time with output that can be decoded, or it cannot be started. -/
def ProbeHandled (run : Call Process) : Prop :=
  run.Returns ∨ ∃ message, run = .error (.osError message)

/-- A git command that is run can be started and its output decoded. -/
def CommandHandled {α : Type} (run : Call α) : Prop :=
  run.Returns ∨ ∃ message, run = .error (.calledProcessError message)

/-- Where there is an entry `.git`, the git command can be run. -/
structure GitHandled (git : GitAnswers) : Prop where
  looked : ∃ there, git.exists_ = .ok there
  command : git.exists_ = .ok true → CommandHandled git.revParse

/-- Nothing that the script asks about a candidate ends in a way that it does not expect. -/
structure SiteHandled (label : Label) (site : Site) : Prop where
  looked : ∃ there, site.isDir = .ok there
  probe : site.isDir = .ok true → ProbeHandled site.probe
  entrySha : site.isDir = .ok true → label ≠ .vendoredBridge → GitHandled site.entrySha
  recordSha : Importable site → GitHandled site.recordSha

/-- Nothing that the script asks about the clone ends in a way that it does not expect. -/
structure CloneHandled (answers : Answers) : Prop where
  mkdir : answers.mkdir = .ok ()
  looked : ∃ there, answers.isFile = .ok there
  command : answers.isFile = .ok false → CommandHandled answers.gitClone
  probe : answers.isFile = .ok true ∨ answers.gitClone.Returns → ProbeHandled answers.clonedProbe
  sha : answers.isFile = .ok true ∨ answers.gitClone.Returns → ProbeSucceeds answers.clonedProbe →
    GitHandled answers.clonedSha

section

variable {run : Call Process} {git : GitAnswers} {site : Site} {label : Label} {path : String}
  {answers : Answers} {cs : List (Label × String)} {tried : List Entry}

private theorem returns_canImportDds : (canImportDds run).Returns ↔ ProbeHandled run := by
  unfold ProbeHandled
  cases run with
  | error e => cases e <;> simp [canImportDds]
  | ok proc =>
    refine iff_of_true ?_ (Or.inl Call.returns_ok)
    simp only [canImportDds]
    split
    · exact Call.returns_ok
    · exact Call.returns_ok

private theorem canImportDds_fst {ok : Bool} {detail : String} (h : canImportDds run = .ok (ok, detail)) :
    ok = true ↔ ProbeSucceeds run := by
  unfold ProbeSucceeds
  cases run with
  | error e =>
    cases e <;> simp [canImportDds] at h
    obtain ⟨rfl, -⟩ := h
    simp
  | ok proc =>
    simp only [canImportDds] at h
    split at h
    · next hgood =>
      cases h
      exact iff_of_true rfl ⟨proc, rfl, hgood⟩
    · next hbad =>
      cases h
      refine iff_of_false Bool.false_ne_true ?_
      rintro ⟨_, ⟨⟩, hgood⟩
      exact hbad hgood

/-- `_git_sha` returns if git answers as it expects. -/
theorem returns_gitSha : (gitSha git).Returns ↔ GitHandled git := by
  cases hexists : git.exists_ with
  | error message =>
    refine iff_of_false ?_ fun h ↦ ?_
    · rw [gitSha, Call.returns_bind]
      rintro ⟨there, hthere, -⟩
      rw [Call.call_eq_ok, hexists] at hthere
      contradiction
    · obtain ⟨there, hthere⟩ := h.looked
      rw [hexists] at hthere
      contradiction
  | ok there =>
    have hlook : git.exists_.call = .ok there := Call.call_eq_ok.mpr hexists
    rw [gitSha, Call.returns_bind]
    cases there with
    | false =>
      refine iff_of_true ⟨false, hlook, Call.returns_ok⟩ ⟨⟨false, hexists⟩, fun h ↦ ?_⟩
      rw [hexists] at h
      cases h
    | true =>
      have hcommand : GitHandled git ↔ CommandHandled git.revParse :=
        ⟨fun h ↦ h.command hexists, fun h ↦ ⟨⟨true, hexists⟩, fun _ ↦ h⟩⟩
      rw [hcommand, CommandHandled]
      constructor
      · rintro ⟨_, hthere, hreturns⟩
        rw [hlook] at hthere
        cases hthere
        cases hrun : git.revParse with
        | ok out => exact Or.inl Call.returns_ok
        | error e => cases e <;> simp_all
      · intro h
        refine ⟨true, hlook, ?_⟩
        rw [if_pos rfl]
        rcases h with ⟨out, hout⟩ | ⟨message, hmessage⟩
        · rw [hout]
          exact Call.returns_ok
        · rw [hmessage]
          exact Call.returns_ok

private theorem returns_entrySha :
    (entrySha site label).Returns ↔ (label ≠ .vendoredBridge → GitHandled site.entrySha) := by
  unfold entrySha
  split
  · next hlabel => rw [returns_gitSha, forall_prop_of_true hlabel]
  · next hlabel => exact iff_of_true Call.returns_ok fun h ↦ absurd h hlabel

private theorem returns_tryCandidate : (tryCandidate site label path).Returns ↔
    (∃ there, site.isDir = .ok there) ∧ (site.isDir = .ok true → ProbeHandled site.probe ∧
      (label ≠ .vendoredBridge → GitHandled site.entrySha)) := by
  rw [tryCandidate, Call.returns_bind, ← returns_canImportDds, ← returns_entrySha]
  constructor
  · rintro ⟨there, hthere, hreturns⟩
    rw [Call.call_eq_ok] at hthere
    refine ⟨⟨there, hthere⟩, fun hpresent ↦ ?_⟩
    rw [hpresent] at hthere
    cases hthere
    rw [if_pos rfl, Call.returns_bind] at hreturns
    obtain ⟨probed, hprobe, hreturns⟩ := hreturns
    obtain ⟨sha, hsha, -⟩ := Call.returns_bind.mp hreturns
    exact ⟨⟨probed, hprobe⟩, sha, hsha⟩
  · rintro ⟨⟨there, hthere⟩, hpresent⟩
    refine ⟨there, Call.call_eq_ok.mpr hthere, ?_⟩
    cases there with
    | false => exact Call.returns_ok
    | true =>
      obtain ⟨⟨probed, hprobe⟩, sha, hsha⟩ := hpresent hthere
      rw [if_pos rfl, Call.returns_bind]
      exact ⟨probed, hprobe, Call.returns_bind.mpr ⟨sha, hsha, Call.returns_ok⟩⟩

private theorem tryCandidate_snd {entry : Entry} {ok : Bool}
    (h : tryCandidate site label path = .ok (entry, ok)) : ok = true ↔ Importable site := by
  rw [tryCandidate, Call.bind_eq_ok] at h
  obtain ⟨there, hthere, h⟩ := h
  rw [Call.call_eq_ok] at hthere
  cases there with
  | false =>
    cases h
    refine iff_of_false Bool.false_ne_true fun himportable ↦ ?_
    rw [himportable.1] at hthere
    cases hthere
  | true =>
    rw [if_pos rfl, Call.bind_eq_ok] at h
    obtain ⟨⟨ok', detail⟩, hprobe, h⟩ := h
    obtain ⟨sha, -, h⟩ := Call.bind_eq_ok.mp h
    cases h
    rw [canImportDds_fst hprobe]
    exact (and_iff_right hthere).symm

/-! ## The loop -/

/-- A candidate that the loop comes to: none before it is importable. -/
def Reached (answers : Answers) (cs : List (Label × String)) (c : Label × String) : Prop :=
  ∃ before rest, cs = before ++ c :: rest ∧ ∀ b ∈ before, ¬ Importable (answers.site b.1)

private theorem reached_cons {c d : Label × String} : Reached answers (d :: cs) c ↔
    c = d ∨ ¬ Importable (answers.site d.1) ∧ Reached answers cs c := by
  constructor
  · rintro ⟨before, rest, hsplit, hbefore⟩
    cases before with
    | nil => exact Or.inl (List.cons_eq_cons.mp hsplit).1.symm
    | cons b before =>
      obtain ⟨rfl, htail⟩ := List.cons_eq_cons.mp hsplit
      rw [List.forall_mem_cons] at hbefore
      exact Or.inr ⟨hbefore.1, before, rest, htail, hbefore.2⟩
  · rintro (rfl | ⟨hd, before, rest, rfl, hbefore⟩)
    · exact ⟨[], cs, rfl, fun b hb ↦ absurd hb List.not_mem_nil⟩
    · exact ⟨d :: before, rest, rfl, List.forall_mem_cons.mpr ⟨hd, hbefore⟩⟩

/-- The loop returns if what it asks about the candidates that it comes to is answered as it
expects. -/
theorem returns_loop : (loop answers cs tried).Returns ↔
    ∀ c, Reached answers cs c → SiteHandled c.1 (answers.site c.1) := by
  induction cs generalizing tried with
  | nil =>
    refine iff_of_true Call.returns_ok ?_
    rintro c ⟨before, rest, hsplit, -⟩
    exact absurd hsplit (by simp)
  | cons c cs ih =>
    rw [loop, Call.returns_bind]
    constructor
    · rintro ⟨⟨entry, ok⟩, htry, hrest⟩ c' hc'
      have hok := tryCandidate_snd htry
      rcases reached_cons.mp hc' with rfl | ⟨hnot, hreached⟩
      · obtain ⟨hlooked, hpresent⟩ := returns_tryCandidate.mp ⟨_, htry⟩
        constructor
        case looked => exact hlooked
        case probe => exact fun h ↦ (hpresent h).1
        case entrySha => exact fun h ↦ (hpresent h).2
        case recordSha =>
          intro himportable
          obtain rfl := hok.mpr himportable
          rw [← returns_gitSha]
          obtain ⟨sha, hsha, -⟩ := Call.returns_bind.mp hrest
          exact ⟨sha, hsha⟩
      · cases ok with
        | true => exact absurd (hok.mp rfl) hnot
        | false => exact ih.mp hrest c' hreached
    · intro h
      have hfirst := h c (reached_cons.mpr (Or.inl rfl))
      obtain ⟨⟨entry, ok⟩, htry⟩ := returns_tryCandidate.mpr
        ⟨hfirst.looked, fun hpresent ↦ ⟨hfirst.probe hpresent, hfirst.entrySha hpresent⟩⟩
      have hok := tryCandidate_snd htry
      refine ⟨(entry, ok), htry, ?_⟩
      cases ok with
      | true =>
        obtain ⟨sha, hsha⟩ := returns_gitSha.mpr (hfirst.recordSha (hok.mp rfl))
        exact Call.returns_bind.mpr ⟨sha, hsha, Call.returns_ok⟩
      | false =>
        have hnot : ¬ Importable (answers.site c.1) := fun himportable ↦
          absurd (hok.mpr himportable) Bool.false_ne_true
        exact ih.mpr fun c' hc' ↦ h c' (reached_cons.mpr (Or.inr ⟨hnot, hc'⟩))

/-- What the loop returns: the record of the first importable candidate, or that there is none. -/
theorem loop_eq_ok {found : Record ⊕ List Entry} (h : loop answers cs tried = .ok found) :
    match found with
    | .inl record => ∃ c, Reached answers cs c ∧ Importable (answers.site c.1) ∧
        ∃ sha tried', record = .ok c.2 (sourceOf c.1) c.1 sha tried' pinnedSha
    | .inr _ => ∀ c ∈ cs, ¬ Importable (answers.site c.1) := by
  induction cs generalizing tried with
  | nil =>
    cases h
    exact fun c hc ↦ absurd hc List.not_mem_nil
  | cons c cs ih =>
    rw [loop, Call.bind_eq_ok] at h
    obtain ⟨⟨entry, ok⟩, htry, hrest⟩ := h
    have hok := tryCandidate_snd htry
    cases ok with
    | true =>
      obtain ⟨sha, -, hfound⟩ := Call.bind_eq_ok.mp hrest
      cases hfound
      exact ⟨c, reached_cons.mpr (Or.inl rfl), hok.mp rfl, sha, _, rfl⟩
    | false =>
      have hnot : ¬ Importable (answers.site c.1) := fun himportable ↦
        absurd (hok.mpr himportable) Bool.false_ne_true
      have hlater := ih hrest
      cases found with
      | inl record =>
        obtain ⟨c', hreached, hfound⟩ := hlater
        exact ⟨c', reached_cons.mpr (Or.inr ⟨hnot, hreached⟩), hfound⟩
      | inr _ => exact List.forall_mem_cons.mpr ⟨hnot, hlater⟩

/-! ## Runs -/

/-- None of the candidates is there and importable when the run begins. -/
def NoneImportable (answers : Answers) : Prop :=
  ∃ cs, candidates answers = .ok cs ∧ ∀ c ∈ cs, ¬ Importable (answers.site c.1)

/-- The first candidate that is there and importable when the run begins, with its path. -/
def FirstImportable (answers : Answers) (c : Label × String) : Prop :=
  ∃ cs, candidates answers = .ok cs ∧ Reached answers cs c ∧ Importable (answers.site c.1)

/-- The first candidate whose import probe succeeds, with its path: if there is none when the run
begins, it is the checkout that is there after the clone. -/
def FirstSucceeding (answers : Answers) (c : Label × String) : Prop :=
  FirstImportable answers c ∨
    NoneImportable answers ∧ c = (.tmpCheckout, tmpPath) ∧ ProbeSucceeds answers.clonedProbe

/-- A run returns a record, an ok record names the first importable candidate, and a clone is
attempted only where it may be. -/
structure Resolves (allowClone : Bool) (answers : Answers) : Prop where
  returns : (resolve allowClone answers).result.Returns
  first : ∀ root source label sha tried pinned,
    (resolve allowClone answers).result = .ok (.ok root source label sha tried pinned) →
      FirstSucceeding answers (label, root)
  cloned : (resolve allowClone answers).cloned = true →
    allowClone = true ∧ NoneImportable answers

/-- Nothing that a run asks ends in a way that the script does not expect. -/
structure Handled (allowClone : Bool) (answers : Answers) : Prop where
  expand : strip answers.environ ≠ "" → answers.expand.Returns
  sites : ∀ cs, candidates answers = .ok cs → ∀ c, Reached answers cs c →
    SiteHandled c.1 (answers.site c.1)
  clone : allowClone = true → NoneImportable answers → CloneHandled answers

private theorem returns_candidates :
    (candidates answers).Returns ↔ (strip answers.environ ≠ "" → answers.expand.Returns) := by
  unfold candidates
  dsimp only
  split
  · next hset =>
    rw [forall_prop_of_true hset, Call.returns_bind]
    exact ⟨fun ⟨root, hroot, _⟩ ↦ ⟨root, hroot⟩, fun ⟨root, hroot⟩ ↦ ⟨root, hroot, Call.returns_ok⟩⟩
  · next hunset => exact iff_of_true Call.returns_ok fun h ↦ absurd h hunset

private theorem returns_afterClone_ok : (afterClone answers (.ok ()) tried).Returns ↔
    ProbeHandled answers.clonedProbe ∧
      (ProbeSucceeds answers.clonedProbe → GitHandled answers.clonedSha) := by
  rw [afterClone, Call.returns_bind, ← returns_canImportDds, ← returns_gitSha]
  constructor
  · rintro ⟨⟨ok, detail⟩, hprobe, hrest⟩
    refine ⟨⟨_, hprobe⟩, fun hsucceeds ↦ ?_⟩
    obtain rfl := (canImportDds_fst hprobe).mpr hsucceeds
    obtain ⟨sha, hsha, -⟩ := Call.returns_bind.mp hrest
    exact ⟨sha, hsha⟩
  · rintro ⟨⟨⟨ok, detail⟩, hprobe⟩, hgit⟩
    refine ⟨(ok, detail), hprobe, ?_⟩
    cases ok with
    | false => exact Call.returns_ok
    | true =>
      obtain ⟨sha, hsha⟩ := hgit ((canImportDds_fst hprobe).mp rfl)
      exact Call.returns_bind.mpr ⟨sha, hsha, Call.returns_ok⟩

/-- What follows the clone returns if what is asked about the clone is answered as it expects. -/
theorem returns_afterClone :
    (afterClone answers (clone answers).1 tried).Returns ↔ CloneHandled answers := by
  cases hmkdir : answers.mkdir with
  | error message =>
    refine iff_of_false ?_ fun h ↦ ?_
    · simp [clone, hmkdir, afterClone]
    · have hmade := h.mkdir
      rw [hmkdir] at hmade
      cases hmade
  | ok =>
    cases hfile : answers.isFile with
    | error message =>
      refine iff_of_false ?_ fun h ↦ ?_
      · simp [clone, hmkdir, hfile, afterClone]
      · obtain ⟨there, hthere⟩ := h.looked
        rw [hfile] at hthere
        cases hthere
    | ok there =>
      cases there with
      | true =>
        have hclone : (clone answers).1 = .ok () := by rw [clone, hmkdir, hfile]
        rw [hclone, returns_afterClone_ok]
        constructor
        · rintro ⟨hprobe, hsha⟩
          exact ⟨hmkdir, ⟨true, hfile⟩, by simp [hfile], fun _ ↦ hprobe, fun _ ↦ hsha⟩
        · intro h
          exact ⟨h.probe (Or.inl hfile), h.sha (Or.inl hfile)⟩
      | false =>
        have hclone : (clone answers).1 = answers.gitClone := by rw [clone, hmkdir, hfile]
        rw [hclone]
        have hnone : answers.isFile ≠ .ok true := by simp [hfile]
        cases hgit : answers.gitClone with
        | ok =>
          have hreturns : answers.gitClone.Returns := hgit ▸ Call.returns_ok
          rw [returns_afterClone_ok]
          constructor
          · rintro ⟨hprobe, hsha⟩
            exact ⟨hmkdir, ⟨false, hfile⟩, fun _ ↦ Or.inl hreturns, fun _ ↦ hprobe, fun _ ↦ hsha⟩
          · intro h
            exact ⟨h.probe (Or.inr hreturns), h.sha (Or.inr hreturns)⟩
        | error e =>
          have hraises : ¬ answers.gitClone.Returns := by simp [hgit]
          have hskipped : ¬ (answers.isFile = .ok true ∨ answers.gitClone.Returns) :=
            not_or.mpr ⟨hnone, hraises⟩
          have hiff : CloneHandled answers ↔ CommandHandled answers.gitClone :=
            ⟨fun h ↦ h.command hfile, fun h ↦ ⟨hmkdir, ⟨false, hfile⟩, fun _ ↦ h,
              fun h ↦ absurd h hskipped, fun h ↦ absurd h hskipped⟩⟩
          rw [hiff, CommandHandled, hgit]
          cases e <;> simp [afterClone]

private theorem afterClone_eq_ok {ended : Call Unit} {root source pinned : String} {sha : Option String}
    {tried' : List Entry}
    (h : afterClone answers ended tried = .ok (.ok root source label sha tried' pinned)) :
    (label, root) = (.tmpCheckout, tmpPath) ∧ ProbeSucceeds answers.clonedProbe := by
  cases ended with
  | error e => cases e <;> cases h
  | ok =>
    rw [afterClone, Call.bind_eq_ok] at h
    obtain ⟨⟨ok, detail⟩, hprobe, hrest⟩ := h
    cases ok with
    | false => cases hrest
    | true =>
      obtain ⟨sha', -, hrecord⟩ := Call.bind_eq_ok.mp hrest
      cases hrecord
      exact ⟨rfl, (canImportDds_fst hprobe).mp rfl⟩

/-- A candidate that the loop comes to is a candidate. -/
theorem Reached.mem {c : Label × String} (h : Reached answers cs c) : c ∈ cs := by
  obtain ⟨before, rest, rfl, -⟩ := h
  exact List.mem_append_right before List.mem_cons_self

private theorem FirstImportable.not_none {c : Label × String} (h : FirstImportable answers c) :
    ¬ NoneImportable answers := by
  obtain ⟨cs, hcs, hreached, himportable⟩ := h
  rintro ⟨cs', hcs', hnone⟩
  rw [hcs] at hcs'
  cases hcs'
  exact hnone c hreached.mem himportable

private theorem resolve_cases (allowClone : Bool) (answers : Answers) :
    (∃ e, ¬ (tryAll answers).Returns ∧ resolve allowClone answers = ⟨.error e, false⟩) ∨
      (∃ c sha entries, (tryAll answers).Returns ∧ FirstImportable answers c ∧
        resolve allowClone answers =
          ⟨.ok (.ok c.2 (sourceOf c.1) c.1 sha entries pinnedSha), false⟩) ∨
      ∃ entries, (tryAll answers).Returns ∧ NoneImportable answers ∧
        resolve allowClone answers =
          if allowClone then ⟨afterClone answers (clone answers).1 entries, (clone answers).2⟩
          else ⟨.ok (.failed "no importable DimOS tree (set TOPSUN_DIMOS or allow clone)" entries
            pinnedSha), false⟩ := by
  cases htried : tryAll answers with
  | error e =>
    refine Or.inl ⟨e, Call.not_returns_error, ?_⟩
    rw [resolve, htried]
  | ok found =>
    obtain ⟨cs, hcs, hloop⟩ := Call.bind_eq_ok.mp htried
    have hfound := loop_eq_ok hloop
    cases found with
    | inl record =>
      obtain ⟨c, hreached, himportable, sha, entries, rfl⟩ := hfound
      refine Or.inr (Or.inl ⟨c, sha, entries, Call.returns_ok, ⟨cs, hcs, hreached, himportable⟩, ?_⟩)
      rw [resolve, htried]
    | inr entries =>
      refine Or.inr (Or.inr ⟨entries, Call.returns_ok, ⟨cs, hcs, hfound⟩, ?_⟩)
      rw [resolve, htried]

private theorem firstSucceeding_of_resolve {allowClone : Bool} {root source pinned : String}
    {sha : Option String} {entries : List Entry}
    (h : (resolve allowClone answers).result = .ok (.ok root source label sha entries pinned)) :
    FirstSucceeding answers (label, root) := by
  rcases resolve_cases allowClone answers with ⟨e, -, hresolve⟩ | ⟨c, sha', entries', -, hfirst,
    hresolve⟩ | ⟨entries', -, hnone, hresolve⟩
  · rw [hresolve] at h
    cases h
  · rw [hresolve] at h
    cases h
    exact Or.inl hfirst
  · rw [hresolve] at h
    cases allowClone with
    | false => cases h
    | true => exact Or.inr ⟨hnone, afterClone_eq_ok h⟩

private theorem noneImportable_of_cloned {allowClone : Bool}
    (h : (resolve allowClone answers).cloned = true) :
    allowClone = true ∧ NoneImportable answers := by
  rcases resolve_cases allowClone answers with ⟨e, -, hresolve⟩ | ⟨c, sha, entries, -, -,
    hresolve⟩ | ⟨entries, -, hnone, hresolve⟩
  · rw [hresolve] at h
    contradiction
  · rw [hresolve] at h
    contradiction
  · refine ⟨?_, hnone⟩
    cases allowClone with
    | false =>
      rw [hresolve] at h
      contradiction
    | true => rfl

private theorem returns_resolve {allowClone : Bool} : (resolve allowClone answers).result.Returns ↔
    (tryAll answers).Returns ∧
      (allowClone = true → NoneImportable answers → CloneHandled answers) := by
  rcases resolve_cases allowClone answers with ⟨e, hraises, hresolve⟩ | ⟨c, sha, entries, htried,
    hfirst, hresolve⟩ | ⟨entries, htried, hnone, hresolve⟩
  · rw [hresolve]
    exact iff_of_false Call.not_returns_error fun h ↦ hraises h.1
  · rw [hresolve]
    exact iff_of_true Call.returns_ok ⟨htried, fun _ h ↦ absurd h hfirst.not_none⟩
  · rw [hresolve]
    cases allowClone with
    | false => exact iff_of_true Call.returns_ok ⟨htried, fun h ↦ absurd h Bool.false_ne_true⟩
    | true =>
      change (afterClone answers (clone answers).1 entries).Returns ↔ _
      rw [returns_afterClone]
      exact ⟨fun h ↦ ⟨htried, fun _ _ ↦ h⟩, fun h ↦ h.2 rfl hnone⟩

private theorem returns_tryAll : (tryAll answers).Returns ↔
    (strip answers.environ ≠ "" → answers.expand.Returns) ∧
      ∀ cs, candidates answers = .ok cs → ∀ c, Reached answers cs c →
        SiteHandled c.1 (answers.site c.1) := by
  rw [← returns_candidates]
  constructor
  · intro h
    obtain ⟨cs, hcs, hloop⟩ := Call.returns_bind.mp h
    refine ⟨⟨cs, hcs⟩, fun cs' hcs' ↦ ?_⟩
    rw [hcs] at hcs'
    cases hcs'
    exact returns_loop.mp hloop
  · rintro ⟨⟨cs, hcs⟩, hsites⟩
    exact Call.returns_bind.mpr ⟨cs, hcs, returns_loop.mpr (hsites cs hcs)⟩

end

/-- A run does what it should exactly if nothing that it asks ends in a way that it does not
expect. -/
theorem resolves_iff_handled (allowClone : Bool) (answers : Answers) :
    Resolves allowClone answers ↔ Handled allowClone answers := by
  have hhandled : Handled allowClone answers ↔ (tryAll answers).Returns ∧
      (allowClone = true → NoneImportable answers → CloneHandled answers) := by
    rw [returns_tryAll]
    exact ⟨fun h ↦ ⟨⟨h.expand, h.sites⟩, h.clone⟩, fun h ↦ ⟨h.1.1, h.1.2, h.2⟩⟩
  rw [hhandled, ← returns_resolve]
  constructor
  · exact fun h ↦ h.returns
  · intro h
    constructor
    case returns => exact h
    case first => exact fun root source label sha entries pinned ↦ firstSucceeding_of_resolve
    case cloned => exact noneImportable_of_cloned

/-- A candidate that is not there. -/
def absent : Site :=
  ⟨.ok false, .error .timeoutExpired, ⟨.ok false, .ok ""⟩, ⟨.ok false, .ok ""⟩⟩

/-- The vendored tree is the only candidate there, and its import probe exceeds its timeout. -/
def slowProbe : Answers where
  environ := ""
  expand := .ok ""
  bridge := "/repo/dimos_bridge"
  site label := { absent with isDir := .ok (label == .vendoredBridge) }
  mkdir := .ok ()
  isFile := .ok false
  gitClone := .ok ()
  clonedProbe := .error .timeoutExpired
  clonedSha := ⟨.ok false, .ok ""⟩

/-- The exception of the probe passes through `resolve`. -/
theorem slow_probe_raises : (resolve false slowProbe).result = .error .timeoutExpired ∧
    ¬ Resolves false slowProbe := by
  have hraises : (resolve false slowProbe).result = .error .timeoutExpired := by decide
  refine ⟨hraises, fun h ↦ ?_⟩
  have hreturns := h.returns
  rw [hraises] at hreturns
  exact Call.not_returns_error hreturns

end HzjDds.Bench
