import HzjDds.Shell.Commands

/-!
# Chain environments

Library `Env`. Source: `config/env/load.py:42–60`. The values of a chain reach a process either as
a text for its shell or by an update of `os.environ`. A mapping is the list of its items.
-/

namespace HzjDds.Env

open HzjDds.Shell

/-- `_sh_single` (`load.py:59–60`). -/
def shSingle (value : String) : String :=
  "'" ++ .ofList (value.toList.flatMap fun c ↦ if c = '\x27' then "'\"'\"'".toList else [c]) ++ "'"

/-- `export_shell` (`load.py:42–45`). -/
def exportShell (values : List (String × String)) (unset : List String) : String :=
  "\n".intercalate (values.map (fun item ↦ "export " ++ item.1 ++ "=" ++ shSingle item.2) ++
    unset.map ("unset " ++ ·)) ++ "\n"

/-- `os.environ[key] = value`; `putenv` takes no NUL and no such name. -/
def setItem (env : Environ) (item : String × String) : Option Environ :=
  if item.1 = "" ∨ '=' ∈ item.1.toList ∨ '\x00' ∈ item.1.toList ∨ '\x00' ∈ item.2.toList then none
  else some (Function.update env item.1 (some item.2))

/-- `os.environ.pop(key, None)`. -/
def pop (env : Environ) (key : String) : Environ := Function.update env key none

/-- `apply` (`load.py:48–52`); `none` if it raises. -/
def apply (env : Environ) (values : List (String × String)) (unset : List String) :
    Option Environ :=
  (values.foldlM setItem env).map fun env ↦ unset.foldl pop env

/-- A name that the shell can export. -/
def IsName (key : String) : Prop := isName key.toList = true

instance : DecidablePred IsName := fun key ↦ inferInstanceAs (Decidable (isName key.toList = true))

/-- A value without NUL. -/
def NoNul (value : String) : Prop := '\x00' ∉ value.toList

instance : DecidablePred NoNul := fun value ↦
  inferInstanceAs (Decidable ('\x00' ∉ value.toList))

/-- The environment after all values are set. -/
def setAll (env : Environ) (values : List (String × String)) : Environ :=
  values.foldl (fun env item ↦ Function.update env item.1 (some item.2)) env

private theorem quotes_shSingle {value : String} (h : NoNul value) :
    Quotes (shSingle value).toList value.toList := by
  have htext : (shSingle value).toList =
      singleQuote :: escapeSingle value.toList ++ [singleQuote] := by
    simp only [shSingle, String.toList_append, String.toList_ofList]
    rfl
  rw [htext]
  exact quotes_escapeSingle h

private theorem intercalate_newline {lines : List (List Char)} (h : lines ≠ []) :
    ['\n'].intercalate lines ++ ['\n'] = lines.flatMap (· ++ ['\n']) := by
  induction lines with
  | nil => contradiction
  | cons line lines ih =>
    cases lines with
    | nil => simp
    | cons line' lines =>
      rw [List.intercalate_cons_cons, List.flatMap_cons, ← ih (List.cons_ne_nil _ _)]
      simp

/-- The text of `export_shell` is a program of exports, then unsets, and of nothing else. -/
theorem parse_exportShell {values : List (String × String)} {unset : List String}
    (hkeys : ∀ item ∈ values, IsName item.1) (hvalues : ∀ item ∈ values, NoNul item.2)
    (hunset : ∀ key ∈ unset, IsName key) :
    parse (exportShell values unset) =
      some (values.map (fun item ↦ .exportAssign item.1 [.text item.2]) ++ unset.map .unset) := by
  have hexport : List.Forall₂ Line
      (values.map fun item ↦ ("export " ++ item.1 ++ "=" ++ shSingle item.2).toList)
      (values.map fun item ↦ [.exportAssign item.1 [.text item.2]]) := by
    rw [List.forall₂_map_left_iff, List.forall₂_map_right_iff, List.forall₂_same]
    intro item hitem
    have hline := line_export (hkeys item hitem) (quotes_shSingle (hvalues item hitem))
    rw [String.ofList_toList, String.ofList_toList] at hline
    simpa using hline
  have hunsets : List.Forall₂ Line (unset.map fun key ↦ ("unset " ++ key).toList)
      (unset.map fun key ↦ [.unset key]) := by
    rw [List.forall₂_map_left_iff, List.forall₂_map_right_iff, List.forall₂_same]
    intro key hkey
    have hline := line_unset (hunset key hkey)
    rw [String.ofList_toList] at hline
    simpa using hline
  have hlines := parseChars_lines (List.rel_append hexport hunsets)
  have hcommands : (values.map (fun item ↦ [Command.exportAssign item.1 [.text item.2]]) ++
      unset.map fun key ↦ [Command.unset key]).flatten =
      values.map (fun item ↦ .exportAssign item.1 [.text item.2]) ++ unset.map .unset := by
    rw [List.flatten_append, ← List.flatMap_def, ← List.flatMap_def, ← List.map_eq_flatMap,
      ← List.map_eq_flatMap]
  rw [hcommands] at hlines
  rw [parse, exportShell, String.toList_append, String.toList_intercalate]
  cases hnil : values.map (fun item ↦ "export " ++ item.1 ++ "=" ++ shSingle item.2) ++
      unset.map ("unset " ++ ·) with
  | nil =>
    obtain ⟨rfl, rfl⟩ : values = [] ∧ unset = [] := by simpa using hnil
    rfl
  | cons line lines =>
    rw [← hnil, ← hlines]
    have hne : (values.map (fun item ↦ "export " ++ item.1 ++ "=" ++ shSingle item.2) ++
        unset.map ("unset " ++ ·)).map String.toList ≠ [] := by simp [hnil]
    have htext := intercalate_newline hne
    rw [List.map_append, List.map_map, List.map_map] at htext ⊢
    exact congrArg parseChars htext

private theorem environ_exports (vars : Variables) (values : List (String × String)) :
    ((values.map fun item ↦ Command.exportAssign item.1 [.text item.2]).foldl .exec vars).environ =
      setAll vars.environ values := by
  induction values generalizing vars with
  | nil => rfl
  | cons item values ih =>
    rw [List.map_cons, List.foldl_cons, ih, Variables.environ_exportAssign]
    simp [setAll, Variables.expand]

private theorem environ_unsets (vars : Variables) (unset : List String) :
    ((unset.map Command.unset).foldl .exec vars).environ = unset.foldl pop vars.environ := by
  induction unset generalizing vars with
  | nil => rfl
  | cons key unset ih =>
    rw [List.map_cons, List.foldl_cons, ih, Variables.environ_unset]
    rfl

private theorem setItem_eq (env : Environ) {item : String × String} (hkey : IsName item.1)
    (hvalue : NoNul item.2) :
    setItem env item = some (Function.update env item.1 (some item.2)) := by
  obtain ⟨hne, hchars⟩ := isName_spec hkey
  have hempty : item.1 ≠ "" := fun h ↦ hne (by simp [h])
  have hequals : '=' ∉ item.1.toList := fun h ↦ absurd (hchars _ h) (by decide)
  have hnul : '\x00' ∉ item.1.toList := fun h ↦ absurd (hchars _ h) (by decide)
  simp only [NoNul] at hvalue
  simp [setItem, hempty, hequals, hnul, hvalue]

/-- `apply` sets all values, then removes all names. -/
theorem apply_eq (env : Environ) {values : List (String × String)}
    (hkeys : ∀ item ∈ values, IsName item.1) (hvalues : ∀ item ∈ values, NoNul item.2)
    (unset : List String) :
    apply env values unset = some (unset.foldl pop (setAll env values)) := by
  have hset : values.foldlM setItem env = some (setAll env values) := by
    induction values generalizing env with
    | nil => rfl
    | cons item values ih =>
      obtain ⟨hkey, hkeys⟩ := List.forall_mem_cons.mp hkeys
      obtain ⟨hvalue, hvalues⟩ := List.forall_mem_cons.mp hvalues
      rw [List.foldlM_cons, setItem_eq env hkey hvalue, Option.bind_eq_bind, Option.bind_some,
        ih _ hkeys hvalues]
      rfl
  rw [apply, hset]
  rfl

/-- Evaluating the text of `export_shell` is `apply`. -/
theorem evalText_exportShell (env : Environ) {values : List (String × String)}
    {unset : List String} (hkeys : ∀ item ∈ values, IsName item.1)
    (hvalues : ∀ item ∈ values, NoNul item.2) (hunset : ∀ key ∈ unset, IsName key) :
    evalText env (exportShell values unset) = apply env values unset := by
  rw [evalText, parse_exportShell hkeys hvalues hunset, apply_eq env hkeys hvalues, Option.map_some,
    List.foldl_append, environ_unsets, environ_exports, Variables.environ_ofEnviron]

/-- The text of `export_shell` holds the exports and the unsets and runs nothing else, and in every
environment its evaluation does what `apply` does. -/
theorem exportShell_agrees (env : Environ) (values : List (String × String)) (unset : List String)
    (hkeys : ∀ item ∈ values, IsName item.1) (hvalues : ∀ item ∈ values, NoNul item.2)
    (hunset : ∀ key ∈ unset, IsName key) :
    parse (exportShell values unset) =
        some (values.map (fun item ↦ .exportAssign item.1 [.text item.2]) ++ unset.map .unset) ∧
      ∃ env', apply env values unset = some env' ∧
        evalText env (exportShell values unset) = some env' := by
  refine ⟨parse_exportShell hkeys hvalues hunset, _, apply_eq env hkeys hvalues unset, ?_⟩
  rw [evalText_exportShell env hkeys hvalues hunset, apply_eq env hkeys hvalues]

/-- A value that tries to end its quotation, for a name that is also unset. -/
theorem exportShell_agrees_quote :
    parse (exportShell [("A", "';rm\n$(x)\"\\"), ("B", "")] ["A"]) =
        some [.exportAssign "A" [.text "';rm\n$(x)\"\\"], .exportAssign "B" [.text ""],
          .unset "A"] ∧
      ∃ env', apply (fun _ ↦ none) [("A", "';rm\n$(x)\"\\"), ("B", "")] ["A"] = some env' ∧
        evalText (fun _ ↦ none) (exportShell [("A", "';rm\n$(x)\"\\"), ("B", "")] ["A"]) =
          some env' :=
  exportShell_agrees (fun _ ↦ none) [("A", "';rm\n$(x)\"\\"), ("B", "")] ["A"] (by decide)
    (by decide) (by decide)

end HzjDds.Env
