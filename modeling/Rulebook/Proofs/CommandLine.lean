/-
Rulebook/Proofs/CommandLine.lean

What the words of a command line come to, and the lines that a command prints.  The words are
read in stages, and all that can come of them is said once (`StandsFor`).

No value that is read is empty, step by step (`Given.Filled.addValue`) and so for all words
(`Given.Filled.readOptions`).  With the defaults, which are not empty either, every command
runs with roots that can lead somewhere (`filled_of_compile`, `filled_of_preview`).  The other
way round, every two roots can be given (`ofWords_compile`, `ofWords_preview`).

There are four ways to ask for a preview.  Once compiling has been asked for its plan, it reads
its words like a preview (`readOptions_planned`), so all four stand for the same command
(`ofWords_previewWords`).

What is printed is a row of lines (`linesText`), for the roots as well (`overrides_eq`).
-/
import Rulebook.Command.Run
import Rulebook.Proofs.Outcome

namespace Rulebook.Command

variable {grammar : Grammar} {g g' : Given} {words : List String} {env : Environment}
variable {roots : Roots} {p : Path} {option value envName usual name : String}

/-! ### Values -/

/-- Whether no value that has been given is empty. -/
def Given.Filled (g : Given) : Prop := ∀ v ∈ g.values, v.2 ≠ ""

namespace Given.Filled

theorem start : Given.Filled {} := by simp [Given.Filled]

theorem addValue (hg : g.Filled) (h : g.addValue option value = .ok g') : g'.Filled := by
  rw [Given.addValue] at h
  split at h
  · cases h
  · next hvalue =>
    obtain rfl := Except.ok.inj h
    exact List.forall_mem_cons.2 ⟨fun hnil => hvalue (.inl hnil), hg⟩

theorem addFlag (hg : g.Filled) (h : g.addFlag option = .ok g') : g'.Filled := by
  rw [Given.addFlag] at h
  split at h
  · cases h
  · obtain rfl := Except.ok.inj h
    exact hg

/-- What is read is filled: a word adds a value, or a flag, or nothing. -/
theorem readOptions (hg : g.Filled) (h : readOptions grammar g words = .ok g') : g'.Filled := by
  fun_induction Command.readOptions grammar g words with
  | case1 g | case2 g word =>
    obtain rfl := Except.ok.inj h
    exact hg
  | case4 g word rest name value _ _ ih | case8 g word name _ _ _ _ value rest _ ih =>
    obtain ⟨g₁, hadd, hrest⟩ := bind_eq_ok_iff.1 h
    exact ih g₁ (hg.addValue hadd) hrest
  | case7 g word rest name _ _ _ ih =>
    obtain ⟨g₁, hadd, hrest⟩ := bind_eq_ok_iff.1 h
    exact ih g₁ (hg.addFlag hadd) hrest
  | _ => cases h

end Given.Filled

theorem toString_eq_empty_iff : p.toString = "" ↔ p.chars = [] := by
  simp [Path.toString]

/-- A path that is given, or taken from the environment or by default, is not empty. -/
theorem resolve_ne_nil (hg : g.Filled) (husual : usual ≠ "")
    (h : resolve g env option envName usual = .ok p) : p.chars ≠ [] := by
  have hchars : ∀ value : String, value ≠ "" → (Path.ofString value).chars ≠ [] := by
    intro value hvalue
    rwa [Ne, ← toString_eq_empty_iff, Path.toString_ofString]
  rw [resolve] at h
  rcases hgiven : g.value? option with - | value
  · rcases henv : env.lookup envName with - | value
    · rw [hgiven, henv] at h
      obtain rfl := Except.ok.inj h
      exact hchars usual husual
    · simp only [hgiven, henv] at h
      split at h
      · cases h
      · next hvalue =>
        obtain rfl := Except.ok.inj h
        exact hchars value hvalue
  · rw [hgiven] at h
    obtain rfl := Except.ok.inj h
    obtain ⟨before, after, hvalues, -⟩ := List.lookup_eq_some_iff.1 hgiven
    exact hchars value (hg (option, value) (by simp [hvalues]))

/-- Whether both roots can lead somewhere. -/
structure Roots.Filled (roots : Roots) : Prop where
  input : roots.input.chars ≠ []
  output : roots.output.chars ≠ []

theorem filled_of_roots (hg : g.Filled) (h : g.roots env = .ok roots) : roots.Filled := by
  obtain ⟨input, hinput, h⟩ := bind_eq_ok_iff.1 h
  obtain ⟨output, houtput, h⟩ := bind_eq_ok_iff.1 h
  obtain rfl : ⟨input, output⟩ = roots := by simpa [pure, Except.pure] using h
  exact ⟨resolve_ne_nil hg (by decide) hinput, resolve_ne_nil hg (by decide) houtput⟩

/-! ### Words -/

/-- What words stand for.  The options of a command are read with its own grammar, and a command
to compile that is only asked for its plan is a preview. -/
inductive StandsFor (env : Environment) : List String → Invocation → Prop
  | compile {name : String} {rest : List String} {g : Given} {roots : Roots} :
      name = "compile" ∨ name = "sync" →
      readOptions ⟨["input", "output"], ["plan"]⟩ {} rest = .ok g → g.roots env = .ok roots →
      "plan" ∉ g.flags → StandsFor env (name :: rest) (.compile roots)
  | planned {name : String} {rest : List String} {g : Given} {roots : Roots} :
      name = "compile" ∨ name = "sync" →
      readOptions ⟨["input", "output"], ["plan"]⟩ {} rest = .ok g → g.roots env = .ok roots →
      "plan" ∈ g.flags → StandsFor env (name :: rest) (.preview roots)
  | preview {name : String} {rest : List String} {g : Given} {roots : Roots} :
      name = "preview" ∨ name = "plan" →
      readOptions ⟨["input", "output"], []⟩ {} rest = .ok g → g.roots env = .ok roots →
      StandsFor env (name :: rest) (.preview roots)
  | setUp {rest : List String} {g : Given} :
      readOptions ⟨["root"], []⟩ {} rest = .ok g →
      StandsFor env ("init" :: rest) (.setUp ((g.value? "root").getD "."))

/-- A preview as one stage after the other. -/
theorem ofWords_eq_preview (hname : name = "preview" ∨ name = "plan") (env : Environment)
    (options : List String) :
    Invocation.ofWords env (name :: options) =
      (readOptions ⟨["input", "output"], []⟩ {} options >>= fun g =>
        g.roots env >>= fun roots => .ok (.preview roots)) := by
  have hother : ¬ (name = "compile" ∨ name = "sync") := by rcases hname with rfl | rfl <;> decide
  rw [Invocation.ofWords, if_neg hother, if_pos hname]
  rfl

theorem ofWords_eq_ok_iff {invocation : Invocation} :
    Invocation.ofWords env words = .ok invocation ↔ StandsFor env words invocation := by
  constructor
  · intro h
    rcases words with - | ⟨name, rest⟩
    · cases h
    rw [Invocation.ofWords] at h
    split at h
    · next hname =>
      obtain ⟨g, hread, h⟩ := bind_eq_ok_iff.1 h
      obtain ⟨roots, hroots, h⟩ := bind_eq_ok_iff.1 h
      by_cases hplan : "plan" ∈ g.flags
      · obtain rfl : .preview roots = invocation := by simpa [hplan, pure, Except.pure] using h
        exact .planned hname hread hroots hplan
      · obtain rfl : .compile roots = invocation := by simpa [hplan, pure, Except.pure] using h
        exact .compile hname hread hroots hplan
    · split at h
      · next hname =>
        obtain ⟨g, hread, h⟩ := bind_eq_ok_iff.1 h
        obtain ⟨roots, hroots, h⟩ := bind_eq_ok_iff.1 h
        obtain rfl := Except.ok.inj h
        exact .preview hname hread hroots
      · split at h
        · next hname =>
          obtain ⟨g, hread, h⟩ := bind_eq_ok_iff.1 h
          obtain rfl := Except.ok.inj h
          exact hname ▸ .setUp hread
        -- whatever else is asked for, it is no command
        · split at h
          · cases h
          · split at h <;> cases h
  · intro h
    cases h with
    | compile hname hread hroots hplan =>
      rw [Invocation.ofWords, if_pos hname, hread, ok_bind, hroots, ok_bind, if_neg hplan]
      rfl
    | planned hname hread hroots hplan =>
      rw [Invocation.ofWords, if_pos hname, hread, ok_bind, hroots, ok_bind, if_pos hplan]
      rfl
    | preview hname hread hroots =>
      rw [ofWords_eq_preview hname, hread, ok_bind, hroots, ok_bind]
    | setUp hread =>
      rw [Invocation.ofWords, if_neg (by decide), if_neg (by decide), if_pos rfl, hread, ok_bind]
      rfl

/-- Compiling runs with roots that can lead somewhere. -/
theorem filled_of_compile (h : Invocation.ofWords env words = .ok (.compile roots)) :
    roots.Filled := by
  cases ofWords_eq_ok_iff.1 h with
  | compile _ hread hroots => exact filled_of_roots (Given.Filled.start.readOptions hread) hroots

/-- So does showing what would be written. -/
theorem filled_of_preview (h : Invocation.ofWords env words = .ok (.preview roots)) :
    roots.Filled := by
  cases ofWords_eq_ok_iff.1 h with
  | planned _ hread hroots => exact filled_of_roots (Given.Filled.start.readOptions hread) hroots
  | preview _ hread hroots => exact filled_of_roots (Given.Filled.start.readOptions hread) hroots

/-- An option with its value in one word. -/
def valued (option value : String) : String := "--" ++ option ++ "=" ++ value

theorem ofString_valued (h : '=' ∉ option.toList) :
    Word.ofString (valued option value) = .long option (some value) := by
  have hname : (option.toList ++ '=' :: value.toList).takeWhile (· ≠ '=') = option.toList := by
    rw [List.takeWhile_append_of_pos (by simpa using fun c hc => ne_of_mem_of_not_mem hc h)]
    simp
  have hvalue : (option.toList ++ '=' :: value.toList).dropWhile (· ≠ '=') =
      '=' :: value.toList := by
    rw [List.dropWhile_append_of_pos (by simpa using fun c hc => ne_of_mem_of_not_mem hc h)]
    simp
  have hchars : (valued option value).toList =
      '-' :: '-' :: (option.toList ++ '=' :: value.toList) := by
    simp [valued]
  rw [Word.ofString, hchars]
  rcases hcs : option.toList ++ '=' :: value.toList with - | ⟨c, cs⟩
  · simp at hcs
  · rw [hcs] at hname hvalue
    simp only [hname, hvalue, String.ofList_toList]

/-- A value that is given for the first time is added. -/
theorem readOptions_valued (hoption : '=' ∉ option.toList) (hmem : option ∈ grammar.valued)
    (hvalue : value ≠ "") (hnew : g.value? option = none) (words : List String) :
    readOptions grammar g (valued option value :: words) =
      readOptions grammar { g with values := (option, value) :: g.values } words := by
  have hadd : g.addValue option value = .ok { g with values := (option, value) :: g.values } := by
    rw [Given.addValue, if_neg (by simp [hvalue, hnew])]
  rw [readOptions, ofString_valued hoption]
  simp only [if_pos hmem, hadd, ok_bind]

/-- The words that give two roots. -/
def rootWords (roots : Roots) : List String :=
  [valued "input" roots.input.toString, valued "output" roots.output.toString]

/-- The options with two roots and nothing else. -/
def givenRoots (roots : Roots) : Given :=
  { values := [("output", roots.output.toString), ("input", roots.input.toString)] }

theorem readOptions_rootWords (h : roots.Filled) (hinput : "input" ∈ grammar.valued)
    (houtput : "output" ∈ grammar.valued) :
    readOptions grammar {} (rootWords roots) = .ok (givenRoots roots) := by
  show readOptions grammar {} [valued "input" _, valued "output" _] = _
  rw [readOptions_valued (by decide) hinput (mt toString_eq_empty_iff.1 h.input) rfl,
    readOptions_valued (by decide) houtput (mt toString_eq_empty_iff.1 h.output) rfl]
  rfl

theorem roots_givenRoots (roots : Roots) (env : Environment) :
    (givenRoots roots).roots env = .ok roots := by
  obtain ⟨input, output⟩ := roots
  show Except.ok (Roots.mk (.ofString input.toString) (.ofString output.toString)) = _
  rw [Path.ofString_toString, Path.ofString_toString]

/-- Every two roots that are not empty can be given to compiling. -/
theorem ofWords_compile (hname : name = "compile" ∨ name = "sync") (h : roots.Filled) :
    Invocation.ofWords env (name :: rootWords roots) = .ok (.compile roots) := by
  have hread : readOptions ⟨["input", "output"], ["plan"]⟩ {} (rootWords roots) =
      .ok (givenRoots roots) := readOptions_rootWords h (by simp) (by simp)
  exact ofWords_eq_ok_iff.2 (.compile hname hread (roots_givenRoots roots env) (by simp [givenRoots]))

/-- Every two roots that are not empty can be given to a preview. -/
theorem ofWords_preview (h : roots.Filled) :
    Invocation.ofWords env ("preview" :: rootWords roots) = .ok (.preview roots) := by
  have hread : readOptions ⟨["input", "output"], []⟩ {} (rootWords roots) =
      .ok (givenRoots roots) := readOptions_rootWords h (by simp) (by simp)
  exact ofWords_eq_ok_iff.2 (.preview (.inl rfl) hread (roots_givenRoots roots env))

/-! ### Asking for a plan -/

/-- The words that ask for a preview. -/
def previewWords : List (List String) :=
  [["preview"], ["plan"], ["compile", "--plan"], ["sync", "--plan"]]

/-- What is given, and that only a plan is asked for. -/
def Given.planned (g : Given) : Given := { g with flags := ["plan"] }

theorem addValue_planned (g : Given) (option value : String) :
    g.planned.addValue option value = Given.planned <$> g.addValue option value := by
  rw [Given.addValue, Given.addValue]
  show (if value = "" ∨ (g.value? option).isSome then _ else _) = _
  split <;> rfl

theorem addFlag_planned (g : Given) : g.planned.addFlag "plan" = .error .misuse := rfl

/-- Once a plan has been asked for, the words that follow are read like those of a preview: it
cannot be asked for again, as it cannot be in a preview. -/
theorem readOptions_planned {valued : List String} (hvalued : "plan" ∉ valued) (g : Given)
    (words : List String) :
    readOptions ⟨valued, ["plan"]⟩ g.planned words =
      Given.planned <$> readOptions ⟨valued, []⟩ g words := by
  fun_induction readOptions ⟨valued, []⟩ g words with
  | case1 g => rfl
  | case4 g word rest name value hword hmem ih =>
    simp only [readOptions, hword, if_pos hmem, addValue_planned, map_bind, bind_map_left, ih]
  | case7 g word rest name _ _ hmem => exact absurd hmem List.not_mem_nil
  | case8 g word name hword hhelp _ hmem value rest hplain ih =>
    have hname : name ∉ ["plan"] := fun h => hvalued (List.mem_singleton.1 h ▸ hmem)
    simp only [readOptions, hword, if_neg hhelp, if_neg hname, if_pos hmem, if_pos hplain,
      addValue_planned, map_bind, bind_map_left, ih]
  | case9 g word name _ _ _ hmem | case10 g word name _ _ _ hmem =>
    have hname : name ≠ "plan" := ne_of_mem_of_not_mem hmem hvalued
    simp_all [readOptions]
  | case11 g word rest name hword hhelp _ hmem =>
    -- here the two grammars differ: one knows the flag, but has it already
    by_cases hname : name = "plan"
    · simp [readOptions, hword, hname, addFlag_planned]
    · simp [readOptions, hword, hname, hhelp, hmem]
  | _ => simp_all [readOptions]

/-- Compiling that is asked for its plan goes through the same stages. -/
theorem ofWords_plan (hname : name = "compile" ∨ name = "sync") (env : Environment)
    (options : List String) :
    Invocation.ofWords env (name :: "--plan" :: options) =
      (readOptions ⟨["input", "output"], []⟩ {} options >>= fun g =>
        g.roots env >>= fun roots => .ok (.preview roots)) := by
  have hread : readOptions ⟨["input", "output"], ["plan"]⟩ {} ("--plan" :: options) =
      Given.planned <$> readOptions ⟨["input", "output"], []⟩ {} options := by
    have hword : Word.ofString "--plan" = .long "plan" none := by decide
    have hadd : Given.addFlag {} "plan" = .ok (Given.planned {}) := rfl
    rw [← readOptions_planned (by decide), readOptions, hword]
    simp only [if_neg (show "plan" ≠ "help" by decide), if_pos (List.mem_singleton_self _), hadd,
      ok_bind]
  have hroots : ∀ g : Given, g.planned.roots env = g.roots env := fun _ => rfl
  have hflag : ∀ g : Given, "plan" ∈ g.planned.flags := fun _ => List.mem_singleton_self _
  rw [Invocation.ofWords, if_pos hname, hread, bind_map_left]
  simp only [hroots, hflag, if_true]
  rfl

/-- All words that ask for a preview stand for the same, with whatever options. -/
theorem ofWords_previewWords {start : List String} (h : start ∈ previewWords) (env : Environment)
    (options : List String) :
    Invocation.ofWords env (start ++ options) = Invocation.ofWords env ("preview" :: options) := by
  rw [ofWords_eq_preview (.inl rfl)]
  simp only [previewWords, List.mem_cons, List.not_mem_nil, or_false] at h
  rcases h with rfl | rfl | rfl | rfl
  · exact ofWords_eq_preview (.inl rfl) env options
  · exact ofWords_eq_preview (.inr rfl) env options
  · exact ofWords_plan (.inl rfl) env options
  · exact ofWords_plan (.inr rfl) env options

/-! ### Lines -/

/-- A text of lines, each with a newline at its end. -/
def linesText (ls : List String) : String := String.join (ls.map (· ++ "\n"))

theorem linesText_append (ls ls' : List String) :
    linesText (ls ++ ls') = linesText ls ++ linesText ls' := by
  rw [linesText, List.map_append, String.join_append]
  rfl

theorem linesText_singleton (l : String) : linesText [l] = l ++ "\n" := by
  simp [linesText]

/-- The lines that name the roots other than the usual ones, the output root first. -/
def overrideLines (roots : Roots) : List String :=
  (if roots.output.agrees "." then [] else ["Using output directory: " ++ roots.output.toString]) ++
  (if roots.input.agrees "ai-docs" then [] else ["Using input directory: " ++ roots.input.toString])

theorem overrides_eq (roots : Roots) : overrides roots = linesText (overrideLines roots) := by
  have hone : ∀ (agrees : Bool) (l : String),
      (if agrees then "" else l ++ "\n") = linesText (if agrees then [] else [l]) := by
    intro agrees l
    cases agrees <;> simp [linesText]
  rw [overrideLines, linesText_append, ← hone, ← hone]
  rfl

theorem pathLines_eq (start : String) (ps : List Path) :
    pathLines start ps = linesText (ps.map (start ++ ·.toString)) := by
  rw [pathLines, linesText, List.map_map]
  rfl

end Rulebook.Command
