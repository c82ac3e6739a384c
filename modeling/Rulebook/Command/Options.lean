/-
Rulebook/Command/Options.lean

Reading the words of a command line.  The first word names the command, and each
command has its own options: some take a value, as the next word or after `=`, and
some stand alone.  An option may be given once, a value may not be empty, and as a
word of its own it may not look like an option.  What is not given is taken from
the environment, and else by default.  Everything else is misuse.
-/
import Rulebook.Starter

namespace Rulebook.Command

/-! ### Options of one command -/

/-- Why words are not run as a command. -/
inductive Refusal
  /-- They ask for help. -/
  | help
  /-- They ask for the version. -/
  | version
  | misuse
  deriving DecidableEq

/-- The options that a command has. -/
structure Grammar where
  /-- Options with a value. -/
  valued : List String
  /-- Options without one. -/
  flags : List String

/-- The options given. -/
structure Given where
  values : List (String × String) := []
  flags : List String := []

/-- The value given for an option. -/
def Given.value? (g : Given) (option : String) : Option String := g.values.lookup option

/-- One more value; it must not be empty, nor the second for its option. -/
def Given.addValue (g : Given) (option value : String) : Except Refusal Given :=
  if value = "" ∨ (g.value? option).isSome then .error .misuse
  else .ok { g with values := (option, value) :: g.values }

/-- One more option without a value; it must not be there already. -/
def Given.addFlag (g : Given) (option : String) : Except Refusal Given :=
  if option ∈ g.flags then .error .misuse else .ok { g with flags := option :: g.flags }

/-- How a word looks. -/
inductive Word
  /-- Two dashes alone: no options after this. -/
  | endOfOptions
  /-- Two dashes and a name, perhaps with `=` and a value. -/
  | long (name : String) (value : Option String)
  /-- One dash and letters. -/
  | short (letter : Char)
  | plain
  deriving DecidableEq

/-- The looks of a word. -/
def Word.ofString (s : String) : Word :=
  match s.toList with
  | ['-', '-'] => .endOfOptions
  | '-' :: '-' :: cs =>
    let name := String.ofList (cs.takeWhile (· ≠ '='))
    match cs.dropWhile (· ≠ '=') with
    | _ :: value => .long name (some (String.ofList value))
    | [] => .long name none
  | '-' :: c :: _ => .short c
  | _ => .plain

/-- Read the options of a command. -/
def readOptions (grammar : Grammar) (g : Given) : List String → Except Refusal Given
  | [] => .ok g
  | word :: rest =>
    match Word.ofString word with
    | .endOfOptions => if rest = [] then .ok g else .error .misuse
    | .long name (some value) =>
      if name ∈ grammar.valued then do
        readOptions grammar (← g.addValue name value) rest
      else .error .misuse
    | .long name none =>
      if name = "help" then .error .help
      else if name ∈ grammar.flags then do
        readOptions grammar (← g.addFlag name) rest
      else if name ∈ grammar.valued then
        match rest with
        | value :: rest =>
          if Word.ofString value = .plain then do
            readOptions grammar (← g.addValue name value) rest
          else .error .misuse
        | [] => .error .misuse
      else .error .misuse
    | .short 'h' => .error .help
    | .short _ => .error .misuse
    | .plain => .error .misuse

/-! ### Commands -/

/-- Where rules are read from and where files are written. -/
structure Roots where
  input : Path
  output : Path
  deriving DecidableEq

/-- A command to run. -/
inductive Invocation
  | compile (roots : Roots)
  | preview (roots : Roots)
  | setUp (root : Path)
  deriving DecidableEq

/-- Variables of the environment with their values. -/
abbrev Environment := List (String × String)

/-- A value from the options, the environment or the default, in this order. -/
def resolve (g : Given) (env : Environment) (option envName usual : String) :
    Except Refusal Path :=
  match g.value? option, env.lookup envName with
  | some value, _ => .ok value
  | none, some value => if value = "" then .error .misuse else .ok value
  | none, none => .ok usual

/-- The roots that the options and the environment give. -/
def Given.roots (g : Given) (env : Environment) : Except Refusal Roots := do
  let input ← resolve g env "input" "AI_DOCS_INPUT" "ai-docs"
  let output ← resolve g env "output" "AI_DOCS_OUTPUT" "."
  return ⟨input, output⟩

/-- The names of the commands. -/
def commandNames : List String := ["compile", "sync", "preview", "plan", "init"]

/-- The command that words stand for. -/
def Invocation.ofWords (env : Environment) : List String → Except Refusal Invocation
  | [] => .error .misuse
  | word :: rest =>
    if word = "compile" ∨ word = "sync" then do
      let g ← readOptions ⟨["input", "output"], ["plan"]⟩ {} rest
      let roots ← g.roots env
      return if "plan" ∈ g.flags then .preview roots else .compile roots
    else if word = "preview" ∨ word = "plan" then do
      let g ← readOptions ⟨["input", "output"], []⟩ {} rest
      return .preview (← g.roots env)
    else if word = "init" then do
      let g ← readOptions ⟨["root"], []⟩ {} rest
      return .setUp ((g.value? "root").getD ".")
    else if word = "help" ∧ (rest = [] ∨ rest ∈ commandNames.map ([·])) then
      .error .help
    else match Word.ofString word with
      | .long "help" none | .short 'h' => .error .help
      | .long "version" none | .short 'V' => .error .version
      | _ => .error .misuse

end Rulebook.Command
