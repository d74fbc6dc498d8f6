import AccessibleMarkup.Linter.Session
import AccessibleMarkup.Text.Ascii

/-! The arguments of the program. -/
namespace AccessibleMarkup

inductive OutputFormat where
  | text
  | json
  | compact
  | pretty
  deriving DecidableEq, Repr

def OutputFormat.ofName? : String → Option OutputFormat
  | "text" => some text
  | "json" => some json
  | "compact" => some compact
  | "pretty" => some pretty
  | _ => none

/-- What is said about the documents and the rules. -/
structure LintArguments where
  path : Option String := none
  preset : Option String := none
  failOn : Option String := none
  rules : List String := []
  included : List String := []
  excluded : List String := []
  deriving DecidableEq, Repr

inductive Command where
  | check (arguments : LintArguments) (format : OutputFormat)
  | fix (arguments : LintArguments) (dryRun : Bool) (maxPasses : Nat)
  | listRules
  | init (force : Bool)
  deriving DecidableEq, Repr

/-- A command with the path of the configuration file, if one is named. -/
structure Invocation where
  command : Command
  config : Option String := none
  deriving DecidableEq, Repr

/-- Why arguments lead to no command. -/
inductive Stop where
  /-- They make no sense. -/
  | usage
  | version
  | help
  deriving DecidableEq, Repr

namespace Arguments

structure Flag where
  name : String
  short : Option Char := none
  takesValue : Bool := false
  repeatable : Bool := false
  deriving DecidableEq, Repr

/-- An option with its value, or a value that stands alone. -/
inductive Item where
  | flag (name : String) (value : Option String)
  | plain (value : String)
  deriving DecidableEq, Repr

def commonFlags : List Flag :=
  [{ name := "config", short := some 'c', takesValue := true },
    { name := "verbose", short := some 'v', repeatable := true },
    { name := "quiet", short := some 'q' }, { name := "help", short := some 'h' }]

def programFlags : List Flag := { name := "version", short := some 'V' } :: commonFlags

/-- The options of the commands that look at documents. -/
def lintFlags : List Flag :=
  [{ name := "preset", takesValue := true }, { name := "fail-on", takesValue := true },
    { name := "rules", takesValue := true, repeatable := true },
    { name := "include", short := some 'i', takesValue := true, repeatable := true },
    { name := "exclude", short := some 'e', takesValue := true, repeatable := true }]

def commandFlags? : String → Option (List Flag)
  | "check" =>
    some ({ name := "format", short := some 'f', takesValue := true } :: lintFlags ++ commonFlags)
  | "fix" =>
    some ({ name := "dry-run" } :: { name := "max-passes", takesValue := true } :: lintFlags ++
      commonFlags)
  | "list-rules" => some commonFlags
  | "init" => some ({ name := "force" } :: commonFlags)
  | _ => none

def given (flag : Flag) : Except Stop Item :=
  match flag.name with
  | "version" => .error .version
  | "help" => .error .help
  | name => .ok (.flag name none)

/-- Reads the letters after a single hyphen. The option at the end may wait for its value. -/
def readLetters (flags : List Flag) : List Char → Except Stop (List Item × Option String)
  | [] => .ok ([], none)
  | letter :: rest =>
    match flags.find? (·.short == some letter) with
    | none => .error .usage
    | some flag =>
      if flag.takesValue then
        match rest with
        | [] => .ok ([], some flag.name)
        | '=' :: value => .ok ([.flag flag.name (some (String.ofList value))], none)
        | value => .ok ([.flag flag.name (some (String.ofList value))], none)
      else do
        let item ← given flag
        let (items, waiting) ← readLetters flags rest
        return (item :: items, waiting)

def readWord (flags : List Flag) (word : List Char) : Except Stop (List Item × Option String) :=
  let name := String.ofList (word.takeWhile (· != '='))
  match flags.find? (·.name == name), word.dropWhile (· != '=') with
  | none, _ => .error .usage
  | some flag, [] =>
    if flag.takesValue then .ok ([], some name)
    else do return ([← given flag], none)
  | some flag, _ :: value =>
    if flag.takesValue then .ok ([.flag name (some (String.ofList value))], none)
    else .error .usage

def isOption : List Char → Bool
  | '-' :: _ :: _ => true
  | _ => false

def readOption (flags : List Flag) : List Char → Except Stop (List Item × Option String)
  | '-' :: '-' :: word => readWord flags word
  | _ :: letters => readLetters flags letters
  | [] => .error .usage

/-- Reads the arguments of a command, where an option may wait for its value. After two hyphens
alone nothing is an option. -/
def readItems (flags : List Flag) : Option String → List String → Except Stop (List Item)
  | none, [] => .ok []
  | some _, [] => .error .usage
  | some name, argument :: rest =>
    if isOption argument.toList then .error .usage
    else do return .flag name (some argument) :: (← readItems flags none rest)
  | none, argument :: rest =>
    if argument = "--" then .ok (rest.map .plain)
    else if isOption argument.toList then do
      let (items, waiting) ← readOption flags argument.toList
      return items ++ (← readItems flags waiting rest)
    else do return .plain argument :: (← readItems flags none rest)

/-- Reads the arguments up to the name of the command; the name, and what follows it. -/
def readProgramItems : Option String → List String →
    Except Stop (List Item × String × List String)
  | _, [] => .error .usage
  | some name, argument :: rest =>
    if isOption argument.toList then .error .usage
    else do
      let (items, command) ← readProgramItems none rest
      return (.flag name (some argument) :: items, command)
  | none, argument :: rest =>
    if argument = "--" then .error .usage
    else if isOption argument.toList then do
      let (items, waiting) ← readOption programFlags argument.toList
      let (more, command) ← readProgramItems waiting rest
      return (items ++ more, command)
    else .ok ([], argument, rest)

def values (items : List Item) (name : String) : List String :=
  items.filterMap fun
    | .flag known (some value) => if known == name then some value else none
    | _ => none

def value? (items : List Item) (name : String) : Option String := (values items name).head?

def has (items : List Item) (name : String) : Bool :=
  items.any fun
    | .flag known _ => known == name
    | _ => false

def plainValues (items : List Item) : List String :=
  items.filterMap fun
    | .plain value => some value
    | _ => none

/-- Only some options may be given again, and `quiet` and `verbose` exclude each other. -/
def isConsistent (flags : List Flag) (items : List Item) : Bool :=
  (flags.all fun flag =>
    flag.repeatable || (items.countP fun
      | .flag known _ => known == flag.name
      | _ => false) ≤ 1) && !(has items "quiet" && has items "verbose")

def splitRules (value : String) : List String := (value.toList.splitOn ',').map String.ofList

/-- What is said about documents and rules. There is at most one path. -/
def lintArguments (items : List Item) : Except Stop LintArguments := do
  let path ← match plainValues items with
    | [] => .ok none
    | [path] => if path = "" then .error .usage else .ok (some path)
    | _ => .error .usage
  return {
    path
    preset := value? items "preset"
    failOn := value? items "fail-on"
    rules := (values items "rules").flatMap splitRules
    included := values items "include"
    excluded := values items "exclude" }

def readFormat (items : List Item) : Except Stop OutputFormat :=
  match value? items "format" with
  | none => .ok .text
  | some name =>
    match OutputFormat.ofName? name with
    | some format => .ok format
    | none => .error .usage

def readPasses (items : List Item) : Except Stop Nat :=
  match value? items "max-passes" with
  | none => .ok FixReport.defaultPasses
  | some number =>
    match Text.readNatural? (Text.valuesOf 64 - 1) number with
    | some passes => .ok passes
    | none => .error .usage

def readCommand (name : String) (items : List Item) : Except Stop Command :=
  match name with
  | "check" => do return .check (← lintArguments items) (← readFormat items)
  | "fix" => do
    return .fix (← lintArguments items) (has items "dry-run") (← readPasses items)
  | "list-rules" => if (plainValues items).isEmpty then .ok .listRules else .error .usage
  | "init" =>
    if (plainValues items).isEmpty then .ok (.init (has items "force")) else .error .usage
  | _ => .error .usage

/-- The configuration file that the options name, or else the environment. A path is not empty. -/
def readConfig (items : List Item) (environment : Option String) :
    Except Stop (Option String) :=
  match value? items "config" <|> environment with
  | some "" => .error .usage
  | path => .ok path

/-- Reads the arguments. The environment may name a configuration file; an option counts before it,
and after the name of the command before one that stands there before. -/
def read (environment : Option String) (arguments : List String) : Except Stop Invocation := do
  let (before, name, rest) ← readProgramItems none arguments
  if name = "help" then throw .help
  match commandFlags? name with
  | none => .error .usage
  | some flags =>
    let items ← readItems flags none rest
    if !isConsistent flags items || !isConsistent programFlags before then throw .usage
    let command ← readCommand name items
    let inner ← readConfig items environment
    let outer ← readConfig before environment
    return { command, config := if has items "config" then inner else outer }

end Arguments

end AccessibleMarkup
