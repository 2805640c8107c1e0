import StepTrace.Text.Substring

/-!
# Command lines

A command line is a few leading options, the name of a command, and the arguments of that command.
An option is written `--name value` or `--name=value`, and what follows an option is its value
whatever it looks like.  Two dashes alone end the options.  Of an option that can be given once the
last value counts.

Main definition: `Command.ofArguments?`, which gives nothing for a command line that cannot be
understood.
-/

namespace StepTrace

/-- How the outcome of linking is printed. -/
inductive LinkFormat where
  | summary
  | json
  | dot
deriving DecidableEq, Repr, Inhabited

/-- The files and exclusions that a command is told to use.  What it is not told is as the settings
of the project have it. -/
structure Selection where
  features : Option String := none
  manifest : Option String := none
  excluded : List String := []
deriving DecidableEq, Repr, Inhabited

/-- What is asked of the program. -/
inductive Command where
  /-- Give the project settings, or exclude more tags in the settings that it has. -/
  | setUp (excluded : List String)
  /-- Link the steps of the project. -/
  | link (selection : Selection) (format : LinkFormat)
  /-- List the tags of the project. -/
  | listTags (selection : Selection)
  | version
  | help
deriving DecidableEq, Repr, Inhabited

/-- Is an argument written as an option? -/
def isOption (arg : String) : Bool :=
  match arg.toList with
  | '-' :: _ :: _ => true
  | _ => false

/-- The arguments of a command. -/
structure Arguments where
  /-- The options that take a value, in the order given. -/
  options : List (String × String) := []
  wantsHelp : Bool := false
  /-- The arguments that are no options. -/
  others : List String := []
deriving Repr, Inhabited

namespace Arguments

/-- The arguments with an option in front. -/
def give (name value : String) (a : Arguments) : Arguments :=
  { a with options := (name, value) :: a.options }

/-- The name of an option, and its value if that is part of the same argument. -/
def splitOption (arg : String) : String × Option String :=
  let name := arg.toList.takeWhile (· != '=')
  match arg.toList.drop name.length with
  | [] => (arg, none)
  | _ :: value => (String.ofList name, some (String.ofList value))

/-- Reads the arguments of a command; `known` are its options that take a value. -/
def read? (known : List String) : List String → Option Arguments
  | [] => some {}
  | arg :: args =>
    if arg = "--" then some { others := args }
    else if arg = "--help" then
      (read? known args).map fun a => { a with wantsHelp := true }
    else if isOption arg then
      match splitOption arg with
      | (name, some value) =>
        if name ∈ known then (read? known args).map (give name value) else none
      | (name, none) =>
        match args with
        | [] => none
        | value :: args => if name ∈ known then (read? known args).map (give name value) else none
    else (read? known args).map fun a => { a with others := arg :: a.others }

/-- All values given for an option. -/
def valuesOf (a : Arguments) (name : String) : List String :=
  (a.options.filter (·.1 = name)).map (·.2)

/-- The value that counts for an option. -/
def valueOf? (a : Arguments) (name : String) : Option String :=
  (a.valuesOf name).getLast?

/-- The files and exclusions that the arguments name. -/
def selection (a : Arguments) : Selection where
  features := a.valueOf? "--features"
  manifest := a.valueOf? "--definitions"
  excluded := a.valuesOf "--exclude-tag"

end Arguments

/-- An option in front of the name of the command. -/
inductive LeadingOption where
  | verbose
  | version
  | help
deriving DecidableEq, Repr, Inhabited

namespace LeadingOption

/-- The leading option that an argument writes. -/
def ofArgument? (arg : String) : Option LeadingOption :=
  if arg = "--version" then some .version
  else if arg = "--help" then some .help
  else if arg = "--verbose" ∨ arg.toList.tail.all (· = 'v') then some .verbose
  else none

/-- Reads the leading options, and gives what follows them. -/
def readAll? : List String → Option (List LeadingOption × List String)
  | [] => some ([], [])
  | arg :: args =>
    if arg = "--" then some ([], args)
    else if isOption arg then do
      let first ← ofArgument? arg
      let (others, rest) ← readAll? args
      return (first :: others, rest)
    else some ([], arg :: args)

end LeadingOption

namespace Command

/-- The format that a word names; without a word it is the summary. -/
def formatNamed? : Option String → Option LinkFormat
  | none => some .summary
  | some "json" => some .json
  | some "dot" => some .dot
  | some _ => none

/-- The options that a command takes, by its name. -/
def optionsOf? : String → Option (List String)
  | "init" => some ["--exclude-tag"]
  | "link" => some ["--features", "--definitions", "--exclude-tag", "--format"]
  | "tags" => some ["--features", "--exclude-tag"]
  | _ => none

/-- The command of a name with its arguments. -/
def ofName? (name : String) (args : List String) : Option Command := do
  let a ← Arguments.read? (← optionsOf? name) args
  if a.wantsHelp then return .help
  else if a.others ≠ [] then none
  else match name with
    | "init" => return .setUp a.selection.excluded
    | "link" => return .link a.selection (← formatNamed? (a.valueOf? "--format"))
    | _ => return .listTags a.selection

/-- What leading options ask for by themselves.  The first that does counts, and no command is
needed beside it. -/
def ofLeading? (leading : List LeadingOption) : Option Command :=
  leading.findSome? fun
    | .verbose => none
    | .version => some .version
    | .help => some .help

/-- The command that a command line asks for.  Where no command has the name that follows the
leading options, the rest may still hold leading options, behind the two dashes that ended the
others. -/
def ofArguments? (args : List String) : Option Command := do
  let (leading, rest) ← LeadingOption.readAll? args
  match ofLeading? leading, rest with
  | some command, _ => return command
  | none, [] => none
  | none, name :: args =>
    if (optionsOf? name).isSome then ofName? name args
    else ofLeading? (← LeadingOption.readAll? rest).1

end Command

end StepTrace
