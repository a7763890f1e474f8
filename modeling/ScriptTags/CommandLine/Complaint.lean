import ScriptTags.CommandLine
import ScriptTags.CommandLine.Help
import ScriptTags.Text.Similarity

/-!
# Complaints about the command line

What the standard error stream says about arguments that are wrong: the **fault**, a hint at what
may have been meant if there is one, and how the program is called. Arguments are shown as they are
given, with ill-formed UTF-8 replaced.
-/

namespace ScriptTags.CommandLine

open Terminal (alarm bold green yellow)

/-- How an option without a value is shown. -/
def Switch.shown : Switch → String
  | recursive => "--recursive"
  | unsorted => "--unsorted"
  | verbose => "--verbose"
  | help _ => "--help"
  | version => "--version"

/-- How an option with a value is shown. -/
def Setting.shown : Setting → String
  | format => "--format <FORMAT>"
  | output => "--output <FILE>"
  | maxDepth => "--max-depth <MAX_DEPTH>"
  | config => "--config <FILE>"

/-- How an option is shown. -/
def Opt.shown : Opt → String
  | switch s => s.shown
  | setting s => s.shown

/-- How the target of a value is shown. -/
def Target.shown : Target → String
  | path => "<PATH>..."
  | setting s => s.shown

/-- What is said about a number that is wrong. -/
def NumberFault.message : NumberFault → String
  | empty => "cannot parse integer from empty string"
  | badDigit => "invalid digit found in string"
  | tooGreat => "number too large to fit in target type"

namespace Stop

/-- What is said about a target without a value. -/
def needsValue (target : Target) : String :=
  "a value is required for '" ++ bold target.shown ++ "' but none was supplied"

/-- What is said about a value that is wrong. -/
def wrongValue (value : String) (option : Setting) : String :=
  "invalid value '" ++ yellow value ++ "' for '" ++ bold option.shown ++ "'"

/-- The **fault**. Help and version are none. -/
def fault : Stop → String
  | unknownArgument argument => "unexpected argument '" ++ yellow argument ++ "' found"
  | missingValue target => needsValue target
  | unknownFormat value =>
    if value = "" then needsValue (.setting .format) else wrongValue value .format
  | wrongDepth value fault => wrongValue value .maxDepth ++ ": " ++ fault.message
  | notText => "invalid UTF-8 was detected in one or more arguments"
  | repeated option =>
    "the argument '" ++ yellow option.shown ++ "' cannot be used multiple times"
  | unneededValue option value =>
    "unexpected value '" ++ yellow value ++ "' for '" ++ bold option.shown ++
      "' found; no more were expected"
  | missingPath =>
    "the following required arguments were not provided:\n  " ++ green Target.path.shown
  | displayHelp _ | displayVersion => ""

/-- The values that could have been given. -/
def possibleValues : Stop → List String
  | unknownFormat _ | missingValue (.setting .format) =>
    ["  [possible values: " ++ ", ".intercalate (Format.all.map fun f => green f.name) ++ "]"]
  | _ => []

/-- The hint at the way in which an argument is given as a path. -/
def pathHint (argument : String) : String :=
  "to pass '" ++ yellow argument ++ "' as a value, use '" ++ green ("-- " ++ argument) ++ "'"

/-- The **hint** at what may have been meant. An argument behind two hyphens may be a mistyped
option; any other argument may be a path. -/
def hint? : Stop → Option String
  | unknownArgument argument =>
    match argument.toList with
    | '-' :: '-' :: name =>
      match Text.closest? (String.ofList name) longNames with
      | some option => some ("a similar argument exists: '" ++ green ("--" ++ option) ++ "'")
      | none => some (pathHint argument)
    | _ => some (pathHint argument)
  | unknownFormat value =>
    (Text.closest? value (Format.all.map Format.name)).map fun format =>
      "a similar value exists: '" ++ green format ++ "'"
  | _ => none

/-- Whether a complaint shows how the program is called. -/
def showsUsage : Stop → Bool
  | unknownArgument _ | repeated _ | unneededValue _ _ | missingPath | notText => true
  | _ => false

/-- The **complaint**, line by line. -/
def complaint (s : Stop) : List String :=
  [alarm "error:" ++ " " ++ s.fault] ++ s.possibleValues ++
    (match s.hint? with
    | some hint => ["", "  " ++ green "tip:" ++ " " ++ hint]
    | none => []) ++
    (if s.showsUsage then ["", usage] else []) ++
    ["", "For more information, try '" ++ bold "--help" ++ "'."]

end Stop

end ScriptTags.CommandLine
