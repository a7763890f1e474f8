import ScriptTags.Output
import ScriptTags.Path

/-!
# The command line

Arguments are **byte strings**, like the paths among them, and need not be text. They are read from
left to right. An option is spelled `-x` or `--long`; its value follows as the next argument or is
attached as `-xVALUE`, `-x=VALUE`, or `--long=VALUE`; and options without a value can be bundled
behind one hyphen. Everything else is a path, and after `--` everything is.

A value that is a path is taken as it is. A format and a number have to be text, and so has the name
of an option.

A value in an argument of its own, like a path, is **held** back and only looked at when the next
option or path comes, or the end. So an argument that is no option at all is reported before a
held value that is wrong, and an attached value is not held.

Each option is given at most once, and at least one path is needed.
-/

namespace ScriptTags.CommandLine

/-- The **options** of a run. -/
structure Options where
  paths : List Path
  format : Format := .ctags
  output : Option Path := none
  recursive : Bool := false
  maxDepth : UInt64 := 10
  unsorted : Bool := false
  config : Option Path := none
  verbose : Bool := false
  deriving DecidableEq, Repr

/-- Which log lines a run shows. -/
def Options.logFilter (o : Options) : String :=
  if o.verbose then "shtags=debug" else "shtags=warn"

/-- The options **without a value**. -/
inductive Switch where
  | recursive
  | unsorted
  | verbose
  | help (long : Bool)
  | version
  deriving DecidableEq, Repr

/-- The options **with a value**. -/
inductive Setting where
  | format
  | output
  | maxDepth
  | config
  deriving DecidableEq, Repr

/-- An option. -/
inductive Opt where
  | switch (s : Switch)
  | setting (s : Setting)
  deriving DecidableEq, Repr

/-- What a value is given to. -/
inductive Target where
  | path
  | setting (s : Setting)
  deriving DecidableEq, Repr

/-- What can be **wrong with a number**. -/
inductive NumberFault where
  | empty
  | badDigit
  | tooGreat
  deriving DecidableEq, Repr

/-- Why no options come out: a wrong argument, or a request to print something. -/
inductive Stop where
  /-- An argument starts like an option and is none. -/
  | unknownArgument (argument : String)
  /-- There is no value, or an empty one. -/
  | missingValue (target : Target)
  | unknownFormat (value : String)
  | wrongDepth (value : String) (fault : NumberFault)
  /-- A number is not text. -/
  | notText
  /-- An option is given twice. -/
  | repeated (option : Opt)
  /-- A value is attached to an option without one. -/
  | unneededValue (option : Switch) (value : String)
  | missingPath
  | displayHelp (long : Bool)
  | displayVersion
  deriving DecidableEq, Repr

/-- The exit code of a program that stops here. -/
def Stop.exitCode : Stop → UInt8
  | displayHelp _ | displayVersion => 0
  | _ => 2

/-- The option behind one hyphen. Its letters are ASCII characters. -/
def short? (letter : Byte) : Option Opt :=
  match Char.ofUInt8 letter with
  | 'f' => some (.setting .format)
  | 'o' => some (.setting .output)
  | 'R' => some (.switch .recursive)
  | 'v' => some (.switch .verbose)
  | 'h' => some (.switch (.help false))
  | 'V' => some (.switch .version)
  | _ => none

/-- The option behind two hyphens. -/
def long? : String → Option Opt
  | "format" => some (.setting .format)
  | "output" => some (.setting .output)
  | "recursive" => some (.switch .recursive)
  | "max-depth" => some (.setting .maxDepth)
  | "unsorted" => some (.switch .unsorted)
  | "config" => some (.setting .config)
  | "verbose" => some (.switch .verbose)
  | "help" => some (.switch (.help true))
  | "version" => some (.switch .version)
  | _ => none

/-- The names behind two hyphens. -/
def longNames : List String :=
  ["format", "output", "recursive", "max-depth", "unsorted", "config", "verbose", "help",
    "version"]

/-! ### What has been given -/

/-- The options **given** so far. -/
structure Given where
  paths : List Path := []
  format : Option Format := none
  output : Option Path := none
  recursive : Bool := false
  maxDepth : Option UInt64 := none
  unsorted : Bool := false
  config : Option Path := none
  verbose : Bool := false
  deriving DecidableEq, Repr

/-- Reads a path, which is not empty. -/
def readPath (target : Target) (value : Bytes) : Except Stop Path :=
  if value = [] then .error (.missingValue target) else .ok ⟨value⟩

/-- Reads a format. -/
def readFormat (value : Bytes) : Except Stop Format :=
  match (Utf8.decode? value).bind Format.ofName? with
  | some format => .ok format
  | none => .error (.unknownFormat (Utf8.decodeLossy value))

/-- A number with one more digit at its end. It has to fit into 64 bits. -/
def addDigit (n : Nat) (c : Char) : Except NumberFault Nat :=
  if !c.isDigit then .error .badDigit
  else if UInt64.size ≤ n * 10 + (c.toNat - '0'.toNat) then .error .tooGreat
  else .ok (n * 10 + (c.toNat - '0'.toNat))

/-- Reads a number of 64 bits: digits, with a plus sign before them or not. -/
def readNumber (text : String) : Except NumberFault UInt64 :=
  match text.toList with
  | [] => .error .empty
  | ['+'] => .error .badDigit
  | '+' :: digits => UInt64.ofNat <$> digits.foldlM addDigit 0
  | digits => UInt64.ofNat <$> digits.foldlM addDigit 0

/-- Reads a depth. -/
def readDepth (value : Bytes) : Except Stop UInt64 :=
  match Utf8.decode? value with
  | some text => (readNumber text).mapError (.wrongDepth text)
  | none => .error .notText

/-- Reads the value of an option unless the option has one. -/
def once {α : Type} (option : Setting) (old : Option α) (new : Except Stop α) :
    Except Stop (Option α) :=
  if old.isSome then .error (.repeated (.setting option)) else some <$> new

/-- Turns a switch on unless it is on. -/
def turnOn (option : Switch) (old : Bool) : Except Stop Bool :=
  if old then .error (.repeated (.switch option)) else .ok true

namespace Given

/-- Gives an option its value. -/
def set (g : Given) (value : Bytes) : Setting → Except Stop Given
  | .format => do
    return { g with format := ← once .format g.format (readFormat value) }
  | .output => do
    return { g with output := ← once .output g.output (readPath (.setting .output) value) }
  | .maxDepth => do
    return { g with maxDepth := ← once .maxDepth g.maxDepth (readDepth value) }
  | .config => do
    return { g with config := ← once .config g.config (readPath (.setting .config) value) }

/-- Gives an option without a value. Help and version end the reading. -/
def flip (g : Given) : Switch → Except Stop Given
  | .recursive => do return { g with recursive := ← turnOn .recursive g.recursive }
  | .unsorted => do return { g with unsorted := ← turnOn .unsorted g.unsorted }
  | .verbose => do return { g with verbose := ← turnOn .verbose g.verbose }
  | .help long => .error (.displayHelp long)
  | .version => .error .displayVersion

end Given

/-! ### Reading arguments -/

/-- What is **held** back. -/
inductive Held where
  | nothing
  | awaits (option : Setting)
  | value (option : Setting) (value : Bytes)
  | paths (paths : List Bytes)
  deriving DecidableEq, Repr

/-- The state **between two arguments**. -/
structure State where
  given : Given := {}
  held : Held := .nothing
  /-- Whether `--` has been read. -/
  onlyPaths : Bool := false
  deriving DecidableEq, Repr

namespace State

/-- The options given, with what is held back. -/
def settle (s : State) : Except Stop Given :=
  match s.held with
  | .nothing => .ok s.given
  | .awaits option => .error (.missingValue (.setting option))
  | .value option value => s.given.set value option
  | .paths paths => do
    return { s.given with paths := s.given.paths ++ (← paths.mapM (readPath .path)) }

/-- Reads a switch. -/
def switch (s : State) (option : Switch) : Except Stop State := do
  return { s with given := ← (← s.settle).flip option, held := .nothing }

/-- Reads an option with its value attached. -/
def attach (s : State) (option : Setting) (value : Bytes) : Except Stop State := do
  return { s with given := ← (← s.settle).set value option, held := .nothing }

/-- Reads an option whose value is the next argument. -/
def await (s : State) (option : Setting) : Except Stop State := do
  return { s with given := ← s.settle, held := .awaits option }

/-- Reads a path. -/
def path (s : State) (argument : Bytes) : Except Stop State :=
  match s.held with
  | .paths paths => .ok { s with held := .paths (paths ++ [argument]) }
  | _ => do return { s with given := ← s.settle, held := .paths [argument] }

/-- What stands behind one hyphen where no option does: a character, or, if there is none, all that
is left. -/
def unknownLetter (letters : Bytes) : String :=
  match (Utf8.scalars letters).head? with
  | some (some letter) => String.ofList ['-', letter]
  | _ => "-" ++ Utf8.decodeLossy letters

/-- Reads the letters behind one hyphen. -/
def bundle : State → Bytes → Except Stop State
  | s, [] => .ok s
  | s, letter :: rest =>
    match short? letter with
    | none => .error (.unknownArgument (unknownLetter (letter :: rest)))
    | some (.switch option) => do (← s.switch option).bundle rest
    | some (.setting option) =>
      if rest.isEmpty then s.await option
      else if rest.head? = some Byte.equals then s.attach option rest.tail
      else s.attach option rest

/-- Reads what stands behind two hyphens. -/
def long (s : State) (body : Bytes) : Except Stop State :=
  let name := body.takeWhile (· != Byte.equals)
  let value := body.drop name.length
  match (Utf8.decode? name).bind long? with
  | none => .error (.unknownArgument ("--" ++ Utf8.decodeLossy name))
  | some (.switch option) =>
    if value.isEmpty then s.switch option
    else .error (.unneededValue option (Utf8.decodeLossy value.tail))
  | some (.setting option) =>
    if value.isEmpty then s.await option else s.attach option value.tail

/-- Reads an argument that is neither an option nor `--`. -/
def plain (s : State) (argument : Bytes) : Except Stop State :=
  match s.held with
  | .awaits option => .ok { s with held := .value option argument }
  | _ => s.path argument

/-- Reads one **argument**. A hyphen alone is a path or a value like any other. -/
def step (s : State) (argument : Bytes) : Except Stop State :=
  if s.onlyPaths then s.path argument
  else
    match argument with
    | first :: second :: rest =>
      if first != Byte.hyphen then s.plain argument
      else if second != Byte.hyphen then s.bundle (second :: rest)
      else if rest.isEmpty then .ok { s with onlyPaths := true }
      else s.long rest
    | _ => s.plain argument

end State

/-! ### The options -/

/-- The given options with the configuration that the environment names, if none is given. -/
def Given.withEnvironment (g : Given) (configVariable : Option Bytes) : Except Stop Given :=
  match g.config, configVariable with
  | none, some value => do return { g with config := some (← readPath (.setting .config) value) }
  | _, _ => .ok g

/-- The options of a run, with defaults for those that are not given. -/
def Given.finish (g : Given) : Except Stop Options :=
  if g.paths.isEmpty then .error .missingPath
  else
    .ok
      { paths := g.paths
        format := g.format.getD .ctags
        output := g.output
        recursive := g.recursive
        maxDepth := g.maxDepth.getD 10
        unsorted := g.unsorted
        config := g.config
        verbose := g.verbose }

/-- **Parses** a command line; `configVariable` is the environment's configuration file. -/
def parse (arguments : List Bytes) (configVariable : Option Bytes) : Except Stop Options := do
  let s ← arguments.foldlM State.step {}
  let g ← s.settle
  (← g.withEnvironment configVariable).finish

end ScriptTags.CommandLine
