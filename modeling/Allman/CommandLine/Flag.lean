import Allman.Text.Numeral
import Allman.Text.Quoted

/-! # Flags

A command line holds arguments and flags, in any order. A flag has a long name after two dashes,
and some have a letter after one dash; letters can be put together. A flag with a value has it
after an equals sign or as the next argument, but a flag that is true or false has it after an
equals sign only. Two dashes alone end the flags.

`CommandLine.ofArguments` reads a command line; the first fault ends the reading. -/

namespace Allman

/-- The flags. -/
inductive Flag where
  | cache
  | cacheDir
  | check
  | clearCache
  | color
  | config
  | context
  | cpuProfile
  | diagnostics
  | help
  | maxDiagnostics
  | memProfile
  | quiet
  | runtimeTrace
  | timings
  | version
  | write
  deriving DecidableEq, Repr

/-- What values a flag has. -/
inductive FlagKind where
  /-- True or false; the flag alone means true. -/
  | truth
  /-- An integer. -/
  | number
  /-- A text. -/
  | text
  deriving DecidableEq, Repr

namespace Flag

/-- All flags, by name. -/
def all : List Flag :=
  [cache, cacheDir, check, clearCache, color, config, context, cpuProfile, diagnostics, help,
    maxDiagnostics, memProfile, quiet, runtimeTrace, timings, version, write]

/-- The long name. -/
def name : Flag → String
  | cache => "cache"
  | cacheDir => "cache-dir"
  | check => "check"
  | clearCache => "clear-cache"
  | color => "color"
  | config => "config"
  | context => "context"
  | cpuProfile => "cpu-profile"
  | diagnostics => "diagnostics"
  | help => "help"
  | maxDiagnostics => "max-diagnostics"
  | memProfile => "mem-profile"
  | quiet => "quiet"
  | runtimeTrace => "runtime-trace"
  | timings => "timings"
  | version => "version"
  | write => "write"

/-- The letter, if there is one. -/
def letter? : Flag → Option UInt8
  | help => some 104
  | version => some 118
  | write => some 119
  | _ => none

/-- The kind of its values. -/
def kind : Flag → FlagKind
  | cacheDir | color | config | cpuProfile | diagnostics | memProfile | runtimeTrace => .text
  | maxDiagnostics => .number
  | _ => .truth

/-- What the flag is for. -/
def purpose : Flag → String
  | cache => "reuse results cached for identical input"
  | cacheDir => "cache directory (default $XDG_CACHE_HOME/reindent)"
  | check => "print nothing; exit 1 when the file would change"
  | clearCache => "drop every cached result before running (implies --cache)"
  | color => "colorize output (auto|on|off) (default \"auto\")"
  | config => "use this config file instead of discovering .reindent.toml"
  | context => "show the source line and a caret under each diagnostic"
  | cpuProfile => "write a CPU profile to file"
  | diagnostics => "diagnostics format (text|json) (default \"text\")"
  | help => "help for reindent"
  | maxDiagnostics => "maximum number of diagnostics to show (default 100)"
  | memProfile => "write a heap profile to file on exit"
  | quiet => "suppress diagnostics and non-essential output"
  | runtimeTrace => "write a runtime execution trace to file"
  | timings => "show timing information"
  | version => "version for reindent"
  | write => "rewrite the file in place instead of printing it"

/-- The letter and the name, as a message shows them. -/
def label (f : Flag) : Bytes :=
  match f.letter? with
  | some letter => Byte.dash :: letter :: Bytes.ofString ", --" ++ Bytes.ofString f.name
  | none => Bytes.ofString "--" ++ Bytes.ofString f.name

/-- The flag with a name. -/
def ofName? (name : Bytes) : Option Flag := all.find? fun f => Bytes.ofString f.name == name

/-- The flag with a letter. -/
def ofLetter? (letter : UInt8) : Option Flag := all.find? fun f => f.letter? == some letter

end Flag

/-- What is wrong with a value. -/
inductive ValueFault where
  /-- It is neither true nor false. -/
  | truth
  /-- It is no integer. -/
  | number (fault : Numeral.Fault)
  deriving DecidableEq, Repr

/-- What is wrong with a command line. -/
inductive FlagError where
  /-- No name comes after the dashes. -/
  | badSyntax (argument : Bytes)
  /-- No flag has the name. -/
  | unknownName (name : Bytes)
  /-- No flag has the letter, the first of the rest of an argument. -/
  | unknownLetter (letter : UInt8) (rest : Bytes)
  /-- The value is missing. -/
  | missingValue (flag : Flag)
  /-- The value is not one of the flag's. -/
  | badValue (flag : Flag) (value : Bytes) (fault : ValueFault)
  deriving DecidableEq, Repr

namespace ValueFault

/-- The text of a fault. -/
def message (value : Bytes) : ValueFault → Bytes
  | truth =>
    Bytes.ofString "strconv.ParseBool: parsing " ++ quoted value ++
      Bytes.ofString ": invalid syntax"
  | number fault =>
    Bytes.ofString "strconv.ParseInt: parsing " ++ quoted value ++
      match fault with
      | .malformed => Bytes.ofString ": invalid syntax"
      | .outOfRange => Bytes.ofString ": value out of range"

end ValueFault

namespace FlagError

/-- The character that stands for a letter in a message: of a byte that is no ASCII character, the
first byte of its two-byte encoding, read as a character. -/
def shownLetter (letter : UInt8) : Nat := ((Rune.encode letter.toNat).headD 0).toNat

/-- The text of an error. -/
def message : FlagError → Bytes
  | badSyntax argument => Bytes.ofString "bad flag syntax: " ++ argument
  | unknownName name => Bytes.ofString "unknown flag: --" ++ name
  | unknownLetter letter rest =>
    Bytes.ofString "unknown shorthand flag: " ++ Quoted.character (shownLetter letter) ++
      Bytes.ofString " in -" ++ letter :: rest
  | missingValue flag => Bytes.ofString "flag needs an argument: --" ++ Bytes.ofString flag.name
  | badValue flag value fault =>
    Bytes.ofString "invalid argument " ++ quoted value ++ Bytes.ofString " for " ++
      quoted flag.label ++ Bytes.ofString " flag: " ++ fault.message value

end FlagError

/-- The value of a flag. -/
inductive FlagValue where
  /-- True or false. -/
  | truth (b : Bool)
  /-- An integer. -/
  | number (n : Int)
  /-- A text. -/
  | text (s : Bytes)
  deriving DecidableEq, Repr

namespace FlagValue

/-- The texts that mean true. -/
def truthTexts : List String := ["1", "t", "T", "TRUE", "true", "True"]

/-- The texts that mean false. -/
def falsehoodTexts : List String := ["0", "f", "F", "FALSE", "false", "False"]

/-- The value of a kind that a text stands for. -/
def ofText (kind : FlagKind) (s : Bytes) : Except ValueFault FlagValue :=
  match kind with
  | .text => .ok (.text s)
  | .truth =>
    if truthTexts.any fun t => Bytes.ofString t == s then .ok (.truth true)
    else if falsehoodTexts.any fun t => Bytes.ofString t == s then .ok (.truth false)
    else .error .truth
  | .number =>
    match Numeral.read s with
    | .ok n => .ok (.number n)
    | .error fault => .error (.number fault)

end FlagValue

/-- A command line that was read. -/
structure CommandLine where
  /-- The flags that were given with their values, the last first. -/
  given : List (Flag × FlagValue)
  /-- The arguments that are no flags. -/
  arguments : List Bytes
  deriving DecidableEq, Repr

namespace CommandLine

/-- Nothing is given. -/
def empty : CommandLine := ⟨[], []⟩

/-! ### Looking flags up: the last value counts -/

/-- The flag was given. -/
def has (c : CommandLine) (f : Flag) : Bool := (c.given.lookup f).isSome

/-- The text of a flag, if it was given. -/
def text? (c : CommandLine) (f : Flag) : Option Bytes :=
  match c.given.lookup f with
  | some (.text s) => some s
  | _ => none

/-- The truth of a flag, if it was given. -/
def truth? (c : CommandLine) (f : Flag) : Option Bool :=
  match c.given.lookup f with
  | some (.truth b) => some b
  | _ => none

/-- The number of a flag, if it was given. -/
def number? (c : CommandLine) (f : Flag) : Option Int :=
  match c.given.lookup f with
  | some (.number n) => some n
  | _ => none

/-- The flag is true. -/
def isSet (c : CommandLine) (f : Flag) : Bool := (c.truth? f).getD false

/-! ### Reading -/

/-- The command line with one more flag. -/
def give (c : CommandLine) (f : Flag) (value : Bytes) : Except FlagError CommandLine :=
  match FlagValue.ofText f.kind value with
  | .ok v => .ok { c with given := (f, v) :: c.given }
  | .error fault => .error (.badValue f value fault)

/-- The value of a flag that is given without one. -/
def plainTruth : Bytes := Bytes.ofString "true"

/-- What letters must not start with to be read: they are left to whoever tests the program. -/
def testStart : Bytes := Bytes.ofString "test."

/-- Reads the letters after one dash. All flags with a letter are true or false. -/
def readLetters (c : CommandLine) : Bytes → Except FlagError CommandLine
  | [] => .ok c
  | letter :: rest =>
    if Bytes.startsWith (letter :: rest) testStart then .ok c
    else match Flag.ofLetter? letter, rest with
      | none, _ => .error (.unknownLetter letter rest)
      | some f, 61 :: first :: value => c.give f (first :: value)
      | some f, _ => do readLetters (← c.give f plainTruth) rest

/-- What an argument is. -/
inductive Argument where
  /-- No flag. -/
  | plain
  /-- The end of the flags. -/
  | ending
  /-- Letters after one dash. -/
  | letters (s : Bytes)
  /-- A name after two dashes, and what follows an equals sign. -/
  | named (name : Bytes) (value : Option Bytes)
  /-- Two dashes with no name after them. -/
  | nameless
  deriving DecidableEq, Repr

/-- What an argument is. -/
def classify (argument : Bytes) : Argument :=
  match argument with
  | 45 :: 45 :: [] => .ending
  | 45 :: 45 :: first :: rest =>
    if first = Byte.dash ∨ first = Byte.equals then .nameless
    else match Bytes.cutAt? Byte.equals (first :: rest) with
      | some (name, value) => .named name (some value)
      | none => .named (first :: rest) none
  | 45 :: first :: rest => .letters (first :: rest)
  | _ => .plain

/-- Reads arguments. -/
def read (c : CommandLine) : List Bytes → Except FlagError CommandLine
  | [] => .ok c
  | argument :: others =>
    match classify argument with
    | .plain => read { c with arguments := c.arguments ++ [argument] } others
    | .ending => .ok { c with arguments := c.arguments ++ others }
    | .letters s => do read (← c.readLetters s) others
    | .nameless => .error (.badSyntax argument)
    | .named name value =>
      match Flag.ofName? name, value with
      | none, _ => .error (.unknownName name)
      | some f, some v => do read (← c.give f v) others
      | some f, none =>
        if f.kind = .truth then do read (← c.give f plainTruth) others
        else match others with
          | [] => .error (.missingValue f)
          | v :: rest => do read (← c.give f v) rest

/-- **The command line that arguments stand for.** There are no commands among them: also the words
by which a shell asks for completions are read as the names of files (see `Program.dispatch`). -/
def ofArguments (arguments : List Bytes) : Except FlagError CommandLine := empty.read arguments

end CommandLine

end Allman
