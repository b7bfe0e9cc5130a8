/-
  LogicBoard.Command.Arguments
  ────────────────────────────────
  **READING THE COMMAND LINE.**

  A command line is the name of a command with its operands, and options
  before and after the name.  An option has a long name behind two hyphens,
  and some have a letter behind one hyphen; several letters may share a
  hyphen.  The value of an option is the next word, which must not look like
  an option, or stands behind an equals sign.  Two hyphens alone make
  operands of all words after them.

  Options are given at most once before and once behind the name of the
  command, where the ones behind win.
-/
import LogicBoard.Command.Basic
import LogicBoard.Text.Digits

namespace LogicBoard

namespace Arguments

/-! ## §1. Options. -/

/-- Why no command is carried out. -/
inductive Stop where
  /-- The words make no command. -/
  | misuse
  /-- The version is asked for. -/
  | version
  /-- A summary of the commands is asked for. -/
  | help
deriving DecidableEq, Inhabited

/-- What comes with an option. -/
inductive OptionKind where
  /-- Nothing. -/
  | flag
  /-- A value. -/
  | single (accepts : String → Bool)
  /-- A value each time that the option is given, which may be often. -/
  | multiple
  /-- Nothing that is read any more. -/
  | request (stop : Stop)

/-- An option that may be given. -/
structure OptionRule where
  name : String
  letter : Option Char
  kind : OptionKind

/-- Does a value come with the option? -/
def OptionRule.takesValue (rule : OptionRule) : Bool :=
  match rule.kind with
  | .flag | .request _ => false
  | .single _ | .multiple => true

/-- The options that were given, with their values. -/
abbrev Given := List (String × String)

/-- Adds an option, unless it is one too many or its value is not accepted. -/
def record (given : Given) (rule : OptionRule) (value : String) : Except Stop Given :=
  let accepted :=
    match rule.kind with
    | .request stop => Except.error stop
    | .multiple => .ok true
    | .flag => .ok (given.lookup rule.name).isNone
    | .single accepts => .ok ((given.lookup rule.name).isNone && accepts value)
  match accepted with
  | .error stop => .error stop
  | .ok true => .ok (given ++ [(rule.name, value)])
  | .ok false => .error .misuse

/-! ## §2. Words. -/

/-- Does a word look like an option?  A hyphen alone does not. -/
def isOption (word : String) : Bool :=
  match word.toList with
  | '-' :: _ :: _ => true
  | _ => false

/-- Options that were read, and the one whose value is the next word. -/
abbrev Reading := Given × Option OptionRule

/-- Reads options by their letters. -/
def readLetters (rules : List OptionRule) (given : Given) : List Char → Except Stop Reading
  | [] => .ok (given, none)
  | c :: rest =>
    match rules.find? (·.letter = some c) with
    | none => .error .misuse
    | some rule =>
      if rule.takesValue then
        match rest with
        | [] => .ok (given, some rule)
        | '=' :: value => do return (← record given rule (String.ofList value), none)
        | value => do return (← record given rule (String.ofList value), none)
      else do readLetters rules (← record given rule "") rest

/-- Reads an option by its name. -/
def readName (rules : List OptionRule) (given : Given) (cs : List Char) : Except Stop Reading :=
  let name := String.ofList (cs.takeWhile (· ≠ '='))
  match rules.find? (·.name = name), cs.dropWhile (· ≠ '=') with
  | none, _ => .error .misuse
  | some rule, [] =>
    if rule.takesValue then .ok (given, some rule)
    else do return (← record given rule "", none)
  | some rule, _ :: value =>
    if rule.takesValue then do return (← record given rule (String.ofList value), none)
    else .error .misuse

/-- Reads a word that looks like an option. -/
def readOption (rules : List OptionRule) (given : Given) (word : String) : Except Stop Reading :=
  match word.toList with
  | '-' :: '-' :: name => readName rules given name
  | cs => readLetters rules given (cs.drop 1)

/-- Reads options and the operands between them; without operands it stops at the first word that
is not part of an option. -/
def readWords (rules : List OptionRule) (operands : Bool) :
    Option OptionRule → Given → List String → Except Stop (Given × List String)
  | some _, _, [] => .error .misuse
  | none, given, [] => .ok (given, [])
  | some rule, given, word :: rest =>
    if isOption word then .error .misuse
    else do readWords rules operands none (← record given rule word) rest
  | none, given, word :: rest =>
    if operands && word = "--" then .ok (given, rest)
    else if isOption word then do
      let (given, waiting) ← readOption rules given word
      readWords rules operands waiting given rest
    else if operands then do
      let (given, more) ← readWords rules operands none given rest
      return (given, word :: more)
    else .ok (given, word :: rest)

/-! ## §3. Commands. -/

/-- A whole number of 32 bits. -/
def int32? (s : String) : Option Int := do
  let n ← Text.integer? s.toList
  if -2147483648 ≤ n && n ≤ 2147483647 then some n else none

/-- A position: a number of 64 bits without a sign, or with a plus sign. -/
def position? (s : String) : Option Nat := do
  let n ← Text.natural? (match s.toList with | '+' :: cs => cs | cs => cs)
  if n < 0x10000000000000000 then some n else none

/-- The side of a chip with a name: is it that of the outputs? -/
def side? : String → Option Bool
  | "input" => some false
  | "output" => some true
  | _ => none

/-- An option with any value. -/
def anyValue (name : String) (letter : Option Char) : OptionRule :=
  ⟨name, letter, .single fun _ => true⟩

/-- An option with a number. -/
def number (name : String) : OptionRule := ⟨name, none, .single fun s => (int32? s).isSome⟩

/-- The options that may be given on both sides of the name of a command. -/
def commonRules : List OptionRule := [
  ⟨"quiet", some 'q', .flag⟩,
  ⟨"verbose", some 'v', .flag⟩,
  ⟨"color", none, .single fun s => (Colouring.ofText? s).isSome⟩,
  anyValue "config" none,
  anyValue "store" none,
  ⟨"format", none, .single fun s => (ReportFormat.ofText? s).isSome⟩,
  ⟨"help", some 'h', .request .help⟩]

/-- The options in front of a command. -/
def frontRules : List OptionRule := commonRules ++ [⟨"version", some 'V', .request .version⟩]

/-- The options of a command beyond those of every command. -/
def ownRules? : String → Option (List OptionRule)
  | "place" => some [number "rotation", ⟨"const", none, .multiple⟩]
  | "wire" => some [number "layer"]
  | "compile" =>
    some [anyValue "type" none, anyValue "output" (some 'o'), ⟨"debug", none, .flag⟩]
  | "types" | "new" | "resize" | "port" | "const" | "reroute" | "check" => some []
  | _ => none

/-- A number that was given, or zero. -/
def numberOrZero (given : Given) (name : String) : Int :=
  ((given.lookup name).bind int32?).getD 0

/-- The command with a name, options and operands. -/
def command? (given : Given) : String → List String → Option Command
  | "types", [] => some .types
  | "new", [name] => some (.new name)
  | "resize", [name, x, y] => do return .resize name ⟨← int32? x, ← int32? y⟩
  | "port", [name, side, position, port] => do
    return .port name (← side? side) (← position? position) port
  | "const", [name, "add", constant] => some (.addConstant name constant)
  | "const", [name, "remove", constant] => some (.removeConstant name constant)
  | "place", [owner, type, id, x, y] => do
    let constants := (given.filter (·.1 = "const")).map (·.2)
    return .place owner type id ⟨← int32? x, ← int32? y⟩ (numberOrZero given "rotation") constants
  | "wire", [owner, a, b] => some (.wire owner a b (numberOrZero given "layer"))
  | "reroute", [name] => some (.reroute name)
  | "check", [name] => some (.check name)
  | "compile", operands =>
    let compile (input : CompileInput) : Command :=
      .compile input (given.lookup "output") (given.lookup "debug").isSome
    match operands, given.lookup "type" with
    | [path], none => some (compile (.file path))
    | [], some type => some (compile (.stored type))
    | _, _ => none
  | _, _ => none

/-- The options of every command, from both sides of its name. -/
def options (front back : Given) : CommandOptions :=
  let value? (name : String) : Option String := (back.lookup name).or (front.lookup name)
  { quiet := (value? "quiet").isSome
    verbose := (value? "verbose").isSome
    colouring := ((value? "color").bind Colouring.ofText?).getD .auto
    config := value? "config"
    store := value? "store"
    format := ((value? "format").bind ReportFormat.ofText?).getD .text }

/-- Reads a command line. -/
def read (words : List String) : Except Stop (CommandOptions × Command) := do
  match ← readWords frontRules false none [] words with
  | (_, []) => .error .misuse
  | (_, "help" :: _) => .error .help
  | (front, name :: rest) =>
    match ownRules? name with
    | none => .error .misuse
    | some own =>
      let (back, operands) ← readWords (commonRules ++ own) true none [] rest
      match command? back name operands with
      | some command => .ok (options front back, command)
      | none => .error .misuse

end Arguments

end LogicBoard
