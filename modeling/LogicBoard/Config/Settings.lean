/-
  LogicBoard.Config.Settings
  ────────────────────────────────
  **SETTINGS OF A DESIGN.**

  A design directory may hold a configuration with the sections `editor`,
  `routing`, `compile` and `storage`.  Every section and every setting has a
  default; what the configuration does not know is an error.  Settings that
  were read are checked for their ranges.
-/
import LogicBoard.Config.Toml
import LogicBoard.Geometry.Vec
import LogicBoard.Text.Blank

namespace LogicBoard

/-! ## §1. Sections. -/

/-- Settings for editing chip types. -/
structure EditorSettings where
  /-- Cells per unit of size. -/
  scale : Int := 4
  /-- The largest size of the base type. -/
  baseMaxSize : Vec := ⟨1000, 1000⟩
  /-- The type that every other type has to be smaller than. -/
  baseType : String := "base"
deriving DecidableEq, Inhabited

/-- Settings for routing wires. -/
structure RoutingSettings where
  /-- Cells of at least this cost cannot be entered. -/
  maxCost : Nat := 10
  /-- The cost of the cell in front of a pin. -/
  pinCost : Nat := 9
deriving DecidableEq, Inhabited

/-- Settings for compiling programs. -/
structure CompileSettings where
  /-- How many rounds of score propagation there are. -/
  rounds : Nat := 10
  /-- The first score of a chip that another chip feeds. -/
  seed : Nat := 10
  /-- Is there a comment above every block? -/
  debug : Bool := false
deriving DecidableEq, Inhabited

/-- Settings for keeping chip types. -/
structure StorageSettings where
  /-- The directory of the records. -/
  dir : String := ".chipgrid/types"
  /-- What the file names of records begin with. -/
  stem : String := "CHIP_DESIGNER_TYPES_"
deriving DecidableEq, Inhabited

/-- All settings. -/
structure Settings where
  editor : EditorSettings := {}
  routing : RoutingSettings := {}
  compile : CompileSettings := {}
  /-- The directory with templates that replace the built-in ones. -/
  templates : Option String := none
  storage : StorageSettings := {}
deriving DecidableEq, Inhabited

/-! ## §2. Errors. -/

/-- A setting out of its range. -/
inductive SettingFault where
  | scaleTooSmall
  | baseMaxSizeTooSmall
  | baseMaxSizeTooLarge
  | baseTypeEmpty
  | pinCostTooLarge
  | roundsTooSmall
deriving DecidableEq

/-- The words for a setting out of its range. -/
def SettingFault.text : SettingFault → String
  | scaleTooSmall => "editor.scale_factor must be at least 1"
  | baseMaxSizeTooSmall => "editor.base_max_size components must be at least 1"
  | baseMaxSizeTooLarge => "editor.base_max_size components must be at most 1000"
  | baseTypeEmpty => "editor.base_chip must not be empty"
  | pinCostTooLarge => "routing.pin_cost must be below routing.max_cost"
  | roundsTooSmall => "compile.relaxation_rounds must be at least 1"

/-- Why a configuration was refused. -/
inductive ConfigError where
  /-- The text is not TOML, or a setting is unknown or of the wrong kind. -/
  | malformed
  /-- A setting is out of its range. -/
  | invalid (fault : SettingFault)
deriving DecidableEq

/-- The message of an error. -/
def ConfigError.message : ConfigError → String
  | malformed => "failed to parse configuration: unexpected text"
  | invalid fault => "validation error: " ++ fault.text

namespace Settings

/-! ## §3. Reading sections. -/

/-- Access to the settings of a section by name. -/
abbrev Fields := String → Option Toml

/-- The settings of a section that knows these names.  A section may also be an array of its
settings in order. -/
def section? (names : List String) : Toml → Option Fields
  | .table entries =>
    if entries.all fun e => names.contains e.1 then some fun name => entries.lookup name else none
  | .array items => some fun name => (names.zip items).lookup name
  | _ => none

/-- A setting with a default. -/
def orElse {α : Type} (default : α) (read? : Toml → Option α) : Option Toml → Option α
  | none => some default
  | some v => read? v

/-- A whole number in a range. -/
def within? (least most : Int) : Toml → Option Int
  | .integer n => if least ≤ n && n ≤ most then some n else none
  | _ => none

/-- A whole number that is not negative. -/
def natUpTo? (most : Nat) (v : Toml) : Option Nat :=
  (within? 0 most v).map Int.toNat

/-- A text. -/
def text? : Toml → Option String
  | .string s => some s
  | _ => none

/-- A truth value. -/
def truth? : Toml → Option Bool
  | .boolean b => some b
  | _ => none

/-- A coordinate. -/
def coordinate? : Toml → Option Int := within? (-2147483648) 2147483647

/-- An extent: a table with `x` and `y`, or an array of both. -/
def extent? : Toml → Option Vec
  | .table entries => do
    return ⟨← coordinate? (← entries.lookup "x"), ← coordinate? (← entries.lookup "y")⟩
  | .array (x :: y :: _) => do return ⟨← coordinate? x, ← coordinate? y⟩
  | _ => none

/-- The largest number of 32 bits. -/
def largest32 : Nat := 0xFFFFFFFF

/-- The section `editor`. -/
def editor? (v : Toml) : Option EditorSettings := do
  let field ← section? ["scale_factor", "base_max_size", "base_chip"] v
  let d : EditorSettings := {}
  return {
    scale := ← orElse d.scale coordinate? (field "scale_factor")
    baseMaxSize := ← orElse d.baseMaxSize extent? (field "base_max_size")
    baseType := ← orElse d.baseType text? (field "base_chip") }

/-- The section `routing`. -/
def routing? (v : Toml) : Option RoutingSettings := do
  let field ← section? ["max_cost", "pin_cost"] v
  let d : RoutingSettings := {}
  return {
    maxCost := ← orElse d.maxCost (natUpTo? largest32) (field "max_cost")
    pinCost := ← orElse d.pinCost (natUpTo? largest32) (field "pin_cost") }

/-- The section `compile`. -/
def compile? (v : Toml) : Option (CompileSettings × Option String) := do
  let field ← section? ["relaxation_rounds", "seed_score", "debug", "templates"] v
  let d : CompileSettings := {}
  let settings : CompileSettings := {
    rounds := ← orElse d.rounds (natUpTo? largest32) (field "relaxation_rounds")
    seed := ← orElse d.seed (natUpTo? 0x7FFFFFFFFFFFFFFF) (field "seed_score")
    debug := ← orElse d.debug truth? (field "debug") }
  return (settings, ← orElse none (fun v => (text? v).map some) (field "templates"))

/-- The section `storage`. -/
def storage? (v : Toml) : Option StorageSettings := do
  let field ← section? ["dir", "prefix"] v
  let d : StorageSettings := {}
  return {
    dir := ← orElse d.dir text? (field "dir")
    stem := ← orElse d.stem text? (field "prefix") }

/-- All sections. -/
def ofEntries? (entries : List (String × Toml)) : Option Settings := do
  let field ← section? ["editor", "routing", "compile", "storage"] (.table entries)
  let (compile, templates) ← orElse ({}, none) compile? (field "compile")
  return {
    editor := ← orElse {} editor? (field "editor")
    routing := ← orElse {} routing? (field "routing")
    compile
    templates
    storage := ← orElse {} storage? (field "storage") }

/-! ## §4. Checking ranges. -/

/-- The first setting that is out of its range. -/
def fault? (s : Settings) : Option SettingFault :=
  let size := s.editor.baseMaxSize
  if s.editor.scale < 1 then some .scaleTooSmall
  else if size.x < 1 || size.y < 1 then some .baseMaxSizeTooSmall
  else if largestSize.x < size.x || largestSize.y < size.y then some .baseMaxSizeTooLarge
  else if (Text.trim s.editor.baseType).isEmpty then some .baseTypeEmpty
  else if s.routing.maxCost ≤ s.routing.pinCost then some .pinCostTooLarge
  else if s.compile.rounds < 1 then some .roundsTooSmall
  else none

/-- Reads and checks a configuration. -/
def ofText (s : String) : Except ConfigError Settings :=
  match (Toml.parse? s).bind ofEntries? with
  | none => .error .malformed
  | some settings =>
    match settings.fault? with
    | some fault => .error (.invalid fault)
    | none => .ok settings

end Settings

end LogicBoard
