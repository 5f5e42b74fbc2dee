import LuaBundle.Lua.Name
import LuaBundle.Settings
import LuaBundle.Text.Blank
import LuaBundle.Text.Quoted
import LuaBundle.Toml.Value

/-!
# Reading settings from tables

A TOML table gives some settings, and the others keep their defaults.  Entries are read in the order
of their keys, and the first one that does not fit is reported: a key that is no setting, or a value
of the wrong type.

* `Settings.ofTable` reads the settings of a table.
* `Settings.validate` refuses settings that no bundle can be made with.

The settings of the bundle may also be given as an array of up to three values, in the order of
their fields.
-/

set_option autoImplicit false

namespace LuaBundle

/-- What a setting wants of its value. -/
inductive Expected where
  | string
  | boolean
  | bundleStyle
  deriving DecidableEq, Repr

/-- Why a table gives no settings.  The place of a value is the dotted key that leads to it. -/
inductive Mismatch where
  | unknownSetting (key : String)
  | unknownBundleSetting (key : String)
  | wrongType (found : Toml.Value) (expected : Expected) (place : String)
  | tooManyItems (count : Nat)
  deriving Repr

namespace Mismatch

/-- A value as messages name it. -/
def foundText : Toml.Value → String
  | .string text | .moment text => "string " ++ Text.quoted text
  | .integer n => s!"integer `{n}`"
  | .float x => s!"floating point `{x.text}`"
  | .boolean b => s!"boolean `{b}`"
  | .array _ => "sequence"
  | .table _ => "map"

def expectedText : Expected → String
  | .string => "a string"
  | .boolean => "a boolean"
  | .bundleStyle => "struct BundleConfig"

/-- The message of a mismatch; each of its lines ends in a line break. -/
def message : Mismatch → String
  | unknownSetting key =>
    s!"unknown field `{key}`, expected one of `extension`, `strict_cycles`, `bundle`\n"
  | unknownBundleSetting key =>
    s!"unknown field `{key}`, expected one of `cache_table`, `function_prefix`, " ++
      "`module_headers`\nin `bundle`\n"
  | wrongType found expected place =>
    s!"invalid type: {foundText found}, expected {expectedText expected}\nin `{place}`\n"
  | tooManyItems count =>
    s!"invalid length {count}, expected fewer elements in array\nin `bundle`\n"

end Mismatch

/-! ## Reading values -/

/-- The text of a value; a date or a time gives its text, too. -/
def readString (place : String) : Toml.Value → Except Mismatch String
  | .string text | .moment text => .ok text
  | v => .error (.wrongType v .string place)

def readBoolean (place : String) : Toml.Value → Except Mismatch Bool
  | .boolean b => .ok b
  | v => .error (.wrongType v .boolean place)

namespace BundleStyle

/-- Sets the field of a key. -/
def set (style : BundleStyle) (key : String) (v : Toml.Value) : Except Mismatch BundleStyle :=
  match key with
  | "cache_table" => do return { style with cacheTable := ← readString "bundle.cache_table" v }
  | "function_prefix" => do
    return { style with functionPrefix := ← readString "bundle.function_prefix" v }
  | "module_headers" => do
    return { style with moduleHeaders := ← readBoolean "bundle.module_headers" v }
  | key => .error (.unknownBundleSetting key)

/-- The style that an array of fields gives. -/
def ofItems (items : List Toml.Value) : Except Mismatch BundleStyle := do
  let style : BundleStyle := {}
  let style ←
    match items[0]? with
    | some v => do pure { style with cacheTable := ← readString "bundle" v }
    | none => pure style
  let style ←
    match items[1]? with
    | some v => do pure { style with functionPrefix := ← readString "bundle" v }
    | none => pure style
  let style ←
    match items[2]? with
    | some v => do pure { style with moduleHeaders := ← readBoolean "bundle" v }
    | none => pure style
  if items.length > 3 then .error (.tooManyItems items.length) else .ok style

/-- The style that a value gives. -/
def ofValue : Toml.Value → Except Mismatch BundleStyle
  | .table entries => entries.foldlM (fun style e => style.set e.1 e.2) {}
  | .array items => ofItems items
  | v => .error (.wrongType v .bundleStyle "bundle")

end BundleStyle

namespace Settings

/-- Sets the field of a key. -/
def set (s : Settings) (key : String) (v : Toml.Value) : Except Mismatch Settings :=
  match key with
  | "extension" => do return { s with extension := ← readString "extension" v }
  | "strict_cycles" => do return { s with strictCycles := ← readBoolean "strict_cycles" v }
  | "bundle" => do return { s with bundle := ← BundleStyle.ofValue v }
  | key => .error (.unknownSetting key)

/-- The settings that a table gives. -/
def ofTable (t : Toml.Table) : Except Mismatch Settings :=
  t.foldlM (fun s e => s.set e.1 e.2) {}

end Settings

/-! ## Validation -/

/-- Why settings cannot be used. -/
inductive Invalid where
  | extension (text : String)
  | cacheTable
  | functionPrefix (text : String)
  deriving DecidableEq, Repr

def Invalid.message : Invalid → String
  | extension text => "Invalid module extension: " ++ Text.quoted text
  | cacheTable => "bundle.cache_table must not be empty"
  | functionPrefix text =>
    "bundle.function_prefix must be a Lua identifier, got " ++ Text.quoted text

namespace Settings

/-- Whether an extension, without its leading dots, names a file in the directory it belongs to. -/
def isUsableExtension (bare : String) : Bool :=
  !bare.isEmpty && bare.toList.all (fun c => c != '/' && c != '\\')

/-- Settings that a bundle can be made with stay as they are. -/
def validate (s : Settings) : Except Invalid Settings :=
  if !isUsableExtension s.bareExtension then .error (.extension s.extension)
  else if Text.isBlankText s.bundle.cacheTable then .error .cacheTable
  else if !Lua.isIdentifier s.bundle.functionPrefix then
    .error (.functionPrefix s.bundle.functionPrefix)
  else .ok s

end Settings

end LuaBundle
