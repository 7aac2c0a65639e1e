import MatchCheck.Config.Basic
import MatchCheck.Decimal.Shortest
import MatchCheck.Text.Quoted
import MatchCheck.Toml.Document

/-!
# Configuration in TOML

A configuration is written as a table `check` with up to three keys, all of which may be missing.
The entries are read in the order of the document, and the first that does not fit is the one
reported. Two further forms are taken: the settings by position in an array, and a choice as a table
whose only key names it.

What is read may still make no sense. That is looked at afterwards (`Config.flaw?`).
-/

namespace MatchCheck

namespace Toml

/-- The kind of a value. -/
def kind : Toml → String
  | string _ => "string"
  | integer _ => "integer"
  | float _ => "float"
  | boolean _ => "boolean"
  | datetime => "datetime"
  | array _ => "array"
  | table .inline _ => "inline table"
  | table _ _ => "table"
  | tables _ => "array of tables"

/-- A value as it is named in a message about its type. -/
def describe : Toml → String
  | string s => "string " ++ Text.quoted s
  | integer n => "integer `" ++ toString n ++ "`"
  | float x => "floating point `" ++ x.text ++ "`"
  | boolean b => "boolean `" ++ (if b then "true" else "false") ++ "`"
  | datetime | table _ _ => "map"
  | array _ | tables _ => "sequence"

end Toml

namespace Config

/-- What the value of a key has to be. -/
inductive Wanted where
  | count
  | text
  | list
  | settings
deriving DecidableEq, Repr

/-- The wanted value as it is named in a message. -/
def Wanted.describe : Wanted → String
  | count => "usize"
  | text => "a string"
  | list => "a sequence"
  | settings => "struct CheckConfig"

/-- Why a text is no configuration. -/
inductive Mismatch where
  /-- It is no TOML. -/
  | malformed
  /-- It has a key that is not among those known. -/
  | unknownKey (key : String) (known : List String)
  /-- A choice has none of the known names. -/
  | unknownChoice (name : String) (known : List String)
  /-- A choice is neither a name nor a table. -/
  | noChoice
  /-- A choice is an empty table. -/
  | emptyChoice
  /-- A choice is a table with several keys. -/
  | severalChoices
  /-- The key of a choice has a value with something in it. -/
  | filledChoice (value : Toml)
  /-- A value is of the wrong type. -/
  | wrongType (value : Toml) (wanted : Wanted)
  /-- A count is negative. -/
  | negative (value : Int)
deriving Repr

/-- Names to choose from, as a message lists them. -/
def oneOf (names : List String) : String :=
  match names.map fun name => "`" ++ name ++ "`" with
  | [a] => a
  | [a, b] => a ++ " or " ++ b
  | names => "one of " ++ ", ".intercalate names

/-- The message about a value under the key of a choice. -/
def filledChoiceMessage : Toml → String
  | .array _ | .table _ _ => "expected empty table"
  | .tables _ => "expected empty array"
  | value => "expected table, found " ++ value.kind

/-- The message of a mismatch. -/
def Mismatch.message : Mismatch → String
  | malformed => "invalid TOML"
  | unknownKey key known => "unknown field `" ++ key ++ "`, expected " ++ oneOf known
  | unknownChoice name known => "unknown variant `" ++ name ++ "`, expected " ++ oneOf known
  | noChoice => "wanted string or table"
  | emptyChoice => "wanted exactly 1 element, found 0 elements"
  | severalChoices => "wanted exactly 1 element, more than 1 element"
  | filledChoice value => filledChoiceMessage value
  | wrongType value wanted => "invalid type: " ++ value.describe ++ ", expected " ++ wanted.describe
  | negative value =>
    "invalid value: " ++ (Toml.integer value).describe ++ ", expected " ++ Wanted.count.describe

/-- The choice about unreachable arms of a name. -/
def choiceNamed (name : String) : Except Mismatch RedundantArms :=
  match name with
  | "allow" => .ok .allow
  | "warn" => .ok .warn
  | name => .error (.unknownChoice name ["allow", "warn"])

/-- The choice about unreachable arms. -/
def readChoice : Toml → Except Mismatch RedundantArms
  | .string name => choiceNamed name
  | .table _ [] => .error .emptyChoice
  | .table _ [(name, value)] => do
    let choice ← choiceNamed name
    match value with
    | .array [] | .tables [] | .table _ [] => .ok choice
    | value => .error (.filledChoice value)
  | .table _ _ => .error .severalChoices
  | _ => .error .noChoice

/-- A count. -/
def readCount : Toml → Except Mismatch Nat
  | .integer n => if n < 0 then .error (.negative n) else .ok n.toNat
  | value => .error (.wrongType value .count)

/-- A text. -/
def readText : Toml → Except Mismatch String
  | .string s => .ok s
  | value => .error (.wrongType value .text)

/-- A list of texts. -/
def readTexts : Toml → Except Mismatch (List String)
  | .array items | .tables items => items.mapM readText
  | value => .error (.wrongType value .list)

/-- The keys of the settings, in the order of their positions. -/
def settingKeys : List String :=
  ["redundant_arms", "max_witnesses", "extensions"]

/-- Takes one setting over. -/
def applySetting (config : Config) (setting : String × Toml) : Except Mismatch Config :=
  match setting with
  | ("redundant_arms", value) => do
    return { config with options := { config.options with redundantArms := ← readChoice value } }
  | ("max_witnesses", value) => do
    return { config with options := { config.options with maxWitnesses := ← readCount value } }
  | ("extensions", value) => do return { config with extensions := ← readTexts value }
  | (key, _) => .error (.unknownKey key settingKeys)

/-- The name under which a date stands for a table of one entry. -/
def dateKey : String := "$__toml_private_datetime"

/-- The settings: a table, or their values by position. -/
def readSettings : Toml → Except Mismatch Config
  | .table _ entries => entries.foldlM applySetting default
  | .array items | .tables items => (settingKeys.zip items).foldlM applySetting default
  | .datetime => .error (.unknownKey dateKey settingKeys)
  | value => .error (.wrongType value .settings)

/-- The configuration in the entries of a document. -/
def ofEntries (entries : List (String × Toml)) : Except Mismatch Config :=
  entries.foldlM (fun _ entry =>
    match entry with
    | ("check", value) => readSettings value
    | (key, _) => .error (.unknownKey key ["check"])) default

/-- The configuration that a text holds. -/
def ofChars (cs : List Char) : Except Mismatch Config :=
  match Toml.ofChars? cs with
  | some entries => ofEntries entries
  | none => .error .malformed

/-- Why a configuration makes no sense. -/
inductive Flaw where
  | noExtensions
  | dottedExtension
deriving DecidableEq, Repr

/-- The message of a flaw. -/
def Flaw.message : Flaw → String
  | noExtensions => "`check.extensions` must not be empty"
  | dottedExtension => "`check.extensions` entries are written without a leading dot"

/-- Whether a text can be the extension of a file as it is written in a configuration. -/
def isExtension (s : String) : Bool :=
  match s.toList with
  | [] => false
  | c :: _ => c ≠ '.'

/-- The flaw of a configuration, if it has one. -/
def flaw? (config : Config) : Option Flaw :=
  if config.extensions.isEmpty then some .noExtensions
  else if config.extensions.all isExtension then none
  else some .dottedExtension

end Config

end MatchCheck
