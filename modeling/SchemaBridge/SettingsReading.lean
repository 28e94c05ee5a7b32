import SchemaBridge.Settings
import SchemaBridge.YamlValue

/-!
Reading project settings from a YAML document. An empty document and an empty section stand for the
defaults. Keys that are not known are passed over, but a known key may occur only once in its
section.
-/

namespace SchemaBridge

namespace YamlDocument

/-- The entries of a section. An empty plain scalar has none. -/
def sectionEntries (d : YamlDocument) (node : YamlNode) : Reader (List (YamlNode × YamlNode)) := do
  match ← d.follow node with
  | .mapping _ entries => return entries
  | .scalar _ .plain "" => return []
  | _ => failure

/-- The entries with known keys, which have to be distinct. -/
def knownEntries (d : YamlDocument) (known : List String) :
    List (YamlNode × YamlNode) → List (String × YamlNode) → Reader (List (String × YamlNode))
  | [], found => return found
  | (key, value) :: rest, found => do
    let key ← d.text key
    if key ∉ known then knownEntries d known rest found
    else if (found.lookup key).isSome then failure
    else knownEntries d known rest ((key, value) :: found)

def readSection (d : YamlDocument) (known : List String) (node : YamlNode) :
    Reader (List (String × YamlNode)) := do
  d.knownEntries known (← d.sectionEntries node) []

/-- The text of an optional setting: none for a plain scalar that is empty or spells null. -/
def optionalText (d : YamlDocument) (node : YamlNode) : Reader (Option String) := do
  match ← d.follow node with
  | .scalar tag style content =>
    if style ≠ .plain then return some content
    else match tag with
      | none => return if content.isEmpty ∨ YamlScalar.isNull content then none else some content
      | some tag =>
        if tag ≠ YamlScalar.coreTag "null" then return some content
        else if YamlScalar.isNull content then return none
        else failure
  | _ => failure

/-- The truth value of a setting, which is spelled as a plain scalar or tagged in a literal one. -/
def truth (d : YamlDocument) (node : YamlNode) : Reader Bool := do
  match ← d.follow node with
  | .scalar tag style content =>
    if style = .plain ∨ (style = .literal ∧ tag = some (YamlScalar.coreTag "bool")) then
      YamlScalar.toBool? content
    else failure
  | _ => failure

/-- Reads a setting if it is given, and takes a default otherwise. -/
def setting {α : Type} (entries : List (String × YamlNode)) (key : String)
    (read : YamlNode → Reader α) (default : α) : Reader α :=
  match entries.lookup key with
  | some node => read node
  | none => return default

def avroSettings (d : YamlDocument) (node : YamlNode) : Reader AvroSettings := do
  let entries ← d.readSection ["namespace", "default_name", "pretty"] node
  let defaults : AvroSettings := {}
  return {
    nameSpace := ← setting entries "namespace" d.optionalText defaults.nameSpace
    defaultName := ← setting entries "default_name" d.text defaults.defaultName
    pretty := ← setting entries "pretty" d.truth defaults.pretty }

def parquetSettings (d : YamlDocument) (node : YamlNode) : Reader ParquetSettings := do
  let entries ← d.readSection ["message_name"] node
  let defaults : ParquetSettings := {}
  return { messageName := ← setting entries "message_name" d.optionalText defaults.messageName }

def validationSettings (d : YamlDocument) (node : YamlNode) : Reader ValidationSettings := do
  let entries ← d.readSection ["default_instance"] node
  let defaults : ValidationSettings := {}
  return {
    defaultInstance := ← setting entries "default_instance" d.text defaults.defaultInstance }

def settings (d : YamlDocument) (node : YamlNode) : Reader Settings := do
  let entries ← d.readSection ["avro", "parquet", "validate"] node
  return {
    avro := ← setting entries "avro" d.avroSettings {}
    parquet := ← setting entries "parquet" d.parquetSettings {}
    validation := ← setting entries "validate" d.validationSettings {} }

end YamlDocument

/-- The settings that a YAML text spells. -/
def Settings.ofYaml? (text : String) : Option Settings := do
  let d ← YamlDocument.ofText? text
  match d.root with
  | none => return {}
  | some root => (·.1) <$> (d.settings root).run (YamlDocument.maxAliases root)

end SchemaBridge
