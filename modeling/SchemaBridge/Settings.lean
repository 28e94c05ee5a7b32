/-!
Project settings: how names are chosen in conversions, how Avro text is laid out, and the instance
that is checked when none is given; also the file that holds them, and its text for the defaults.
-/

namespace SchemaBridge

structure AvroSettings where
  nameSpace : Option String := none
  defaultName : String := "Record"
  pretty : Bool := true
deriving DecidableEq

structure ParquetSettings where
  messageName : Option String := none
deriving DecidableEq

structure ValidationSettings where
  defaultInstance : String := "\x7b\x7d"
deriving DecidableEq

structure Settings where
  avro : AvroSettings := {}
  parquet : ParquetSettings := {}
  validation : ValidationSettings := {}
deriving DecidableEq

namespace Settings

/-- The path of the file that holds the settings of a project. -/
def path : String :=
  ".aptos.yaml"

/-- The lines of a text that spells the default settings. -/
def defaultLines : List String :=
  ["# aptos configuration",
    "avro:",
    "  # namespace: com.example.events",
    "  default_name: Record   # record name when the root schema has no title",
    "  pretty: true",
    "",
    "parquet:",
    "  message_name: null     # defaults to the root title",
    "",
    "validate:",
    "  default_instance: \"\x7b\x7d\""]

/-- A text that spells the default settings. -/
def defaultText : String :=
  String.join (defaultLines.map (· ++ "\n"))

end Settings

end SchemaBridge
