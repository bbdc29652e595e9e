import PocketCalculator.Settings.Json
import PocketCalculator.Settings.Toml
import PocketCalculator.Settings.Yaml

namespace PocketCalculator.Settings

inductive Format where
  | toml
  | yaml
  | json
deriving DecidableEq, Repr

namespace Format

/-- The format of the files with an extension, which is written in lower case. -/
def ofExtension? : String → Option Format
  | "toml" => some toml
  | "yaml" | "yml" => some yaml
  | "json" => some json
  | _ => none

def read : Format → String → Option Value
  | toml => Toml.read
  | yaml => Yaml.read
  | json => Json.read

/-- The text of a document. Only TOML has an upper bound for numbers. -/
def write? : Format → Document → Option String
  | toml => Toml.write?
  | yaml => fun document => some (Yaml.write document)
  | json => fun document => some (Json.write document)

end Format

end PocketCalculator.Settings
