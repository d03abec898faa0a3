/-
  ObjectExpr.Document — the trees of an expression as text. In JSON, each is an indented document with
  a line end behind it; in YAML, a line of three dashes stands between two documents.
-/

import ObjectExpr.Json
import ObjectExpr.Yaml.Block

namespace ObjectExpr

inductive Format
  | json
  | yaml
  deriving DecidableEq, Repr

def Format.separator : Format → String
  | json => ""
  | yaml => "---\n"

def Format.document : Format → Value → String
  | json, v => Json.pretty v ++ "\n"
  | yaml, v => Yaml.document v

/-- In both formats, an integer is its text and a line end. -/
theorem Format.document_integer (format : Format) (n : Int64) :
    format.document (.integer n) = String.ofList (Number.integerText n.toInt) ++ "\n" := by
  cases format with
  | json => rfl
  | yaml => exact Yaml.document_integer n

def Forest.render (format : Format) (forest : Forest) : String :=
  String.intercalate format.separator (forest.map fun t => format.document t.produce)

end ObjectExpr
