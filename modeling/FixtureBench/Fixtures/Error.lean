import FixtureBench.Text.Inspect
import FixtureBench.Tree

/-!
# Why a document holds no fixtures
-/

namespace FixtureBench

inductive FixturesError where
  /-- The document is no object. -/
  | notObject (found : Json)
  /-- The list of instances is no array. -/
  | instancesNotArray (found : Json)

namespace FixturesError

/-- What was found instead: its type, and the value if it is short. -/
def describe : Json → String
  | .null => "null"
  | .bool b => "boolean `" ++ toString b ++ "`"
  | .num (.int n h) => "integer `" ++ (Number.int n h).render ++ "`"
  | .num (.double x) => "floating point `" ++ (Number.double x).render ++ "`"
  | .str s => "string " ++ Text.inspect s
  | .arr _ => "sequence"
  | .obj _ => "map"

def message : FixturesError → String
  | notObject found => "invalid type: " ++ describe found ++ ", expected struct Fixtures"
  | instancesNotArray found => "invalid type: " ++ describe found ++ ", expected a sequence"

end FixturesError

end FixtureBench
