/-!
# Why a cursor fails
-/

namespace FixtureBench

inductive CursorError where
  | notAbsolute
  | notFound (pointer : String)
  | notContainer (step found : String)
  | invalidIndex (step : String)
  | indexOutOfBounds (index length : Nat)
deriving DecidableEq

namespace CursorError

def message : CursorError → String
  | notAbsolute => "cursor pointer must be absolute or empty"
  | notFound pointer => "nothing at `" ++ pointer ++ "`"
  | notContainer step found => "cannot step into " ++ found ++ " with `" ++ step ++ "`"
  | invalidIndex step => "`" ++ step ++ "` is not an array index"
  | indexOutOfBounds index length =>
    "index " ++ toString index ++ " out of bounds for array of length " ++ toString length

end CursorError

end FixtureBench
