/-!
# Why a prop is rejected

`prop` is the full name of the failing prop, nested parts such as `items[2]` or `user.name`
included.
-/

namespace FixtureBench

inductive PropError where
  | required (prop component : String)
  | invalidType (prop component found expected : String)
  | notOneOf (prop component value expected : String)
  | notInstance (prop component found expected : String)
  | noMatchingType (prop component : String)
  | custom (text : String)
  | panicked (prop : String)
deriving DecidableEq

namespace PropError

def message : PropError → String
  | required prop component =>
    "Required prop `" ++ prop ++ "` was not specified in `" ++ component ++ "`."
  | invalidType prop component found expected =>
    "Invalid prop `" ++ prop ++ "` of type `" ++ found ++ "` supplied to `" ++ component ++
      "`, expected `" ++ expected ++ "`."
  | notOneOf prop component value expected =>
    "Invalid prop `" ++ prop ++ "` of value `" ++ value ++ "` supplied to `" ++ component ++
      "`, expected one of " ++ expected ++ "."
  | notInstance prop component found expected =>
    "Invalid prop `" ++ prop ++ "` of type `" ++ found ++ "` supplied to `" ++ component ++
      "`, expected instance of `" ++ expected ++ "`."
  | noMatchingType prop component =>
    "Invalid prop `" ++ prop ++ "` supplied to `" ++ component ++ "`."
  | custom text => text
  | panicked prop => "Validator for prop `" ++ prop ++ "` panicked."

end PropError

end FixtureBench
