import FoldedHeader.CharClass

/-!
# Parameters
-/

namespace FoldedHeader

/-- A parameter of a header field. Neither its name nor its value is restricted. -/
structure Parameter where
  name : Text
  value : Text
  deriving DecidableEq

end FoldedHeader
