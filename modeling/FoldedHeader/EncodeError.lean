import FoldedHeader.CharLiteral

/-!
# Why a parameter cannot be written

An encoding fails for one of two causes, each told of one parameter by its name.
-/

namespace FoldedHeader

/-- The causes for which a parameter cannot be written. -/
inductive EncodeError
  /-- The value has a character that no quoted-string can hold. -/
  | unencodableCharacter (name : Text) (character : Char)
  /-- The name leaves too little of the line for the value. -/
  | nameTooLong (name : Text) (maxLineLength : Nat)
  deriving DecidableEq

namespace EncodeError

def name : EncodeError → Text
  | unencodableCharacter n _ => n
  | nameTooLong n _ => n

/-- The message for the user. -/
def message : EncodeError → Text
  | unencodableCharacter n c =>
    "unsupported character ".toList ++ CharLiteral.render c ++ " in value of parameter ".toList ++ n
  | nameTooLong n max =>
    "parameter name ".toList ++ n ++ " too long to fold within ".toList ++ Nat.toDigits 10 max ++ " characters".toList

end EncodeError

end FoldedHeader
