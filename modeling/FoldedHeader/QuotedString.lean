import FoldedHeader.EncodeError

/-!
# Quoted-strings

A value of white space and visible characters can be written between quotes, with a backslash before each visible
character that is no qtext (`quote`). `quotedLength` tells the columns that this takes without writing it. Both fail
at the first character that a quoted-string cannot hold; `isQuotable` tells beforehand that there is none.

`unquote` takes the quotes and the backslashes away again.
-/

namespace FoldedHeader

/-- A value is quotable when it has only white space and visible characters. -/
def isQuotable (s : Text) : Bool := s.all fun c => isWsp c || isVchar c

namespace QuotedString

/-! ## Writing -/

/-- What stands between the quotes for the value `s` of the parameter `name`. -/
def escape (name : Text) : (s : Text) → Except EncodeError Text
  | [] => .ok []
  | c :: s =>
    if isQtext c || isWsp c then (escape name s).map (c :: ·)
    else if isVchar c then (escape name s).map ('\\' :: c :: ·)
    else .error (.unencodableCharacter name c)

/-- The columns that `escape name s` takes. -/
def escapedLength (name : Text) : (s : Text) → Except EncodeError Nat
  | [] => .ok 0
  | c :: s =>
    if isQtext c || isWsp c then (escapedLength name s).map (1 + ·)
    else if isVchar c then (escapedLength name s).map (2 + ·)
    else .error (.unencodableCharacter name c)

/-- The value `s` of the parameter `name` between quotes. -/
def quote (name s : Text) : Except EncodeError Text := (escape name s).map fun t => '"' :: t ++ ['"']

/-- The columns that `quote name s` takes. -/
def quotedLength (name s : Text) : Except EncodeError Nat := (escapedLength name s).map (2 + ·)

/-! ## Reading -/

/-- The text without its backslashes, each of which stands before a character that is kept as it is. -/
def unescape : Text → Option Text
  | [] => some []
  | ['\\'] => none
  | '\\' :: c :: s => (unescape s).map (c :: ·)
  | c :: s => (unescape s).map (c :: ·)

/-- The value that a text between quotes stands for; any other text stands for itself. -/
def unquote : Text → Option Text
  | '"' :: s => if s.getLast? = some '"' then unescape s.dropLast else some ('"' :: s)
  | s => some s

end QuotedString

end FoldedHeader
