import FoldedHeader.Form

/-!
# Diagnostics

An encoder tells what it does: for each parameter written, the form it took, and for a parameter that cannot be
folded, that its name is too long.
-/

namespace FoldedHeader

/-- How much an event matters. -/
inductive Level
  | trace
  | debug
  deriving DecidableEq

/-- What an encoder tells of one parameter. -/
inductive Event
  /-- It was written as a token. -/
  | token (parameter : Text)
  /-- It was written as a quoted-string. -/
  | quoted (parameter : Text)
  /-- It was written percent-encoded, on this many lines. -/
  | extended (parameter : Text) (lines : Nat)
  /-- Its name is too long for the lines. -/
  | nameTooLong (parameter : Text) (maxLineLength : Nat)
  deriving DecidableEq

namespace Event

/-- The level of an event: only a failure is more than a trace. -/
def level : Event → Level
  | token _ | quoted _ | extended _ _ => .trace
  | nameTooLong _ _ => .debug

def message : Event → Text
  | token _ => "token parameter".toList
  | quoted _ => "quoted parameter".toList
  | extended _ _ => "rfc2231 parameter".toList
  | nameTooLong _ _ => "parameter name too long for RFC 2231 continuation".toList

def parameter : Event → Text
  | token n | quoted n | extended n _ | nameTooLong n _ => n

end Event

/-- The event that tells of a parameter written in a form. -/
def Form.event (name : Text) : Form → Event
  | token _ => .token name
  | quoted _ => .quoted name
  | extended _ => .extended name 1
  | continued pieces => .extended name pieces.length

/-- The event that tells of a failure, if it is told at all. -/
def EncodeError.event? : EncodeError → Option Event
  | unencodableCharacter _ _ => none
  | nameTooLong n max => some (.nameTooLong n max)

end FoldedHeader
