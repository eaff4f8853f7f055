import FoldedHeader.Encoder
import FoldedHeader.ParameterMap

/-!
# Header values

The value of a header field as it was read: the value itself, its parameters, and the parameters that had to be left
out, with the place among these where an error was met. Parameters are looked up by name without regard to ASCII case.
To write a header value is to encode its value and its parameters; those left out are not written.
-/

namespace FoldedHeader

/-- Are two texts equal but for the case of ASCII letters? -/
def eqIgnoringCase (s t : Text) : Bool := s.map Char.toLower == t.map Char.toLower

/-- A header field's value with its parameters. -/
structure HeaderValue where
  /-- The value itself. -/
  value : Text := []
  /-- The parameters, in the order in which they are written. -/
  parameters : ParameterMap := .empty
  /-- The parameters that were left out. -/
  ignored : List Parameter := []
  /-- Where among them an error was met, if one was. -/
  errorIndex : Option Nat := none

namespace HeaderValue

/-- The value of the first parameter whose name is `name` but for ASCII case. -/
def getParameter? (h : HeaderValue) (name : Text) : Option Text :=
  (h.parameters.entries.find? fun p => eqIgnoringCase p.name name).map Parameter.value

/-- Is there a parameter whose name is `name` but for ASCII case? -/
def hasParameter (h : HeaderValue) (name : Text) : Bool := (h.getParameter? name).isSome

/-- Was nothing left out and no error met? -/
def isClean (h : HeaderValue) : Bool := h.ignored.isEmpty && h.errorIndex.isNone

/-- Is the error index, if there is one, the index of a parameter that was left out? -/
def isConsistent (h : HeaderValue) : Bool := h.errorIndex.all (· < h.ignored.length)

/-- Write the value and the parameters. -/
def encode (h : HeaderValue) (e : Encoder) : Except EncodeError Text := e.encode h.value h.parameters.entries

/-- Are two header values equal, whatever the order of their parameters? -/
def equiv (h₁ h₂ : HeaderValue) : Bool :=
  h₁.value == h₂.value && h₁.parameters.equiv h₂.parameters && h₁.ignored == h₂.ignored &&
    h₁.errorIndex == h₂.errorIndex

end HeaderValue

end FoldedHeader
