import FoldedHeader.Encoder

/-!
# Reading a header value back

An encoded value is divided at its folds (`splitFold`). Each line is an assignment: plain, percent-encoded, or a
numbered piece of a percent-encoded value (`Assignment.ofText?`). The pieces of one value stand behind each other from
number 0 on; they are joined before they are decoded, since only the whole of them is known to be UTF-8 (`collect`).
`decode` puts this together. A line that is no assignment, a missing mark, a piece without its beginning and bytes that
are no UTF-8 make a value unreadable.
-/

namespace FoldedHeader

/-- The text before the first fold, and the lines behind the folds. -/
def splitFold : Text → Text × List Text
  | ';' :: '\r' :: '\n' :: ' ' :: s =>
    let (line, lines) := splitFold s
    ([], line :: lines)
  | c :: s =>
    let (line, lines) := splitFold s
    (c :: line, lines)
  | [] => ([], [])

/-- What one line says. -/
inductive Assignment
  /-- The value as it is, or as a quoted-string. -/
  | plain (name value : Text)
  /-- The value percent-encoded, behind the mark. -/
  | extended (name body : Text)
  /-- A piece of the percent-encoded value. -/
  | piece (name : Text) (index : Nat) (body : Text)
  deriving DecidableEq

namespace Assignment

/-- The number that a text of decimal digits stands for. -/
def digits? (s : Text) : Option Nat :=
  if !s.isEmpty && s.all Char.isDigit then some (Nat.ofDigitChars 10 s 0) else none

/-- The number that decimal digits stand for, with or without a plus sign before them. -/
def number? : Text → Option Nat
  | '+' :: s => digits? s
  | s => digits? s

/-- The last star in `stem` stands between a name and a number; without one, there is only a name. -/
def ofStem? (stem body : Text) : Option Assignment :=
  match stem.reverse.span (· != '*') with
  | (_, []) => some (extended stem body)
  | (number, _ :: name) => (number? number.reverse).map fun k => piece name.reverse k body

/-- The first equals sign stands before the value; a star before it says that the value is percent-encoded. -/
def ofText? (line : Text) : Option Assignment :=
  match line.span (· != '=') with
  | (_, []) => none
  | (left, _ :: right) =>
    if left.getLast? = some '*' then ofStem? left.dropLast right else some (plain left right)

end Assignment

namespace Reader

/-- The text behind the mark. -/
def dropMark? (body : Text) : Option Text :=
  if charsetMark.isPrefixOf body then some (body.drop charsetMark.length) else none

/-- The parameter whose pieces have been joined, if any have. -/
def flush : (pending : Option (Text × Text)) → Option (List Parameter)
  | none => some []
  | some (name, body) => (Percent.decode body).map fun value => [⟨name, value⟩]

/-- The parameters that the assignments stand for, behind the pieces that have been joined so far. -/
def collect : (pending : Option (Text × Text)) → List Assignment → Option (List Parameter)
  | pending, [] => flush pending
  | pending, .plain name text :: as => do
    return (← flush pending) ++ ⟨name, ← QuotedString.unquote text⟩ :: (← collect none as)
  | pending, .extended name body :: as => do
    return (← flush pending) ++ ⟨name, ← Percent.decode (← dropMark? body)⟩ :: (← collect none as)
  | pending, .piece name 0 body :: as => do
    return (← flush pending) ++ (← collect (some (name, ← dropMark? body)) as)
  | some (name', joined), .piece name (_ + 1) body :: as =>
    if name' = name then collect (some (name, joined ++ body)) as else none
  | none, .piece _ (_ + 1) _ :: _ => none

end Reader

/-- The value and the parameters that an encoded header value stands for. -/
def decode (s : Text) : Option (Text × List Parameter) := do
  let (value, lines) := splitFold s
  return (value, ← Reader.collect none (← lines.mapM Assignment.ofText?))

end FoldedHeader
