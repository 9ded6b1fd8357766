/-!
# Route patterns

A file name may hold parameters in brackets. In the pattern of a route the parameter
`[id]` is written `:id`; a bracket that belongs to no such pair stays as it is.

## The model

`parameterize` reads a segment once. A `[` is an opening bracket exactly when the next
bracket after it is a `]` that does not follow at once; it becomes `:`, and that `]` is
dropped.
-/

namespace FileRoutes.Route

/-- Whether the character is a bracket. -/
def isBracket (c : Char) : Bool := c == '[' || c == ']'

/-- Whether a `[` before these characters opens a parameter: what follows up to the next
bracket is not empty, and that bracket closes. -/
def opensParameter (cs : List Char) : Bool :=
  match cs.dropWhile (!isBracket ·) with
  | c :: _ => c == ']' && cs.head? != some ']'
  | [] => false

/-- The pattern of a segment; `inside` tells whether a parameter is open. -/
def parameterize (inside : Bool) : List Char → List Char
  | [] => []
  | c :: cs =>
    if c == '[' && opensParameter cs then ':' :: parameterize true cs
    else if c == ']' && inside then parameterize false cs
    else c :: parameterize inside cs

/-- The pattern of one segment of a path. -/
def segmentPattern (segment : String) : String :=
  String.ofList (parameterize false segment.toList)

end FileRoutes.Route
