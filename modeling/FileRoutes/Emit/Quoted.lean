/-!
# Quoted texts

Every text that ends up in a generated module stands between single quotes, with the
quote, the backslash and the two ASCII line breaks escaped.
-/

namespace FileRoutes.Emit

/-- The characters a character is written with inside quotes. -/
def escape (c : Char) : List Char :=
  if c = '\\' then ['\\', '\\']
  else if c = '\'' then ['\\', '\'']
  else if c = '\n' then ['\\', 'n']
  else if c = '\r' then ['\\', 'r']
  else [c]

/-- The text between single quotes. -/
def quoted (s : String) : String :=
  String.ofList ('\'' :: s.toList.flatMap escape ++ ['\''])

end FileRoutes.Emit
