import FileRoutes.Text.Blank

/-!
# HTTP methods

The verbs under which a handler can be registered. A verb is read in any case and with
blanks around it; it is written in capitals in messages and in small letters where it is
the name of a router method.

## What is proved

* `parse_verb` — every verb is read back from how it is written.
-/

namespace FileRoutes.Http

/-- A verb of the protocol that a router can register. -/
inductive Method where
  | get
  | post
  | put
  | patch
  | delete
  | options
  | head
deriving DecidableEq, Inhabited

namespace Method

/-- All verbs, in the order in which they are listed to the user. -/
def all : List Method := [get, post, put, patch, delete, options, head]

/-- The verb in capitals. -/
def verb : Method → String
  | get => "GET"
  | post => "POST"
  | put => "PUT"
  | patch => "PATCH"
  | delete => "DELETE"
  | options => "OPTIONS"
  | head => "HEAD"

/-- The router method that registers the verb. -/
def routerMethod : Method → String
  | get => "get"
  | post => "post"
  | put => "put"
  | patch => "patch"
  | delete => "delete"
  | options => "options"
  | head => "head"

/-- The verb that a text spells, in any case and with blanks around it. -/
def parse? (s : String) : Option Method :=
  all.find? fun m => m.verb == Text.upper (Text.trim s)

/-- What is said about a text that spells no verb. -/
def unknownMessage (s : String) : String := s!"unknown HTTP method '{s}'"

theorem parse_verb (m : Method) : parse? m.verb = some m := by
  cases m <;> decide

theorem parse_routerMethod (m : Method) : parse? m.routerMethod = some m := by
  cases m <;> decide

end Method

end FileRoutes.Http
