import ScriptFrontend.Alias.File

/-!
# Alias/History — one request after the other

Aliases come to be known by requests: configurations, values that should spell one, and alias files.
A request is granted as a whole or refused (`Aliases.answer`), and a refused one leaves the aliases
as they are (`Aliases.after`).  `Aliases.history` starts without any.
-/

namespace ScriptFrontend.Aliases

/-- A request to add aliases. -/
inductive Request where
  | configure (configuration : Configuration)
  /-- The configuration that a value spells. -/
  | configureValue (value : Json)
  /-- The configuration in a file, which may be missing. -/
  | load (file : Option (List UInt8))

/-- **The aliases that a request leads to**, or why it is refused. -/
def answer (known : Aliases) : Request → Except AliasFileFlaw Aliases
  | .configure configuration => (known.configure configuration).mapError .ofRefusal
  | .configureValue value =>
    (((Configuration.ofJson value).mapError .flaw).bind known.configure).mapError .ofRefusal
  | .load file => known.load file

/-- The aliases after a request, be it granted or refused. -/
def after (known : Aliases) (request : Request) : Aliases :=
  match known.answer request with
  | .ok next => next
  | .error _ => known

/-- **The aliases after some requests**, starting without any. -/
def history (requests : List Request) : Aliases := requests.foldl after empty

end ScriptFrontend.Aliases
