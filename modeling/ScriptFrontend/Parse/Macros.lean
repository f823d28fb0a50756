import ScriptFrontend.Parse.Program

/-!
# Parse/Macros — the macro regions that a parser has passed

A macro region reads `| name : … |`, and nothing else in a program holds a bar.  So the bars among
the tokens that a parser has consumed pair off in order, and each pair is a region that was closed.
-/

namespace ScriptFrontend

/-- A macro region: its name, and how many tokens it skips. -/
structure MacroRegion where
  name : String
  skipped : Nat
  deriving DecidableEq

/-- Whether a token is a bar. -/
def isBar (token : Token) : Bool := token.kind == .operator .pipe

/-- The region whose inner tokens, between the bars, are given: a name, a colon, and the rest. -/
def MacroRegion.ofInner (inner : List Token) : MacroRegion :=
  ⟨(inner.head?.map (·.lexeme)).getD "", inner.length - 2⟩

/-- **The closed macro regions among consumed tokens**, in order.  `inside` holds the tokens since
the bar that is still open, in reverse, if there is one. -/
def closedRegions (inside : Option (List Token)) : List Token → List MacroRegion
  | [] => []
  | token :: rest =>
    match inside, isBar token with
    | none, true => closedRegions (some []) rest
    | none, false => closedRegions none rest
    | some inner, true => .ofInner inner.reverse :: closedRegions none rest
    | some inner, false => closedRegions (some (token :: inner)) rest

/-- The tokens of a list that a parser has consumed when the given ones remain. -/
def TokenList.consumed (list : TokenList) (remaining : List Token) : List Token :=
  list.body.take (list.body.length - remaining.length)

/-- **The macro regions that are passed** when a list of tokens is read as a program. -/
def passedMacros (tokens : List Token) : List MacroRegion :=
  let list := TokenList.of tokens
  match parseWithin nestingLimit tokens with
  | .ok _ => closedRegions none list.body
  | .error failure => closedRegions none (list.consumed failure.remaining)

end ScriptFrontend
