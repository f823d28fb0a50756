import ScriptFrontend.Kind.Basic

/-!
# Lexeme/Table — the characters and pairs of characters that spell operators and marks

Three tables, each without repeated keys: `soloTable` of the characters that are always a token of
their own, `operatorTable` of the characters that may start a pair, with the kind they have when
they do not (`~` has none), and `pairTable` of the pairs.
-/

namespace ScriptFrontend

/-- The characters that are always a token of their own. -/
def soloTable : List (Char × Kind) := [
  ('(', .mark .leftParen), (')', .mark .rightParen), ('\x7b', .mark .leftBrace),
  ('\x7d', .mark .rightBrace), ('[', .mark .leftBracket), (']', .mark .rightBracket),
  (';', .mark .semicolon), (':', .mark .colon), ('.', .mark .dot), (',', .mark .comma),
  ('|', .operator .pipe), ('+', .operator .plus), ('/', .operator .divide),
  ('%', .operator .modulo), ('^', .operator .power), ('@', .operator .specifier),
  ('$', .operator .modifier)]

/-- The characters that may start a pair, with the kind each has alone. -/
def operatorTable : List (Char × Option Kind) := [
  ('-', some (.operator .minus)), ('<', some (.operator .less)),
  ('>', some (.operator .greater)), ('=', some (.operator .assign)),
  ('!', some (.operator .not)), ('~', none)]

/-- The pairs of characters that are one operator. -/
def pairTable : List ((Char × Char) × Kind) := [
  (('-', '>'), .operator .transition), (('~', '>'), .operator .raise),
  (('<', '~'), .operator .config), (('<', '-'), .operator .throwArrow),
  (('<', '<'), .operator .rollback), (('>', '>'), .operator .run),
  (('=', '='), .operator .equal), (('!', '='), .operator .notEqual),
  (('<', '='), .operator .lessEqual), (('>', '='), .operator .greaterEqual)]

/-- Every pair starts with a character of the operator table. -/
theorem operatorTable_of_pairTable :
    ∀ pair ∈ pairTable, (operatorTable.lookup pair.1.1).isSome = true := by
  decide

end ScriptFrontend
