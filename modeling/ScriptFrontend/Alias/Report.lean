import ScriptFrontend.Alias.Basic

/-!
# Alias/Report — the list of known aliases

One line for each alias, with its kind, in the order of the aliases' characters.
-/

namespace ScriptFrontend.Aliases

/-- How wide the column of the aliases is at least. -/
def columnWidth : Nat := 12

/-- A text with blanks in front of it up to a width. -/
def rightAligned (width : Nat) (text : String) : String :=
  String.ofList (List.replicate (width - text.length) ' ') ++ text

/-- The line of an alias. -/
def reportLine (entry : String × Keyword) : String :=
  rightAligned columnWidth entry.1 ++ " -> " ++ entry.2.name

/-- The aliases in the order of their characters. -/
def sorted (aliases : Aliases) : List (String × Keyword) :=
  aliases.entries.mergeSort fun a b => decide (a.1 ≤ b.1)

/-- **The report of the aliases.** -/
def report (aliases : Aliases) : String := "\n".intercalate (aliases.sorted.map reportLine)

end ScriptFrontend.Aliases
