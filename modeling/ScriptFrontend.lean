import ScriptFrontend.Alias.History
import ScriptFrontend.Alias.Report
import ScriptFrontend.Command.Call
import ScriptFrontend.Json.Reader
import ScriptFrontend.Json.Shown
import ScriptFrontend.Json.Writer
import ScriptFrontend.Lexeme.Stream
import ScriptFrontend.Main
import ScriptFrontend.Parse.Cursor
import ScriptFrontend.Parse.Shown
import ScriptFrontend.Proofs.Parse.Reads
import ScriptFrontend.Tree.Record
import ScriptFrontend.Tree.Same
import ScriptFrontend.Tree.Walk
import ScriptFrontend.Proofs.Parse.Expression
import ScriptFrontend.Proofs.Parse.Parts
import ScriptFrontend.Proofs.Parse.Statement
import ScriptFrontend.Proofs.Parse.Local
import ScriptFrontend.Proofs.Parse.Program
import ScriptFrontend.Proofs.Parse.Prefix
import ScriptFrontend.Proofs.Lexeme.Calls
import ScriptFrontend.Proofs.Lexeme.Tiling
import ScriptFrontend.Proofs.Lexeme.Rule
import ScriptFrontend.Proofs.Alias.Additions
import ScriptFrontend.Proofs.Alias.History
import ScriptFrontend.Proofs.Alias.File
import ScriptFrontend.Proofs.Alias.Transparent
import ScriptFrontend.Proofs.Lexeme.Spelling
import ScriptFrontend.Proofs.Tree.Relabel
import ScriptFrontend.Proofs.Parse.Agree
import ScriptFrontend.Proofs.Parse.Alike
import ScriptFrontend.Proofs.Parse.Written
import ScriptFrontend.Proofs.Parse.Congruence
import ScriptFrontend.Proofs.Parse.Tidy
import ScriptFrontend.Proofs.Parse.Cursor
import ScriptFrontend.Proofs.Parse.Room
import ScriptFrontend.Proofs.Parse.Concat
import ScriptFrontend.Proofs.Parse.Bodies
import ScriptFrontend.Proofs.Parse.Kinds
import ScriptFrontend.Proofs.Lexeme.Standing
import ScriptFrontend.Proofs.Json.Reading
import ScriptFrontend.Proofs.Json.Text
import ScriptFrontend.Proofs.Json.Scalar
import ScriptFrontend.Proofs.Json.Limits
import ScriptFrontend.Proofs.Json.Written
import ScriptFrontend.Proofs.Text.LineEnds
import ScriptFrontend.Proofs.Text.Split
import ScriptFrontend.Proofs.Text.Utf8
import ScriptFrontend.Proofs.Tree.Slots
import ScriptFrontend.Proofs.Tree.Record
import ScriptFrontend.Proofs.Alias.Loading
import ScriptFrontend.Proofs.Command.Folder
import ScriptFrontend.Proofs.Command.Run
import ScriptFrontend.Proofs.Command.Output
import ScriptFrontend.Proofs.Command.Breach
import ScriptFrontend.Proofs.Grammar.Compose
import ScriptFrontend.Proofs.Grammar.Origin
import ScriptFrontend.Proofs.Lexeme.Listed
import ScriptFrontend.Proofs.Parse.Precedence
import ScriptFrontend.Proofs.Tree.Preorder
import ScriptFrontend.Proofs.Parse.Origin
import ScriptFrontend.Proofs.Parse.Sites
import ScriptFrontend.Proofs.Parse.Refill
import ScriptFrontend.Proofs.Alias.Coherent
import ScriptFrontend.Proofs.Alias.WellSpelled
import ScriptFrontend.Proofs.Alias.Order
import ScriptFrontend.Proofs.Alias.Refusal
import ScriptFrontend.Proofs.Alias.Word
import ScriptFrontend.Proofs.Alias.Report
import ScriptFrontend.Proofs.Tree.Tagged
import ScriptFrontend.Proofs.Tree.Same
import ScriptFrontend.Proofs.Lexeme.Steps
import ScriptFrontend.Proofs.Lexeme.Finish
import ScriptFrontend.Proofs.Lexeme.Lines
import ScriptFrontend.Proofs.Lexeme.Words
import ScriptFrontend.Proofs.Lexeme.LineEnds
import ScriptFrontend.Proofs.Grammar.Texts
import ScriptFrontend.Proofs.Command.LineEnds
import ScriptFrontend.Proofs.Descent.Program
