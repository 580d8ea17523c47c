import ScriptFront.Main
import ScriptFront.Module.InMemory
import ScriptFront.Proofs.Expression.FlatParse
import ScriptFront.Proofs.Module.LoadedModule
import ScriptFront.Proofs.Module.Reads
import ScriptFront.Proofs.Token.Rescan
import ScriptFront.Proofs.Brackets.Expressions
import ScriptFront.Proofs.Brackets.Files
import ScriptFront.Proofs.TailCall.Expressions
import ScriptFront.Proofs.TailCall.Files
import ScriptFront.Proofs.Expression.ReadBack
import ScriptFront.Proofs.Expression.RoundTrip
import ScriptFront.Proofs.Module.Termination
import ScriptFront.Proofs.Attribute.Files
import ScriptFront.Proofs.Attribute.Constructs
import ScriptFront.Proofs.Token.Stops
import ScriptFront.Proofs.Depth.Expressions
import ScriptFront.Proofs.Depth.Files
import ScriptFront.Proofs.Comments
import ScriptFront.Proofs.Cursor.Indexed
import ScriptFront.Proofs.WellFormed.Expressions
import ScriptFront.Proofs.WellFormed.Files
import ScriptFront.Proofs.Depth.Unlimited
import ScriptFront.Proofs.Module.Contents
import ScriptFront.Proofs.Module.Failures
import ScriptFront.Proofs.Erasure.Erased
import ScriptFront.Proofs.Module.SourceText
import ScriptFront.Proofs.Module.Globals
import ScriptFront.Proofs.Module.Looks
import ScriptFront.Proofs.Text.Digits
import ScriptFront.Proofs.Token.Quoted
import ScriptFront.Proofs.Parsed.Variadic
import ScriptFront.Proofs.Expression.Arrows
import ScriptFront.Proofs.Parsed.Enums
import ScriptFront.Proofs.Shift.Places
import ScriptFront.Proofs.Shift.Initializers
import ScriptFront.Proofs.Path.Canonical
import ScriptFront.Proofs.Module.Candidates
import ScriptFront.Proofs.Module.ConfigSearch
import ScriptFront.Proofs.Config.CommentLines
import ScriptFront.Proofs.Module.Vendored
import ScriptFront.Proofs.Token.Prepared
import ScriptFront.Proofs.TypeArgument.Reader
import ScriptFront.Proofs.Expression.Hexadecimal
