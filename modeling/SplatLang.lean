import SplatLang.Main
import SplatLang.Proofs.Bindings
import SplatLang.Proofs.Typing.Rules
import SplatLang.Proofs.Operator
import SplatLang.Proofs.Typing.Decides
import SplatLang.Proofs.Run.Laws
import SplatLang.Proofs.Run.Points
import SplatLang.Proofs.Run.Soundness
import SplatLang.Proofs.Parser.Grammar
import SplatLang.Proofs.Parser.Laws
import SplatLang.Proofs.Tree
import SplatLang.Proofs.Parser.Exact
import SplatLang.Proofs.Lexer.Shape
import SplatLang.Proofs.Lexer.Pieces
import SplatLang.Proofs.Lexer.Cutting
import SplatLang.Proofs.Lexer.Reading
import SplatLang.Proofs.Program.WellFormed
import SplatLang.Proofs.Program.RoundTrip
import SplatLang.Proofs.Program.ByteLiterals
import SplatLang.Proofs.Relocate
import SplatLang.Proofs.Parser.Relocate
import SplatLang.Proofs.Typing.Relocate
import SplatLang.Proofs.Run.Relocate
import SplatLang.Proofs.Program.Texts
import SplatLang.Proofs.Program.Literals
import SplatLang.Proofs.Interpreter.Files
import SplatLang.Proofs.Interpreter.Layout
import SplatLang.Proofs.Parser.Blame
import SplatLang.Proofs.Parser.Faults
import SplatLang.Proofs.Parser.Progress
import SplatLang.Proofs.Parser.Sessions
import SplatLang.Proofs.Parser.Viable
import SplatLang.Proofs.Run.Limits
import SplatLang.Proofs.Run.Sinks
import SplatLang.Proofs.Run.DefiniteReturn
import SplatLang.Proofs.Run.DeclarationOrder
import SplatLang.Proofs.Run.Frames
import SplatLang.Proofs.Run.Bodies
import SplatLang.Proofs.Run.Depth
import SplatLang.Proofs.Run.Termination
import SplatLang.Proofs.Run.Returns
import SplatLang.Proofs.Lexer.Respacing
import SplatLang.Proofs.Lexer.LineByLine
import SplatLang.Proofs.Parser.Nodes
import SplatLang.Proofs.Interpreter.Places
import SplatLang.Proofs.Interpreter.LineEndings
import SplatLang.Proofs.Conformance.Directory
import SplatLang.Proofs.Conformance.Accounting
import SplatLang.Proofs.Run.Arithmetic
import SplatLang.Proofs.Failure
import SplatLang.Proofs.Lexer.Malformed
import SplatLang.Proofs.Yaml.Cursor
import SplatLang.Proofs.Yaml.Layout
import SplatLang.Proofs.Yaml.Quoted
import SplatLang.Proofs.Yaml.Plain
import SplatLang.Proofs.Yaml.Literal
import SplatLang.Proofs.Yaml.Style
import SplatLang.Proofs.Yaml.Lexer
import SplatLang.Proofs.Yaml.Fields
import SplatLang.Proofs.Yaml.Document
import SplatLang.Proofs.Yaml.Values
import SplatLang.Proofs.FileTree
import SplatLang.Proofs.Config
import SplatLang.Proofs.SumType.Declarations
import SplatLang.Proofs.SumType.Code
