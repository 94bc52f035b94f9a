import DreamMaker.Main
import DreamMaker.Proofs.Code.Brackets
import DreamMaker.Proofs.Code.Enumerators
import DreamMaker.Proofs.Code.Returns
import DreamMaker.Proofs.Code.Stack
import DreamMaker.Proofs.Resolution.Chains
import DreamMaker.Proofs.Syntax.Arithmetic
import DreamMaker.Proofs.Syntax.Folding
import DreamMaker.Proofs.Syntax.Procs
import DreamMaker.Proofs.Steady.Configuration
import DreamMaker.Proofs.Parsing.LongText
import DreamMaker.Proofs.Resolution.Globals
import DreamMaker.Proofs.Resolution.Visibility
import DreamMaker.Proofs.Resolution.Statics
import DreamMaker.Proofs.Resolution.Effects
import DreamMaker.Proofs.Code.Independence
import DreamMaker.Proofs.Code.Writes
import DreamMaker.Proofs.Parsing.Definitions
import DreamMaker.Proofs.TypeTree.Answers
import DreamMaker.Proofs.TypeTree.Search
import DreamMaker.Proofs.Code.Exits
import DreamMaker.Proofs.Parsing.Recovery
import DreamMaker.Proofs.Code.Gotos
import DreamMaker.Proofs.Parsing.Strays
import DreamMaker.Proofs.Parsing.Marks
import DreamMaker.Proofs.Parsing.Scopes
import DreamMaker.Proofs.Lexeme.Spans
import DreamMaker.Proofs.Lexeme.BlankLines
import DreamMaker.Proofs.Token.Comments
import DreamMaker.Proofs.Token.Texts
import DreamMaker.Proofs.Token.Unwrapping
