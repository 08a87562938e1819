import SqlStubs.Main
import SqlStubs.Session
import SqlStubs.Proofs.Grammar
import SqlStubs.Proofs.Grammar.Soundness
import SqlStubs.Proofs.Grammar.Completeness
import SqlStubs.Proofs.Parser.Locality
import SqlStubs.Proofs.Parser.Recovery
import SqlStubs.Proofs.Parser.Relocation
import SqlStubs.Proofs.Grammar.Exact
import SqlStubs.Proofs.Grammar.Predictive
import SqlStubs.Proofs.Grammar.ViablePrefix
import SqlStubs.Proofs.Grammar.FirstError
import SqlStubs.Proofs.Lexer.Gap
import SqlStubs.Proofs.Lexer.Lossless
import SqlStubs.Proofs.Lexer.Closing
import SqlStubs.Proofs.Lexer.Truncation
import SqlStubs.Proofs.Lexer.Modes
import SqlStubs.Proofs.Lexer.Concatenation
import SqlStubs.Proofs.Grammar.LineBreaks
import SqlStubs.Proofs.Parser.Lines
import SqlStubs.Proofs.LineWriter.Limit
import SqlStubs.Proofs.LineWriter
import SqlStubs.Proofs.LineWriter.Calls
import SqlStubs.Proofs.Translator.Layout
import SqlStubs.Proofs.Translator.Rendering
import SqlStubs.Proofs.Translator.Outcome
import SqlStubs.Proofs.TypeHint
import SqlStubs.Proofs.Translator.AggregateType
import SqlStubs.Proofs.Translator.Truncation
import SqlStubs.Proofs.Translator.Emission
import SqlStubs.Proofs.Translator.Concatenation
import SqlStubs.Proofs.Files
import SqlStubs.Proofs.Translator.Content
import SqlStubs.Proofs.Command.Batch
import SqlStubs.Proofs.Files.Shape
import SqlStubs.Proofs.Command.Preservation
import SqlStubs.Proofs.Command.Root
import SqlStubs.Proofs.Settings.Noninterference
import SqlStubs.Proofs.Lexer.Position
import SqlStubs.Proofs.Lexer.Strings
import SqlStubs.Proofs.Lexer.BlockComments
import SqlStubs.Proofs.Lexer.QuotedNames
import SqlStubs.Proofs.Lexer.Numbers
import SqlStubs.Proofs.Progress
