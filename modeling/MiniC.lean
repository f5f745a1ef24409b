import MiniC.Main
import MiniC.Token.Outline
import MiniC.Proofs.Acceptance
import MiniC.Proofs.LayoutTotal
import MiniC.Proofs.Tokenization
import MiniC.Proofs.RoundTrip
import MiniC.Proofs.EarliestError
import MiniC.Proofs.Spacing
import MiniC.Proofs.DiagnosticLine
import MiniC.Proofs.UniqueScript
import MiniC.Proofs.UniqueLayout
import MiniC.Proofs.UniqueProgram
import MiniC.Proofs.JoinedSource
import MiniC.Proofs.LexicalFault
import MiniC.Proofs.SameKinds
import MiniC.Proofs.ViewerRun
import MiniC.Proofs.Resumption
import MiniC.Proofs.EmitterReuse
import MiniC.Proofs.ErrorInView
import MiniC.Proofs.OperatorGrouping
import MiniC.Proofs.ModeAgreement
import MiniC.Proofs.BareDeclaration
import MiniC.Proofs.EmittedNames
import MiniC.Proofs.QuotedText
import MiniC.Proofs.AnyGrouping
import MiniC.Proofs.Refusal
import MiniC.Proofs.Nesting
import MiniC.Proofs.EmittedLines
import MiniC.Proofs.WordSpans
import MiniC.Proofs.StringSpans
import MiniC.Proofs.SourceStrings
