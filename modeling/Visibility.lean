import Visibility.CommandLine
import Visibility.Main
import Visibility.Proofs.Grammar
import Visibility.Proofs.Grammar.Soundness
import Visibility.Proofs.Grammar.Completeness
import Visibility.Proofs.Grammar.Lookahead
import Visibility.Proofs.Evaluation
import Visibility.Proofs.Provenance
import Visibility.Proofs.NonInterference
import Visibility.Proofs.Overflow
import Visibility.Proofs.Conversion
import Visibility.Proofs.Hazard
import Visibility.Proofs.Hazard.Evaluation
import Visibility.Proofs.Cache
import Visibility.Proofs.Decision
import Visibility.Proofs.Lexeme
import Visibility.Proofs.Segmentation
import Visibility.Proofs.Spelling
import Visibility.Proofs.RoundTrip
import Visibility.Proofs.ExactValue
import Visibility.Proofs.NearestDouble
import Visibility.Proofs.Comparison
import Visibility.Proofs.StrictEquality
import Visibility.Proofs.LooseEquality
import Visibility.Proofs.Depth
import Visibility.Proofs.Rewriting
import Visibility.Proofs.Loading
import Visibility.Proofs.Cache.Recency
import Visibility.Proofs.Checking
import Visibility.Proofs.KeyPath
import Visibility.Proofs.Assembly
import Visibility.Proofs.DottedName
import Visibility.Proofs.Assignment
import Visibility.Proofs.Display
import Visibility.Proofs.EvalCommand
import Visibility.Proofs.CheckCommand
import Visibility.Proofs.Grammar.ViablePrefix
import Visibility.Proofs.ShortestDecimal
import Visibility.Proofs.NumberText
import Visibility.Proofs.NumberRoundTrip
import Visibility.Proofs.RelationalOrder
import Visibility.Proofs.ArrayText
import Visibility.Proofs.RoundedText
import Visibility.Proofs.Hazard.Confinement
import Visibility.Proofs.Concatenation
import Visibility.Proofs.Decision.Order
import Visibility.Proofs.ReadingOrder
import Visibility.Proofs.Renumbering
import Visibility.Proofs.Membership
import Visibility.Proofs.LexerRun
import Visibility.Proofs.Grammar.Resumption
import Visibility.Proofs.CorrectRounding
import Visibility.Proofs.StringNumeral
import Visibility.Proofs.NumberLexeme
import Visibility.Proofs.Loading.Order
import Visibility.Proofs.Loading.Failure
import Visibility.Proofs.Sharing
import Visibility.Proofs.Assignment.Slot
import Visibility.Proofs.Json
import Visibility.Proofs.Json.Document
import Visibility.Proofs.Json.Shown
import Visibility.Proofs.UnclosedString
import Visibility.Proofs.Relabelling
import Visibility.Proofs.Assembly.Relabelling
import Visibility.Proofs.Rearrangement
import Visibility.Proofs.Assignment.Independence
import Visibility.Proofs.Assignment.Order
