import Condition.Main
import Condition.Proofs.MarkMachine
import Condition.Proofs.MemoRuns
import Condition.Proofs.Spelling
import Condition.Proofs.Printing
import Condition.Proofs.NodeAnswers
import Condition.Proofs.Typing
import Condition.Proofs.ExactValue
import Condition.Proofs.NameRule
import Condition.Proofs.ScannerCalls
import Condition.Proofs.JsonWriting
import Condition.Proofs.ParserRequests
import Condition.Proofs.RunOutcome
import Condition.Proofs.StrictRuns
import Condition.Proofs.ResolvedVariables
import Condition.Proofs.PlaceholderPieces
import Condition.Proofs.ParsedTrees
import Condition.Proofs.LexicalErrors
import Condition.Proofs.EvaluationOrder
import Condition.Proofs.Numerals
import Condition.Proofs.AlikeTokens
import Condition.Proofs.SubstitutedNames
import Condition.Proofs.TreeText
import Condition.Proofs.WrittenAssignments
import Condition.Proofs.JoinedAssignments
import Condition.Proofs.MentionedVariables
import Condition.Proofs.MinimumPower
import Condition.Proofs.ConsumedTokens
import Condition.Proofs.CursorBounds
import Condition.Proofs.LocalScanning
import Condition.Proofs.ParserCalls
