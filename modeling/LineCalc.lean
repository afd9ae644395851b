import LineCalc.Main
import LineCalc.Proofs.Evaluation.Percentage
import LineCalc.Proofs.Evaluation.NonFinite
import LineCalc.Proofs.Evaluation.FractionText
import LineCalc.Proofs.Decimal.Literal
import LineCalc.Proofs.Fraction.LowestTerms
import LineCalc.Proofs.Fraction.Separation
import LineCalc.Proofs.Rounding.Idempotent
import LineCalc.Proofs.Rounding.Monotone
import LineCalc.Proofs.CommandLine.Output
import LineCalc.Proofs.Rpn.Acceptance
import LineCalc.Proofs.Rpn.Block
import LineCalc.Proofs.Rpn.Conservation
import LineCalc.Proofs.Rpn.Outcome
import LineCalc.Proofs.Rpn.Waiting
import LineCalc.Proofs.Token.Concatenation
import LineCalc.Proofs.Phrase.Question
import LineCalc.Proofs.Phrase.Search
