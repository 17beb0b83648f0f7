import Calculator.Main
import Calculator.Proofs.Arithmetic.Substitution
import Calculator.Proofs.CommandLine.Files
import Calculator.Proofs.Expression.LetterCase
import Calculator.Proofs.Expression.Rendering
import Calculator.Proofs.Expression.Trailing
import Calculator.Proofs.Function.Rounding
import Calculator.Proofs.Function.Series
import Calculator.Proofs.Grammar.Agreement
import Calculator.Proofs.Grammar.LastRule
import Calculator.Proofs.Hexadecimal
import Calculator.Proofs.Lexeme.Priority
import Calculator.Proofs.Lexeme.Separation
import Calculator.Proofs.RandomSource
import Calculator.Proofs.Reading.Chain
import Calculator.Proofs.Reading.Position
import Calculator.Proofs.Reading.Tighter
import Calculator.Proofs.Reading.Yield
import Calculator.Proofs.Value.Integers
