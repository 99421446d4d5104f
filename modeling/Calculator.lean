import Calculator.Main
import Calculator.Proofs.Columns
import Calculator.Proofs.Coverage
import Calculator.Proofs.Dependence
import Calculator.Proofs.Diagnosis
import Calculator.Proofs.Independence
import Calculator.Proofs.Journal
import Calculator.Proofs.Modes
import Calculator.Proofs.Number.Text
import Calculator.Proofs.Productions
import Calculator.Proofs.RoundTrip
import Calculator.Proofs.Silence
import Calculator.Proofs.Spacing
import Calculator.Proofs.Substitution
import Calculator.Proofs.Viability
import Calculator.Proofs.WhiteSpace
import Calculator.Proofs.Words
import Calculator.Proofs.Yield
