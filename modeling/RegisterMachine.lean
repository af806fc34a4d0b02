import RegisterMachine.Binary64.Arithmetic
import RegisterMachine.Binary64.Integral
import RegisterMachine.Decimal.Shortest
import RegisterMachine.Decimal.Layout
import RegisterMachine.Elementary.Exponential
import RegisterMachine.Elementary.Trigonometric
import RegisterMachine.Failure
import RegisterMachine.Value.Coercion
import RegisterMachine.Text.Words
import RegisterMachine.State
import RegisterMachine.Operation.Catalog
import RegisterMachine.Arithmetic
import RegisterMachine.Snapshot
import RegisterMachine.Host
import RegisterMachine.Proofs.Table
import RegisterMachine.Proofs.Execution
import RegisterMachine.Proofs.Holding
import RegisterMachine.Proofs.Answers
import RegisterMachine.Proofs.Binary64.Nearest
import RegisterMachine.Proofs.Elementary.Finite
import RegisterMachine.Proofs.Integral
import RegisterMachine.Proofs.Classification
import RegisterMachine.Proofs.Json.Text
import RegisterMachine.Proofs.Json.Reader
import RegisterMachine.Proofs.Json.Numeral
import RegisterMachine.Proofs.Json.Number
import RegisterMachine.Proofs.Decimal.Shortest
import RegisterMachine.Proofs.Json.Float
import RegisterMachine.Proofs.Snapshot
import RegisterMachine.Proofs.Elementary.Interval
import RegisterMachine.Proofs.Decimal.Places
import RegisterMachine.Proofs.Binary64.Overflow
import RegisterMachine.Proofs.Closest
import RegisterMachine.Proofs.Elementary.Logarithm
import RegisterMachine.Proofs.Elementary.Integers
import RegisterMachine.Proofs.Overflow
import RegisterMachine.Proofs.Run
import RegisterMachine.Proofs.Encoding
import RegisterMachine.Proofs.History
import RegisterMachine.Proofs.Independence
import RegisterMachine.Proofs.Canonical
import RegisterMachine.Proofs.Installation
import RegisterMachine.Proofs.Binary64.Closest
import RegisterMachine.Proofs.Binary64.Order
import RegisterMachine.Proofs.Rounding
import RegisterMachine.Proofs.NextInteger
import RegisterMachine.Proofs.RoundingLaws
import RegisterMachine.Proofs.Divisors
import RegisterMachine.Proofs.Restoration
import RegisterMachine.Proofs.Coercion
import RegisterMachine.Proofs.LeadingBits
import RegisterMachine.Proofs.Equality
import RegisterMachine.Proofs.Literal
import RegisterMachine.Proofs.Display
import RegisterMachine.Proofs.Factorial
import RegisterMachine.Proofs.Parts
import RegisterMachine.Proofs.Kinds
import RegisterMachine.Proofs.Layout
