import TriggerLang.Compilation
import TriggerLang.Expr.Equality
import TriggerLang.Scope.Description
import TriggerLang.Settings.File
import TriggerLang.Proofs.Compilation.Condition
import TriggerLang.Proofs.Compilation.Guards
import TriggerLang.Proofs.Compilation.Offset
import TriggerLang.Proofs.Compilation.Program
import TriggerLang.Proofs.Evaluation.Idempotence
import TriggerLang.Proofs.Evaluation.Offset
import TriggerLang.Proofs.Evaluation.Sum
import TriggerLang.Proofs.Lowering.Repeated
import TriggerLang.Proofs.Evaluation.Reduced
import TriggerLang.Proofs.Evaluation.Termination
import TriggerLang.Proofs.Evaluation.Agreement
import TriggerLang.Proofs.Evaluation.Substitution
import TriggerLang.Proofs.Evaluation.Address
import TriggerLang.Proofs.Compilation.Limits
import TriggerLang.Proofs.Compilation.Spans
import TriggerLang.Proofs.Evaluation.Leaves
import TriggerLang.Proofs.Lowering.Modified
import TriggerLang.Proofs.Compilation.Distribution
import TriggerLang.Proofs.Evaluation.Negation
import TriggerLang.Proofs.Evaluation.Integers
import TriggerLang.Proofs.Compilation.Converse
import TriggerLang.Proofs.Compilation.Nesting
import TriggerLang.Proofs.Compilation.Grouping
import TriggerLang.Proofs.Compilation.Once
import TriggerLang.Proofs.Compilation.Failures
import TriggerLang.Proofs.Evaluation.FirstFailure
