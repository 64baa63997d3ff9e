import FormLogic.Heap.Printer
import FormLogic.Proofs.Clone.Equal
import FormLogic.Proofs.Clone.Plain
import FormLogic.Proofs.Engine.Content
import FormLogic.Proofs.Engine.Frozen
import FormLogic.Proofs.Engine.Unobservable
import FormLogic.Proofs.Eval.Duality
import FormLogic.Proofs.Eval.LooseEquality
import FormLogic.Proofs.Eval.Property
import FormLogic.Proofs.Eval.Scope
import FormLogic.Proofs.Eval.Session
import FormLogic.Proofs.Eval.Text
import FormLogic.Proofs.Eval.Unreachable
import FormLogic.Proofs.Expr.Concatenation
import FormLogic.Proofs.Expr.Grouping
import FormLogic.Proofs.Expr.Quotation
import FormLogic.Proofs.Merge.Idempotent
import FormLogic.Proofs.Merge.Reserved
import FormLogic.Proofs.Rule.Record
import FormLogic.Proofs.Walk.Leak
import FormLogic.Proofs.Walk.Protocol
import FormLogic.Proofs.Walk.Visits
