import BlockScript.Command.Report
import BlockScript.Env.Script
import BlockScript.Main
import BlockScript.Proofs.Descent.Bounds
import BlockScript.Proofs.Descent.Places
import BlockScript.Proofs.Descent.Sequel
import BlockScript.Proofs.Diagnosis
import BlockScript.Proofs.FlatStore
import BlockScript.Proofs.Height
import BlockScript.Proofs.Layout
import BlockScript.Proofs.Loading
import BlockScript.Proofs.Numeral
import BlockScript.Proofs.Run.Detail
import BlockScript.Proofs.Run.Names
import BlockScript.Proofs.ScopeTable
import BlockScript.Proofs.Session.Batch
import BlockScript.Proofs.Session.Fragments
import BlockScript.Proofs.Typing
import BlockScript.Token.Printer
