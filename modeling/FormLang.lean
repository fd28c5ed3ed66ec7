import FormLang.Log.Capture
import FormLang.Log.Records
import FormLang.Main
import FormLang.Proofs.Tree.Flatten
import FormLang.Proofs.Tree.Closing
import FormLang.Proofs.Tree.Bracketed
import FormLang.Proofs.Numeral
import FormLang.Proofs.Source.Cutting
import FormLang.Proofs.Source.Maximal
import FormLang.Proofs.Source.Append
import FormLang.Proofs.Token.Scan
import FormLang.Proofs.Token.Placed
import FormLang.Proofs.Token.Balance
import FormLang.Proofs.Tree.Source
import FormLang.Proofs.Tree.Reread
import FormLang.Proofs.Action
import FormLang.Proofs.Tree.Evaluate
import FormLang.Proofs.Session
import FormLang.Proofs.Shell.Complete
import FormLang.Proofs.Script
import FormLang.Proofs.Shell.Segments
import FormLang.Proofs.Token.Quotes
import FormLang.Proofs.Unclosed
import FormLang.Proofs.Shell.Typed
import FormLang.Proofs.Shell.Ending
import FormLang.Proofs.Shell.Pending
import FormLang.Proofs.Tree.Reached
import FormLang.Proofs.Tree.Independence
import FormLang.Proofs.Nesting
import FormLang.Proofs.Tree.Effects
import FormLang.Proofs.Tree.Operands
import FormLang.Proofs.Tree.Variable
import FormLang.Proofs.Tree.Skipped
import FormLang.Proofs.Tree.Printing
import FormLang.Proofs.Tree.Descent
import FormLang.Proofs.Token.Layout
import FormLang.Proofs.Token.Seam
import FormLang.Proofs.Display
import FormLang.Proofs.Tree.Addition
import FormLang.Proofs.Tree.Stopping
