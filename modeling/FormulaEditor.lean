import FormulaEditor.QuickInsert
import FormulaEditor.Session
import FormulaEditor.Settings.Json
import FormulaEditor.Proofs.Text.Grouping
import FormulaEditor.Proofs.Text.Tidying
import FormulaEditor.Proofs.Formula.Canonical
import FormulaEditor.Proofs.Document.RoundTrip
import FormulaEditor.Proofs.Formula.Rereading
import FormulaEditor.Proofs.Formula.Agreement
import FormulaEditor.Proofs.Formula.Settling
import FormulaEditor.Proofs.Formula.Replacement
import FormulaEditor.Proofs.Formula.Everywhere
import FormulaEditor.Proofs.Formula.Joined
import FormulaEditor.Proofs.Document.Soundness
import FormulaEditor.Proofs.Editing.Cells
import FormulaEditor.Proofs.Editing.Joining
import FormulaEditor.Proofs.Editing.Reachability
import FormulaEditor.Proofs.Editing.Placement
import FormulaEditor.Proofs.Editing.Gap
import FormulaEditor.Proofs.Editing.GapBuffer
import FormulaEditor.Proofs.Editing.Carets
import FormulaEditor.Proofs.Editing.JoinedRuns
import FormulaEditor.Proofs.Document.Identities
import FormulaEditor.Proofs.Formula.Grammar
import FormulaEditor.Proofs.Formula.Closing
import FormulaEditor.Proofs.Formula.Regularity
import FormulaEditor.Proofs.Session.Agreement
import FormulaEditor.Proofs.Session.Moves
import FormulaEditor.Proofs.Document.Drafts
import FormulaEditor.Proofs.Session.News
import FormulaEditor.Proofs.Session.Echoes
import FormulaEditor.Proofs.Document.Succession
import FormulaEditor.Proofs.Session.Deadlines
import FormulaEditor.Proofs.Document.Shape
import FormulaEditor.Proofs.Editing.Lockstep
import FormulaEditor.Proofs.Session.Refusals
import FormulaEditor.Proofs.Session.Previews
import FormulaEditor.Proofs.Editing.Trigger
import FormulaEditor.Proofs.Editing.Navigation
import FormulaEditor.Proofs.Document.Indexing
import FormulaEditor.Proofs.InPlace.Access
import FormulaEditor.Proofs.InPlace.Agreement
import FormulaEditor.Proofs.Settings.Templates
import FormulaEditor.Proofs.Editing.Emptying
import FormulaEditor.Proofs.InPlace.Addressing
import FormulaEditor.Proofs.Settings.Json
import FormulaEditor.Proofs.QuickInsert
import FormulaEditor.Proofs.Text.Partners
import FormulaEditor.Proofs.InPlace.Reindexing
import FormulaEditor.Proofs.Document.Equality
