import RuleEngine.Proofs.Traced
import RuleEngine.Agenda
import RuleEngine.Options.Environment
import RuleEngine.Recorder
import RuleEngine.Log.Output
import RuleEngine.Session.Run
import RuleEngine.Source.Compile
import RuleEngine.Pattern.Term
import RuleEngine.Template
import RuleEngine.Proofs.Session.Operation
import RuleEngine.Proofs.Session.History
import RuleEngine.Proofs.Agenda
import RuleEngine.Proofs.Session.Freshness
import RuleEngine.Proofs.Binding
import RuleEngine.Proofs.Session.Firing
import RuleEngine.Proofs.Session.PureMode
import RuleEngine.Proofs.Agenda.Order
import RuleEngine.Proofs.Memory.Edit
import RuleEngine.Proofs.Session.Monotone
import RuleEngine.Proofs.Session.RuleOrder
import RuleEngine.Proofs.Fact.Key
import RuleEngine.Proofs.Memory.History
import RuleEngine.Proofs.Binding.Variables
import RuleEngine.Proofs.Template
import RuleEngine.Proofs.Document.Template
import RuleEngine.Proofs.Document.Action
import RuleEngine.Proofs.Condition
import RuleEngine.Proofs.Document.Pattern
import RuleEngine.Proofs.Schema.Record
import RuleEngine.Proofs.Document.WellFormed
import RuleEngine.Proofs.Document.Safety
import RuleEngine.Proofs.Json.WellFormed
import RuleEngine.Proofs.Fact.Frozen
import RuleEngine.Proofs.Memory.Undo
import RuleEngine.Proofs.Text.Sorted
import RuleEngine.Proofs.Text.Hex
import RuleEngine.Proofs.Text.Quoted
import RuleEngine.Proofs.Double.Magnitude
import RuleEngine.Proofs.Value.Plain
import RuleEngine.Proofs.Activation.Token
import RuleEngine.Proofs.Value.Structured
import RuleEngine.Proofs.Double.Decimal
import RuleEngine.Proofs.Json.Number
import RuleEngine.Proofs.Json.Layout
import RuleEngine.Proofs.Json.Quoted
import RuleEngine.Proofs.Json.Written
import RuleEngine.Proofs.Value.Content
import RuleEngine.Proofs.Fact.Canonical
import RuleEngine.Proofs.Session.Ending
import RuleEngine.Proofs.Agenda.Bound
import RuleEngine.Proofs.Session.Termination
import RuleEngine.Proofs.Session.Quiet
import RuleEngine.Proofs.Document.Malformed
import RuleEngine.Proofs.Session.Announcement
import RuleEngine.Proofs.Session.Observation
import RuleEngine.Proofs.Session.Rearranged
import RuleEngine.Proofs.Session.Doubles
import RuleEngine.Proofs.Memory.Equal
import RuleEngine.Proofs.Fact.Alike
import RuleEngine.Proofs.Fact.StandIn
import RuleEngine.Proofs.Value.SameClass
import RuleEngine.Proofs.Session.Accounts
import RuleEngine.Proofs.Session.WellFormed
import RuleEngine.Proofs.Session.Budget
import RuleEngine.Proofs.Document.Load
import RuleEngine.Proofs.Agenda.Canonical
import RuleEngine.Proofs.Binding.Within
import RuleEngine.Proofs.Pattern.Reordered
import RuleEngine.Proofs.Pattern.Declared
import RuleEngine.Proofs.Pattern.Term
import RuleEngine.Proofs.Document.Recovered
import RuleEngine.Proofs.Document.Shapes
import RuleEngine.Proofs.Document.Redistributed
import RuleEngine.Proofs.Value.Legible
import RuleEngine.Proofs.Pattern.Meaning
import RuleEngine.Proofs.Source.Inheritance
import RuleEngine.Proofs.Source.Nesting
import RuleEngine.Proofs.Recorder
import RuleEngine.Proofs.Binding.Laws
import RuleEngine.Proofs.Options.Layered
