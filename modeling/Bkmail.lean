import Bkmail.Automaton.Runs
import Bkmail.Automaton.Pool
import Bkmail.Automaton.Traces
import Bkmail.Wire.Tags
import Bkmail.Response.Parser
import Bkmail.Command.Basic
import Bkmail.Context.State
import Bkmail.Context.System
import Bkmail.Context.Sections
import Bkmail.Context.Frames
import Bkmail.Context.Acts
import Bkmail.Context.Custody
import Bkmail.Context.Control
import Bkmail.Context.Loops
import Bkmail.Context.Ledger
import Bkmail.Context.Batches
import Bkmail.Context.Wire
import Bkmail.Context.Cells
import Bkmail.Context.Registry
import Bkmail.Context.Routing
import Bkmail.Context.Transport
import Bkmail.Context.Dangling
import Bkmail.Context.Replies
import Bkmail.Context.Retirement
import Bkmail.Context.Closing
import Bkmail.Command.Progress
import Bkmail.Context.Continuation
import Bkmail.Context.Lives
import Bkmail.Context.Deliveries
import Bkmail.Context.Withdrawal
import Bkmail.Context.Silence
import Bkmail.Context.Abandonment
import Bkmail.Context.Wakeup
import Bkmail.Context.Aim
import Bkmail.Context.Tracks
import Bkmail.Context.Gating
import Bkmail.Context.Rousing
import Bkmail.Context.Idling
import Bkmail.Context.Flushing
import Bkmail.Context.Walls
import Bkmail.Context.Contiguity
import Bkmail.Context.Challenges
import Bkmail.Context.Alike
import Bkmail.Context.Aside
import Bkmail.Context.Spent
import Bkmail.Context.Twins
import Bkmail.Context.Hearing
import Bkmail.Context.Conversation
import Bkmail.Context.Pipelining
import Bkmail.Response.Resumption
import Bkmail.Response.Grammar
import Bkmail.Response.Literals
import Bkmail.Response.Shallow
import Bkmail.Response.RoundTrip
import Bkmail.Wire.Astring
import Bkmail.Command.Mailbox
import Bkmail.Command.Injection
import Bkmail.Wire.Base64
import Bkmail.Command.Oauth
import Bkmail.Command.Search
import Bkmail.Response.Fetch
import Bkmail.Response.Skipping
import Bkmail.Response.Nesting
import Bkmail.Response.Strings
import Bkmail.Response.Envelopes
import Bkmail.Response.Values
import Bkmail.Response.Plain
import Bkmail.Response.Attributes
import Bkmail.Response.Walk
import Bkmail.Response.Extras
import Bkmail.Command.Snapshot
import Bkmail.Command.Numbers
import Bkmail.Session.Operation
import Bkmail.Session.Completion
import Bkmail.Session.Idle
import Bkmail.Session.StartTls
import Bkmail.Session.Upgrade
import Bkmail.Session.Unsolicited
import Bkmail.Session.Pushes
import Bkmail.Session.Selected
import Bkmail.Command.Login
import Bkmail.Command.List
import Bkmail.Command.Status
import Bkmail.Response.Structures
import Bkmail.Response.Completeness
import Bkmail.Wire.Rendering
import Bkmail.Command.SequenceSet
import Bkmail.Command.SearchCriteria
import Bkmail.Mail.Header
import Bkmail.Mail.Addresses
import Bkmail.Mail.Split
import Bkmail.Mail.Folding
import Bkmail.Mail.RoundTrip
import Bkmail.Mail.EncodedWords
import Bkmail.Session.Dispatch
import Bkmail.Command.Capability
import Bkmail.Session.Connect
import Bkmail.Session.Attempt
import Bkmail.Session.Settling
import Bkmail.Session.Stopping
import Bkmail.Automaton.Threads
import Bkmail.Session.Reader
import Bkmail.Session.Greeting
import Bkmail.Command.Message
import Bkmail.Command.Server
import Bkmail.Command.Directives
import Bkmail.Automaton.Folds
import Bkmail.Command.Selection
import Bkmail.Automaton.Liveness
import Bkmail.Context.Winding
import Bkmail.Context.Relay
import Bkmail.Context.Results
import Bkmail.Context.Vouched
import Bkmail.Session.States
import Bkmail.Session.Dialogue
