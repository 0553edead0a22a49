import Muxtls.Lib.BigEndian
import Muxtls.Lib.Machine
import Muxtls.Lib.Notify
import Muxtls.Lib.Fair
import Muxtls.Lib.RangeSum
import Muxtls.Lib.Search
import Muxtls.Lib.Utf8
import Muxtls.Proto.VarInt
import Muxtls.Proto.Frame
import Muxtls.Proto.Grammar
import Muxtls.Proto.Canonical
import Muxtls.Error
import Muxtls.Limits
import Muxtls.Flow
import Muxtls.Window
import Muxtls.Semaphore
import Muxtls.Connection.State
import Muxtls.Connection.Inbound
import Muxtls.Connection.Writer
import Muxtls.Connection.Shared
import Muxtls.Connection.Endpoint
import Muxtls.Connection.Payload
import Muxtls.Connection.Log
import Muxtls.Connection.Reason
import Muxtls.Connection.Ids
import Muxtls.Connection.Core
import Muxtls.Connection.Notify
import Muxtls.Connection.Group
import Muxtls.Sender.Step
import Muxtls.Sender.Queue
import Muxtls.Sender.Basic
import Muxtls.Sender.Direction
import Muxtls.Sender.Project
import Muxtls.Sender.Credit
import Muxtls.Sender.Order
import Muxtls.Sender.Refine
import Muxtls.Ledger.Step
import Muxtls.Ledger.Idle
import Muxtls.Ledger.Refine
import Muxtls.Ledger.Basic
import Muxtls.Sender.Reach
import Muxtls.Sender.OpenFirst
import Muxtls.Sender.Fit
import Muxtls.Sender.Issue
import Muxtls.Sender.Lifecycle
import Muxtls.Sender.Control
import Muxtls.Ledger.Tasks
import Muxtls.Ledger.Streams
import Muxtls.Ledger.Retire
import Muxtls.Receiver.Inbox
import Muxtls.Receiver.Read
import Muxtls.Receiver.Step
import Muxtls.Receiver.View
import Muxtls.Receiver.Refine
import Muxtls.Receiver.Basic
import Muxtls.Receiver.Delivery
import Muxtls.Receiver.Windows
import Muxtls.Receiver.Account
import Muxtls.Receiver.Accounting
import Muxtls.Receiver.Budget
import Muxtls.Receiver.Cleanup
import Muxtls.Receiver.Coalesce
import Muxtls.Schedule.Turn
import Muxtls.Schedule.Passive
import Muxtls.Schedule.Flags
import Muxtls.Schedule.Traffic
import Muxtls.Outbound.Charge
import Muxtls.Outbound.Budget
import Muxtls.Schedule.Represent
import Muxtls.Schedule.Fair
import Muxtls.Schedule.Drain
import Muxtls.Schedule.First
import Muxtls.Outbound.Within
import Muxtls.Outbound.Progress
import Muxtls.Pair.System
import Muxtls.Pair.Channel
import Muxtls.Schedule.Diagnostic
import Muxtls.Pair.Frames
import Muxtls.Pair.Open
import Muxtls.Pair.Integrity
import Muxtls.Pair.Close
import Muxtls.Pair.Credit
import Muxtls.Pair.Lifecycle
import Muxtls.Ledger.Unmap
import Muxtls.Ledger.Opening
import Muxtls.Stream.Calls
import Muxtls.Stream.Poll
import Muxtls.Stream.Queue
import Muxtls.Stream.AsyncWrite
import Muxtls.Pair.Deadlock
import Muxtls.Pair.Admission
import Muxtls.Pair.Capacity
import Muxtls.Wake.Windows
import Muxtls.Wake.Rest
import Muxtls.Wake.Tasks
import Muxtls.Wake.Writer
import Muxtls.Wake.Calm
import Muxtls.Wake.Calls
import Muxtls.Wake.Pair
import Muxtls.Wake.Close
import Muxtls.Wake.Settle
import Muxtls.Group.Load
import Muxtls.Group.Sleep
import Muxtls.Group.Exit
import Muxtls.Group.Writes
import Muxtls.Group.Reads
import Muxtls.Group.Returns
