import LineHandshake.Address
import LineHandshake.Address.Numeric
import LineHandshake.Allocator
import LineHandshake.Binary64
import LineHandshake.Binary64.Shortest
import LineHandshake.Client
import LineHandshake.Connection
import LineHandshake.Duration
import LineHandshake.Fault
import LineHandshake.Greeting
import LineHandshake.Json
import LineHandshake.Json.Display
import LineHandshake.Json.Printer
import LineHandshake.Json.Reader
import LineHandshake.Line
import LineHandshake.LinePort
import LineHandshake.Log
import LineHandshake.MemoryPort
import LineHandshake.Milestone
import LineHandshake.Proofs.Agreement
import LineHandshake.Proofs.Allocation
import LineHandshake.Proofs.Bystanders
import LineHandshake.Proofs.Canonical
import LineHandshake.Proofs.Client
import LineHandshake.Proofs.ClientFaults
import LineHandshake.Proofs.ClientGrammar
import LineHandshake.Proofs.ClientRecords
import LineHandshake.Proofs.Closing
import LineHandshake.Proofs.Counts
import LineHandshake.Proofs.Course
import LineHandshake.Proofs.Decoding
import LineHandshake.Proofs.Dialling
import LineHandshake.Proofs.EarlyExit
import LineHandshake.Proofs.Effects
import LineHandshake.Proofs.Exchange
import LineHandshake.Proofs.ExchangeFaults
import LineHandshake.Proofs.Foresight
import LineHandshake.Proofs.Framing
import LineHandshake.Proofs.Greeting
import LineHandshake.Proofs.Interoperation
import LineHandshake.Proofs.Json.Acceptance
import LineHandshake.Proofs.Json.Capacity
import LineHandshake.Proofs.Json.Derivation
import LineHandshake.Proofs.Json.Extent
import LineHandshake.Proofs.Json.Grammar
import LineHandshake.Proofs.Json.Limits
import LineHandshake.Proofs.Json.Members
import LineHandshake.Proofs.Json.Numbers
import LineHandshake.Proofs.Json.Proper
import LineHandshake.Proofs.Json.Strings
import LineHandshake.Proofs.Json.Values
import LineHandshake.Proofs.Json.Visible
import LineHandshake.Proofs.Ledger
import LineHandshake.Proofs.Line
import LineHandshake.Proofs.Line.Bytes
import LineHandshake.Proofs.Line.Keyword
import LineHandshake.Proofs.Line.RoundTrip
import LineHandshake.Proofs.Live
import LineHandshake.Proofs.MemoryPort
import LineHandshake.Proofs.Messages
import LineHandshake.Proofs.Network
import LineHandshake.Proofs.Orderly
import LineHandshake.Proofs.Payload
import LineHandshake.Proofs.Ports
import LineHandshake.Proofs.Reading
import LineHandshake.Proofs.ReadingOut
import LineHandshake.Proofs.Reads
import LineHandshake.Proofs.Recovery
import LineHandshake.Proofs.Reference
import LineHandshake.Proofs.Released
import LineHandshake.Proofs.Reports
import LineHandshake.Proofs.Reservation
import LineHandshake.Proofs.Scene
import LineHandshake.Proofs.Schedule
import LineHandshake.Proofs.Separation
import LineHandshake.Proofs.ServerRecords
import LineHandshake.Proofs.Shutdown
import LineHandshake.Proofs.Solitude
import LineHandshake.Proofs.Standing
import LineHandshake.Proofs.Subjects
import LineHandshake.Proofs.Turns
import LineHandshake.Proofs.Twins
import LineHandshake.Proofs.Utf8
import LineHandshake.Proofs.Utf8.Sequences
import LineHandshake.Proofs.Utf8.WellFormed
import LineHandshake.Proofs.Wire
import LineHandshake.Proofs.Writing
import LineHandshake.Release
import LineHandshake.Server
import LineHandshake.Server.Program
import LineHandshake.Session
import LineHandshake.Session.Dialled
import LineHandshake.Session.Step
import LineHandshake.Subject
import LineHandshake.Summary
import LineHandshake.Text
import LineHandshake.Text.Blank
import LineHandshake.Text.Percent
import LineHandshake.Text.Printable
import LineHandshake.Text.Quoted
import LineHandshake.TextSink
import LineHandshake.TextSource
import LineHandshake.Utf8
