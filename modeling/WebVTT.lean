import WebVTT.Json.Records
import WebVTT.Proofs.Document.Grammar
import WebVTT.Proofs.Document.Truncation
import WebVTT.Proofs.Document.Writing
import WebVTT.Proofs.Session.Resync
import WebVTT.Source.Retrying
import WebVTT.Source.Script
import WebVTT.Time.Display
import WebVTT.Proofs.LineStream.Lockstep
import WebVTT.Session.Calls
import WebVTT.Proofs.Session.Lockstep
import WebVTT.Proofs.Lines.Unified
import WebVTT.Proofs.Session.Endings
import WebVTT.Proofs.Session.Remaining
import WebVTT.Proofs.Session.Sources
import WebVTT.Proofs.Source.Tally
import WebVTT.Proofs.LineStream.Tally
import WebVTT.Proofs.Document.Stages
import WebVTT.Proofs.Session.LineCount
import WebVTT.Proofs.Document.Limits
import WebVTT.Proofs.Cue.Cases
import WebVTT.Proofs.LineStream.Position
import WebVTT.Proofs.Session.Pursuit
import WebVTT.Proofs.Timings.Reading
import WebVTT.Proofs.LineStream.Content
import WebVTT.Proofs.Session.WellFormed
import WebVTT.Proofs.Session.CallOrder
import WebVTT.Proofs.Header.Acceptance
import WebVTT.Proofs.Document.Results
import WebVTT.Proofs.Session.Failures
import WebVTT.Proofs.Session.Progress
import WebVTT.Proofs.Document.Encoding
import WebVTT.Proofs.LineStream.ErrorLines
import WebVTT.Proofs.Session.ErrorLines
import WebVTT.Proofs.Lines.Events
import WebVTT.Proofs.LineStream.Notices
import WebVTT.Proofs.Session.Interchange
import WebVTT.Proofs.Session.Notices
import WebVTT.Proofs.Timings.Grammar
import WebVTT.Proofs.Time.Presentation
import WebVTT.Proofs.Timings.Timestamp
import WebVTT.Proofs.Time.Parsing
import WebVTT.Proofs.LineStream.Pieces
import WebVTT.Proofs.Timings.Digits
import WebVTT.Proofs.Time.Order
import WebVTT.Proofs.Time.Arithmetic
import WebVTT.Proofs.Source.Moves
import WebVTT.Proofs.LineStream.Watched
import WebVTT.Proofs.Session.Slot
import WebVTT.Proofs.Text.Places
import WebVTT.Proofs.Timings.Bytewise
import WebVTT.Proofs.Timings.Faults
import WebVTT.Proofs.Session.TimingFaults
import WebVTT.Proofs.Session.Endless
import WebVTT.Proofs.Timings.Cursor
