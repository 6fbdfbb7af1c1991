import NetworkProgramming.Library.Run
import NetworkProgramming.Library.CString
import NetworkProgramming.Library.CopyLoop
import NetworkProgramming.Library.Search
import NetworkProgramming.Library.SlotTable
import NetworkProgramming.Socks.Session
import NetworkProgramming.Socks.Firewall
import NetworkProgramming.Socks.Relay
import NetworkProgramming.Socks.Bridge
import NetworkProgramming.Socks.Bind
import NetworkProgramming.Socks.Transparent
import NetworkProgramming.CommandLine
import NetworkProgramming.Single.State
import NetworkProgramming.Single.Environment
import NetworkProgramming.Single.NumberedPipe
import NetworkProgramming.Single.UserPipe
import NetworkProgramming.Single.Exec
import NetworkProgramming.Single.Server
import NetworkProgramming.Single.Moves
import NetworkProgramming.Single.Slots
import NetworkProgramming.Single.PipeHolders
import NetworkProgramming.Single.Rejection
import NetworkProgramming.Single.Variables
import NetworkProgramming.Library.Descriptors
import NetworkProgramming.Library.Schedule
import NetworkProgramming.Simple.Exec
import NetworkProgramming.Simple.Rounds
import NetworkProgramming.Simple.Delivery
import NetworkProgramming.Simple.Balance
import NetworkProgramming.Simple.Wiring
import NetworkProgramming.Library.DelayQueue
import NetworkProgramming.Npshell.Exec
import NetworkProgramming.Npshell.Pipeline
import NetworkProgramming.Npshell.Pipes
import NetworkProgramming.Npshell.Purposes
import NetworkProgramming.Single.Countdown
import NetworkProgramming.Single.Isolation
import NetworkProgramming.Console.Commands
import NetworkProgramming.Console.Display
import NetworkProgramming.Console.Request
import NetworkProgramming.Library.Lines
import NetworkProgramming.Npshell.Delivery
import NetworkProgramming.Npshell.Ownership
import NetworkProgramming.Single.Files
import NetworkProgramming.Single.Framing
import NetworkProgramming.Single.PipeLife
import NetworkProgramming.Single.PipeRuns
import NetworkProgramming.Socks.Answer
import NetworkProgramming.Library.Mailbox
import NetworkProgramming.Multi.Mailboxes
import NetworkProgramming.Multi.UserPipes
import NetworkProgramming.Library.Words
import NetworkProgramming.Single.Dispatch
import NetworkProgramming.Single.Names
import NetworkProgramming.Single.Reading
import NetworkProgramming.Single.Arguments
import NetworkProgramming.Single.Errors
import NetworkProgramming.Single.Indices
import NetworkProgramming.UserIds
import NetworkProgramming.Library.Find
import NetworkProgramming.Library.Strcat
import NetworkProgramming.Npshell.Padding
import NetworkProgramming.Npshell.Handing
import NetworkProgramming.Npshell.Refusals
import NetworkProgramming.Npshell.Dropped
import NetworkProgramming.Library.Environ
import NetworkProgramming.Npshell.Environment
import NetworkProgramming.Npshell.Processes
import NetworkProgramming.Socks.Scanning
import NetworkProgramming.Http.Request
import NetworkProgramming.Http.Serving
import NetworkProgramming.Console.Panel
import NetworkProgramming.Console.Lockstep
import NetworkProgramming.Console.Handshake
import NetworkProgramming.Console.Scripts
import NetworkProgramming.Console.Proxied
import NetworkProgramming.Multi.CommandLoop
import NetworkProgramming.Multi.Renaming
import NetworkProgramming.Multi.Quiescence
import NetworkProgramming.Multi.Programs
import NetworkProgramming.Multi.Rounds
import NetworkProgramming.Multi.Wiring
import NetworkProgramming.Single.Texts
import NetworkProgramming.ParserResult
import NetworkProgramming.Console.Escape
import NetworkProgramming.Console.Query
import NetworkProgramming.Removetag.Reports
import NetworkProgramming.Http.Host
import NetworkProgramming.Single.OneDue
import NetworkProgramming.Single.Routing
