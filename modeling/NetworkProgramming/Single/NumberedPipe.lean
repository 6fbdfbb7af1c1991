import NetworkProgramming.Library.Search
import NetworkProgramming.Single.State

/-! The table of numbered pipes, `client_pipe`, as `do_exec` uses it. -/
namespace NetworkProgramming.Single
open Library.CString Library.Search CommandLine

/-- An entry that counts down to the line after the next `count - 1` ones. -/
def PipeInfo.waits (entry : PipeInfo) (sockfd count : Int) : Bool :=
  entry.inputCount = count && entry.fd = sockfd

/-- The first loop of `do_exec` over the table: an entry with the same target. -/
def findTarget (s : Server) (sockfd pipeNumber : Int) : Option Nat :=
  (List.range (maxPipeNum - 1)).find? fun i =>
    (s.clientPipe i).waits sockfd (int32 (pipeNumber + 1))

/-- The entry at `pos` is given its count and its owner, not yet its pipe. -/
def claimNew (s : Server) (sockfd pipeNumber : Int) : Server :=
  { s with
    clientPipe := Function.update s.clientPipe s.pos
      { s.clientPipe s.pos with inputCount := int32 (pipeNumber + 1), fd := sockfd } }

/-- `get_input` and `output_fd` after the claim, and the table with its new entry. -/
def claimEntry (s : Server) (sockfd : Int) : Option Int → Server × Nat × Int
  | none => (s, 0, sockfd)
  | some pipeNumber =>
    ((findTarget s sockfd pipeNumber).map fun i => (s, 1, (s.clientPipe i).outputNum)).getD
      (claimNew s sockfd pipeNumber, 2, sockfd)

/-- The entry the countdown loop leaves in `input` and `output`: the last due one. -/
def dueEntry (s : Server) (sockfd : Int) : Option PipeInfo :=
  (lastBelow (fun j => (s.clientPipe j).waits sockfd 1) 1000).map s.clientPipe

def countDown (s : Server) (sockfd : Int) : Server :=
  { s with
    clientPipe := fun j =>
      if j < 1000 ∧ (s.clientPipe j).fd = sockfd then
        { s.clientPipe j with inputCount := int32 ((s.clientPipe j).inputCount - 1) }
      else s.clientPipe j }

def completeEntry (s : Server) (pipe : Int × Int) : Server :=
  { s with
    clientPipe := Function.update s.clientPipe s.pos
      { s.clientPipe s.pos with inputNum := pipe.1, outputNum := pipe.2 }
    pos := if s.pos + 1 > 1000 then 0 else s.pos + 1 }

end NetworkProgramming.Single
