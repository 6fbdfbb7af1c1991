import NetworkProgramming.CommandLine
import NetworkProgramming.Library.Descriptors
import NetworkProgramming.Library.Search

/-! `np_simple`: one client, served by a process of its own. -/
namespace NetworkProgramming.Simple
open Library.CString Library.Descriptors Library.Search CommandLine

/-- The global tables, the descriptors of the process, and how many pipes it
has made. -/
structure Shell where
  inputNum : Nat → Int
  inputCount : Nat → Int
  outputNum : Nat → Int
  pos : Nat
  files : Table
  made : Nat

/-- The process that `main` forks: descriptors 0 to 2 and the socket are open. -/
def Shell.initial (sockfd : Int) : Shell where
  inputNum _ := 0
  inputCount _ := 0
  outputNum _ := 0
  pos := 0
  files fd :=
    if fd = sockfd then some .socket
    else if fd = 0 ∨ fd = 1 ∨ fd = 2 then some .terminal
    else none
  made := 0

/-- `split_pipe`, `split_pipe_error` (called for every line), and the number. -/
def readLine (cmd : Text) : Reading :=
  let (filename, pipeErrN) := splitErrorPipe (splitPipe cmd)
  readNumber filename pipeErrN

inductive Builtin where
  | printenv
  | setenv
  | exit
  deriving DecidableEq, Repr

def builtin : List Text → Option Builtin
  | [cmd] =>
    if strstr cmd "printenv".toList then some .printenv
    else if strstr cmd "setenv".toList then some .setenv
    else if strstr cmd "exit".toList then some .exit
    else none
  | _ => none

/-- The arguments of one call of `parser`. -/
structure ParserArgs where
  input : Int
  first : Bool
  last : Bool
  wait : Bool
  enter : Bool
  nPipeErr : Bool
  output : Int
  getInput : Nat
  cmd : Text
  deriving DecidableEq, Repr

/-- A child as it calls `execvp`: its three standard files, and the pipe that
`parser` made for it. -/
structure Child where
  cmd : Text
  stdin : Option File
  stdout : Option File
  stderr : Option File
  pipe : Nat
  deriving DecidableEq, Repr

/-- The child branch of `parser`: the first choice of redirections. -/
def stageFiles (t : Table) (args : ParserArgs) (pipefd : Int × Int) : Table :=
  if args.first ∧ ¬ args.last ∧ args.input = 0 then dup2 t pipefd.2 1
  else if ¬ args.first ∧ ¬ args.last ∧ args.input ≠ 0 then dup2 (dup2 t args.input 0) pipefd.2 1
  else if args.first ∧ args.last ∧ args.getInput = 4 then dup2 t pipefd.2 1
  else dup2 (dup2 (dup2 t args.input 0) args.output 1) args.output 2

def errorFiles (t : Table) (args : ParserArgs) (pipefd : Int × Int) : Table :=
  if args.nPipeErr ∧ args.getInput ≠ 3 then dup2 t pipefd.2 2
  else if args.nPipeErr ∧ args.getInput = 3 then dup2 t args.output 2
  else t

def enterFiles (t : Table) (args : ParserArgs) : Table :=
  if args.enter then dup2 t args.input 0 else t

def lastFiles (t : Table) (args : ParserArgs) (pipefd : Int × Int) : Table :=
  if args.last ∧ args.getInput = 4 then dup2 t pipefd.2 1
  else if args.last ∧ args.getInput = 3 then dup2 t args.output 1
  else t

/-- All redirections of the child before the one of `>`, in their order. -/
def childFiles (t : Table) (args : ParserArgs) (pipefd : Int × Int) : Table :=
  lastFiles (enterFiles (errorFiles (stageFiles t args pipefd) args pipefd) args) args pipefd

/-- A command with a `>` writes to the file its last word names. -/
def redirected (cmd : Text) (stdout : Option File) : Option File :=
  if '>' ∈ cmd then some (.created ((splitSpace cmd).getLastD [])) else stdout

def child (t : Table) (args : ParserArgs) (pipefd : Int × Int) (pipe : Nat) : Child :=
  let t := childFiles t args pipefd
  ⟨args.cmd, t 0, redirected args.cmd (t 1), t 2, pipe⟩

/-- `parser`: a pipe, a child, and the close of `input` in the parent. A pair
that `pipe` cannot have returned has no result. -/
def parser (s : Shell) (args : ParserArgs) (call : ParserCall) : Option (Shell × Child) :=
  if Unused s.files call.pipeFd then
    let t := openPipe s.files call.pipeFd s.made
    some
      ({ s with
          files := if args.input ≠ 0 then close t args.input else t
          made := s.made + 1 },
        child t args call.pipeFd s.made)
  else none

/-- The first loop over the table: an entry with the same target. -/
def findTarget (s : Shell) (pipeNumber : Int) : Option Nat :=
  (List.range 1000).find? fun i => s.inputCount i = int32 (pipeNumber + 1)

def claimNew (s : Shell) (pipeNumber : Int) : Shell :=
  { s with inputCount := Function.update s.inputCount s.pos (int32 (pipeNumber + 1)) }

/-- `get_input` and `last_output` after the claim, and the table. -/
def claimEntry (s : Shell) (sockfd : Int) : Option Int → Shell × Nat × Int
  | none => (s, 0, sockfd)
  | some pipeNumber =>
    ((findTarget s pipeNumber).map fun i => (s, 1, s.outputNum i)).getD
      (claimNew s pipeNumber, 2, sockfd)

/-- The entry the countdown loop leaves in `input` and `output`. -/
def dueEntry (s : Shell) : Option Nat := lastBelow (fun j => s.inputCount j = 1) 1000

def countDown (s : Shell) : Shell :=
  { s with
    inputCount := fun j => if j < 1000 then int32 (s.inputCount j - 1) else s.inputCount j }

structure Line where
  wait : Bool
  nPipeErr : Bool
  lastOutput : Int

/-- What a round hands to the next one. -/
structure Round where
  shell : Shell
  input : Int
  getInput : Nat
  children : List Child

/-- The first round looks up the pipe that is due, closes its write end and
counts down. -/
def takeDue (s : Shell) (first : Bool) : Shell × Option Int :=
  if first then
    match dueEntry s with
    | none => (countDown s, none)
    | some j =>
      ({ countDown s with files := close s.files (s.outputNum j) }, some (s.inputNum j))
  else (s, none)

/-- `get_input` becomes 3 or 4 at the last command of a numbered line. -/
def lastGetInput (getInput : Nat) : Nat :=
  if getInput = 1 then 3 else if getInput = 2 then 4 else getInput

/-- The claimed entry gets the pipe of the line's last command. -/
def completeEntry (s : Shell) (pipe : Int × Int) : Shell :=
  { s with
    inputNum := Function.update s.inputNum s.pos pipe.1
    outputNum := Function.update s.outputNum s.pos pipe.2
    pos := if s.pos + 1 > 1000 then 0 else s.pos + 1 }

def finishRound (s : Shell) (last : Bool) (getInput : Nat) (pipe : Int × Int) : Shell :=
  if last then
    if getInput = 0 then { s with files := close s.files pipe.2 }
    else if getInput = 4 then completeEntry s pipe
    else s
  else { s with files := close s.files pipe.2 }

def runCommand (line : Line) (first last : Bool) (cmd : Text) (call : ParserCall) (r : Round) :
    Option Round :=
  let getInput := if last then lastGetInput r.getInput else r.getInput
  let (s, due) := takeDue r.shell first
  let args : ParserArgs :=
    { input := due.getD r.input, first, last, wait := line.wait, enter := due.isSome
      nPipeErr := line.nPipeErr, output := line.lastOutput, getInput, cmd }
  (parser s args call).map fun (s, child) =>
    { shell := finishRound s last getInput call.getData
      input := call.getData.1
      getInput
      children := r.children ++ [child] }

def runCommands (line : Line) (calls : Nat → ParserCall) :
    Nat → List Text → Round → Option Round
  | _, [], r => some r
  | i, cmd :: cmds, r =>
    (runCommand line (i = 0) cmds.isEmpty cmd (calls i) r).bind fun r =>
      runCommands line calls (i + 1) cmds r

/-- What became of one line: `printenv` and `setenv` stay inside the process,
`exit` ends it. -/
inductive Outcome where
  | nothing (s : Shell)
  | builtin (s : Shell) (b : Builtin)
  | ran (s : Shell) (children : List Child)

def Outcome.shell : Outcome → Shell
  | .nothing s => s
  | .builtin s _ => s
  | .ran s _ => s

/-- `do_exec`. The claim of an entry comes before the look at the commands. -/
def doExec (s : Shell) (cmd : Text) (sockfd : Int) (calls : Nat → ParserCall) : Option Outcome :=
  let reading := readLine cmd
  let (s, getInput, lastOutput) := claimEntry s sockfd reading.pipeNumber
  if blank reading.commands then some (.nothing s)
  else
    match builtin reading.commands with
    | some b => some (.builtin s b)
    | none =>
      let line : Line := ⟨reading.pipeNumber.isNone, reading.pipeErrN, lastOutput⟩
      (runCommands line calls 0 reading.commands ⟨s, 0, getInput, []⟩).map fun r =>
        .ran r.shell r.children

end NetworkProgramming.Simple
