import NetworkProgramming.Multi.Process
import NetworkProgramming.Simple.Exec

/-! The programs that `do_exec` of `np_multi_proc` starts. The tables of numbered pipes,
their claims and their countdown are, word for word, those of `np_simple`; what the child of
`parser` does with its descriptors is not. -/
namespace NetworkProgramming.Multi.Programs
open Library.CString Library.Descriptors CommandLine
open Simple (Shell ParserArgs Child)

/-- A line as `do_exec` reads it; none where it returns at once. -/
def reading (cmd : Text) : Except Fault (Option Reading) :=
  if cmd = [] then .ok none
  else
    let filename := splitPipe cmd
    match filename.head?, filename.getLast? with
    | some first, some last =>
      if first.head? = some ' ' then .ok none
      else
        let (filename, pipeErr) :=
          if splitsError last then splitErrorPipe filename else (filename, false)
        .ok (some (readNumber filename pipeErr))
    | _, _ => .error .nullPointer

/-- The first choice of redirections in the child of `parser`. -/
def stageDups (args : ParserArgs) (pipeFd : Int × Int) : Dups :=
  if args.first ∧ ¬ args.last ∧ args.input = 0 then [(pipeFd.2, 1)]
  else if args.first ∧ ¬ args.last ∧ args.input ≠ 0 then [(args.input, 0), (pipeFd.2, 1)]
  else if ¬ args.first ∧ ¬ args.last ∧ args.input ≠ 0 then [(args.input, 0), (pipeFd.2, 1)]
  else if args.first ∧ args.last ∧ args.getInput = 4 ∧ args.input = 0 then [(pipeFd.2, 1)]
  else if args.first ∧ args.last ∧ args.getInput = 4 ∧ args.input ≠ 0 then
    [(pipeFd.2, 1), (args.input, 0)]
  else [(args.input, 0)]

def errorDups (args : ParserArgs) (pipeFd : Int × Int) : Dups :=
  if args.nPipeErr ∧ args.getInput ≠ 3 then [(pipeFd.2, 2)]
  else if args.nPipeErr ∧ args.getInput = 3 then [(args.output, 2)]
  else []

def outputDups (args : ParserArgs) : Dups :=
  if args.output ≠ 0 then [(args.output, 1), (args.output, 2)] else []

def enterDups (args : ParserArgs) : Dups := if args.enter then [(args.input, 0)] else []

def lastDups (args : ParserArgs) (pipeFd : Int × Int) : Dups :=
  if args.last ∧ args.getInput = 4 then [(pipeFd.2, 1)]
  else if args.last ∧ args.getInput = 3 then [(args.output, 1)]
  else []

/-- The calls of `dup2` in the child before the one for `> file`, in their order. -/
def childDups (args : ParserArgs) (pipeFd : Int × Int) : Dups :=
  stageDups args pipeFd ++ errorDups args pipeFd ++ outputDups args ++ enterDups args ++
    lastDups args pipeFd

/-- A `>` in front of a blank names a file, the last word; `>n` is left to `do_exec`. -/
def redirected (cmd : Text) (stdout : Option File) : Option File :=
  if '>' ∈ cmd ∧ pipesOut cmd = false then some (.created ((splitSpace cmd).getLastD []))
  else stdout

def child (t : Table) (args : ParserArgs) (pipeFd : Int × Int) (pipe : Nat) : Child :=
  let t := dupAll t (childDups args pipeFd)
  ⟨args.cmd, t 0, redirected args.cmd (t 1), t 2, pipe⟩

/-- `parser`: a pipe, a child, and the close of `input` in the parent. A pair that `pipe`
cannot have returned has no result. -/
def parser (s : Shell) (args : ParserArgs) (call : ParserCall) : Option (Shell × Child) :=
  if Unused s.files call.pipeFd then
    let t := openPipe s.files call.pipeFd s.made
    some
      ({ s with
          files := if args.input ≠ 0 then close t args.input else t
          made := s.made + 1 },
        child t args call.pipeFd s.made)
  else none

/-- What stays the same in all rounds of the loop; 0 for a pipe that is not there. -/
structure Line where
  wait : Bool
  nPipeErr : Bool
  outputFd : Int
  userPipeIn : Int
  userPipeOut : Int

/-- `close(fd)`, made only when there is such a pipe. -/
def closeUserPipe (s : Shell) (fd : Int) : Shell :=
  if fd ≠ 0 then { s with files := close s.files fd } else s

def Line.output (line : Line) (last : Bool) : Int :=
  if last ∧ line.userPipeOut ≠ 0 then line.userPipeOut else line.outputFd

def runCommand (line : Line) (first last : Bool) (cmd : Text) (call : ParserCall)
    (r : Simple.Round) : Option Simple.Round :=
  let getInput := if last then Simple.lastGetInput r.getInput else r.getInput
  let (s, due) := Simple.takeDue r.shell first
  let args : ParserArgs :=
    { input := due.getD r.input, first, last, wait := line.wait, enter := due.isSome
      nPipeErr := line.nPipeErr, output := line.output last, getInput, cmd }
  (parser s args call).map fun (s, child) =>
    let s := if first then closeUserPipe s line.userPipeIn else s
    { shell := Simple.finishRound s last getInput call.getData
      input := call.getData.1
      getInput
      children := r.children ++ [child] }

def runCommands (line : Line) (calls : Nat → ParserCall) :
    Nat → List Text → Simple.Round → Option Simple.Round
  | _, [], r => some r
  | i, cmd :: cmds, r =>
    (runCommand line (i = 0) cmds.isEmpty cmd (calls i) r).bind fun r =>
      runCommands line calls (i + 1) cmds r

/-- `open(fifo, O_WRONLY)`. A FIFO is a pipe of its own, told apart like the others. -/
def openUserPipe (s : Shell) (fd : Int) : Option Shell :=
  if fd = 0 then some s
  else if 0 < fd ∧ s.files fd = none then
    some { s with
      files := Function.update s.files fd (some (.writeEnd s.made))
      made := s.made + 1 }
  else none

inductive Outcome where
  | nothing (s : Shell)
  | builtin (s : Shell) (b : Builtin)
  | ran (s : Shell) (children : List Child)

def Outcome.shell : Outcome → Shell
  | .nothing s => s
  | .builtin s _ => s
  | .ran s _ => s

def Outcome.children : Outcome → List Child
  | .ran _ children => children
  | _ => []

/-- `do_exec` of a line that its user pipes do not refuse; `userPipeIn` and `userPipeOut`
are their descriptors. The claim of an entry comes before the look at the commands. -/
def doExec (s : Shell) (cmd : Text) (userPipeIn userPipeOut : Int) (calls : Nat → ParserCall) :
    Option Outcome :=
  match reading cmd with
  | .error _ => none
  | .ok none => some (.nothing s)
  | .ok (some reading) =>
    let (s, getInput, outputFd) := Simple.claimEntry s 0 reading.pipeNumber
    (openUserPipe s userPipeOut).bind fun s =>
      match builtin reading.commands with
      | some b => some (.builtin (closeUserPipe s userPipeOut) b)
      | none =>
        let line : Line :=
          ⟨reading.pipeNumber.isNone, reading.pipeErrN, outputFd, userPipeIn, userPipeOut⟩
        (runCommands line calls 0 reading.commands ⟨s, userPipeIn, getInput, []⟩).map fun r =>
          .ran (closeUserPipe r.shell userPipeOut) r.children

/-- The commands are the ones that the shared table's part of `do_exec` goes on with. -/
theorem reading_commands (cmd : Text) :
    readLine cmd = (reading cmd).map fun r => r.map Reading.commands := by
  unfold readLine reading
  split
  next => rfl
  next =>
    dsimp only
    cases (splitPipe cmd).head? with
    | none => rfl
    | some first =>
      cases (splitPipe cmd).getLast? with
      | none => rfl
      | some last =>
        dsimp only
        split <;> rfl

end NetworkProgramming.Multi.Programs
