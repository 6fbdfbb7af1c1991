import NetworkProgramming.Single.Environment
import NetworkProgramming.Single.NumberedPipe
import NetworkProgramming.Single.UserPipe

/-! `do_exec`: one command line of one client. -/
namespace NetworkProgramming.Single
open Library.CString CommandLine

/-- `split_pipe`, the guarded call of `split_error_pipe`, and the number;
`none` when `do_exec` returns at once. -/
def readLine (cmd : Text) : Option Reading :=
  let filename := splitPipe cmd
  if blank filename then none
  else
    let errPipe := match filename.getLast?.bind fun last => strchr last '!' with
      | some (_ :: next :: _) => next != ' '
      | _ => false
    let (filename, pipeErrN) := if errPipe then splitErrorPipe filename else (filename, false)
    some (readNumber filename pipeErrN)

inductive Builtin where
  | printenv
  | setenv
  | exit
  | who
  | tell
  | yell
  | name
  deriving DecidableEq, Repr

/-- The `strstr` tests in their order, made only when the line is one command. -/
def builtin : List Text → Option Builtin
  | [cmd] =>
    if strstr cmd "printenv".toList then some .printenv
    else if strstr cmd "setenv".toList then some .setenv
    else if strstr cmd "exit".toList then some .exit
    else if strstr cmd "who".toList then some .who
    else if strstr cmd "tell".toList then some .tell
    else if strstr cmd "yell".toList then some .yell
    else if strstr cmd "name".toList then some .name
    else none
  | _ => none

/-- What one line leaves behind: the tables, the effects in order, and the
value `do_exec` returns (1 asks `main` to close the connection). -/
structure Outcome where
  server : Server
  effects : List Effect
  ret : Nat

/-- The loop runs over `i <= size`. -/
def whoRows (m : ClientMap) (fd : Int) : List Message :=
  (List.range (m.size + 1)).filterMap fun i =>
    if m.clientsFdSet i = 0 then none
    else some (.whoRow (i + 1) (m.nickname i) (m.clientsAddrIn i) (m.clientsFdSet i = fd))

def executeWho (s : Server) (fd : Int) : Except Fault Outcome :=
  if s.clientsMap.size < maxUserNum then
    .ok ⟨s, (.whoHeader :: whoRows s.clientsMap fd).map (.send fd), 0⟩
  else .error .outOfRange

/-- `strcpy`, then `strcat` of a space and each further word. -/
def joinWords (words : List Text) : Text := List.intercalate [' '] words

def executeTell (s : Server) (fd : Int) (operand : List Text) : Except Fault Outcome :=
  match operand[1]? with
  | none => .error .nullPointer
  | some word =>
    let receid := atoi word - 1
    if 0 ≤ receid ∧ receid < maxUserNum then
      let writeFd := s.clientsMap.clientsFdSet receid.toNat
      if writeFd = 0 then .ok ⟨s, [.send fd (.noUser (receid + 1))], 0⟩
      else
        match s.clientsMap.indexOf fd, operand.drop 2 with
        | some i, first :: rest =>
          .ok ⟨s, [.send writeFd (.told (s.clientsMap.nickname i) (joinWords (first :: rest)))], 0⟩
        | none, _ => .error .uninitialised
        | _, [] => .error .nullPointer
    else .error .outOfRange

def executeYell (s : Server) (fd : Int) (operand : List Text) : Except Fault Outcome :=
  match s.clientsMap.indexOf fd, operand.drop 1 with
  | some i, first :: rest =>
    let text := joinWords (first :: rest) ++ ['\n']
    .ok ⟨s, s.announce (.yelled (s.clientsMap.nickname i) text), 0⟩
  | none, _ => .error .uninitialised
  | _, [] => .error .nullPointer

/-- The name is compared with every other client's below `size`. -/
def nameTaken (m : ClientMap) (fd : Int) (name : Text) : Bool :=
  (List.range m.size).any fun i =>
    m.clientsFdSet i != fd && m.clientsFdSet i != 0 && m.nickname i == name

def executeName (s : Server) (fd : Int) (operand : List Text) : Except Fault Outcome :=
  match operand[1]? with
  | none => .error .nullPointer
  | some name =>
    if nameTaken s.clientsMap fd name then .ok ⟨s, [.send fd (.nameExists name)], 0⟩
    else
      match s.clientsMap.indexOf fd with
      | none => .error .uninitialised
      | some cid =>
        let m := { s.clientsMap with nickname := Function.update s.clientsMap.nickname cid name }
        .ok ⟨{ s with clientsMap := m }, s.announce (.named (m.clientsAddrIn cid) name), 0⟩

/-- The branches of the loop for the built-ins, on the one command of the line. -/
def runBuiltin (s : Server) (sockfd : Int) (cmd : Text) : Builtin → Except Fault Outcome
  | .printenv =>
    match (splitSpace cmd)[1]? with
    | none => .error .nullPointer
    | some key => (doPrintenv s sockfd key).map fun value => ⟨s, [.send sockfd (.envValue value)], 0⟩
  | .setenv =>
    match splitSpace cmd with
    | _ :: key :: val :: _ => (loadEnv s sockfd (key ++ '=' :: val)).map fun s => ⟨s, [], 0⟩
    | _ => .error .nullPointer
  | .exit => .ok ⟨s, [], 1⟩
  | .who => executeWho s sockfd
  | .tell => executeTell s sockfd (splitSpace cmd)
  | .yell => executeYell s sockfd (splitSpace cmd)
  | .name => executeName s sockfd (splitSpace cmd)

structure Line where
  sockfd : Int
  wait : Bool
  nPipeErr : Bool
  outputFd : Int

/-- What a round hands to the next one. -/
structure Round where
  server : Server
  input : Int
  getInput : Nat
  effects : List Effect

/-- `get_input` becomes 3 or 4 at the last command of a numbered line. -/
def lastGetInput (getInput : Nat) : Nat :=
  if getInput = 1 then 3 else if getInput = 2 then 4 else getInput

/-- The parent's part of `parser`: a pipe, a child, the user pipes of `cmd`. -/
def parser (s : Server) (args : ParserArgs) : Except Fault (Server × List Effect) :=
  match parserSends s args.cmd args.sockfd args.pipeFd.1 with
  | .error fault => .error fault
  | .ok s =>
    match parserReceives s args.cmd args.sockfd with
    | .error fault => .error fault
    | .ok (s, closes) => .ok (s, .fork args :: closes)

/-- The numbered pipe that is due, looked up and counted down in the first round. -/
def takeDue (s : Server) (sockfd : Int) (first : Bool) : Server × Option PipeInfo :=
  if first then (countDown s sockfd, dueEntry s sockfd) else (s, none)

/-- The descriptors `do_exec` closes after `parser`, and the table entry. -/
def finishRound (s : Server) (last : Bool) (getInput : Nat) (pipe : Int × Int) :
    Server × List Effect :=
  if last then
    if getInput = 0 then (s, [.close pipe.2])
    else if getInput = 4 then (completeEntry s pipe, [])
    else (s, [])
  else (s, [.close pipe.2])

/-- One round: command `cmd`, which is the first or not, the last or not. -/
def runCommand (line : Line) (first last : Bool) (cmd : Text) (call : ParserCall) (r : Round) :
    Except Fault Round :=
  let getInput := if last then lastGetInput r.getInput else r.getInput
  let (s, due) := takeDue r.server line.sockfd first
  let input := (due.map PipeInfo.inputNum).getD r.input
  match doPrintenv s line.sockfd "PATH".toList with
  | .error fault => .error fault
  | .ok path =>
    let args : ParserArgs :=
      { input, first, last, wait := line.wait, enter := due.isSome, nPipeErr := line.nPipeErr
        output := line.outputFd, getInput, cmd, sockfd := line.sockfd, path
        pipeFd := call.pipeFd }
    match parser s args with
    | .error fault => .error fault
    | .ok (s, effects) =>
      let (s, closes) := finishRound s last getInput call.getData
      .ok
        { server := s, input := call.getData.1, getInput
          effects := r.effects ++ (due.map fun entry => Effect.close entry.outputNum).toList ++
            effects ++ (if input ≠ 0 then [Effect.close input] else []) ++ closes }

def runCommands (line : Line) (calls : Nat → ParserCall) :
    Nat → List Text → Round → Except Fault Round
  | _, [], r => .ok r
  | i, cmd :: cmds, r =>
    match runCommand line (i = 0) cmds.isEmpty cmd (calls i) r with
    | .error fault => .error fault
    | .ok r => runCommands line calls (i + 1) cmds r

/-- Both token checks, in order; a rejection keeps what happened before it. -/
def checkUserPipes (s : Server) (line : Text) (sockfd : Int) :
    Except Fault (Server × List Effect × Except Message Int) :=
  match receivePipe s line sockfd with
  | .error fault => .error fault
  | .ok (.rejected message) => .ok (s, [], .error message)
  | .ok (.accepted s effects input) =>
    match sendPipe s line sockfd input with
    | .error fault => .error fault
    | .ok (.rejected message) => .ok (s, effects, .error message)
    | .ok (.accepted s more input) => .ok (s, effects ++ more, .ok input)

def runLine (s : Server) (sockfd : Int) (reading : Reading) (getInput : Nat) (outputFd input : Int)
    (calls : Nat → ParserCall) : Except Fault Outcome :=
  match builtin reading.commands with
  | some b => runBuiltin s sockfd (reading.commands.headD []) b
  | none =>
    let line : Line := ⟨sockfd, reading.pipeNumber.isNone, reading.pipeErrN, outputFd⟩
    match runCommands line calls 0 reading.commands ⟨s, input, getInput, []⟩ with
    | .error fault => .error fault
    | .ok r => .ok ⟨r.server, r.effects, 0⟩

/-- `calls i` is what the `i`-th call of `parser` gets from the system. -/
def doExec (s : Server) (cmd : Text) (sockfd : Int) (calls : Nat → ParserCall) :
    Except Fault Outcome :=
  match readLine cmd with
  | none => .ok ⟨s, [], 0⟩
  | some reading =>
    let (s, getInput, outputFd) := claimEntry s sockfd reading.pipeNumber
    match checkUserPipes s cmd sockfd with
    | .error fault => .error fault
    | .ok (s, effects, .error message) => .ok ⟨s, effects ++ [.send sockfd message], 0⟩
    | .ok (s, effects, .ok input) =>
      (runLine s sockfd reading getInput outputFd input calls).map fun o =>
        { o with effects := effects ++ o.effects }

end NetworkProgramming.Single
