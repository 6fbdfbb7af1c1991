import NetworkProgramming.Multi.State

/-! The functions of `np_multi_proc` that read or write the shared table. -/
namespace NetworkProgramming.Multi
open Library.CString Library.Mailbox CommandLine

variable (s : System) (i : Nat)

/-- The loop of `broadcast`; other processes may come in between its rounds. -/
def broadcast (message : Message) : List Action := (List.range maxUsers).map fun r => .put r message

/-- The first free slot of `clients[r].msg[i]`, if any, and `kill(pid, SIGUSR1)`, both in one
step. -/
def post (r : Nat) (message : Message) : System :=
  match firstFree ((s.clients r).msg i) maxMsgNum with
  | none => s
  | some _ =>
    (s.setClient r ((s.clients r).setMsg i (put ((s.clients r).msg i) maxMsgNum message))).setProcess
      r { s.process r with usr1 := true }

def broadcastRound (r : Nat) (message : Message) : System :=
  if 0 < (s.clients r).id then post s i r message else s

/-- `add_client`; a full table changes nothing. -/
def addClient (pid : Int) (ip : Text) (port : Nat) : System :=
  match (List.range maxUsers).find? fun j => (s.clients j).id == 0 with
  | none => s
  | some j =>
    let name := "(no name)".toList
    (s.setClient j { s.clients j with id := j + 1, pid, nickname := name, ip, port }).setProcess j
      { Process.initial with todo := broadcast (.entered name ip port) }

/-- `rm_user`: the broadcast, then the rest. -/
def rmUser : List Action := broadcast (.left (s.clients i).nickname) ++ [.leave]

/-- The rest of `rm_user`, behind which the process ends. -/
def leave : System := (s.setClient i .zero).setProcess i .initial

/-- `strlen(tmp) >= 2 && tmp[1] != ' '` behind the first `!`. -/
def splitsError (last : Text) : Bool :=
  match strchr last '!' with
  | some (_ :: c :: _) => c != ' '
  | _ => false

/-- The commands of a line; none where `do_exec` returns at once. -/
def readLine (cmd : Text) : Except Fault (Option (List Text)) :=
  if cmd = [] then .ok none
  else
    let filename := splitPipe cmd
    match filename.head?, filename.getLast? with
    | some first, some last =>
      if first.head? = some ' ' then .ok none
      else
        let (filename, pipeErr) :=
          if splitsError last then splitErrorPipe filename else (filename, false)
        .ok (some (readNumber filename pipeErr).commands)
    | _, _ => .error .nullPointer

/-- `do_exec` up to the end of its part for `<n`. -/
def doExec (line : Text) : Except Fault Outcome :=
  match readLine line with
  | .error fault => .error fault
  | .ok none => .ok ⟨s, [], []⟩
  | .ok (some commands) =>
    if '<' ∈ line then
      match userId '<' line with
      | none => .error .nullPointer
      | some sendid =>
        if sendid < 0 ∨ 30 < sendid then .ok ⟨s, [], [.noUser sendid]⟩
        else if sendid = 0 then .error .outOfRange
        else
          let own := s.clients i
          let sender := s.clients (sendid.toNat - 1)
          if sender.id = 0 then .ok ⟨s, [], [.noUser sendid]⟩
          else if (own.fifo (sendid.toNat - 1)).fd = 0 then .ok ⟨s, [], [.noPipe sendid own.id]⟩
          else
            .ok ⟨s, broadcast (.justReceived own.nickname own.id sender.nickname sender.id line) ++
              [.sendPipe line commands (some sendid.toNat)], []⟩
    else .ok ⟨s, [.sendPipe line commands none], []⟩

def fifoName (sendid recvid : Int) : Text :=
  (pwd ++ "/user_fifo/".toList ++ (toString sendid).toList ++ "->".toList ++
    (toString recvid).toList).take fifoNameSize

/-- The receiver's record of a new pipe, and `kill(pid, SIGUSR2)`. -/
def record (r : Nat) (filename : Text) : System :=
  (s.setClient r ((s.clients r).setFifo i
    { (s.clients r).fifo i with filename })).setProcess r { s.process r with usr2 := true }

/-- The part of `do_exec` for `>n`; `result` is what `mkfifo` returns. -/
def sendPipe (result : Int) (line : Text) (commands : List Text) (sendid : Option Nat) :
    Except Fault Outcome :=
  if pipesOut line then
    match userId '>' line with
    | none => .error .nullPointer
    | some recvid =>
      let own := s.clients i
      let receiver := s.clients (recvid.toNat - 1)
      if recvid ≤ 0 ∨ 30 < recvid ∨ receiver.id = 0 then .ok ⟨s, [], [.noUser recvid]⟩
      else if (receiver.fifo i).fd ≠ 0 then .ok ⟨s, [], [.pipeExists own.id recvid]⟩
      else if result < 0 then .ok ⟨s, [], [.noFifo]⟩
      else
        .ok ⟨record s i (recvid.toNat - 1) (fifoName own.id recvid),
          [.openFifo line recvid commands sendid], []⟩
  else .ok ⟨s, [.runCommands commands sendid], []⟩

/-- The same behind `open`, which returns once the receiver has opened the pipe too. -/
def openFifo (line : Text) (recvid : Int) (commands : List Text) (sendid : Option Nat) : Outcome :=
  let own := s.clients i
  ⟨s, broadcast (.justPiped own.nickname own.id line (s.clients (recvid.toNat - 1)).nickname recvid) ++
    [.runCommands commands sendid], []⟩

inductive Builtin where
  | printenv
  | setenv
  | exit
  | who
  | nickname
  | yell
  | tell
  deriving DecidableEq, Repr

/-- The `strstr` tests in their order, made only when the line is one command. -/
def builtin : List Text → Option Builtin
  | [cmd] =>
    if strstr cmd "printenv".toList then some .printenv
    else if strstr cmd "setenv".toList then some .setenv
    else if strstr cmd "exit".toList then some .exit
    else if strstr cmd "who".toList then some .who
    else if strstr cmd "nickname".toList then some .nickname
    else if strstr cmd "yell".toList then some .yell
    else if strstr cmd "tell".toList then some .tell
    else none
  | _ => none

def setOperand (operand : List Text) : System :=
  s.setProcess i { s.process i with operand }

def words (operand : List Text) : Text := (" ".toList).intercalate operand

def executeWho : List Notice :=
  .whoHeader :: (List.range maxUsers).filterMap fun j =>
    let c := s.clients j
    if 0 < c.id then some (.whoRow c.id c.nickname c.ip c.port (j == i)) else none

/-- `execute_name`, which takes the operands of an earlier command. -/
def executeName : Except Fault Outcome :=
  match (s.process i).operand[1]? with
  | none => .error .nullPointer
  | some name =>
    if (List.range maxUsers).any fun j => 0 < (s.clients j).id && (s.clients j).nickname == name then
      .ok ⟨s, [], [.nameExists name]⟩
    else
      let own := s.clients i
      .ok ⟨s.setClient i { own with nickname := name }, broadcast (.named own.ip own.port name), []⟩

def executeYell : Except Fault Outcome :=
  match (s.process i).operand[1]? with
  | none => .error .nullPointer
  | some _ =>
    .ok ⟨s, broadcast (.yelled (s.clients i).nickname (words ((s.process i).operand.drop 1))), []⟩

/-- Whom `execute_tell` writes to, and what. -/
def tellMessage : Except Fault (Option (Nat × Message) × List Notice) :=
  match (s.process i).operand[1]?, (s.process i).operand[2]? with
  | some id, some _ =>
    let recvid := atoi id
    if 0 < recvid then
      if 30 < recvid then .error .outOfRange
      else if (s.clients (recvid.toNat - 1)).id ≠ 0 then
        .ok (some (recvid.toNat - 1,
          .told (s.clients i).nickname (words ((s.process i).operand.drop 2))), [])
      else .ok (none, [.noUser recvid])
    else .ok (none, [.noUser recvid])
  | _, _ => .error .nullPointer

def executeTell : Except Fault Outcome :=
  match tellMessage s i with
  | .error fault => .error fault
  | .ok (none, prints) => .ok ⟨s, [], prints⟩
  | .ok (some (r, message), prints) => .ok ⟨post s i r message, [], prints⟩

/-- The loop of `do_exec`. A program and the pipes between programs leave the shared
table alone; the words of the last command stay in `operand`. -/
def runCommands (commands : List Text) (sendid : Option Nat) : Except Fault Outcome :=
  let finish : List Action := sendid.toList.map .release
  let operand := splitSpace (commands.getLastD [])
  match builtin commands with
  | some .printenv =>
    if operand[1]?.isSome then .ok ⟨setOperand s i operand, finish, []⟩ else .error .nullPointer
  | some .setenv =>
    if operand[2]?.isSome then .ok ⟨setOperand s i operand, finish, []⟩ else .error .nullPointer
  | some .exit => .ok ⟨s, rmUser s i, []⟩
  | some .who => .ok ⟨s, finish, executeWho s i⟩
  | some .nickname => (executeName s i).map fun o => { o with next := o.next ++ finish }
  | some .yell =>
    (executeYell (setOperand s i operand) i).map fun o => { o with next := o.next ++ finish }
  | some .tell => .ok ⟨setOperand s i operand, .tell :: finish, []⟩
  | none => .ok ⟨setOperand s i operand, finish, []⟩

/-- The end of `do_exec` behind a `<n`. -/
def release (sendid : Nat) : System :=
  if ((s.clients i).fifo (sendid - 1)).fd ≠ 0 then
    s.setClient i ((s.clients i).setFifo (sendid - 1) .zero)
  else s

/-- One piece of the main flow of process `i`. -/
def act (result : Int) : Action → Except Fault Outcome
  | .put r message => .ok ⟨broadcastRound s i r message, [], []⟩
  | .doExec line => doExec s i line
  | .sendPipe line commands sendid => sendPipe s i result line commands sendid
  | .openFifo line recvid commands sendid => .ok (openFifo s i line recvid commands sendid)
  | .runCommands commands sendid => runCommands s i commands sendid
  | .tell => executeTell s i
  | .release sendid => .ok ⟨release s i sendid, [], []⟩
  | .leave => .ok ⟨leave s i, [], []⟩

end NetworkProgramming.Multi
