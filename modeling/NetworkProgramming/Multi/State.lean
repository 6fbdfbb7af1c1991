import NetworkProgramming.CommandLine
import NetworkProgramming.Library.Mailbox
import Mathlib.Logic.Function.Basic

/-! `np_multi_proc`: the table that all processes share, and what each process
is about to do. -/
namespace NetworkProgramming.Multi
open Library.CString Library.Mailbox CommandLine

def maxUsers : Nat := 30
def maxMsgNum : Nat := 10
def fifoNameSize : Nat := 64

def pwd : Text := "/net/gcs/110/310555007".toList

/-- The texts that go through the mailboxes, by the data put into them. -/
inductive Message where
  | entered (name ip : Text) (port : Nat)
  | left (name : Text)
  | named (ip : Text) (port : Nat) (name : Text)
  | yelled (name text : Text)
  | told (name text : Text)
  | justReceived (receiver : Text) (recvid : Int) (sender : Text) (sendid : Int) (line : Text)
  | justPiped (sender : Text) (sendid : Int) (line : Text) (receiver : Text) (recvid : Int)
  deriving DecidableEq, Repr

/-- The texts a process writes to its own client. -/
inductive Notice where
  | noUser (id : Int)
  | noPipe (sendid recvid : Int)
  | pipeExists (sendid recvid : Int)
  | noFifo
  | nameExists (name : Text)
  | whoHeader
  | whoRow (id : Int) (name ip : Text) (port : Nat) (me : Bool)
  deriving DecidableEq, Repr

def showText (text : Text) : String := String.ofList text

/-- The formats of the source; a `%str` is a `%s` and the letters `tr`. -/
def Message.text : Message → String
  | .entered name ip port =>
    "*** client '" ++ showText name ++ "' entered from " ++ showText ip ++ ":" ++ toString port ++
      ". ***\n"
  | .left name => "*** client '" ++ showText name ++ "' left. ***\n"
  | .named ip port name =>
    "*** client from " ++ showText ip ++ ":" ++ toString port ++ " is named '" ++ showText name ++
      "'. ***\n"
  | .yelled name text => "*** " ++ showText name ++ " yelled ***: " ++ showText text ++ "\n"
  | .told name text => "*** " ++ showText name ++ " told you ***: " ++ showText text ++ "\n"
  | .justReceived receiver recvid sender sendid line =>
    "*** " ++ showText receiver ++ "tr (#" ++ toString recvid ++ ") just received from " ++
      showText sender ++ "tr (#" ++ toString sendid ++ ") by '" ++ showText line ++ "tr' ***\n"
  | .justPiped sender sendid line receiver recvid =>
    "*** " ++ showText sender ++ "tr (#" ++ toString sendid ++ ") just piped '" ++ showText line ++
      "tr' to " ++ showText receiver ++ "tr (#" ++ toString recvid ++ ") ***\n"

def Notice.text : Notice → String
  | .noUser id => "*** Error: client #" ++ toString id ++ " does not exist yet. ***\n"
  | .noPipe sendid recvid =>
    "*** Error: the pipe #" ++ toString sendid ++ "->#" ++ toString recvid ++
      " does not exist yet. ***\n"
  | .pipeExists sendid recvid =>
    "*** Error: the pipe #" ++ toString sendid ++ "->#" ++ toString recvid ++
      " already exists. ***\n"
  | .noFifo => "error: failed to create FIFO\n"
  | .nameExists name => "*** client '" ++ showText name ++ "' already exists. ***\n"
  | .whoHeader => "<ID>\t<nickname>\t<IP:port>\t<indicate me>\n"
  | .whoRow id name ip port me =>
    toString id ++ "\t" ++ showText name ++ "\t" ++ showText ip ++ ":" ++ toString port ++
      (if me then "\t<-me" else "") ++ "\n"

structure Fifo where
  fd : Int
  filename : Text
  deriving DecidableEq, Repr

def Fifo.zero : Fifo := ⟨0, []⟩

/-- A slot of `msg` whose first byte is 0 holds no message. -/
structure Client where
  id : Int
  pid : Int
  nickname : Text
  ip : Text
  port : Nat
  msg : Nat → Nat → Option Message
  fifo : Nat → Fifo

/-- After `memset(&clients[i], 0, sizeof(client))`. -/
def Client.zero : Client := ⟨0, 0, [], [], 0, fun _ _ => none, fun _ => .zero⟩

/-- What is left to do in a process, cut where other processes may come in between. -/
inductive Action where
  | put (i : Nat) (message : Message)
  | doExec (cmd : Text)
  | sendPipe (line : Text) (commands : List Text) (sendid : Option Nat)
  | openFifo (line : Text) (recvid : Int) (commands : List Text) (sendid : Option Nat)
  | runCommands (commands : List Text) (sendid : Option Nat)
  | tell
  | release (sendid : Nat)
  | leave
  deriving DecidableEq, Repr

/-- One process: its main flow, the `operand` array up to its NULL, how far its two
signal handlers are, and which signals are pending. -/
structure Process where
  todo : List Action
  operand : List Text
  mail : Option (Nat × Nat)
  pipes : Option Nat
  usr1 : Bool
  usr2 : Bool

def Process.initial : Process := ⟨[], [], none, none, false, false⟩

/-- Process `i` serves the client with index `i`. -/
structure System where
  clients : Nat → Client
  process : Nat → Process

def System.initial : System := ⟨fun _ => .zero, fun _ => .initial⟩

inductive Effect where
  | print (i : Nat) (notice : Notice)
  | deliver (i sender : Nat) (message : Message)
  deriving DecidableEq, Repr

/-- A null pointer is read, or the table at an index it does not have. -/
inductive Fault where
  | nullPointer
  | outOfRange
  deriving DecidableEq, Repr

/-- What a piece of the main flow comes to; `next` is to be done before the rest. -/
structure Outcome where
  system : System
  next : List Action
  prints : List Notice

/-- What comes from outside: connections, lines of a client, signals, and the
scheduling of the processes with the results of `mkfifo` and `open`. -/
inductive Event where
  | login (pid : Int) (ip : Text) (port : Nat)
  | line (i : Nat) (text : Text)
  | act (i : Nat) (result : Int)
  | usr1 (i : Nat)
  | scan (i : Nat)
  | usr2 (i : Nat)
  | entry (i : Nat) (result : Int)
  | term (i : Nat)
  deriving DecidableEq, Repr

variable (s : System) (i r sender : Nat)

def System.setClient (c : Client) : System := { s with clients := Function.update s.clients i c }

def System.setProcess (p : Process) : System := { s with process := Function.update s.process i p }

def Client.setMsg (c : Client) (slots : Nat → Option Message) : Client :=
  { c with msg := Function.update c.msg sender slots }

def Client.setFifo (c : Client) (fifo : Fifo) : Client :=
  { c with fifo := Function.update c.fifo sender fifo }

@[simp] theorem System.setClient_clients (c : Client) (j : Nat) :
    (s.setClient i c).clients j = if j = i then c else s.clients j :=
  Function.update_apply _ _ _ _

@[simp] theorem System.setClient_process (c : Client) : (s.setClient i c).process = s.process := rfl

@[simp] theorem System.setProcess_clients (p : Process) :
    (s.setProcess i p).clients = s.clients := rfl

@[simp] theorem System.setProcess_process (p : Process) (j : Nat) :
    (s.setProcess i p).process j = if j = i then p else s.process j :=
  Function.update_apply _ _ _ _

@[simp] theorem Client.setMsg_msg (c : Client) (slots : Nat → Option Message) (j : Nat) :
    (c.setMsg sender slots).msg j = if j = sender then slots else c.msg j :=
  Function.update_apply _ _ _ _

@[simp] theorem Client.setMsg_fifo (c : Client) (slots : Nat → Option Message) :
    (c.setMsg sender slots).fifo = c.fifo := rfl

@[simp] theorem Client.setMsg_id (c : Client) (slots : Nat → Option Message) :
    (c.setMsg sender slots).id = c.id := rfl

@[simp] theorem Client.setMsg_pid (c : Client) (slots : Nat → Option Message) :
    (c.setMsg sender slots).pid = c.pid := rfl

@[simp] theorem Client.setFifo_fifo (c : Client) (fifo : Fifo) (j : Nat) :
    (c.setFifo sender fifo).fifo j = if j = sender then fifo else c.fifo j :=
  Function.update_apply _ _ _ _

@[simp] theorem Client.setFifo_msg (c : Client) (fifo : Fifo) :
    (c.setFifo sender fifo).msg = c.msg := rfl

@[simp] theorem Client.setFifo_id (c : Client) (fifo : Fifo) :
    (c.setFifo sender fifo).id = c.id := rfl

@[simp] theorem Client.setFifo_pid (c : Client) (fifo : Fifo) :
    (c.setFifo sender fifo).pid = c.pid := rfl

theorem starred_append {text rest : String} (h : text.toList.head? = some '*') :
    (text ++ rest).toList.head? = some '*' := by
  rw [String.toList_append, List.head?_append, h]
  rfl

/-- Every text for a mailbox begins with `*`, so a slot that holds one is in use. -/
theorem Message.text_starred (m : Message) : m.text.toList.head? = some '*' := by
  cases m <;> unfold Message.text <;> repeat' first | decide | apply starred_append

end NetworkProgramming.Multi
