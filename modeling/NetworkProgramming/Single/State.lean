import NetworkProgramming.CommandLine
import Mathlib.Data.Finset.Card
import Mathlib.Logic.Function.Basic

/-! `np_single_proc`: the tables of the server and what it does to the outside. -/
namespace NetworkProgramming.Single
open Library.CString CommandLine

def maxPipeNum : Nat := 2048
def maxUserNum : Nat := 60

structure PipeInfo where
  inputNum : Int
  inputCount : Int
  outputNum : Int
  fd : Int
  deriving DecidableEq, Repr

structure UserPipeInfo where
  pipeFd : Int
  flag : Int
  deriving DecidableEq, Repr

structure EnvMap where
  envNum : Nat
  key : Nat → Text
  value : Nat → Text

/-- An IPv4 address in dotted order, and a port in host order. -/
structure SockaddrIn where
  address : List Nat
  port : Nat
  deriving DecidableEq, Repr

structure ClientMap where
  size : Nat
  clientsFdSet : Nat → Int
  nickname : Nat → Text
  env : Nat → EnvMap
  clientsAddrIn : Nat → SockaddrIn

/-- The global tables, and `allset` of `main`. -/
structure Server where
  clientPipe : Nat → PipeInfo
  clientsMap : ClientMap
  userPipe : Nat → Nat → UserPipeInfo
  pos : Nat
  allset : Finset Int

def Server.initial : Server where
  clientPipe _ := ⟨0, 0, 0, 0⟩
  clientsMap := ⟨0, fun _ => 0, fun _ => [], fun _ => ⟨0, fun _ => [], fun _ => []⟩,
    fun _ => ⟨[0, 0, 0, 0], 0⟩⟩
  userPipe _ _ := ⟨0, 0⟩
  pos := 0
  allset := ∅

/-- What the program may run into instead of going on. -/
inductive Fault where
  | nullPointer
  | outOfRange
  | uninitialised
  deriving DecidableEq, Repr

/-- The texts sent to clients, by the data put into them. -/
inductive Message where
  | welcome
  | prompt
  | entered (addr : SockaddrIn)
  | left (name : Text)
  | noUser (id : Int)
  | noPipe (sendid recvid : Int)
  | pipeExists (sendid recvid : Int)
  | justReceived (receiver : Text) (recvid : Int) (sender : Text) (sendid : Int) (line : Text)
  | justPiped (sender : Text) (sendid : Int) (line : Text) (receiver : Text) (recvid : Int)
  | envValue (value : Option Text)
  | whoHeader
  | whoRow (id : Nat) (name : Text) (addr : SockaddrIn) (me : Bool)
  | told (sender text : Text)
  | yelled (sender text : Text)
  | nameExists (name : Text)
  | named (addr : SockaddrIn) (name : Text)
  deriving DecidableEq, Repr

def showInt (n : Int) : String := toString n

def SockaddrIn.text (addr : SockaddrIn) : String :=
  ".".intercalate (addr.address.map toString) ++ ":" ++ toString addr.port

/-- The formats of the source; an indeterminate value has no text of its own. -/
def Message.text : Message → String
  | .welcome =>
    "****************************************\n" ++
      "** Welcome to the information server. **\n" ++
      "****************************************\n"
  | .prompt => "% "
  | .entered addr => "*** User '(no name)' entered from " ++ addr.text ++ ". ***\n"
  | .left name => "*** User '" ++ String.ofList name ++ "' left. ***\n"
  | .noUser id => "*** Error: user #" ++ showInt id ++ " does not exist yet. ***\n"
  | .noPipe sendid recvid =>
    "*** Error: the pipe #" ++ showInt sendid ++ "->#" ++ showInt recvid ++
      " does not exist yet. ***\n"
  | .pipeExists sendid recvid =>
    "*** Error: the pipe #" ++ showInt sendid ++ "->#" ++ showInt recvid ++
      " already exists. ***\n"
  | .justReceived receiver recvid sender sendid line =>
    "*** " ++ String.ofList receiver ++ " (#" ++ showInt recvid ++ ") just received from " ++
      String.ofList sender ++ " (#" ++ showInt sendid ++ ") by '" ++ String.ofList line ++ "' ***\n"
  | .justPiped sender sendid line receiver recvid =>
    "*** " ++ String.ofList sender ++ " (#" ++ showInt sendid ++ ") just piped '" ++
      String.ofList line ++ "' to " ++ String.ofList receiver ++ " (#" ++ showInt recvid ++ ") ***\n"
  | .envValue value => String.ofList (value.getD []) ++ "\n"
  | .whoHeader => "<ID>\t<nickname>\t<IP:port>\t<indicate me>\n"
  | .whoRow id name addr me =>
    toString id ++ "\t" ++ String.ofList name ++ "\t" ++ addr.text ++
      (if me then "\t<-me\n" else "\n")
  | .told sender text => "*** " ++ String.ofList sender ++ " told you ***: " ++ String.ofList text ++ "\n"
  | .yelled sender text => "*** " ++ String.ofList sender ++ " yelled ***: " ++ String.ofList text
  | .nameExists name => "*** User '" ++ String.ofList name ++ "' already exists. ***\n"
  | .named addr name =>
    "*** User from " ++ addr.text ++ " is named '" ++ String.ofList name ++ "'. ***\n"

/-- The arguments of one call of `parser`, the pipe it made, and the value of
PATH it read (none when indeterminate). -/
structure ParserArgs where
  input : Int
  first : Bool
  last : Bool
  wait : Bool
  enter : Bool
  nPipeErr : Bool
  output : Int
  getInput : Nat
  cmd : Text
  sockfd : Int
  path : Option Text
  pipeFd : Int × Int
  deriving DecidableEq, Repr

inductive Effect where
  | send (fd : Int) (message : Message)
  | fork (args : ParserArgs)
  | close (fd : Int)
  deriving DecidableEq, Repr

/-- The slot of a socket: the first index below `size` that holds it. -/
def ClientMap.indexOf (m : ClientMap) (sockfd : Int) : Option Nat :=
  (List.range m.size).find? fun i => m.clientsFdSet i == sockfd

/-- The sockets a loop over `i < size` writes to. -/
def ClientMap.everyone (m : ClientMap) : List Int :=
  ((List.range m.size).map m.clientsFdSet).filter (· != 0)

def Server.setUserPipe (s : Server) (sendid recvid : Nat) (u : UserPipeInfo) : Server :=
  { s with
    userPipe := Function.update s.userPipe sendid
      (Function.update (s.userPipe sendid) recvid u) }

@[simp] theorem Server.setUserPipe_userPipe (s : Server) (sendid recvid a b : Nat)
    (u : UserPipeInfo) :
    (s.setUserPipe sendid recvid u).userPipe a b =
      if a = sendid ∧ b = recvid then u else s.userPipe a b := by
  by_cases ha : a = sendid
  · subst ha
    by_cases hb : b = recvid
    · subst hb
      simp [Server.setUserPipe]
    · simp [Server.setUserPipe, hb]
  · simp [Server.setUserPipe, ha]

@[simp] theorem Server.setUserPipe_clientPipe (s : Server) (sendid recvid : Nat)
    (u : UserPipeInfo) : (s.setUserPipe sendid recvid u).clientPipe = s.clientPipe := rfl

@[simp] theorem Server.setUserPipe_clientsMap (s : Server) (sendid recvid : Nat)
    (u : UserPipeInfo) : (s.setUserPipe sendid recvid u).clientsMap = s.clientsMap := rfl

@[simp] theorem Server.setUserPipe_pos (s : Server) (sendid recvid : Nat)
    (u : UserPipeInfo) : (s.setUserPipe sendid recvid u).pos = s.pos := rfl

@[simp] theorem Server.setUserPipe_allset (s : Server) (sendid recvid : Nat)
    (u : UserPipeInfo) : (s.setUserPipe sendid recvid u).allset = s.allset := rfl

theorem ClientMap.indexOf_eq_some {m : ClientMap} {sockfd : Int} {i : Nat}
    (h : m.indexOf sockfd = some i) :
    i < m.size ∧ m.clientsFdSet i = sockfd ∧ ∀ j < i, m.clientsFdSet j ≠ sockfd := by
  simp only [ClientMap.indexOf, List.find?_range_eq_some, beq_iff_eq, List.mem_range,
    Bool.not_eq_true', beq_eq_false_iff_ne] at h
  exact ⟨h.2.1, h.1, h.2.2⟩

end NetworkProgramming.Single
