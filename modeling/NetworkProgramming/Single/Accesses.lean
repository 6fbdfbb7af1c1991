import NetworkProgramming.Single.Server

/-! The indices that each function of the server uses into the tables of clients and
into `user_pipe`, in the order of the source. -/
namespace NetworkProgramming.Single
open Library.CString CommandLine

/-- One use of an index, or of a pair of ids; `indeterminate` is one of a variable that
a search has left without a value. -/
inductive Access where
  | clientsFdSet (i : Int)
  | nickname (i : Int)
  | env (i : Int)
  | userPipe (sendid recvid : Int)
  | indeterminate
  deriving DecidableEq, Repr

def Access.InRange : Access → Prop
  | .clientsFdSet i => 0 ≤ i ∧ i < maxUserNum
  | .nickname i => 0 ≤ i ∧ i < maxUserNum
  | .env i => 0 ≤ i ∧ i < maxUserNum
  | .userPipe sendid recvid => (0 ≤ sendid ∧ sendid ≤ 30) ∧ 0 ≤ recvid ∧ recvid ≤ 30
  | .indeterminate => False

def loopAccesses (bound : Nat) : List Access :=
  (List.range bound).map fun i : Nat => .clientsFdSet i

/-- A loop over them that ends at the first one that holds `sockfd`. -/
def searchAccesses (m : ClientMap) (bound : Nat) (sockfd : Int) : List Access :=
  loopAccesses (((List.range bound).find? fun i => m.clientsFdSet i == sockfd).elim bound (· + 1))

def ownAccesses (m : ClientMap) (sockfd : Int) (uses : Nat → List Access) : List Access :=
  (m.indexOf sockfd).elim [.indeterminate] uses

def announceAccesses (m : ClientMap) (names : List Int) : List Access :=
  (List.range m.size).flatMap fun i : Nat =>
    .clientsFdSet i :: if m.clientsFdSet i = 0 then [] else names.map .nickname

def loadEnvAccesses (m : ClientMap) (sockfd : Int) (envStr : Text) : List Access :=
  let clientid : Int := (m.indexOf sockfd).elim 0 fun i => i + 1
  let label := (m.indexOf sockfd).bind fun i => (m.env i).label ((strtok '=' envStr).headD [])
  searchAccesses m m.size sockfd ++
    .env (clientid - 1) :: if label.isSome then [] else [.env clientid]

def doPrintenvAccesses (m : ClientMap) (sockfd : Int) : List Access :=
  searchAccesses m m.size sockfd ++ ownAccesses m sockfd fun i => [.env i]

def whoAccesses (m : ClientMap) : List Access :=
  (List.range (m.size + 1)).flatMap fun i : Nat =>
    .clientsFdSet i :: if m.clientsFdSet i = 0 then [] else [.nickname i]

def tellAccesses (m : ClientMap) (fd : Int) (operand : List Text) : List Access :=
  match operand[1]? with
  | none => []
  | some word =>
    let receid := atoi word - 1
    .clientsFdSet receid ::
      if m.clientsFdSet receid.toNat = 0 then []
      else searchAccesses m m.size fd ++
        if operand.length ≤ 2 then [] else ownAccesses m fd fun i => [.nickname i]

def yellAccesses (m : ClientMap) (fd : Int) (operand : List Text) : List Access :=
  if operand.length ≤ 1 then []
  else searchAccesses m m.size fd ++ ownAccesses m fd fun i => announceAccesses m [i]

def nameAccesses (m : ClientMap) (fd : Int) (operand : List Text) : List Access :=
  match operand[1]? with
  | none => []
  | some name =>
    let other i := m.clientsFdSet i != fd && m.clientsFdSet i != 0
    let taken := (List.range m.size).find? fun i => other i && m.nickname i == name
    ((List.range (taken.elim m.size (· + 1))).flatMap fun i : Nat =>
      .clientsFdSet i :: if other i then [.nickname i] else []) ++
      if taken.isSome then [] else ownAccesses m fd fun i => .nickname i :: announceAccesses m []

/-- No test of `cid` stands before the loop over `user_pipe`. -/
def broadcastLogoutAccesses (m : ClientMap) (cid : Nat) : List Access :=
  ((List.range 30).flatMap fun i =>
    [.userPipe cid (i + 1 : Nat), .userPipe (i + 1 : Nat) cid]) ++
    (List.range m.size).flatMap fun i : Nat =>
      if i = cid - 1 then []
      else .clientsFdSet i :: if m.clientsFdSet i = 0 then [] else [.nickname (cid - 1 : Nat)]

def logoutAccesses (m : ClientMap) (fd : Int) : List Access :=
  searchAccesses m (m.size + 1) fd ++
    ((List.range (m.size + 1)).find? fun i => m.clientsFdSet i == fd).elim [] fun i =>
      .clientsFdSet i ::
        broadcastLogoutAccesses { m with clientsFdSet := Function.update m.clientsFdSet i 0 } (i + 1)

def presentAccesses (id : Int) : List Access :=
  if 0 < id ∧ id ≤ 30 then [.clientsFdSet (id - 1)] else []

def receiveAccesses (s : Server) (line : Text) (sockfd : Int) : List Access :=
  if '<' ∈ line then
    match userId '<' line with
    | none => []
    | some sendid =>
      searchAccesses s.clientsMap s.clientsMap.size sockfd ++ presentAccesses sendid ++
        if s.present sendid then
          ownAccesses s.clientsMap sockfd fun i =>
            .userPipe sendid (i + 1 : Nat) ::
              if (s.userPipe sendid.toNat (i + 1)).flag = 0 then []
              else announceAccesses s.clientsMap [i, sendid - 1]
        else []
  else []

def sendAccesses (s : Server) (line : Text) (sockfd : Int) : List Access :=
  if pipesOut line then
    match userId '>' line with
    | none => []
    | some recvid =>
      searchAccesses s.clientsMap s.clientsMap.size sockfd ++ presentAccesses recvid ++
        if s.present recvid then
          ownAccesses s.clientsMap sockfd fun i =>
            .userPipe (i + 1 : Nat) recvid ::
              if (s.userPipe (i + 1) recvid.toNat).flag = 1 then []
              else announceAccesses s.clientsMap [i, recvid - 1]
        else []
  else []

def checkAccesses (s : Server) (line : Text) (sockfd : Int) : List Access :=
  receiveAccesses s line sockfd ++
    match receivePipe s line sockfd with
    | .ok (.accepted s _ _) => sendAccesses s line sockfd
    | _ => []

/-- The parent's part of `parser` for `>n`; the child makes no other uses. The cell is
printed behind the tests, whatever they say. -/
def parserSendsAccesses (m : ClientMap) (cmd : Text) (sockfd : Int) : List Access :=
  if pipesOut cmd then
    match userId '>' cmd with
    | none => []
    | some recvid =>
      searchAccesses m m.size sockfd ++ presentAccesses recvid ++
        ownAccesses m sockfd fun i => [.userPipe (i + 1 : Nat) recvid]
  else []

def parserReceivesAccesses (s : Server) (cmd : Text) (sockfd : Int) : List Access :=
  if '<' ∈ cmd then
    match userId '<' cmd with
    | none => []
    | some sendid =>
      searchAccesses s.clientsMap s.clientsMap.size sockfd ++ presentAccesses sendid ++
        if s.present sendid then
          ownAccesses s.clientsMap sockfd fun i => [.userPipe sendid (i + 1 : Nat)]
        else []
  else []

def parserAccesses (s : Server) (cmd : Text) (sockfd : Int) : List Access :=
  doPrintenvAccesses s.clientsMap sockfd ++ parserSendsAccesses s.clientsMap cmd sockfd ++
    if pipesOut cmd = true ∧ userId '>' cmd = none then []
    else parserReceivesAccesses s cmd sockfd

/-- The rounds from command `i` on, up to one that does not return. -/
def roundsAccesses (line : Line) (calls : Nat → ParserCall) : Nat → List Text → Round → List Access
  | _, [], _ => []
  | i, cmd :: cmds, r =>
    parserAccesses r.server cmd line.sockfd ++
      match runCommand line (i = 0) cmds.isEmpty cmd (calls i) r with
      | .error _ => []
      | .ok r => roundsAccesses line calls (i + 1) cmds r

def builtinAccesses (m : ClientMap) (sockfd : Int) (cmd : Text) : Builtin → List Access
  | .printenv => if (splitSpace cmd).length ≤ 1 then [] else doPrintenvAccesses m sockfd
  | .setenv =>
    match splitSpace cmd with
    | _ :: key :: val :: _ => loadEnvAccesses m sockfd (key ++ '=' :: val)
    | _ => []
  | .exit => []
  | .who => whoAccesses m
  | .tell => tellAccesses m sockfd (splitSpace cmd)
  | .yell => yellAccesses m sockfd (splitSpace cmd)
  | .name => nameAccesses m sockfd (splitSpace cmd)

def doExecAccesses (s : Server) (cmd : Text) (sockfd : Int) (calls : Nat → ParserCall) :
    List Access :=
  match readLine cmd with
  | none => []
  | some reading =>
    let (s, getInput, outputFd) := claimEntry s sockfd reading.pipeNumber
    checkAccesses s cmd sockfd ++
      match checkUserPipes s cmd sockfd with
      | .ok (s, _, .ok input) =>
        match builtin reading.commands with
        | some b => builtinAccesses s.clientsMap sockfd (reading.commands.headD []) b
        | none =>
          roundsAccesses ⟨sockfd, reading.pipeNumber.isNone, reading.pipeErrN, outputFd⟩ calls 0
            reading.commands ⟨s, input, getInput, []⟩
      | _ => []

/-- The slot is looked for behind the greeting, and nothing is done without one. -/
def loginAccesses (s : Server) (ssock : Int) (fsin : SockaddrIn) : List Access :=
  let m := s.clientsMap
  loopAccesses m.size ++ searchAccesses m (m.size + 1) 0 ++
    ((List.range (m.size + 1)).find? fun i => m.clientsFdSet i == 0).elim []
      (fun i => [.clientsFdSet i, .nickname i]) ++
    match takeSlot m ssock fsin with
    | .error _ => []
    | .ok m => loadEnvAccesses m ssock "PATH=bin:.".toList

def stepAccesses (s : Server) : Event → List Access
  | .login ssock fsin => loginAccesses s ssock fsin
  | .line fd chunk calls =>
    doExecAccesses s (lineOf chunk) fd calls ++
      match doExec s (lineOf chunk) fd calls with
      | .error _ => []
      | .ok o => if o.ret = 1 then logoutAccesses o.server.clientsMap fd else []

end NetworkProgramming.Single
