import NetworkProgramming.Single.State

/-! User pipes: the checks of `do_exec` for `<n` and `>n`, and the parent branch
of `parser`. -/
namespace NetworkProgramming.Single
open Library.CString CommandLine

/-- A user id that is 1 to 30 and held by a client. -/
def Server.present (s : Server) (id : Int) : Bool :=
  0 < id && id ≤ 30 && s.clientsMap.clientsFdSet (id.toNat - 1) != 0

/-- A client's own id; the program's variable stays indeterminate without one,
and ids above 30 index past `user_pipe`. -/
def Server.ownId (s : Server) (sockfd : Int) : Except Fault Nat :=
  match s.clientsMap.indexOf sockfd with
  | none => .error .uninitialised
  | some i => if i + 1 ≤ 30 then .ok (i + 1) else .error .outOfRange

theorem Server.present_iff {s : Server} {id : Int} :
    s.present id = true ↔ 0 < id ∧ id ≤ 30 ∧ s.clientsMap.clientsFdSet (id.toNat - 1) ≠ 0 := by
  simp [Server.present, and_assoc]

theorem Server.ownId_eq {s : Server} {sockfd : Int} {id : Nat} (h : s.ownId sockfd = .ok id) :
    1 ≤ id ∧ id ≤ 30 ∧ s.clientsMap.clientsFdSet (id - 1) = sockfd := by
  unfold Server.ownId at h
  split at h
  next => contradiction
  next i hi =>
    have hslot := (ClientMap.indexOf_eq_some hi).2.1
    split at h
    next hle =>
      cases h
      refine ⟨by omega, hle, ?_⟩
      rwa [Nat.add_sub_cancel]
    next => contradiction

def Server.announce (s : Server) (message : Message) : List Effect :=
  s.clientsMap.everyone.map fun fd => .send fd message

/-- What the check of one token comes to: an error message for the client, or
the new tables, the announcements and a descriptor. -/
inductive Checked where
  | rejected (message : Message)
  | accepted (s : Server) (effects : List Effect) (input : Int)

/-- The part of `do_exec` for `<n`; `line` is `input_backup`. -/
def receivePipe (s : Server) (line : Text) (sockfd : Int) : Except Fault Checked :=
  if '<' ∈ line then
    match userId '<' line with
    | none => .error .nullPointer
    | some sendid =>
      if s.present sendid then
        match s.ownId sockfd with
        | .error fault => .error fault
        | .ok recvid =>
          let cell := s.userPipe sendid.toNat recvid
          if cell.flag = 0 then .ok (.rejected (.noPipe sendid recvid))
          else .ok (.accepted (s.setUserPipe sendid.toNat recvid { cell with flag := 0 })
            (s.announce (.justReceived (s.clientsMap.nickname (recvid - 1)) recvid
              (s.clientsMap.nickname (sendid.toNat - 1)) sendid line)) cell.pipeFd)
      else .ok (.rejected (.noUser sendid))
  else .ok (.accepted s [] 0)

/-- The part of `do_exec` for `>n`; the flag is set only later, in `parser`. -/
def sendPipe (s : Server) (line : Text) (sockfd input : Int) : Except Fault Checked :=
  if pipesOut line then
    match userId '>' line with
    | none => .error .nullPointer
    | some recvid =>
      if s.present recvid then
        match s.ownId sockfd with
        | .error fault => .error fault
        | .ok sendid =>
          if (s.userPipe sendid recvid.toNat).flag = 1 then
            .ok (.rejected (.pipeExists sendid recvid))
          else .ok (.accepted s
            (s.announce (.justPiped (s.clientsMap.nickname (sendid - 1)) sendid line
              (s.clientsMap.nickname (recvid.toNat - 1)) recvid)) input)
      else .ok (.rejected (.noUser recvid))
  else .ok (.accepted s [] input)

/-- The parent branch of `parser` for `>n`, on one command; the trace it prints
reads the cell whatever the id is. -/
def parserSends (s : Server) (cmd : Text) (sockfd pipeIn : Int) : Except Fault Server :=
  if pipesOut cmd then
    match userId '>' cmd with
    | none => .error .nullPointer
    | some recvid =>
      match s.ownId sockfd with
      | .error fault => .error fault
      | .ok sendid =>
        if s.present recvid ∧ (s.userPipe sendid recvid.toNat).flag = 0 then
          .ok (s.setUserPipe sendid recvid.toNat ⟨pipeIn, 1⟩)
        else if 0 ≤ recvid ∧ recvid ≤ 30 then .ok s
        else .error .outOfRange
  else .ok s

/-- The parent branch of `parser` for `<n`; the descriptors it closes. -/
def parserReceives (s : Server) (cmd : Text) (sockfd : Int) :
    Except Fault (Server × List Effect) :=
  if '<' ∈ cmd then
    match userId '<' cmd with
    | none => .error .nullPointer
    | some sendid =>
      if s.present sendid then
        match s.ownId sockfd with
        | .error fault => .error fault
        | .ok recvid =>
          let cell := s.userPipe sendid.toNat recvid
          if cell.flag = 1 then
            .ok (s.setUserPipe sendid.toNat recvid { cell with flag := 0 }, [.close cell.pipeFd])
          else .ok (s, [])
      else .ok (s, [])
  else .ok (s, [])

end NetworkProgramming.Single
