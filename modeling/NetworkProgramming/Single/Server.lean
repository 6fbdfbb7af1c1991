import NetworkProgramming.Library.Run
import NetworkProgramming.Single.Exec

/-! `main`: logins, the lines of the clients, and logouts, as a step function. -/
namespace NetworkProgramming.Single
open Library.CString Library.Run CommandLine

/-- `handle_new_connection(int, sockaddr_in)`: the greeting and the announcement. -/
def greet (s : Server) (clientfd : Int) (fsin : SockaddrIn) : List Effect :=
  [.send clientfd .welcome, .send clientfd (.entered fsin), .send clientfd .prompt] ++
    (s.clientsMap.everyone.filter (· != clientfd)).map fun fd => .send fd (.entered fsin)

/-- The loop over `i <= size` takes the first free slot. -/
def takeSlot (m : ClientMap) (ssock : Int) (fsin : SockaddrIn) : Except Fault ClientMap :=
  match (List.range (m.size + 1)).find? fun i => m.clientsFdSet i == 0 with
  | none => .ok m
  | some i =>
    if i < maxUserNum then
      .ok { m with
        clientsFdSet := Function.update m.clientsFdSet i ssock
        clientsAddrIn := Function.update m.clientsAddrIn i fsin
        nickname := Function.update m.nickname i "(no name)".toList
        size := if i = m.size then m.size + 1 else m.size }
    else .error .outOfRange

def login (s : Server) (ssock : Int) (fsin : SockaddrIn) : Except Fault (Server × List Effect) :=
  match takeSlot s.clientsMap ssock fsin with
  | .error fault => .error fault
  | .ok m =>
    match loadEnv { s with clientsMap := m, allset := insert ssock s.allset } ssock
        "PATH=bin:.".toList with
    | .error fault => .error fault
    | .ok next => .ok (next, greet s ssock fsin)

/-- `broadcast_logout` for an id inside `user_pipe`. -/
def broadcastLogout (s : Server) (cid : Nat) : Except Fault (Server × List Effect) :=
  if cid ≤ 30 then
    .ok ({ s with
        userPipe := fun a b =>
          if (a = cid ∧ 1 ≤ b ∧ b ≤ 30) ∨ (b = cid ∧ 1 ≤ a ∧ a ≤ 30) then
            { s.userPipe a b with flag := 0 }
          else s.userPipe a b },
      ((List.range s.clientsMap.size).filter fun i =>
          i != cid - 1 && s.clientsMap.clientsFdSet i != 0).map fun i =>
        .send (s.clientsMap.clientsFdSet i) (.left (s.clientsMap.nickname (cid - 1))))
  else .error .outOfRange

/-- What `main` does when `handle_new_connection` returns 1. -/
def logout (s : Server) (fd : Int) : Except Fault (Server × List Effect) :=
  let s := { s with allset := s.allset.erase fd }
  match (List.range (s.clientsMap.size + 1)).find? fun i => s.clientsMap.clientsFdSet i == fd with
  | none => .ok (s, [.close fd])
  | some i =>
    let m := { s.clientsMap with clientsFdSet := Function.update s.clientsMap.clientsFdSet i 0 }
    (broadcastLogout { s with clientsMap := m } (i + 1)).map fun (s, effects) =>
      (s, .close fd :: effects)

/-- `handle_new_connection(int)` on what one `read` returned. -/
def handleNewConnection (s : Server) (sockfd : Int) (chunk : Text) (calls : Nat → ParserCall) :
    Except Fault Outcome :=
  (doExec s (lineOf chunk) sockfd calls).map fun o =>
    if o.ret = 1 then o else { o with effects := o.effects ++ [.send sockfd .prompt] }

inductive Event where
  | login (ssock : Int) (fsin : SockaddrIn)
  | line (fd : Int) (chunk : Text) (calls : Nat → ParserCall)

def step (s : Server) : Event → Except Fault (Server × List Effect)
  | .login ssock fsin => login s ssock fsin
  | .line fd chunk calls =>
    match handleNewConnection s fd chunk calls with
    | .error fault => .error fault
    | .ok o =>
      if o.ret = 1 then (logout o.server fd).map fun (s, more) => (s, o.effects ++ more)
      else .ok (o.server, o.effects)

/-- `accept` returns a nonzero number that is not in use, `select` reports only
sockets in `allset`, and at most `limit` clients are logged in at once. -/
def Admissible (limit : Nat) (s : Server) : Event → Prop
  | .login ssock _ => ssock ≠ 0 ∧ ssock ∉ s.allset ∧ s.allset.card < limit
  | .line fd _ _ => fd ∈ s.allset

instance (limit : Nat) (s : Server) (e : Event) : Decidable (Admissible limit s e) := by
  cases e <;> unfold Admissible <;> infer_instance

/-- The next state, unless the event cannot happen or the program faults. -/
def next (limit : Nat) (s : Server) (e : Event) : Option Server :=
  if Admissible limit s e then (step s e).toOption.map Prod.fst else none

theorem next_eq_some {limit : Nat} {s s' : Server} {e : Event} (h : next limit s e = some s') :
    Admissible limit s e ∧ ∃ effects, step s e = .ok (s', effects) := by
  unfold next at h
  split at h
  next hadm =>
    cases hstep : step s e with
    | error fault => simp [hstep, Except.toOption] at h
    | ok result =>
      obtain ⟨server, effects⟩ := result
      simp only [hstep, Except.toOption, Option.map_some, Option.some.injEq] at h
      subst h
      exact ⟨hadm, effects, rfl⟩
  next => contradiction

end NetworkProgramming.Single
