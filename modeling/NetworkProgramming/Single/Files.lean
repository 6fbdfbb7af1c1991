import NetworkProgramming.Library.Descriptors
import NetworkProgramming.Single.PipeHolders

/-! The descriptors of `np_single_proc`: what the effects of a step do to those
of the server, and which files a child of `parser` has. -/
namespace NetworkProgramming.Single
open Library.CString Library.Descriptors Library.Run CommandLine

/-- The server with the descriptors of its process, and how many pipes it made. -/
structure World where
  server : Server
  files : Table
  made : Nat

/-- Descriptors 0 to 2 and `msock` are open. -/
def World.initial : World where
  server := Server.initial
  files fd :=
    if fd = 3 then some .socket
    else if fd = 0 ∨ fd = 1 ∨ fd = 2 then some .terminal
    else none
  made := 0

/-- One effect on the descriptors. The pipe of a child is made just before the
`fork`; a pair that `pipe` cannot have returned has no result. -/
def perform (p : Table × Nat) : Effect → Option (Table × Nat)
  | .send _ _ => some p
  | .close fd => some (close p.1 fd, p.2)
  | .fork args =>
    if Unused p.1 args.pipeFd then some (openPipe p.1 args.pipeFd p.2, p.2 + 1) else none

/-- `accept` has given the socket of a login. -/
def World.accepted (w : World) : Event → Option Table
  | .login ssock _ =>
    if w.files ssock = none then some (Function.update w.files ssock (some .socket)) else none
  | .line .. => some w.files

/-- The step of `main` with the descriptors. -/
def advance (limit : Nat) (w : World) (e : Event) : Option World :=
  if Admissible limit w.server e then
    match step w.server e with
    | .error _ => none
    | .ok (server, effects) =>
      (w.accepted e).bind fun files =>
        (exec perform (files, w.made) effects).map fun p => ⟨server, p.1, p.2⟩
  else none

/-- The child branch of `parser`: the first choice of redirections. -/
def stageFiles (t : Table) (args : ParserArgs) : Table :=
  let t := dup2 t args.sockfd 1
  if args.first ∧ ¬ args.last ∧ args.input = 0 then
    dup2 (dup2 t args.pipeFd.2 1) args.sockfd 2
  else if ¬ args.first ∧ ¬ args.last ∧ args.input ≠ 0 then
    dup2 (dup2 (dup2 t args.input 0) args.pipeFd.2 1) args.sockfd 2
  else if args.first ∧ args.last ∧ args.getInput = 4 ∧ args.input = 0 then
    dup2 (dup2 t args.pipeFd.2 1) args.sockfd 2
  else if args.first ∧ args.last ∧ args.getInput = 4 ∧ args.input ≠ 0 then
    dup2 (dup2 (dup2 t args.input 0) args.pipeFd.2 1) args.sockfd 2
  else if args.first ∧ ¬ args.last ∧ args.input ≠ 0 then
    dup2 (dup2 (dup2 t args.input 0) args.pipeFd.2 1) args.sockfd 2
  else dup2 (dup2 (dup2 t args.input 0) args.output 1) args.output 2

def errorFiles (t : Table) (args : ParserArgs) : Table :=
  if args.nPipeErr ∧ args.getInput ≠ 3 then dup2 t args.pipeFd.2 2
  else if args.nPipeErr ∧ args.getInput = 3 then dup2 t args.output 2
  else t

def enterFiles (t : Table) (args : ParserArgs) : Table :=
  if args.enter then dup2 t args.input 0 else t

def lastFiles (t : Table) (args : ParserArgs) : Table :=
  if args.last ∧ args.getInput = 4 then dup2 t args.pipeFd.2 1
  else if args.last ∧ args.getInput = 3 then dup2 t args.output 1
  else t

/-- The child's `>`: a file, or the pipe for another user. A child whose id is
refused returns from `parser` and runs no program. -/
def redirect (s : Server) (t : Table) (args : ParserArgs) : Option Table :=
  if pipesOut args.cmd then do
    let recvid ← userId '>' args.cmd
    let sendid ← (s.ownId args.sockfd).toOption
    if s.present recvid ∧ (s.userPipe sendid recvid.toNat).flag ≠ 1 then
      some (dup2 t args.pipeFd.2 1)
    else none
  else if '>' ∈ args.cmd then
    some (Function.update t 1 (some (.created ((splitSpace args.cmd).getLastD []))))
  else some t

/-- The files with which a child runs its program; `s` and `t` are its copies of
the tables and of the descriptors at the `fork`. -/
def childFiles (s : Server) (t : Table) (args : ParserArgs) : Option Table :=
  redirect s (lastFiles (enterFiles (errorFiles (stageFiles t args) args) args) args) args

def childServers (line : Line) (calls : Nat → ParserCall) : Nat → List Text → Round → List Server
  | _, [], _ => []
  | i, cmd :: cmds, r =>
    match runCommand line (i = 0) cmds.isEmpty cmd (calls i) r with
    | .error _ => []
    | .ok r' => (takeDue r.server line.sockfd (i = 0)).1 :: childServers line calls (i + 1) cmds r'

def lineServers (s : Server) (cmd : Text) (sockfd : Int) (calls : Nat → ParserCall) : List Server :=
  match readLine cmd with
  | none => []
  | some reading =>
    let (s, getInput, outputFd) := claimEntry s sockfd reading.pipeNumber
    match checkUserPipes s cmd sockfd with
    | .ok (s, _, .ok input) =>
      match builtin reading.commands with
      | some _ => []
      | none =>
        childServers ⟨sockfd, reading.pipeNumber.isNone, reading.pipeErrN, outputFd⟩ calls 0
          reading.commands ⟨s, input, getInput, []⟩
    | _ => []

variable {w w' : World} {limit : Nat} {e : Event} {p p' : Table × Nat} {effects : List Effect}
  {file : File} {fd : Int}

theorem advance_eq_some (h : advance limit w e = some w') :
    next limit w.server e = some w'.server ∧ ∃ effects files,
      step w.server e = .ok (w'.server, effects) ∧ w.accepted e = some files ∧
        exec perform (files, w.made) effects = some (w'.files, w'.made) := by
  unfold advance at h
  split at h
  next hadm =>
    split at h
    next => contradiction
    next server effects hstep =>
      obtain ⟨files, hfiles, h⟩ := Option.bind_eq_some_iff.mp h
      obtain ⟨p, hp, rfl⟩ := Option.map_eq_some_iff.mp h
      refine ⟨?_, effects, files, hstep, hfiles, hp⟩
      rw [next, if_pos hadm, hstep]
      rfl
  next => contradiction

theorem exec_server (es : List Event) (w : World)
    (hrun : exec (advance limit) World.initial es = some w) :
    exec (next limit) Server.initial es = some w.server := by
  apply invariant_always
    (I := fun es w => exec (next limit) Server.initial es = some w.server) _ _ es w hrun
  · rfl
  · intro es w e w' _ hserver hstep
    rw [exec_concat, hserver]
    exact (advance_eq_some hstep).1

theorem exec_perform_keeps (hclose : Effect.close fd ∉ effects)
    (h : exec perform p effects = some p') (hfile : p.1 fd = some file) :
    p'.1 fd = some file := by
  induction effects generalizing p with
  | nil =>
    cases h
    exact hfile
  | cons effect effects ih =>
    rw [exec] at h
    obtain ⟨q, hq, h⟩ := Option.bind_eq_some_iff.mp h
    apply ih (fun hmem => hclose (List.mem_cons_of_mem _ hmem)) h
    cases effect with
    | send fd message =>
      cases hq
      exact hfile
    | close number =>
      cases hq
      apply (close_of_ne _).trans hfile
      rintro rfl
      exact hclose List.mem_cons_self
    | fork args =>
      rw [perform] at hq
      split at hq
      next hunused =>
        cases hq
        exact openPipe_old hunused hfile
      next => contradiction

theorem exec_perform_fork {args : ParserArgs} {front back : List Effect}
    (h : exec perform p (front ++ .fork args :: back) = some p') :
    ∃ q, exec perform p front = some q ∧ Unused q.1 args.pipeFd ∧
      exec perform (openPipe q.1 args.pipeFd q.2, q.2 + 1) back = some p' := by
  rw [exec_append] at h
  obtain ⟨q, hq, h⟩ := Option.bind_eq_some_iff.mp h
  rw [exec, perform] at h
  split at h
  next hunused => exact ⟨q, hq, hunused, h⟩
  next => contradiction

section Children

variable {t t' : Table} {args : ParserArgs} {s : Server} {n : Int}

theorem stageFiles_of_lt (hn : 2 < n) : stageFiles t args n = t n := by
  have hzero : n ≠ 0 := by omega
  have hone : n ≠ 1 := by omega
  have htwo : n ≠ 2 := by omega
  unfold stageFiles
  repeat' split
  all_goals simp only [dup2_of_ne hzero, dup2_of_ne hone, dup2_of_ne htwo]

theorem lastFiles_of_lt (hn : 2 < n) :
    lastFiles (enterFiles (errorFiles (stageFiles t args) args) args) args n = t n := by
  have hzero : n ≠ 0 := by omega
  have hone : n ≠ 1 := by omega
  have htwo : n ≠ 2 := by omega
  have herror : errorFiles (stageFiles t args) args n = t n := by
    unfold errorFiles
    split
    · rw [dup2_of_ne htwo, stageFiles_of_lt hn]
    · split
      · rw [dup2_of_ne htwo, stageFiles_of_lt hn]
      · exact stageFiles_of_lt hn
  have henter : enterFiles (errorFiles (stageFiles t args) args) args n = t n := by
    unfold enterFiles
    split
    · rw [dup2_of_ne hzero, herror]
    · exact herror
  unfold lastFiles
  split
  · rw [dup2_of_ne hone, henter]
  · split
    · rw [dup2_of_ne hone, henter]
    · exact henter

theorem childFiles_stdout {recvid : Int} {c pipe : Nat} (hout : pipesOut args.cmd = true)
    (hid : userId '>' args.cmd = some recvid) (hown : s.ownId args.sockfd = .ok c)
    (hpresent : s.present recvid = true) (hflag : (s.userPipe c recvid.toNat).flag ≠ 1)
    (hopen : t args.pipeFd.2 = some (.writeEnd pipe)) (hlt : 2 < args.pipeFd.2) :
    ∃ t', childFiles s t args = some t' ∧ t' 1 = some (.writeEnd pipe) := by
  refine ⟨dup2 (lastFiles (enterFiles (errorFiles (stageFiles t args) args) args) args)
    args.pipeFd.2 1, ?_, ?_⟩
  · rw [childFiles, redirect, if_pos hout, hid, hown]
    exact if_pos ⟨hpresent, hflag⟩
  · apply dup2_target
    rw [lastFiles_of_lt hlt, hopen]

theorem stageFiles_stdin (hopen : t args.input = some file) (hinput : args.input ≠ 1) :
    stageFiles t args 0 = some file := by
  have hzeroOne : (0 : Int) ≠ 1 := by decide
  have hzeroTwo : (0 : Int) ≠ 2 := by decide
  have hkept : dup2 t args.sockfd 1 args.input = some file := by
    rw [dup2_of_ne hinput, hopen]
  have hnone : args.input = 0 →
      dup2 (dup2 (dup2 t args.sockfd 1) args.pipeFd.2 1) args.sockfd 2 0 = some file := by
    intro hzero
    rw [dup2_of_ne hzeroTwo, dup2_of_ne hzeroOne, ← hzero, hkept]
  have hsome : ∀ x y : Int,
      dup2 (dup2 (dup2 (dup2 t args.sockfd 1) args.input 0) x 1) y 2 0 = some file := by
    intro x y
    rw [dup2_of_ne hzeroTwo, dup2_of_ne hzeroOne, dup2_target hkept]
  unfold stageFiles
  split
  next h => exact hnone h.2.2
  next =>
    split
    next => exact hsome _ _
    next =>
      split
      next h => exact hnone h.2.2.2
      next =>
        split
        next => exact hsome _ _
        next =>
          split
          next => exact hsome _ _
          next => exact hsome _ _

/-- A child that no numbered pipe is due for reads its `input`. -/
theorem childFiles_stdin (hopen : t args.input = some file) (hinput : args.input ≠ 1)
    (henter : args.enter = false) (h : childFiles s t args = some t') : t' 0 = some file := by
  have hzeroOne : (0 : Int) ≠ 1 := by decide
  have hzeroTwo : (0 : Int) ≠ 2 := by decide
  have herror : errorFiles (stageFiles t args) args 0 = some file := by
    unfold errorFiles
    split
    · rw [dup2_of_ne hzeroTwo, stageFiles_stdin hopen hinput]
    · split
      · rw [dup2_of_ne hzeroTwo, stageFiles_stdin hopen hinput]
      · exact stageFiles_stdin hopen hinput
  have hlast : lastFiles (enterFiles (errorFiles (stageFiles t args) args) args) args 0 =
      some file := by
    rw [enterFiles, henter]
    unfold lastFiles
    split
    · rw [dup2_of_ne hzeroOne]
      exact herror
    · split
      · rw [dup2_of_ne hzeroOne]
        exact herror
      · exact herror
  rw [childFiles, redirect] at h
  split at h
  · obtain ⟨recvid, -, h⟩ := Option.bind_eq_some_iff.mp h
    obtain ⟨sendid, -, h⟩ := Option.bind_eq_some_iff.mp h
    split at h
    · cases h
      rw [dup2_of_ne hzeroOne, hlast]
    · contradiction
  · split at h
    · cases h
      rw [Function.update_of_ne hzeroOne, hlast]
    · cases h
      exact hlast

end Children

end NetworkProgramming.Single
