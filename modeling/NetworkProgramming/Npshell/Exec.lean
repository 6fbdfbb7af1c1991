import NetworkProgramming.Library.Descriptors
import NetworkProgramming.Npshell.Scan

/-! `npshell`: the pipes of the shell, and one call of `executeCMD`. -/
namespace NetworkProgramming.Npshell
open Library.CString Library.Descriptors

/-- The two numbers that `pipe` stored, and which pipe of the process it was. -/
structure Pipe where
  id : Nat
  fds : Int × Int
  deriving DecidableEq, Repr

/-- The global variables, the descriptors of the process, and how many pipes it
has made. -/
structure Shell where
  pipeStack : List (Option Pipe)
  recycle : List Pipe
  instruction : Text
  buf : Text
  files : Table
  made : Nat

def Shell.initial : Shell where
  pipeStack := []
  recycle := []
  instruction := []
  buf := []
  files fd := if fd = 0 ∨ fd = 1 ∨ fd = 2 then some .terminal else none
  made := 0

/-- What the system calls of one `executeCMD` come to: whether `pipe` fails at
first, the numbers it gives, and whether `fork` and `open` succeed. -/
structure Calls where
  pipeFails : Bool
  pipeFd : Int × Int
  forks : Bool
  opens : Bool

/-- A child as it calls `execvp`. -/
structure Child where
  argv : List Text
  stdin : Option File
  stdout : Option File
  stderr : Option File
  deriving DecidableEq, Repr

/-- What became of one text: a child that returns instead of calling `execvp`
goes on as a second shell. -/
inductive Outcome where
  | nothing
  | error
  | setenv (var value : Text)
  | printenv (arg : Text)
  | exit
  | ran (child : Child)
  | unforked
  | returned
  deriving DecidableEq, Repr

/-- The loop of `cleanPipes`: all but the last ten are closed and dropped. -/
def closeOldest (files : Table) : List Pipe → Table × List Pipe
  | [] => (files, [])
  | pipe :: rest =>
    if (pipe :: rest).length > 10 then
      closeOldest (close (close files pipe.fds.1) pipe.fds.2) rest
    else (files, pipe :: rest)

def cleanPipes (s : Shell) : Shell :=
  { s with files := (closeOldest s.files s.recycle).1, recycle := (closeOldest s.files s.recycle).2 }

/-- `makeNewPipe`. Numbers that `pipe` cannot have given have no result. -/
def makeNewPipe (s : Shell) (calls : Calls) : Option (Shell × Pipe) :=
  let s := if calls.pipeFails then cleanPipes s else s
  if Unused s.files calls.pipeFd then
    some ({ s with files := openPipe s.files calls.pipeFd s.made, made := s.made + 1 },
      ⟨s.made, calls.pipeFd⟩)
  else none

/-- `getPipe`: the front of the stack, its write end closed. -/
def getPipe (s : Shell) : Shell × Option Pipe :=
  match s.pipeStack with
  | [] => (s, none)
  | none :: rest => ({ s with pipeStack := rest }, none)
  | some pipe :: rest =>
    ({ s with
        pipeStack := rest
        files := close s.files pipe.fds.2
        recycle := s.recycle ++ [pipe] }, some pipe)

def toSize (n : Int) : Nat := (n % 2 ^ 64).toNat

/-- The most pointers that a vector holds. -/
def maxSize : Nat := 2 ^ 60 - 1

/-- The loop that pads `pipeStack` up to `numPipe`; it runs out of memory when
that is no size of a vector. -/
def padStack (stack : List (Option Pipe)) (numPipe : Int) : Option (List (Option Pipe)) :=
  if toSize numPipe ≤ maxSize then
    some (stack ++ List.replicate (toSize numPipe - stack.length) none)
  else none

/-- `pipeStack[numPipe - 1]` after the padding, made if it is null. -/
def numberedPipe (s : Shell) (numPipe : Int) (calls : Calls) : Option (Shell × Pipe) := do
  let stack ← padStack s.pipeStack numPipe
  let s := { s with pipeStack := stack }
  match ← stack[toSize (numPipe - 1)]? with
  | some pipe => some (s, pipe)
  | none =>
    let (s, pipe) ← makeNewPipe s calls
    some ({ s with pipeStack := s.pipeStack.set (toSize (numPipe - 1)) (some pipe) }, pipe)

def ordinaryPipe (s : Shell) (calls : Calls) : Option (Shell × Pipe) :=
  match s.pipeStack with
  | some pipe :: _ => some (s, pipe)
  | stack => (makeNewPipe s calls).map fun (s, pipe) => ({ s with pipeStack := some pipe :: stack }, pipe)

def inputFiles (files : Table) (prevPipe : Option Pipe) : Table :=
  match prevPipe with
  | none => files
  | some pipe => dup2 files pipe.fds.1 0

def outputFiles (files : Table) (pipe : Pipe) (errors : Bool) : Table :=
  let files := dup2 files pipe.fds.2 1
  if errors then dup2 files pipe.fds.2 2 else files

/-- `callExecs`: the words of `arg` behind `OP`. -/
def callExecs (op arg : Text) (files : Table) : Child :=
  ⟨op :: strtok ' ' arg, files 0, files 1, files 2⟩

/-- One call of `executeCMD`. -/
def executeCMD (s : Shell) (cmdStr : Text) (calls : Calls) : Option (Shell × Outcome) :=
  let reading := readCommand cmdStr
  let s := { s with
    instruction := reading.instruction.getD s.instruction
    buf := reading.buf.getD s.buf }
  let (op, arg) := scanOperation s.instruction
  if reading.n = -1 then some (s, .nothing)
  else if reading.n = 1 then
    if op = "setenv".toList then
      let (var, value) := scanSetting arg
      some (s, .setenv var value)
    else if op = "printenv".toList then some (s, .printenv arg)
    else if op = "exit".toList then some (s, .exit)
    else
      let (s, prevPipe) := getPipe s
      some (s, .ran (callExecs op arg (inputFiles s.files prevPipe)))
  else if reading.n = 3 then
    let (s, prevPipe) := getPipe s
    if reading.numPipe ≠ 0 then
      (numberedPipe s reading.numPipe calls).map fun (s, pipe) =>
        if calls.forks then
          (s, .ran (callExecs op arg
            (outputFiles (inputFiles s.files prevPipe) pipe (reading.symbolMeth.head? = some '!'))))
        else (s, .unforked)
    else if reading.symbolMeth.head? = some '|' then
      (ordinaryPipe s calls).map fun (s, pipe) =>
        (s, .ran (callExecs op arg (outputFiles (inputFiles s.files prevPipe) pipe false)))
    else if reading.symbolMeth.head? = some '>' then
      if calls.opens then
        let files := Function.update (inputFiles s.files prevPipe) 1 (some (.created s.buf))
        some ({ s with buf := [] }, .ran (callExecs op arg files))
      else some ({ s with buf := [] }, .returned)
    else some (s, .error)
  else some (s, .error)

end NetworkProgramming.Npshell
