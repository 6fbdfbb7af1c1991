import NetworkProgramming.Library.CString
import Mathlib.Data.List.Basic

/-! What the servers of project 2 share, word for word: the splitting of a command
line, its tokens, and the pair of descriptors `parser` hands back. -/
namespace NetworkProgramming.CommandLine
open Library.CString

/-- `buffer` after `read`, with its last character overwritten. -/
def lineOf (chunk : Text) : Text := (chunk.takeWhile (· != '\x00')).dropLast

/-- The entries of `filename` before its NULL. -/
def splitPipe (str : Text) : List Text := strtok '|' str

def splitSpace (str : Text) : List Text := strtok ' ' str

def splitEnv (str : Text) : List Text := strtok ':' str

/-- What the argument of `strtok` still reads as after the calls: up to the end
of its first piece. -/
def strtokHead (delim : Char) (str : Text) : Text :=
  str.takeWhile (· == delim) ++ (str.dropWhile (· == delim)).takeWhile (· != delim)

/-- `split_error_pipe(filename[n - 1], n)` and the test of its result: exactly
two pieces at `!` make the second one a further entry. -/
def splitErrorPipe (filename : List Text) : List Text × Bool :=
  match filename.getLast? with
  | none => ([], false)
  | some last =>
    match strtok '!' last with
    | [_, second] => (filename.dropLast ++ [strtokHead '!' last, second], true)
    | _ => (filename.dropLast ++ [strtokHead '!' last], false)

/-- A line as `do_exec` reads it: its commands, the number behind its last `|`
or `!`, and `pipe_err_n`. -/
structure Reading where
  commands : List Text
  pipeNumber : Option Int
  pipeErrN : Bool
  deriving DecidableEq, Repr

/-- A last entry that does not begin with a space is read as a number. -/
def readNumber (filename : List Text) (pipeErrN : Bool) : Reading :=
  match filename.getLast? with
  | none => ⟨[], none, pipeErrN⟩
  | some last =>
    if filename.length ≠ 1 ∧ last.head? ≠ some ' ' then
      ⟨filename.dropLast, some (int32 (strtol last)), pipeErrN⟩
    else ⟨filename, none, pipeErrN⟩

/-- The number a line ends in, directly behind a `|` or `!`, and at least 1. -/
def endNumber (str : Text) : Option Nat :=
  let body := str.reverse.dropWhile isspace
  let number := Nat.ofDigitChars 10 (body.takeWhile Char.isDigit).reverse 0
  match body.dropWhile Char.isDigit with
  | c :: _ => if (c = '|' ∨ c = '!') ∧ 0 < number then some number else none
  | [] => none

/-- `filename[0] == NULL || filename[0][0] == ' '` -/
def blank (filename : List Text) : Bool :=
  match filename with
  | [] => true
  | first :: _ => first.head? = some ' '

/-- The id behind the first `delim` of a text: the second piece at `delim`, its
first word, read by `atoi`. Without such a word the program reads NULL. -/
def userId (delim : Char) (str : Text) : Option Int := do
  let piece ← (strtok delim str)[1]?
  let word ← (strtok ' ' piece)[0]?
  some (atoi word)

/-- `s[1] != ' '` behind the first `>`: the token is `>n`, not a redirection. -/
def pipesOut (text : Text) : Bool :=
  match strchr text '>' with
  | some (_ :: rest) => rest.head? != some ' '
  | _ => false

/-- What `pipe` returned in one call of `parser`, and the earlier content of
the block that `malloc` returned there. -/
structure ParserCall where
  pipeFd : Int × Int
  block : BitVec 64

/-- `memcpy(pipedata, pipe_fd, 2)` moves two bytes; the two ints are read back
from the eight bytes of the block. -/
def ParserCall.getData (call : ParserCall) : Int × Int :=
  let block := call.block.extractLsb' 16 48 ++ (BitVec.ofInt 32 call.pipeFd.1).extractLsb' 0 16
  ((block.extractLsb' 0 32).toInt, (block.extractLsb' 32 32).toInt)

theorem endNumber_pos {str : Text} {n : Nat} (h : endNumber str = some n) : 0 < n := by
  unfold endNumber at h
  dsimp only at h
  split at h
  next =>
    split at h
    next hpos =>
      simp only [Option.some.injEq] at h
      rw [← h]
      exact hpos.2
    next => contradiction
  next => contradiction

end NetworkProgramming.CommandLine
