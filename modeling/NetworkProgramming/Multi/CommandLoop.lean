import NetworkProgramming.Multi.Process
import Mathlib.Data.Vector.Basic

/-! `handle_new_connection` of `np_multi_proc`: what becomes of a line between `getline`
and `do_exec`. -/
namespace NetworkProgramming.Multi
open Library.CString CommandLine

def bufferSize : Nat := 20000

abbrev Buffer := Vector Char bufferSize

def cString (buffer : Buffer) : Text := buffer.toList.takeWhile (· != '\x00')

/-- `buffer[i] = '\0'`, for a `size_t`; another place in memory when the array has no
such element. -/
def clearAt (buffer : Buffer) (i : Nat) : Buffer :=
  if h : i < bufferSize then buffer.set i '\x00' else buffer

def sizeSub (a b : Nat) : Nat := (a + 2 ^ 64 - b) % 2 ^ 64

/-- One round of the loop: the text that `do_exec` runs, `input_backup`, and the indices
of `buffer` that are written. -/
structure Round where
  cmd : Text
  inputBackup : Text
  written : List Nat
  deriving DecidableEq, Repr

/-- The body of the loop. `str` is what `getline` reads, none at the end of the input. -/
def commandRound (_str : Option Text) (_buffer : Buffer) : Round × Buffer :=
  let buffer := Vector.replicate bufferSize '\x00'
  let last := sizeSub (cString buffer).length 1
  let buffer := clearAt buffer last
  (⟨cString buffer, cString buffer, List.range bufferSize ++ [last]⟩, buffer)

/-- The first rounds for a client that sends these lines and closes its end. -/
def commandLoop (lines : List Text) : Nat → Buffer → List Round
  | 0, _ => []
  | rounds + 1, buffer =>
    (commandRound lines.head? buffer).1 ::
      commandLoop lines.tail rounds (commandRound lines.head? buffer).2

/-- Each line is run as it stands, and nothing is written beside the array, in the rounds
behind the last line either. -/
structure RunsLines (lines : List Text) (buffer : Buffer) : Prop where
  cmd : (commandLoop lines lines.length buffer).map Round.cmd = lines
  inputBackup : (commandLoop lines lines.length buffer).map Round.inputBackup = lines
  written : ∀ rounds, ∀ r ∈ commandLoop lines rounds buffer, ∀ i ∈ r.written, i < bufferSize

variable {lines : List Text} {buffer : Buffer} {str : Option Text} {rounds : Nat} {r : Round}

theorem cString_cleared : cString (Vector.replicate bufferSize '\x00') = [] := by
  rw [cString, Vector.toList_replicate, List.takeWhile_replicate]
  rfl

theorem commandRound_eq (str : Option Text) (buffer : Buffer) : commandRound str buffer =
    (⟨[], [], List.range bufferSize ++ [2 ^ 64 - 1]⟩, Vector.replicate bufferSize '\x00') := by
  have hlast : sizeSub (cString (Vector.replicate bufferSize '\x00')).length 1 = 2 ^ 64 - 1 := by
    rw [cString_cleared]
    decide
  have hclear : clearAt (Vector.replicate bufferSize '\x00') (2 ^ 64 - 1) =
      Vector.replicate bufferSize '\x00' := dif_neg (by decide)
  unfold commandRound
  dsimp only
  rw [hlast, hclear, cString_cleared]

theorem commandLoop_eq (lines : List Text) (rounds : Nat) (buffer : Buffer) :
    commandLoop lines rounds buffer =
      List.replicate rounds ⟨[], [], List.range bufferSize ++ [2 ^ 64 - 1]⟩ := by
  induction rounds generalizing lines buffer with
  | zero => rfl
  | succ rounds ih => rw [commandLoop, commandRound_eq, ih, List.replicate_succ]

theorem commandLoop_idle (s : System) (i : Nat) (hr : r ∈ commandLoop lines rounds buffer) :
    doExec s i r.cmd = .ok ⟨s, [], []⟩ := by
  rw [commandLoop_eq] at hr
  rw [List.eq_of_mem_replicate hr]
  rfl

theorem cmd_eq_lines_iff : (commandLoop lines lines.length buffer).map Round.cmd = lines ↔
    ∀ line ∈ lines, line = [] := by
  rw [commandLoop_eq, List.map_replicate, eq_comm, List.eq_replicate_iff, and_iff_right rfl]

theorem not_runsLines (lines : List Text) (buffer : Buffer) : ¬ RunsLines lines buffer := by
  intro h
  have hround : Round.mk [] [] (List.range bufferSize ++ [2 ^ 64 - 1]) ∈ commandLoop lines 1 buffer := by
    rw [commandLoop_eq]
    exact List.mem_replicate.mpr ⟨Nat.one_ne_zero, rfl⟩
  have hlast : 2 ^ 64 - 1 < bufferSize :=
    h.written 1 _ hround _ (List.mem_append_right _ (List.mem_singleton_self _))
  unfold bufferSize at hlast
  omega

/-- A client that sends `who`: `do_exec` gets an empty text. -/
theorem who_not_run :
    (commandLoop ["who".toList] 1 (Vector.replicate bufferSize 'x')).map Round.cmd = [[]] ∧
      ¬ RunsLines ["who".toList] (Vector.replicate bufferSize 'x') := by
  refine ⟨?_, fun h => ?_⟩
  · rw [commandLoop_eq, List.map_replicate, List.replicate_one]
  · have hnone := cmd_eq_lines_iff.mp h.cmd "who".toList List.mem_cons_self
    exact absurd hnone (by decide)

end NetworkProgramming.Multi
