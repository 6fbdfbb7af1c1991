import NetworkProgramming.Npshell.Patterns
import NetworkProgramming.Npshell.Purposes

/-! The loop of `executeCMD` that pads `pipeStack` up to the number of a line. -/
namespace NetworkProgramming.Npshell
open Library.CString

/-- `while(numPipe > pipeStack.size()) pipeStack.push_back(nullptr)`, at most so many
rounds; a vector that is full has no room for another entry. -/
def padLoop (numPipe : Int) : Nat → List (Option Pipe) → Option (List (Option Pipe))
  | 0, _ => none
  | rounds + 1, stack =>
    if stack.length < toSize numPipe then
      if stack.length < maxSize then padLoop numPipe rounds (stack ++ [none]) else none
    else some stack

/-- The loop ends with as many entries as the number asks for, and the index behind
it is inside. -/
def Padded (stack : List (Option Pipe)) (numPipe : Int) : Prop :=
  ∃ rounds padded, padLoop numPipe rounds stack = some padded ∧
    padded = stack ++ List.replicate (max 0 (numPipe - stack.length)).toNat none ∧
    toSize (numPipe - 1) < padded.length

variable {stack padded : List (Option Pipe)} {numPipe : Int} {rounds : Nat}

theorem toSize_of_nonneg (h : 0 ≤ numPipe) (hlt : numPipe < 2 ^ 31) :
    toSize numPipe = numPipe.toNat := by
  unfold toSize
  omega

theorem maxSize_lt_toSize (h : numPipe < 0) (hlow : -2 ^ 31 ≤ numPipe) :
    maxSize < toSize numPipe := by
  unfold toSize maxSize
  omega

theorem padLoop_some (h : padLoop numPipe rounds stack = some padded) :
    padded = stack ++ List.replicate (toSize numPipe - stack.length) none ∧
      toSize numPipe ≤ padded.length := by
  induction rounds generalizing stack with
  | zero => contradiction
  | succ rounds ih =>
    rw [padLoop] at h
    split at h
    next hshort =>
      split at h
      next =>
        obtain ⟨hpadded, hlong⟩ := ih h
        refine ⟨?_, hlong⟩
        have hone : toSize numPipe - stack.length =
            toSize numPipe - (stack ++ [none]).length + 1 := by
          rw [List.length_append, List.length_singleton]
          omega
        rw [hpadded, hone, List.replicate_succ, List.append_assoc, List.singleton_append]
      next => contradiction
    next hlong =>
      obtain rfl := Option.some.inj h
      have hzero : toSize numPipe - stack.length = 0 := by omega
      rw [hzero, List.replicate_zero, List.append_nil]
      exact ⟨rfl, by omega⟩

theorem padLoop_negative (hsize : stack.length ≤ maxSize) (h : maxSize < toSize numPipe) :
    padLoop numPipe rounds stack = none := by
  induction rounds generalizing stack with
  | zero => rfl
  | succ rounds ih =>
    rw [padLoop, if_pos (by omega)]
    split
    next hroom =>
      apply ih
      rw [List.length_append, List.length_singleton]
      exact hroom
    next => rfl

theorem padLoop_ends (stack : List (Option Pipe)) (h : toSize numPipe ≤ maxSize)
    (hrounds : toSize numPipe - stack.length < rounds) :
    ∃ padded, padLoop numPipe rounds stack = some padded := by
  induction rounds generalizing stack with
  | zero => omega
  | succ rounds ih =>
    rw [padLoop]
    split
    next hshort =>
      rw [if_pos (by omega)]
      apply ih
      rw [List.length_append, List.length_singleton]
      omega
    next => exact ⟨stack, rfl⟩

theorem padStack_eq_padLoop (hsize : stack.length ≤ maxSize) :
    padStack stack numPipe = padLoop numPipe (toSize numPipe - stack.length + 1) stack := by
  unfold padStack
  split
  next h =>
    obtain ⟨padded, hpadded⟩ := padLoop_ends stack h (Nat.lt_succ_self _)
    rw [hpadded, (padLoop_some hpadded).1]
  next h => rw [padLoop_negative hsize (by omega)]

theorem padded_iff (hlow : -2 ^ 31 ≤ numPipe) (hhigh : numPipe < 2 ^ 31) (hnumber : numPipe ≠ 0)
    (hsize : stack.length ≤ maxSize) : Padded stack numPipe ↔ 0 < numPipe := by
  constructor
  · rintro ⟨rounds, padded, hloop, -, -⟩
    by_contra hneg
    rw [padLoop_negative hsize (maxSize_lt_toSize (by omega) hlow)] at hloop
    contradiction
  · intro hpos
    have hnumPipe := toSize_of_nonneg (by omega) hhigh
    have hfits : toSize numPipe ≤ maxSize := by
      unfold maxSize
      omega
    obtain ⟨padded, hpadded⟩ := padLoop_ends stack hfits (Nat.lt_succ_self _)
    obtain ⟨heq, hlong⟩ := padLoop_some hpadded
    refine ⟨_, padded, hpadded, ?_, ?_⟩
    · have hmissing : toSize numPipe - stack.length = (max 0 (numPipe - stack.length)).toNat := by
        omega
      rw [heq, hmissing]
    · have hindex : toSize (numPipe - 1) = (numPipe - 1).toNat := toSize_of_nonneg (by omega) (by omega)
      omega

/-- The padding gives what the number asks for, or the line is refused, exactly
when the number is positive. -/
theorem padding_iff (text : Text) (stack : List (Option Pipe)) (hsize : stack.length ≤ maxSize)
    (hnumber : (readCommand text).numPipe ≠ 0) :
    Padded stack (readCommand text).numPipe ∨ Refuses text ↔ 0 < (readCommand text).numPipe := by
  have hrange := numPipe_range text
  have haccepted : ¬ Refuses text := by
    have hscanned := readCommand_scanned text
    unfold Refuses Unmarked
    generalize readCommand text = r at hscanned hnumber
    cases hscanned with
    | number => simp [hnumber]
    | _ => exact absurd rfl hnumber
  rw [padded_iff hrange.1 hrange.2 hnumber hsize, or_iff_left haccepted]

theorem padding_iff_numbered :
    Padded [] (readCommand "ls |2".toList).numPipe ∨ Refuses "ls |2".toList ↔
      0 < (readCommand "ls |2".toList).numPipe :=
  padding_iff "ls |2".toList [] (by decide) (by decide)

/-- `ls |-1` is not refused, and pads until no memory is left. -/
theorem negative_number_unpadded :
    ¬ (Padded [] (readCommand "ls |-1".toList).numPipe ∨ Refuses "ls |-1".toList) := by
  have hnumber : (readCommand "ls |-1".toList).numPipe = -1 := by decide
  rintro (⟨rounds, padded, hloop, -, -⟩ | hrefused)
  · rw [hnumber, padLoop_negative (by decide) (maxSize_lt_toSize (by decide) (by decide))] at hloop
    contradiction
  · exact absurd hrefused (by decide)

end NetworkProgramming.Npshell
