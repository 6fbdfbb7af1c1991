import Mathlib.Data.List.Basic
import Mathlib.Data.List.TakeWhile

/-! Streams of lines, each ended by a delimiter, and the lines of a stream. -/
namespace NetworkProgramming.Library.Lines

variable {α : Type u} {delim : α} {line rest stream : List α} {lines : List (List α)}

def unlines (delim : α) (lines : List (List α)) : List α := lines.flatMap (· ++ [delim])

@[simp] theorem unlines_nil : unlines delim [] = [] := rfl

@[simp] theorem unlines_cons :
    unlines delim (line :: lines) = line ++ delim :: unlines delim lines := by
  simp [unlines]

theorem unlines_append (more : List (List α)) :
    unlines delim (lines ++ more) = unlines delim lines ++ unlines delim more := by
  simp [unlines]

variable [DecidableEq α]

/-- The lines of a stream that are ended; what is behind the last delimiter is
no line yet. -/
def terminated (delim : α) (stream : List α) : List (List α) := (stream.splitOn delim).dropLast

theorem terminated_of_not_mem (h : delim ∉ rest) : terminated delim rest = [] := by
  rw [terminated, List.splitOn_eq_singleton h]
  rfl

theorem terminated_line (h : delim ∉ line) (rest : List α) :
    terminated delim (line ++ delim :: rest) = line :: terminated delim rest := by
  rw [terminated, List.splitOn_append_cons_self_of_not_mem h,
    List.dropLast_cons_of_ne_nil (List.splitOn_ne_nil _ _)]
  rfl

theorem terminated_unlines (hlines : ∀ line ∈ lines, delim ∉ line) (hrest : delim ∉ rest) :
    terminated delim (unlines delim lines ++ rest) = lines := by
  induction lines with
  | nil => exact terminated_of_not_mem hrest
  | cons line lines ih =>
    rw [unlines_cons, List.append_assoc, List.cons_append,
      terminated_line (hlines line List.mem_cons_self)]
    rw [ih fun l hl => hlines l (List.mem_cons_of_mem _ hl)]

theorem exists_unlines (delim : α) (stream : List α) : ∃ lines rest,
    (∀ line ∈ lines, delim ∉ line) ∧ delim ∉ rest ∧ stream = unlines delim lines ++ rest := by
  induction stream with
  | nil => exact ⟨[], [], by simp, by simp, rfl⟩
  | cons x xs ih =>
    obtain ⟨lines, rest, hlines, hrest, rfl⟩ := ih
    by_cases hx : x = delim
    · subst hx
      exact ⟨[] :: lines, rest, by simpa using hlines, hrest, by simp⟩
    · cases lines with
      | nil => exact ⟨[], x :: rest, by simp, by simp [hrest, Ne.symm hx], rfl⟩
      | cons line lines =>
        refine ⟨(x :: line) :: lines, rest, ?_, hrest, by simp⟩
        intro l hl
        obtain rfl | hl := List.mem_cons.mp hl
        · have hline := hlines line List.mem_cons_self
          simp [hline, Ne.symm hx]
        · exact hlines l (List.mem_cons_of_mem _ hl)

theorem terminated_append (hlines : ∀ line ∈ lines, delim ∉ line) (stream : List α) :
    terminated delim (unlines delim lines ++ stream) = lines ++ terminated delim stream := by
  induction lines with
  | nil => rfl
  | cons line lines ih =>
    rw [unlines_cons, List.append_assoc, List.cons_append,
      terminated_line (hlines line List.mem_cons_self), List.cons_append,
      ih fun l hl => hlines l (List.mem_cons_of_mem _ hl)]

theorem prefix_of_unlines {all : List (List α)} (hlines : ∀ line ∈ lines, delim ∉ line)
    (hall : ∀ line ∈ all, delim ∉ line) (h : unlines delim lines ++ rest = unlines delim all) :
    lines <+: all := by
  have hsame : terminated delim (unlines delim all ++ []) = all :=
    terminated_unlines hall List.not_mem_nil
  rw [List.append_nil, ← h, terminated_append hlines] at hsame
  exact ⟨_, hsame⟩

theorem terminated_eq_iff : terminated delim stream = lines ↔
    (∀ line ∈ lines, delim ∉ line) ∧
      ∃ rest, delim ∉ rest ∧ stream = unlines delim lines ++ rest := by
  constructor
  · rintro rfl
    obtain ⟨lines, rest, hlines, hrest, rfl⟩ := exists_unlines delim stream
    rw [terminated_unlines hlines hrest]
    exact ⟨hlines, rest, hrest, rfl⟩
  · rintro ⟨hlines, rest, hrest, rfl⟩
    exact terminated_unlines hlines hrest

end NetworkProgramming.Library.Lines
