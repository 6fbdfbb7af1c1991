import Mathlib.Data.List.Basic

/-! A text that is put together in an array, piece by piece, each behind the one
before: how many elements are in use after each piece, with the terminator. -/
namespace NetworkProgramming.Library.Strcat

variable {α : Type u} {piece : List α} {pieces : List (List α)} {capacity : Nat}

/-- `length` elements are there before. -/
def sizes (length : Nat) : List (List α) → List Nat
  | [] => []
  | piece :: pieces => (length + piece.length + 1) :: sizes (length + piece.length) pieces

theorem sizes_bounded_iff (length : Nat) (piece : List α) (pieces : List (List α)) :
    (∀ size ∈ sizes length (piece :: pieces), size ≤ capacity) ↔
      length + (piece :: pieces).flatten.length < capacity := by
  induction pieces generalizing length piece with
  | nil =>
    simp only [sizes, List.forall_mem_singleton, List.flatten_singleton]
    omega
  | cons next pieces ih =>
    rw [sizes, List.forall_mem_cons, ih]
    simp only [List.flatten_cons, List.length_append]
    omega

end NetworkProgramming.Library.Strcat
