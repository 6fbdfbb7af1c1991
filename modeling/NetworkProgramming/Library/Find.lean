import Mathlib.Data.List.Basic
import Mathlib.Data.List.Infix

/-! The first position of a list in another one. -/
namespace NetworkProgramming.Library.Find

variable {α : Type u} [DecidableEq α]

def find (needle : List α) : List α → Option Nat
  | [] => if needle = [] then some 0 else none
  | c :: str => if needle <+: c :: str then some 0 else (find needle str).map (· + 1)

variable {needle str front rest : List α} {c : α} {i : Nat}

theorem find_eq_none : find needle str = none ↔ ¬ needle <:+: str := by
  induction str with
  | nil => simp [find]
  | cons c str ih =>
    rw [find, List.infix_cons_iff, not_or]
    split
    next hstart => simp [hstart]
    next hstart => rw [Option.map_eq_none_iff, ih, and_iff_right hstart]

theorem find_eq_some : find needle str = some i ↔
    i ≤ str.length ∧ needle <+: str.drop i ∧ ∀ j < i, ¬ needle <+: str.drop j := by
  induction str generalizing i with
  | nil =>
    rw [find]
    split
    next hnil =>
      rw [Option.some.injEq]
      constructor
      · rintro rfl
        simp [hnil]
      · rintro ⟨hle, -⟩
        exact (Nat.le_zero.mp hle).symm
    next hne => simp [hne]
  | cons c str ih =>
    rw [find]
    split
    next hstart =>
      rw [Option.some.injEq]
      constructor
      · rintro rfl
        exact ⟨Nat.zero_le _, hstart, by omega⟩
      · rintro ⟨-, -, hbefore⟩
        by_contra hne
        exact hbefore 0 (by omega) hstart
    next hstart =>
      cases i with
      | zero => simp [hstart]
      | succ i =>
        simp only [Option.map_eq_some_iff, Nat.succ_inj, exists_eq_right, ih, List.length_cons,
          Nat.add_le_add_iff_right, List.drop_succ_cons]
        refine and_congr_right fun _ => and_congr_right fun _ => ?_
        constructor
        · intro hbefore j hj
          cases j with
          | zero => exact hstart
          | succ j => exact hbefore j (by omega)
        · intro hbefore j hj
          exact hbefore (j + 1) (by omega)

theorem find_singleton (h : c ∉ front) : find [c] (front ++ c :: rest) = some front.length := by
  rw [find_eq_some]
  refine ⟨by simp, ?_, ?_⟩
  · rw [List.drop_left]
    exact ⟨rest, rfl⟩
  · intro j hj hstart
    rw [List.drop_append_of_le_length (by omega), List.drop_eq_getElem_cons hj, List.cons_append,
      List.cons_prefix_cons] at hstart
    exact h (hstart.1 ▸ List.getElem_mem hj)

theorem find_singleton_none (h : c ∉ str) : find [c] str = none := by
  rw [find_eq_none, List.singleton_infix_iff]
  exact h

omit [DecidableEq α] in
theorem prefix_append_cons (h : c ∉ needle) : needle <+: front ++ c :: rest ↔ needle <+: front := by
  constructor
  · rintro ⟨more, heq⟩
    obtain ⟨middle, hfront, -⟩ | ⟨middle, hneedle, hrest⟩ := List.append_eq_append_iff.mp heq
    · exact ⟨middle, hfront.symm⟩
    · cases middle with
      | nil => exact ⟨[], by rw [hneedle, List.append_nil, List.append_nil]⟩
      | cons d middle =>
        obtain ⟨rfl, -⟩ := List.cons.inj hrest
        exact absurd (hneedle ▸ List.mem_append_right _ List.mem_cons_self) h
  · exact fun hstart => hstart.trans (List.prefix_append _ _)

theorem find_append_cons (hne : needle ≠ []) (h : c ∉ needle) : find needle (front ++ c :: rest) =
    (find needle front).or ((find needle rest).map (· + (front.length + 1))) := by
  induction front with
  | nil =>
    have hstart : ¬ needle <+: c :: rest := by
      rw [← List.nil_append (c :: rest), prefix_append_cons h, List.prefix_nil]
      exact hne
    have hnil : find needle [] = none := if_neg hne
    rw [List.nil_append, hnil, find, if_neg hstart]
    rfl
  | cons d front ih =>
    have hsame : needle <+: d :: (front ++ c :: rest) ↔ needle <+: d :: front := by
      rw [← List.cons_append, prefix_append_cons h]
    by_cases hstart : needle <+: d :: front
    · rw [List.cons_append, find, if_pos (hsame.mpr hstart), find, if_pos hstart]
      rfl
    · rw [List.cons_append, find, if_neg (mt hsame.mp hstart), find, if_neg hstart, ih,
        Option.map_or, Option.map_map]
      rfl

theorem find_append (h : find needle str = some i) (more : List α) :
    find needle (str ++ more) = some i := by
  obtain ⟨hle, hstart, hbefore⟩ := find_eq_some.mp h
  have hroom := hstart.length_le
  rw [List.length_drop] at hroom
  rw [find_eq_some]
  refine ⟨by simp; omega, ?_, ?_⟩
  · rw [List.drop_append_of_le_length hle]
    exact hstart.trans (List.prefix_append _ _)
  · intro j hj hfound
    rw [List.drop_append_of_le_length (by omega)] at hfound
    apply hbefore j hj
    exact List.prefix_of_prefix_length_le hfound (List.prefix_append _ _)
      (by rw [List.length_drop]; omega)

end NetworkProgramming.Library.Find
