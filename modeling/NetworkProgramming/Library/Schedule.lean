import Mathlib.Data.List.Basic
import Mathlib.Data.Option.Basic

/-! Lines that send their output to a later line: line `l` with the number `n`
has the target `l + n`, and all lines with one target share the pipe that the
first of them made. Counters that go down by one with each line realise this. -/
namespace NetworkProgramming.Library.Schedule

/-- The numbers of the lines so far, in order; `none` for a line without one. -/
abbrev Numbers := List (Option Nat)

variable {numbers : Numbers} {number : Option Nat} {l m n t : Nat}

def target (numbers : Numbers) (l : Nat) : Option Nat := numbers[l]?.join.map (l + ·)

def maker (numbers : Numbers) (t : Nat) : Option Nat :=
  (List.range numbers.length).find? fun l => target numbers l == some t

theorem target_eq_some : target numbers l = some t ↔ ∃ n, numbers[l]? = some (some n) ∧ l + n = t := by
  simp [target, Option.join_eq_some_iff]

theorem target_concat_of_lt (h : l < numbers.length) :
    target (numbers ++ [number]) l = target numbers l := by
  rw [target, List.getElem?_append_left h, target]

theorem target_concat_length :
    target (numbers ++ [number]) numbers.length = number.map (numbers.length + ·) := by
  simp [target]

theorem maker_eq_some : maker numbers t = some m ↔
    m < numbers.length ∧ target numbers m = some t ∧ ∀ l < m, target numbers l ≠ some t := by
  rw [maker, List.find?_range_eq_some]
  simp only [beq_iff_eq, List.mem_range, Bool.not_eq_true', beq_eq_false_iff_ne]
  constructor
  · intro ⟨htarget, hm, hbefore⟩
    exact ⟨hm, htarget, hbefore⟩
  · intro ⟨hm, htarget, hbefore⟩
    exact ⟨htarget, hm, hbefore⟩

theorem maker_eq_none : maker numbers t = none ↔ ∀ l, target numbers l ≠ some t := by
  simp only [maker, List.find?_eq_none, List.mem_range, beq_iff_eq]
  constructor
  · intro h l htarget
    by_cases hl : l < numbers.length
    · exact h l hl htarget
    · simp [target, List.getElem?_eq_none (Nat.le_of_not_lt hl)] at htarget
  · intro h l _
    exact h l

theorem maker_concat_of_some (h : maker numbers t = some m) :
    maker (numbers ++ [number]) t = some m := by
  rw [maker_eq_some] at h ⊢
  obtain ⟨hm, htarget, hbefore⟩ := h
  refine ⟨by simp; omega, by rwa [target_concat_of_lt hm], ?_⟩
  intro l hl
  rw [target_concat_of_lt (by omega)]
  exact hbefore l hl

theorem maker_concat_of_none (h : maker numbers t = none) :
    maker (numbers ++ [number]) t =
      if number.map (numbers.length + ·) = some t then some numbers.length else none := by
  rw [maker_eq_none] at h
  split
  next hnew =>
    rw [maker_eq_some]
    refine ⟨by simp, by rw [target_concat_length, hnew], ?_⟩
    intro l hl
    rw [target_concat_of_lt hl]
    exact h l
  next hother =>
    rw [maker_eq_none]
    intro l htarget
    rcases Nat.lt_trichotomy l numbers.length with hlt | rfl | hgt
    · rw [target_concat_of_lt hlt] at htarget
      exact h l htarget
    · rw [target_concat_length] at htarget
      exact hother htarget
    · rw [target, List.getElem?_eq_none (by simp; omega)] at htarget
      simp at htarget

/-- Counters follow the lines: those with a positive count are exactly the
targets to come, at their distance, and each has one counter. `holds j m` says
that entry `j` has the pipe of line `m`. -/
structure Follows (numbers : Numbers) (bound : Nat) (count : Nat → Int)
    (holds : Nat → Nat → Prop) : Prop where
  sound : ∀ j t, j < bound → numbers.length ≤ t → count j = t - numbers.length + 1 →
    ∃ m, maker numbers t = some m ∧ holds j m
  complete : ∀ t m, numbers.length ≤ t → maker numbers t = some m →
    ∃ j < bound, count j = t - numbers.length + 1
  distinct : ∀ i j, i < bound → j < bound → 0 < count i → count i = count j → i = j

theorem Follows.nil {bound : Nat} {holds : Nat → Nat → Prop} :
    Follows [] bound (fun _ => 0) holds := by
  constructor
  · intro j t _ _ hcount
    simp only [List.length_nil] at hcount
    omega
  · intro t m _ hmaker
    simp [maker] at hmaker
  · intro i j _ _ hi
    omega

section Lines
variable {bound : Nat} {count count' : Nat → Int} {holds holds' : Nat → Nat → Prop}

theorem Follows.keep (h : Follows numbers bound count holds)
    (hnumber : ∀ n, number = some n → ∃ m, maker numbers (numbers.length + n) = some m)
    (hcount : ∀ j < bound, count' j = count j - 1)
    (hholds : ∀ j m, j < bound → 1 < count j → holds j m → holds' j m) :
    Follows (numbers ++ [number]) bound count' holds' := by
  constructor
  · intro j t hj ht hcountj
    rw [hcount j hj] at hcountj
    simp only [List.length_append, List.length_singleton] at ht hcountj
    obtain ⟨m, hmaker, hm⟩ := h.sound j t hj (by omega) (by omega)
    exact ⟨m, maker_concat_of_some hmaker, hholds j m hj (by omega) hm⟩
  · intro t m ht hmaker
    simp only [List.length_append, List.length_singleton] at ht ⊢
    cases hold : maker numbers t with
    | some m' =>
      obtain ⟨j, hj, hcountj⟩ := h.complete t m' (by omega) hold
      refine ⟨j, hj, ?_⟩
      rw [hcount j hj]
      omega
    | none =>
      rw [maker_concat_of_none hold] at hmaker
      split at hmaker
      next hnew =>
        obtain ⟨n, hn, rfl⟩ := Option.map_eq_some_iff.mp hnew
        obtain ⟨m', hm'⟩ := hnumber n hn
        rw [hold] at hm'
        contradiction
      next => contradiction
  · intro i j hi hj hpos heq
    rw [hcount i hi] at hpos heq
    rw [hcount j hj] at heq
    exact h.distinct i j hi hj (by omega) (by omega)

theorem Follows.claim {pos : Nat} (h : Follows numbers bound count holds)
    (hnone : maker numbers (numbers.length + n) = none) (hpos : pos < bound)
    (hfree : count pos ≤ 0) (hnew : count' pos = n)
    (hcount : ∀ j < bound, j ≠ pos → count' j = count j - 1)
    (hholds : ∀ j m, j < bound → j ≠ pos → 1 < count j → holds j m → holds' j m)
    (hclaimed : holds' pos numbers.length) :
    Follows (numbers ++ [some n]) bound count' holds' := by
  constructor
  · intro j t hj ht hcountj
    simp only [List.length_append, List.length_singleton] at ht hcountj
    by_cases hjpos : j = pos
    · subst hjpos
      rw [hnew] at hcountj
      have htarget : numbers.length + n = t := by omega
      subst htarget
      refine ⟨numbers.length, ?_, hclaimed⟩
      rw [maker_concat_of_none hnone]
      simp
    · rw [hcount j hj hjpos] at hcountj
      obtain ⟨m, hmaker, hm⟩ := h.sound j t hj (by omega) (by omega)
      exact ⟨m, maker_concat_of_some hmaker, hholds j m hj hjpos (by omega) hm⟩
  · intro t m ht hmaker
    simp only [List.length_append, List.length_singleton] at ht ⊢
    cases hold : maker numbers t with
    | some m' =>
      obtain ⟨j, hj, hcountj⟩ := h.complete t m' (by omega) hold
      have hjpos : j ≠ pos := by
        rintro rfl
        omega
      refine ⟨j, hj, ?_⟩
      rw [hcount j hj hjpos]
      omega
    | none =>
      rw [maker_concat_of_none hold] at hmaker
      split at hmaker
      next htarget =>
        simp only [Option.map_some, Option.some.injEq] at htarget
        refine ⟨pos, hpos, ?_⟩
        rw [hnew]
        omega
      next => contradiction
  · intro i j hi hj hposi heq
    by_cases hipos : i = pos
    · by_cases hjpos : j = pos
      · rw [hipos, hjpos]
      · -- another entry with this count would be a pipe for the same target
        exfalso
        subst hipos
        rw [hnew] at hposi heq
        rw [hcount j hj hjpos] at heq
        obtain ⟨m, hmaker, -⟩ := h.sound j (numbers.length + n) hj (by omega) (by omega)
        rw [hnone] at hmaker
        contradiction
    · rw [hcount i hi hipos] at hposi heq
      by_cases hjpos : j = pos
      · exfalso
        subst hjpos
        rw [hnew] at heq
        obtain ⟨m, hmaker, -⟩ := h.sound i (numbers.length + n) hi (by omega) (by omega)
        rw [hnone] at hmaker
        contradiction
      · rw [hcount j hj hjpos] at heq
        exact h.distinct i j hi hj (by omega) (by omega)

end Lines

end NetworkProgramming.Library.Schedule
