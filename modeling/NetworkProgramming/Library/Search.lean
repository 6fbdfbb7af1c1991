import Mathlib.Data.List.Basic

/-! The last index below a bound that passes a test: what a loop without a
`break` leaves behind. The first of a row of tests that passes: where a chain of
`else if` goes. -/
namespace NetworkProgramming.Library.Search

def lastBelow (p : Nat → Bool) : Nat → Option Nat
  | 0 => none
  | n + 1 => if p n then some n else lastBelow p n

theorem lastBelow_eq_some {p : Nat → Bool} {n i : Nat} :
    lastBelow p n = some i ↔ i < n ∧ p i = true ∧ ∀ j, i < j → j < n → p j = false := by
  induction n with
  | zero => simp [lastBelow]
  | succ n ih =>
    by_cases hn : p n = true
    · simp only [lastBelow, hn, if_true, Option.some.injEq]
      constructor
      · rintro rfl
        exact ⟨by omega, hn, by omega⟩
      · rintro ⟨hi, -, hlater⟩
        by_contra hne
        have hfalse := hlater n (by omega) (by omega)
        simp [hn] at hfalse
    · simp only [lastBelow, hn, Bool.false_eq_true, if_false, ih]
      constructor
      · rintro ⟨hi, hp, hlater⟩
        refine ⟨by omega, hp, fun j hj hjn => ?_⟩
        rcases Nat.lt_succ_iff_lt_or_eq.mp hjn with hlt | rfl
        · exact hlater j hj hlt
        · simpa using hn
      · rintro ⟨hi, hp, hlater⟩
        have hne : i ≠ n := by
          rintro rfl
          exact hn hp
        exact ⟨by omega, hp, fun j hj hjn => hlater j hj (by omega)⟩

theorem lastBelow_eq_none {p : Nat → Bool} {n : Nat} :
    lastBelow p n = none ↔ ∀ i < n, p i = false := by
  induction n with
  | zero => simp [lastBelow]
  | succ n ih =>
    by_cases hn : p n = true
    · simp only [lastBelow, hn, if_true, reduceCtorEq, false_iff, not_forall]
      exact ⟨n, by omega, by simp [hn]⟩
    · simp only [lastBelow, hn, Bool.false_eq_true, if_false, ih]
      constructor
      · intro h i hi
        rcases Nat.lt_succ_iff_lt_or_eq.mp hi with hlt | rfl
        · exact h i hlt
        · simpa using hn
      · exact fun h i hi => h i (by omega)

variable {α : Type u} {p : α → Bool} {l : List α} {a b : α}

theorem find?_cons_ite : (a :: l).find? p = if p a = true then some a else l.find? p := by
  rw [List.find?_cons]
  cases p a <;> rfl

theorem find?_eq_some_iff_idxOf [DecidableEq α] :
    l.find? p = some b ↔
      b ∈ l ∧ p b = true ∧ ∀ a ∈ l, l.idxOf a < l.idxOf b → p a = false := by
  induction l with
  | nil => simp
  | cons c l ih =>
    rw [find?_cons_ite]
    split
    next hc =>
      simp only [Option.some.injEq]
      constructor
      · rintro rfl
        simp [hc]
      · rintro ⟨-, -, hbefore⟩
        by_contra hne
        have hfalse := hbefore c List.mem_cons_self (by simp [List.idxOf_cons_ne _ hne])
        simp [hc] at hfalse
    next hc =>
      have hshift : ∀ a, a ≠ c → (c :: l).idxOf a = l.idxOf a + 1 := by
        intro a ha
        exact List.idxOf_cons_ne _ (Ne.symm ha)
      rw [ih]
      constructor
      · rintro ⟨hmem, hb, hbefore⟩
        have hbc : b ≠ c := by
          rintro rfl
          exact hc hb
        refine ⟨List.mem_cons_of_mem _ hmem, hb, ?_⟩
        intro a ha hlt
        by_cases hac : a = c
        · simpa [hac] using hc
        · rw [hshift a hac, hshift b hbc] at hlt
          exact hbefore a (List.mem_of_ne_of_mem hac ha) (by omega)
      · rintro ⟨hmem, hb, hbefore⟩
        have hbc : b ≠ c := by
          rintro rfl
          exact hc hb
        refine ⟨List.mem_of_ne_of_mem hbc hmem, hb, ?_⟩
        intro a ha hlt
        by_cases hac : a = c
        · simpa [hac] using hc
        · apply hbefore a (List.mem_cons_of_mem _ ha)
          rw [hshift a hac, hshift b hbc]
          omega

end NetworkProgramming.Library.Search
