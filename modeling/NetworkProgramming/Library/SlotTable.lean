import Mathlib.Data.Finset.Card
import Mathlib.Logic.Function.Basic

/-! Tables of numbered slots in which a newcomer takes the lowest free slot. -/
namespace NetworkProgramming.Library.SlotTable

structure Table (α : Type u) where
  slot : Nat → α
  size : Nat
  used : Finset α

variable {α : Type u} {free a : α} {t : Table α} {i : Nat}

/-- From `size` on every slot is free; the others hold the used values, each of
them in one slot. -/
structure Table.Wellformed (free : α) (t : Table α) : Prop where
  beyond : ∀ i, t.size ≤ i → t.slot i = free
  distinct : ∀ i j, t.slot i ≠ free → t.slot i = t.slot j → i = j
  mem_used : ∀ a, a ∈ t.used ↔ a ≠ free ∧ ∃ i, t.slot i = a

structure Table.Lowest (free : α) (t : Table α) (i : Nat) : Prop where
  within : i ≤ t.size
  isFree : t.slot i = free
  below : ∀ j < i, t.slot j ≠ free

theorem Table.Wellformed.empty (free : α) : Wellformed free ⟨fun _ => free, 0, ∅⟩ := by
  constructor
  · intro i _
    rfl
  · intro i j hi _
    exact absurd rfl hi
  · intro a
    simp only [Finset.notMem_empty, false_iff, not_and, not_exists]
    intro ha _
    exact Ne.symm ha

theorem Table.Wellformed.lt_size (h : t.Wellformed free) (hi : t.slot i ≠ free) :
    i < t.size := by
  by_contra hge
  exact hi (h.beyond i (Nat.le_of_not_lt hge))

theorem Table.Wellformed.le_card (h : t.Wellformed free) (hbelow : ∀ j < i, t.slot j ≠ free) :
    i ≤ t.used.card := by
  rw [← Finset.card_range i]
  apply Finset.card_le_card_of_injOn t.slot
  · intro j hj
    have htaken := hbelow j (Finset.mem_range.mp hj)
    exact (h.mem_used _).mpr ⟨htaken, j, rfl⟩
  · intro j hj k _ hjk
    have htaken := hbelow j (Finset.mem_range.mp hj)
    exact h.distinct j k htaken hjk

section Updates
variable [DecidableEq α]

def Table.take (t : Table α) (i : Nat) (a : α) : Table α where
  slot := Function.update t.slot i a
  size := if i = t.size then t.size + 1 else t.size
  used := insert a t.used

def Table.release (free : α) (t : Table α) (i : Nat) (a : α) : Table α where
  slot := Function.update t.slot i free
  size := t.size
  used := t.used.erase a

/-- A slot at `size` is free, so the search that includes it never fails. -/
theorem Table.Wellformed.find_lowest (h : t.Wellformed free) :
    ∃ i, ((List.range (t.size + 1)).find? fun i => t.slot i == free) = some i ∧
      t.Lowest free i := by
  cases hfind : (List.range (t.size + 1)).find? fun i => t.slot i == free with
  | none =>
    rw [List.find?_eq_none] at hfind
    have hlast := hfind t.size (by simp)
    simp [h.beyond t.size (le_refl _)] at hlast
  | some i =>
    rw [List.find?_range_eq_some] at hfind
    obtain ⟨hfree, hmem, hbelow⟩ := hfind
    refine ⟨i, rfl, ?_, ?_, ?_⟩
    · rw [List.mem_range] at hmem
      omega
    · simpa using hfree
    · intro j hj
      simpa using hbelow j hj

theorem Table.Wellformed.take (h : t.Wellformed free) (hlow : t.Lowest free i)
    (ha : a ≠ free) (hnew : a ∉ t.used) : (t.take i a).Wellformed free := by
  have hfresh : ∀ j, t.slot j ≠ a := by
    intro j hj
    exact hnew ((h.mem_used a).mpr ⟨ha, j, hj⟩)
  have hwithin := hlow.within
  constructor
  · intro j hj
    have hle : t.size ≤ j ∧ j ≠ i := by
      simp only [Table.take] at hj
      split at hj <;> omega
    simp only [Table.take, Function.update_of_ne hle.2]
    exact h.beyond j hle.1
  · intro j k hj hjk
    simp only [Table.take, Function.update_apply] at hj hjk
    split at hjk
    next hji =>
      split at hjk
      next hki => omega
      next => exact absurd hjk.symm (hfresh k)
    next hji =>
      rw [if_neg hji] at hj
      split at hjk
      next => exact absurd hjk (hfresh j)
      next => exact h.distinct j k hj hjk
  · intro b
    simp only [Table.take, Finset.mem_insert, h.mem_used b]
    constructor
    · rintro (rfl | ⟨hb, j, hj⟩)
      · exact ⟨ha, i, by simp⟩
      · have hji : j ≠ i := by
          rintro rfl
          exact hb (hj.symm.trans hlow.isFree)
        exact ⟨hb, j, by rw [Function.update_of_ne hji, hj]⟩
    · intro ⟨hb, j, hj⟩
      by_cases hji : j = i
      · rw [hji, Function.update_self] at hj
        exact .inl hj.symm
      · rw [Function.update_of_ne hji] at hj
        exact .inr ⟨hb, j, hj⟩

theorem Table.Wellformed.release (h : t.Wellformed free) (hi : t.slot i = a) (ha : a ≠ free) :
    (t.release free i a).Wellformed free := by
  have hother : ∀ j, j ≠ i → t.slot j ≠ a := by
    intro j hji hj
    exact hji (h.distinct j i (by rwa [hj]) (hj.trans hi.symm))
  constructor
  · intro j hj
    by_cases hji : j = i
    · simp [Table.release, hji]
    · simp only [Table.release, Function.update_of_ne hji]
      exact h.beyond j hj
  · intro j k hj hjk
    simp only [Table.release, Function.update_apply] at hj hjk
    split at hj
    next => exact absurd rfl hj
    next hji =>
      rw [if_neg hji] at hjk
      split at hjk
      next => exact absurd hjk hj
      next => exact h.distinct j k hj hjk
  · intro b
    simp only [Table.release, Finset.mem_erase, h.mem_used b]
    constructor
    · intro ⟨hba, hb, j, hj⟩
      have hji : j ≠ i := by
        rintro rfl
        exact hba (hj.symm.trans hi)
      exact ⟨hb, j, by rw [Function.update_of_ne hji, hj]⟩
    · intro ⟨hb, j, hj⟩
      by_cases hji : j = i
      · rw [hji, Function.update_self] at hj
        exact absurd hj.symm hb
      · rw [Function.update_of_ne hji] at hj
        refine ⟨?_, hb, j, hj⟩
        rw [← hj]
        exact hother j hji

theorem Table.Wellformed.take_size (h : t.Wellformed free) (hlow : t.Lowest free i)
    (hnew : a ∉ t.used) : (t.take i a).size ≤ max t.size (t.take i a).used.card := by
  simp only [Table.take, Finset.card_insert_of_notMem hnew]
  split
  next heq =>
    have hcard := h.le_card hlow.below
    omega
  next => exact le_max_left _ _

end Updates

end NetworkProgramming.Library.SlotTable
