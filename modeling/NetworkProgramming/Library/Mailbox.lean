import Mathlib.Data.List.Basic
import Mathlib.Data.List.Range
import Mathlib.Logic.Function.Basic

/-! A row of slots. A writer puts each value into the first free slot; a reader
goes over the row again and again and empties the slots it comes by. What waits
in the row is listed in the order in which the reader, now at `pos`, gets it. -/
namespace NetworkProgramming.Library.Mailbox

variable {α : Type u}

def held (slots : Nat → Option α) (a b : Nat) : List α := (List.range' a (b - a)).filterMap slots

def waiting (slots : Nat → Option α) (size pos : Nat) : List α :=
  held slots pos size ++ held slots 0 pos

def firstFree (slots : Nat → Option α) (size : Nat) : Option Nat :=
  (List.range size).find? fun j => (slots j).isNone

def put (slots : Nat → Option α) (size : Nat) (value : α) : Nat → Option α :=
  match firstFree slots size with
  | none => slots
  | some j => Function.update slots j (some value)

def take (slots : Nat → Option α) (pos : Nat) : Nat → Option α := Function.update slots pos none

/-- From `a` up to `b` no free slot comes before one in use. -/
def Packed (slots : Nat → Option α) (a b : Nat) : Prop :=
  ∀ j k, a ≤ j → j ≤ k → k < b → slots j = none → slots k = none

/-- A slot is free where the reader comes by last: behind it, once it is on its way. -/
def Room (slots : Nat → Option α) (size pos : Nat) : Prop :=
  ∃ j < if pos = 0 then size else pos, slots j = none

instance (slots : Nat → Option α) (size pos : Nat) : Decidable (Room slots size pos) :=
  decidable_of_iff (∃ j < if pos = 0 then size else pos, (slots j).isNone) (by simp [Room])

/-- All that was read and then all that waits is all that was written, in order. -/
structure Conserves (slots : Nat → Option α) (size pos : Nat) (read written : List α) : Prop where
  within : pos ≤ size
  behind : Packed slots 0 pos
  ahead : Packed slots pos size
  flow : read ++ waiting slots size pos = written

variable {slots slots' : Nat → Option α} {size pos a b c j : Nat} {value : α}
  {read written : List α}

theorem held_self : held slots a a = [] := by
  rw [held, Nat.sub_self]
  rfl

theorem held_congr (h : ∀ k, a ≤ k → k < b → slots k = slots' k) :
    held slots a b = held slots' a b := by
  unfold held
  apply List.filterMap_congr
  intro k hk
  rw [List.mem_range'_1] at hk
  apply h
  · exact hk.1
  · omega

theorem held_eq_nil (h : ∀ k, a ≤ k → k < b → slots k = none) : held slots a b = [] := by
  rw [held, List.filterMap_eq_nil_iff]
  intro k hk
  rw [List.mem_range'_1] at hk
  apply h
  · exact hk.1
  · omega

theorem held_append (hab : a ≤ b) (hbc : b ≤ c) :
    held slots a c = held slots a b ++ held slots b c := by
  have hlength : c - a = (b - a) + (c - b) := by omega
  have hstart : b = a + (b - a) := by omega
  unfold held
  rw [hlength, ← List.range'_append_1, List.filterMap_append, ← hstart]

theorem held_single : held slots a (a + 1) = (slots a).toList := by
  have hlength : a + 1 - a = 1 := by omega
  rw [held, hlength, List.range'_one]
  cases hslot : slots a <;> simp [hslot]

theorem firstFree_eq_some :
    firstFree slots size = some j ↔ j < size ∧ slots j = none ∧ ∀ k < j, slots k ≠ none := by
  simp only [firstFree, List.find?_range_eq_some, Option.isNone_iff_eq_none, List.mem_range,
    Bool.not_eq_true', Option.isNone_eq_false_iff, ← Option.ne_none_iff_isSome]
  constructor
  · rintro ⟨hfree, hlt, hused⟩
    exact ⟨hlt, hfree, hused⟩
  · rintro ⟨hlt, hfree, hused⟩
    exact ⟨hfree, hlt, hused⟩

theorem exists_firstFree (hb : b ≤ size) (h : ∃ j < b, slots j = none) :
    ∃ j < b, firstFree slots size = some j := by
  obtain ⟨k, hk, hfree⟩ := h
  cases hfirst : firstFree slots size with
  | none =>
    rw [firstFree, List.find?_eq_none] at hfirst
    have hused := hfirst k (List.mem_range.mpr (hk.trans_le hb))
    rw [hfree] at hused
    exact absurd rfl hused
  | some j =>
    refine ⟨j, ?_, rfl⟩
    by_contra hlt
    exact (firstFree_eq_some.mp hfirst).2.2 k (by omega) hfree

theorem exists_put (h : ∃ b < size, slots b = none) (value : α) :
    ∃ b < size, slots b = none ∧ put slots size value b = some value := by
  obtain ⟨j, hj, hfirst⟩ := exists_firstFree le_rfl h
  refine ⟨j, hj, (firstFree_eq_some.mp hfirst).2.1, ?_⟩
  rw [put, hfirst]
  exact Function.update_self _ _ _

theorem waiting_take (h : pos < size) :
    waiting slots size pos =
      (slots pos).toList ++ waiting (take slots pos) size (pos + 1) := by
  have hahead : held (take slots pos) (pos + 1) size = held slots (pos + 1) size := by
    apply held_congr
    intro k hk _
    exact Function.update_of_ne (by omega) _ _
  have hbehind : held (take slots pos) 0 (pos + 1) = held slots 0 pos := by
    rw [held_append (Nat.zero_le pos) (Nat.le_succ pos), held_single, take, Function.update_self,
      Option.toList_none, List.append_nil]
    apply held_congr
    intro k _ hk
    exact Function.update_of_ne (by omega) _ _
  rw [waiting, waiting, hahead, hbehind, held_append (Nat.le_succ pos) h, held_single,
    List.append_assoc]

theorem waiting_wrap : waiting slots size size = waiting slots size 0 := by
  rw [waiting, waiting, held_self, held_self, List.append_nil, List.nil_append]

theorem held_put (value : α) (hb : b ≤ size) (hpacked : Packed slots 0 b) (h : ∃ j < b, slots j = none) :
    held (put slots size value) 0 b = held slots 0 b ++ [value] ∧
      Packed (put slots size value) 0 b ∧
      ∀ k, b ≤ k → put slots size value k = slots k := by
  obtain ⟨j, hj, hfirst⟩ := exists_firstFree hb h
  obtain ⟨-, hfree, hused⟩ := firstFree_eq_some.mp hfirst
  have hput : put slots size value = Function.update slots j (some value) := by
    rw [put, hfirst]
  have hother : ∀ k, k ≠ j → put slots size value k = slots k := by
    intro k hk
    rw [hput]
    exact Function.update_of_ne hk _ _
  have hnew : put slots size value j = some value := by
    rw [hput]
    exact Function.update_self _ _ _
  -- behind the first free slot the part is empty
  have hempty : ∀ k, j ≤ k → k < b → slots k = none :=
    fun k hjk hk => hpacked j k (Nat.zero_le j) hjk hk hfree
  have hbefore : held (put slots size value) 0 j = held slots 0 j := by
    apply held_congr
    intro k _ hk
    exact hother k (by omega)
  have hafter : held (put slots size value) (j + 1) b = [] := by
    apply held_eq_nil
    intro k hk hkb
    rw [hother k (by omega)]
    exact hempty k (by omega) hkb
  refine ⟨?_, ?_, fun k hk => hother k (by omega)⟩
  · rw [held_append (Nat.zero_le j) hj.le, held_append (Nat.le_succ j) hj, held_single, hbefore,
      hafter, hnew, held_append (Nat.zero_le j) hj.le, held_eq_nil hempty]
    simp
  · intro k l _ hkl hl hnone
    have hk : k ≠ j := by
      rintro rfl
      rw [hnew] at hnone
      contradiction
    rw [hother k hk] at hnone
    have hjk : j ≤ k := by
      by_contra hlt
      exact hused k (by omega) hnone
    rw [hother l (by omega)]
    exact hempty l (by omega) hl

theorem Conserves.empty (h : ∀ k, slots k = none) : Conserves slots size 0 [] [] where
  within := Nat.zero_le size
  behind := fun _ _ _ _ _ _ => h _
  ahead := fun _ _ _ _ _ _ => h _
  flow := by
    rw [waiting, held_eq_nil fun k _ _ => h k, held_self]
    rfl

theorem Conserves.take (h : Conserves slots size pos read written) (hpos : pos < size) :
    Conserves (take slots pos) size (pos + 1) (read ++ (slots pos).toList) written := by
  have hother : ∀ k, k ≠ pos → Mailbox.take slots pos k = slots k :=
    fun k hk => Function.update_of_ne hk _ _
  have hself : Mailbox.take slots pos pos = none := Function.update_self _ _ _
  constructor
  · exact hpos
  · intro k l hk hkl hl hnone
    by_cases hlast : l = pos
    · rw [hlast, hself]
    · rw [hother k (by omega)] at hnone
      rw [hother l hlast]
      exact h.behind k l hk hkl (by omega) hnone
  · intro k l hk hkl hl hnone
    rw [hother k (by omega)] at hnone
    rw [hother l (by omega)]
    exact h.ahead k l (by omega) hkl hl hnone
  · rw [List.append_assoc, ← waiting_take hpos, h.flow]

theorem Conserves.wrap (h : Conserves slots size size read written) :
    Conserves slots size 0 read written where
  within := Nat.zero_le size
  behind := fun j k hj hjk hk hnone => h.behind j k hj hjk (by omega) hnone
  ahead := h.behind
  flow := by
    rw [← waiting_wrap]
    exact h.flow

theorem Conserves.put (h : Conserves slots size pos read written) (hroom : Room slots size pos) :
    Conserves (put slots size value) size pos read (written ++ [value]) := by
  unfold Room at hroom
  split at hroom
  next hpos =>
    subst hpos
    obtain ⟨hheld, hpacked, -⟩ := held_put value le_rfl h.ahead hroom
    constructor
    · exact h.within
    · intro j k _ _ hk
      omega
    · exact hpacked
    · rw [← h.flow, waiting, waiting, hheld, held_self, held_self]
      simp
  next =>
    obtain ⟨hheld, hpacked, hahead⟩ := held_put value h.within h.behind hroom
    constructor
    · exact h.within
    · exact hpacked
    · intro j k hj hjk hk hnone
      rw [hahead j hj] at hnone
      rw [hahead k (by omega)]
      exact h.ahead j k hj hjk hk hnone
    · have hrest : held (Mailbox.put slots size value) pos size = held slots pos size :=
        held_congr fun k hk _ => hahead k hk
      rw [← h.flow, waiting, waiting, hheld, hrest]
      simp

end NetworkProgramming.Library.Mailbox
