import Mathlib.Data.Option.Basic
import Mathlib.Logic.Function.Basic

/-! A queue of values that wait for a number of turns. At most one place in it
has been claimed and not yet been given its value. -/
namespace NetworkProgramming.Library.DelayQueue

structure Queue (ρ : Type u) where
  waiting : Int → Option ρ
  claimed : Option Int

variable {ρ : Type u} {q : Queue ρ} {k : Int} {value : ρ} {o : Option ρ}

namespace Queue

def empty : Queue ρ := ⟨fun _ => none, none⟩

/-- What is `k` turns away: nothing, a place without a value, or a value. -/
def look (q : Queue ρ) (k : Int) : Option (Option ρ) :=
  if q.claimed = some k then some none else (q.waiting k).map some

def claim (q : Queue ρ) (k : Int) : Queue ρ := { q with claimed := some k }

/-- One turn passes. -/
def shift (q : Queue ρ) : Queue ρ where
  waiting k := q.waiting (k + 1)
  claimed := q.claimed.bind fun k => if 1 < k then some (k - 1) else none

/-- The claimed place gets its value; a place whose turn has passed is lost. -/
def complete (q : Queue ρ) (value : ρ) : Queue ρ :=
  match q.claimed with
  | none => q
  | some k => ⟨Function.update q.waiting k (some value), none⟩

/-- A place at `k`, unless there is one; and whether it is new. -/
def reserve (q : Queue ρ) : Option Int → Queue ρ × Bool
  | none => (q, false)
  | some k => if (q.look k).isSome then (q, false) else (q.claim k, true)

def turn (q : Queue ρ) (fresh : Bool) (value : ρ) : Queue ρ :=
  if fresh then q.shift.complete value else q.shift

theorem look_claimed (h : q.claimed = some k) : q.look k = some none := if_pos h

theorem look_waiting (h : q.claimed ≠ some k) (hwaiting : q.waiting k = some value) :
    q.look k = some (some value) := by
  rw [look, if_neg h, hwaiting]
  rfl

theorem look_cases (h : q.look k = some o) :
    (q.claimed = some k ∧ o = none) ∨ ∃ value, q.waiting k = some value ∧ o = some value := by
  unfold look at h
  split at h
  next hclaimed =>
    rw [Option.some.injEq] at h
    exact .inl ⟨hclaimed, h.symm⟩
  next =>
    obtain ⟨value, hvalue, rfl⟩ := Option.map_eq_some_iff.mp h
    exact .inr ⟨value, hvalue, rfl⟩

theorem shift_claimed : q.shift.claimed = some k ↔ 1 ≤ k ∧ q.claimed = some (k + 1) := by
  unfold shift
  dsimp only
  constructor
  · intro h
    obtain ⟨k', hk', hnext⟩ := Option.bind_eq_some_iff.mp h
    split at hnext
    next hlt =>
      rw [Option.some.injEq] at hnext
      subst hnext
      refine ⟨by omega, ?_⟩
      rw [hk']
      congr 1
      omega
    next => contradiction
  · intro ⟨hk, hclaimed⟩
    rw [hclaimed, Option.bind_some, if_pos (by omega)]
    congr 1
    omega

theorem complete_of_none (h : q.claimed = none) : q.complete value = q := by
  rw [complete, h]

theorem complete_of_some (h : q.claimed = some k) :
    q.complete value = ⟨Function.update q.waiting k (some value), none⟩ := by
  rw [complete, h]

@[simp] theorem complete_claimed : (q.complete value).claimed = none := by
  cases h : q.claimed with
  | none => rw [complete_of_none h, h]
  | some k => rw [complete_of_some h]

end Queue

end NetworkProgramming.Library.DelayQueue
