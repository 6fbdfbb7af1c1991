import Mathlib.Data.List.Basic
import Mathlib.Data.List.TakeWhile
import Mathlib.Data.Vector.Basic

/-! A fixed array that is read into from its start: what a read does not reach
keeps its old content, and a scan for a terminator does not stop in between. -/
namespace NetworkProgramming.Library.Buffer

variable {α : Type u} {n : Nat}

/-- The array after a read of `bytes` into it. -/
def fill (old : Vector α n) (bytes : List α) : Vector α n :=
  Vector.ofFn fun i => (bytes[i.val]?).getD old[i]

/-- The elements from `i` up to the first one that stops the scan; none when the
array ends before. -/
def scan (stop : α → Bool) (data : Vector α n) (i : Nat) : Option (List α) :=
  if (data.toList.drop i).any stop then some ((data.toList.drop i).takeWhile (!stop ·)) else none

theorem fill_getElem (old : Vector α n) (bytes : List α) {i : Nat} (hi : i < n) :
    (fill old bytes)[i] = (bytes[i]?).getD old[i] := by
  simp [fill]

theorem fill_toList (old : Vector α n) {bytes : List α} (h : bytes.length ≤ n) :
    (fill old bytes).toList = bytes ++ old.toList.drop bytes.length := by
  apply List.ext_getElem
  · simp only [Vector.length_toList, List.length_append, List.length_drop]
    omega
  · intro i hi hi'
    rw [Vector.getElem_toList, fill_getElem _ _ (by simpa using hi)]
    by_cases hlt : i < bytes.length
    · rw [List.getElem_append_left hlt, List.getElem?_eq_getElem hlt, Option.getD_some]
    · rw [List.getElem_append_right (by omega), List.getElem?_eq_none (by omega), Option.getD_none,
        List.getElem_drop, Vector.getElem_toList]
      congr 1
      omega

variable {stop : α → Bool} {data : Vector α n} {field after : List α} {a : α} {i : Nat}

theorem scan_field (hdata : data.toList.drop i = field ++ a :: after)
    (hfield : ∀ b ∈ field, stop b = false) (ha : stop a = true) :
    scan stop data i = some field := by
  have hbefore : ∀ b ∈ field, (!stop b) = true := by
    intro b hb
    rw [hfield b hb]
    rfl
  rw [scan, hdata, if_pos (by simp [ha]), List.takeWhile_append_of_pos hbefore,
    List.takeWhile_cons_of_neg (by simp [ha]), List.append_nil]

theorem scan_nil_iff : scan stop data i = some [] ↔ ∃ h : i < n, stop data[i] = true := by
  have hlength : data.toList.length = n := Vector.length_toList
  constructor
  · intro hscan
    unfold scan at hscan
    split at hscan
    next hany =>
      rw [Option.some.injEq] at hscan
      have hlt : i < n := by
        by_contra hge
        rw [List.drop_eq_nil_of_le (by omega)] at hany
        simp at hany
      refine ⟨hlt, ?_⟩
      rw [List.drop_eq_getElem_cons (by omega), List.takeWhile_cons] at hscan
      split at hscan
      next => simp at hscan
      next hstop => simpa using hstop
    next => contradiction
  · rintro ⟨hlt, hstop⟩
    rw [scan, List.drop_eq_getElem_cons (by omega), Vector.getElem_toList]
    simp [hstop]

theorem scan_head {text : List α} (h : scan stop data i = some text) (hi : i < n)
    (ha : stop data[i] = false) : text.head? = some data[i] := by
  have hlength : data.toList.length = n := Vector.length_toList
  unfold scan at h
  split at h
  next =>
    rw [Option.some.injEq] at h
    rw [← h, List.drop_eq_getElem_cons (by omega), Vector.getElem_toList,
      List.takeWhile_cons_of_pos (by simp [ha])]
    rfl
  next => contradiction

theorem scan_mem {text : List α} (h : scan stop data i = some text) {b : α} (hb : b ∈ text) :
    b ∈ data.toList := by
  unfold scan at h
  split at h
  next =>
    rw [Option.some.injEq] at h
    rw [← h] at hb
    exact List.mem_of_mem_drop ((List.takeWhile_sublist _).mem hb)
  next => contradiction

theorem scan_fill {bytes : List α} (hlength : bytes.length ≤ n)
    (hbytes : ∀ b ∈ bytes, stop b = false) :
    scan stop (fill data bytes) 0 = (scan stop data bytes.length).map (bytes ++ ·) := by
  have hnone : bytes.any stop = false := by
    rw [List.any_eq_false]
    intro b hb
    rw [hbytes b hb]
    simp
  have htake : ∀ b ∈ bytes, (!stop b) = true := by
    intro b hb
    rw [hbytes b hb]
    rfl
  unfold scan
  rw [List.drop_zero, fill_toList data hlength, List.any_append, hnone, Bool.false_or,
    List.takeWhile_append_of_pos htake]
  split <;> rfl

end NetworkProgramming.Library.Buffer
