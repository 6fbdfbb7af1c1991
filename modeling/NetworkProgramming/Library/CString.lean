import Mathlib.Algebra.Group.Int.Defs
import Mathlib.Algebra.Group.Nat.Defs
import Mathlib.Data.List.Basic
import Mathlib.Data.List.Infix
import Mathlib.Data.List.TakeWhile

/-! C strings as lists of characters, with the `string.h` and `stdlib.h`
functions the programs call. A text holds no terminating NUL. -/
namespace NetworkProgramming.Library.CString

abbrev Text := List Char

/-- `strtok(str, delim)`, then `strtok(NULL, delim)` until NULL: the pieces
between delimiters, the empty ones skipped. -/
def strtok (delim : Char) (str : Text) : List Text :=
  (str.splitOn delim).filter fun piece => !piece.isEmpty

def strchr (str : Text) (c : Char) : Option Text :=
  match str.dropWhile (· != c) with
  | [] => none
  | suffix => some suffix

def strstr (str needle : Text) : Bool := decide (needle <:+: str)

def isspace (c : Char) : Bool :=
  c = ' ' || ('\t' ≤ c && c ≤ '\r')

/-- Two's complement wrap to `int`. -/
def int32 (n : Int) : Int := n.bmod (2 ^ 32)

theorem int32_eq_self {n : Int} (hlow : -2 ^ 31 ≤ n) (hhigh : n < 2 ^ 31) : int32 n = n := by
  unfold int32
  rw [Int.bmod_eq_of_le] <;> omega

theorem int32_lt (n : Int) : int32 n < 2 ^ 31 := by
  have hlt := Int.bmod_lt (x := n) (m := 2 ^ 32) (by decide)
  unfold int32
  omega

/-- `strtol(str, NULL, 10)`: leading space, an optional sign, then the longest
run of digits; out-of-range values stop at the ends of `long`. -/
def strtol (str : Text) : Int :=
  let body := str.dropWhile isspace
  let magnitude (digits : Text) : Int :=
    (Nat.ofDigitChars 10 (digits.takeWhile Char.isDigit) 0 : Nat)
  match body with
  | '-' :: digits => max (-2 ^ 63) (-magnitude digits)
  | '+' :: digits => min (2 ^ 63 - 1) (magnitude digits)
  | digits => min (2 ^ 63 - 1) (magnitude digits)

def atoi (str : Text) : Int := int32 (strtol str)

/-- `stoi`: throws when no number is there, or when it is no `int`. -/
def stoi (str : Text) : Option Int :=
  let body := str.dropWhile isspace
  let digits := if body.head? = some '-' ∨ body.head? = some '+' then body.tail else body
  if digits.head?.any Char.isDigit ∧ -2 ^ 31 ≤ strtol str ∧ strtol str < 2 ^ 31 then
    some (strtol str)
  else none

def decimal (n : Nat) : Text := Nat.toDigits 10 n

theorem decimal_injective {m n : Nat} (h : decimal m = decimal n) : m = n := by
  have hvalue := congrArg (fun digits => Nat.ofDigitChars 10 digits 0) h
  simpa [decimal] using hvalue

@[simp] theorem decimal_inj {m n : Nat} : decimal m = decimal n ↔ m = n :=
  ⟨decimal_injective, congrArg decimal⟩

theorem isDigit_of_mem_decimal {n : Nat} {c : Char} (h : c ∈ decimal n) : c.isDigit :=
  Nat.isDigit_of_mem_toDigits (by decide) (by decide) h

@[simp] theorem decimal_ne_nil (n : Nat) : decimal n ≠ [] := Nat.toDigits_ne_nil

theorem not_mem_decimal {n : Nat} {c : Char} (h : c.isDigit = false) : c ∉ decimal n := by
  intro hmem
  simp [isDigit_of_mem_decimal hmem] at h

theorem ne_of_not_mem {delim : Char} {piece : Text} (h : delim ∉ piece) :
    ∀ c ∈ piece, (c != delim) = true := by
  intro c hc
  have hne : c ≠ delim := fun heq => h (heq ▸ hc)
  simpa using hne

theorem takeWhile_append_delim {delim : Char} {piece rest : Text} (h : delim ∉ piece) :
    (piece ++ delim :: rest).takeWhile (· != delim) = piece := by
  rw [List.takeWhile_append_of_pos (ne_of_not_mem h)]
  simp

theorem dropWhile_append_delim {delim : Char} {piece rest : Text} (h : delim ∉ piece) :
    (piece ++ delim :: rest).dropWhile (· != delim) = delim :: rest := by
  rw [List.dropWhile_append_of_pos (ne_of_not_mem h)]
  simp

theorem takeWhile_without_delim {delim : Char} {piece : Text} (h : delim ∉ piece) :
    piece.takeWhile (· != delim) = piece := by
  have happend : (piece ++ []).takeWhile (· != delim) = piece ++ [].takeWhile (· != delim) :=
    List.takeWhile_append_of_pos (ne_of_not_mem h)
  simpa using happend

theorem dropWhile_without_delim {delim : Char} {piece : Text} (h : delim ∉ piece) :
    piece.dropWhile (· != delim) = [] := by
  have happend : (piece ++ []).dropWhile (· != delim) = [].dropWhile (· != delim) :=
    List.dropWhile_append_of_pos (ne_of_not_mem h)
  simpa using happend

theorem strtok_word {delim : Char} {piece : Text} (hne : piece ≠ []) (h : delim ∉ piece) :
    strtok delim piece = [piece] := by
  rw [strtok, List.splitOn_eq_singleton h]
  simp [hne]

theorem strtok_word_cons {delim : Char} {piece rest : Text} (hne : piece ≠ [])
    (h : delim ∉ piece) : strtok delim (piece ++ delim :: rest) = piece :: strtok delim rest := by
  rw [strtok, List.splitOn_append_cons_self_of_not_mem h, List.filter_cons_of_pos]
  · rfl
  · simp [hne]

theorem strchr_eq_none {str : Text} {c : Char} (h : c ∉ str) : strchr str c = none := by
  rw [strchr, dropWhile_without_delim h]

theorem isspace_of_isDigit {c : Char} (h : c.isDigit = true) : isspace c = false := by
  rw [Char.isDigit_iff_toNat] at h
  have hzero : '0'.toNat = 48 := rfl
  simp only [isspace, Bool.or_eq_false_iff, decide_eq_false_iff_not, Bool.and_eq_false_iff]
  constructor
  · rintro rfl
    exact absurd h.1 (by decide)
  · refine .inr ?_
    intro hle
    have hcode : c.toNat ≤ 13 := UInt32.le_iff_toNat_le.mp (Char.le_def.mp hle)
    omega

theorem dropWhile_decimal (n : Nat) : (decimal n).dropWhile isspace = decimal n := by
  obtain ⟨c, tail, hcons⟩ := List.exists_cons_of_ne_nil (decimal_ne_nil n)
  have hc : c.isDigit = true := isDigit_of_mem_decimal (n := n) (by simp [hcons])
  rw [hcons, List.dropWhile_cons_of_neg (by simp [isspace_of_isDigit hc])]

theorem takeWhile_decimal (n : Nat) : (decimal n).takeWhile Char.isDigit = decimal n := by
  rw [List.takeWhile_eq_self_iff]
  exact fun c hc => isDigit_of_mem_decimal hc

theorem strtol_decimal {n : Nat} (h : n < 2 ^ 31) : strtol (decimal n) = n := by
  have hvalue : Nat.ofDigitChars 10 (decimal n) 0 = n := Nat.ofDigitChars_ten_toDigits
  unfold strtol
  dsimp only
  rw [dropWhile_decimal]
  split
  next hminus =>
    have hmem : '-' ∈ decimal n := by simp [hminus]
    exact absurd hmem (not_mem_decimal (by decide))
  next hplus =>
    have hmem : '+' ∈ decimal n := by simp [hplus]
    exact absurd hmem (not_mem_decimal (by decide))
  next =>
    rw [takeWhile_decimal, hvalue]
    omega

theorem stoi_decimal {n : Nat} (h : n < 2 ^ 31) : stoi (decimal n) = some (n : Int) := by
  obtain ⟨c, tail, hcons⟩ := List.exists_cons_of_ne_nil (decimal_ne_nil n)
  have hc : c.isDigit = true := isDigit_of_mem_decimal (n := n) (by simp [hcons])
  have hsign : ¬ ((decimal n).head? = some '-' ∨ (decimal n).head? = some '+') := by
    rw [hcons, List.head?_cons]
    rintro (hminus | hplus)
    · rw [Option.some.injEq] at hminus
      rw [hminus] at hc
      exact absurd hc (by decide)
    · rw [Option.some.injEq] at hplus
      rw [hplus] at hc
      exact absurd hc (by decide)
  have hhead : (decimal n).head?.any Char.isDigit = true := by
    rw [hcons]
    exact hc
  unfold stoi
  dsimp only
  rw [dropWhile_decimal, if_neg hsign, strtol_decimal h, if_pos ⟨hhead, by omega, by omega⟩]

end NetworkProgramming.Library.CString
