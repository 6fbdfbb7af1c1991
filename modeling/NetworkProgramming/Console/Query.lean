import NetworkProgramming.Library.CString
import NetworkProgramming.Library.Find
import Mathlib.Data.List.Nodup
import Mathlib.Logic.Function.Basic

/-! `parser` of both consoles: the query string of the request, as a map. -/
namespace NetworkProgramming.Console
open Library.CString Library.Find

/-- `map<string, string>`: the value of each key that has one. -/
abbrev Queries := Text → Option Text

/-- `find` in an `int`; `npos` becomes -1. -/
def findInt (needle str : Text) : Int :=
  match find needle str with
  | some pos => int32 pos
  | none => -1

/-- `str.substr(0, len)`; a negative length is more than any string has. -/
def front (str : Text) (len : Int) : Text := if len < 0 then str else str.take len.toNat

/-- `str.substr(pos)`; a start behind the end throws, and so does a negative one. -/
def behind (str : Text) (pos : Int) : Option Text :=
  if 0 ≤ pos ∧ pos ≤ str.length then some (str.drop pos.toNat) else none

/-- `queries[sub.substr(0, posi)] = sub.substr(posi + 1)` -/
def assign (queries : Queries) (sub : Text) : Option Queries :=
  let posi := findInt ['='] sub
  (behind sub (posi + 1)).map fun value =>
    Function.update queries (front sub posi) (some value)

/-- The rounds of the loop; `none` is a string that throws, or a loop that goes on. -/
def readQueries : Nat → Queries → Text → Option Queries
  | 0, _, _ => none
  | fuel + 1, queries, str => do
    let pos := findInt ['&'] str
    let queries ← assign queries (front str pos)
    let rest ← behind str (pos + 1)
    if pos = -1 then some queries else readQueries fuel queries rest

/-- `parser`; no text takes more rounds than it has characters and one. -/
def parser (str : Text) : Option Queries := readQueries (str.length + 1) (fun _ => none) str

/-- A key with its value, as they may stand in a query string. -/
structure Pair where
  key : Text
  value : Text
  key_equals : '=' ∉ key
  key_ampersand : '&' ∉ key
  value_ampersand : '&' ∉ value

def Pair.write (queries : Queries) (p : Pair) : Queries :=
  Function.update queries p.key (some p.value)

def Pair.text (p : Pair) : Text := p.key ++ '=' :: p.value

/-- `k1=v1&k2=v2&...&kn=vn` -/
def queryString (pairs : List Pair) : Text := ['&'].intercalate (pairs.map Pair.text)

/-- The value of the last pair with this key. -/
def lastValue (pairs : List Pair) (key : Text) : Option Text :=
  (pairs.reverse.find? (·.key = key)).map Pair.value

variable {pairs : List Pair} {p : Pair} {queries : Queries} {str piece rest : Text} {c : Char}
  {fuel : Nat}

theorem findInt_append (h : c ∉ piece) (hshort : piece.length < 2 ^ 31) :
    findInt [c] (piece ++ c :: rest) = piece.length := by
  rw [findInt, find_singleton h]
  exact int32_eq_self (by omega) (by omega)

theorem findInt_none (h : c ∉ str) : findInt [c] str = -1 := by
  rw [findInt, find_singleton_none h]

theorem front_length (piece rest : Text) : front (piece ++ rest) piece.length = piece := by
  rw [front, if_neg (by omega), Int.toNat_natCast, List.take_left]

theorem behind_length (piece rest : Text) (c : Char) :
    behind (piece ++ c :: rest) (piece.length + 1) = some rest := by
  have hlength : (piece.length : Int) + 1 ≤ (piece ++ c :: rest).length := by
    rw [List.length_append, List.length_cons]
    omega
  have hpos : ((piece.length : Int) + 1).toNat = piece.length + 1 := by omega
  rw [behind, if_pos ⟨by omega, hlength⟩, hpos, ← List.drop_drop, List.drop_left]
  rfl

theorem behind_zero (str : Text) : behind str (-1 + 1) = some str := by
  rw [behind, if_pos ⟨by omega, by omega⟩]
  rfl

theorem assign_text (p : Pair) (hshort : p.text.length < 2 ^ 31) :
    assign queries p.text = some (Pair.write queries p) := by
  have hkey : p.key.length < 2 ^ 31 := by
    rw [Pair.text, List.length_append, List.length_cons] at hshort
    omega
  rw [assign, Pair.text]
  rw [findInt_append p.key_equals hkey, behind_length, front_length]
  rfl

theorem Pair.text_ampersand (p : Pair) : '&' ∉ p.text := by
  rw [Pair.text, List.mem_append, List.mem_cons, not_or, not_or]
  exact ⟨p.key_ampersand, by decide, p.value_ampersand⟩

/-- The last round: without a `&` the position is -1, and what is left is the whole. -/
theorem readQueries_last (p : Pair) (hshort : p.text.length < 2 ^ 31) :
    readQueries (fuel + 1) queries p.text =
      some (Pair.write queries p) := by
  rw [readQueries, findInt_none p.text_ampersand, front, if_pos (by decide), assign_text p hshort,
    Option.bind_eq_bind, Option.bind_some, behind_zero, Option.bind_eq_bind, Option.bind_some,
    if_pos rfl]

theorem readQueries_next (p : Pair) (hshort : p.text.length < 2 ^ 31) :
    readQueries (fuel + 1) queries (p.text ++ '&' :: rest) =
      readQueries fuel (Pair.write queries p) rest := by
  rw [readQueries, findInt_append p.text_ampersand hshort, front_length, assign_text p hshort,
    Option.bind_eq_bind, Option.bind_some, behind_length, Option.bind_eq_bind, Option.bind_some,
    if_neg (by omega)]

theorem queryString_cons (p : Pair) (h : pairs ≠ []) :
    queryString (p :: pairs) = p.text ++ '&' :: queryString pairs := by
  rw [queryString, List.map_cons, List.intercalate_cons_of_ne_nil (by simpa using h)]
  simp [queryString]

theorem readQueries_queryString (hne : pairs ≠ []) (hfuel : pairs.length ≤ fuel)
    (hshort : (queryString pairs).length < 2 ^ 31) :
    readQueries fuel queries (queryString pairs) =
      some (pairs.foldl Pair.write queries) := by
  induction pairs generalizing fuel queries with
  | nil => contradiction
  | cons p pairs ih =>
    obtain ⟨fuel, rfl⟩ : ∃ n, fuel = n + 1 := ⟨fuel - 1, by rw [List.length_cons] at hfuel; omega⟩
    by_cases hlast : pairs = []
    · subst hlast
      have hone : queryString [p] = p.text := by simp [queryString]
      rw [hone] at hshort ⊢
      exact readQueries_last p hshort
    · rw [queryString_cons p hlast] at hshort ⊢
      rw [List.length_append, List.length_cons] at hshort
      rw [List.length_cons] at hfuel
      rw [readQueries_next p (by omega)]
      exact ih hlast (by omega) (by omega)

theorem foldl_update (pairs : List Pair) (queries : Queries) (key : Text) :
    pairs.foldl Pair.write queries key =
      (lastValue pairs key).or (queries key) := by
  induction pairs using List.reverseRecOn with
  | nil => rfl
  | append_singleton pairs p ih =>
    rw [List.foldl_append, List.foldl_cons, List.foldl_nil, lastValue, List.reverse_append,
      List.reverse_singleton, List.singleton_append, List.find?_cons]
    by_cases hkey : p.key = key
    · rw [← hkey, Pair.write, Function.update_self]
      simp
    · rw [Pair.write, Function.update_of_ne (Ne.symm hkey), ih]
      simp [hkey, lastValue]

theorem length_le_queryString (pairs : List Pair) :
    pairs.length ≤ (queryString pairs).length + 1 := by
  induction pairs with
  | nil => simp
  | cons p pairs ih =>
    by_cases hlast : pairs = []
    · simp [hlast]
    · rw [queryString_cons p hlast, List.length_append, List.length_cons, List.length_cons]
      omega

theorem lastValue_eq_some (hnodup : (pairs.map Pair.key).Nodup) (key value : Text) :
    lastValue pairs key = some value ↔ ∃ p ∈ pairs, p.key = key ∧ p.value = value := by
  rw [lastValue, Option.map_eq_some_iff]
  constructor
  · rintro ⟨p, hfound, hvalue⟩
    have hmem := List.mem_of_find?_eq_some hfound
    exact ⟨p, List.mem_reverse.mp hmem, by simpa using List.find?_some hfound, hvalue⟩
  · rintro ⟨p, hp, hkey, hvalue⟩
    have hsome : (pairs.reverse.find? (·.key = key)).isSome := by
      rw [List.find?_isSome]
      exact ⟨p, List.mem_reverse.mpr hp, by simpa using hkey⟩
    obtain ⟨q, hfound⟩ := Option.isSome_iff_exists.mp hsome
    have hq : q ∈ pairs := List.mem_reverse.mp (List.mem_of_find?_eq_some hfound)
    have hqkey : q.key = key := by simpa using List.find?_some hfound
    obtain rfl := List.inj_on_of_nodup_map hnodup hq hp (hqkey.trans hkey.symm)
    exact ⟨q, hfound, hvalue⟩

/-- The query string of any pairs is read back as their map: the loop ends, each key has
the value of its last pair, and without repeated keys these are the pairs themselves. -/
theorem parser_queryString (pairs : List Pair) (hne : pairs ≠ [])
    (hshort : (queryString pairs).length < 2 ^ 31) :
    parser (queryString pairs) = some (lastValue pairs) ∧
      ((pairs.map Pair.key).Nodup → ∀ key value,
        lastValue pairs key = some value ↔ ∃ p ∈ pairs, p.key = key ∧ p.value = value) := by
  refine ⟨?_, fun hnodup => lastValue_eq_some hnodup⟩
  rw [parser, readQueries_queryString hne (length_le_queryString pairs) hshort]
  congr 1
  funext key
  rw [foldl_update, Option.or_none]

/-- `h=a=b&h=&p=1` -/
def repeatedKey : List Pair :=
  [⟨['h'], "a=b".toList, by decide, by decide, by decide⟩,
    ⟨['h'], [], by decide, by decide, by decide⟩,
    ⟨['p'], ['1'], by decide, by decide, by decide⟩]

theorem parser_repeatedKey : parser "h=a=b&h=&p=1".toList = some (lastValue repeatedKey) ∧
    lastValue repeatedKey ['h'] = some [] :=
  ⟨(parser_queryString repeatedKey (by decide) (by decide)).1, rfl⟩

end NetworkProgramming.Console
