import NetworkProgramming.Library.Words
import NetworkProgramming.Single.Exec

/-! Pipelines as they are typed, and how `do_exec` reads them. -/
namespace NetworkProgramming.Single
open Library.CString Library.Words CommandLine

structure CommandText where
  text : Text
  nonempty : text ≠ []
  plain : ∀ c ∈ ['|', '!', '<', '>'], c ∉ text

structure Digits where
  text : Text
  nonempty : text ≠ []
  digits : ∀ c ∈ text, c.isDigit = true

def Digits.number (ds : Digits) : Nat := Nat.ofDigitChars 10 ds.text 0

inductive Ending where
  | plain
  | pipe (ds : Digits)
  | error (ds : Digits)

def Ending.text : Ending → Text
  | .plain => []
  | .pipe ds => '|' :: ds.text
  | .error ds => '!' :: ds.text

def Ending.number : Ending → Option Nat
  | .plain => none
  | .pipe ds => some ds.number
  | .error ds => some ds.number

def Ending.isError : Ending → Bool
  | .error _ => true
  | _ => false

/-- Commands between `|`, and a number behind a last `|` or `!`. -/
structure Pipeline where
  front : List CommandText
  last : CommandText
  ending : Ending
  start : ∀ c, (front ++ [last]).head? = some c → c.text.head? ≠ some ' '

def Pipeline.commands (p : Pipeline) : List Text := (p.front ++ [p.last]).map CommandText.text

def Pipeline.text (p : Pipeline) : Text := ['|'].intercalate p.commands ++ p.ending.text

/-- What the line says. -/
def Pipeline.reading (p : Pipeline) : Reading :=
  ⟨p.commands, p.ending.number.map Nat.cast, p.ending.isError⟩

/-- A line without a number is not mistaken for a numbered one, and a number is
one that `int` can hold. -/
structure Pipeline.Readable (p : Pipeline) : Prop where
  unnumbered : p.ending.number = none → p.front = [] ∨ p.last.text.head? = some ' '
  range : ∀ n, p.ending.number = some n → n < 2 ^ 31

variable {p : Pipeline} {ds : Digits} {texts : List Text} {last : Text} {err : Bool}

theorem Digits.exists_cons (ds : Digits) :
    ∃ c tail, ds.text = c :: tail ∧ c.isDigit = true := by
  obtain ⟨c, tail, hcons⟩ := List.exists_cons_of_ne_nil ds.nonempty
  exact ⟨c, tail, hcons, ds.digits c (by simp [hcons])⟩

theorem Digits.not_mem (ds : Digits) {c : Char} (hc : c.isDigit = false) : c ∉ ds.text := by
  intro hmem
  rw [ds.digits c hmem] at hc
  contradiction

theorem Digits.head_ne_space (ds : Digits) : ds.text.head? ≠ some ' ' := by
  obtain ⟨c, tail, hcons, hc⟩ := ds.exists_cons
  rw [hcons, List.head?_cons, ne_eq, Option.some.injEq]
  rintro rfl
  exact absurd hc (by decide)

theorem Digits.strtol_eq (ds : Digits) : strtol ds.text = min (2 ^ 63 - 1) (ds.number : Int) := by
  obtain ⟨c, tail, hcons, hc⟩ := ds.exists_cons
  have hdrop : ds.text.dropWhile isspace = ds.text := by
    rw [hcons, List.dropWhile_cons_of_neg (by simp [isspace_of_isDigit hc])]
  have htake : ds.text.takeWhile Char.isDigit = ds.text := by
    rw [List.takeWhile_eq_self_iff]
    exact ds.digits
  unfold strtol
  dsimp only
  rw [hdrop]
  split
  next hminus =>
    have hmem : '-' ∈ ds.text := by simp [hminus]
    exact absurd hmem (ds.not_mem (by decide))
  next hplus =>
    have hmem : '+' ∈ ds.text := by simp [hplus]
    exact absurd hmem (ds.not_mem (by decide))
  next =>
    rw [htake]
    rfl

/-- The value that `do_exec` keeps is the number typed, as long as it fits. -/
theorem Digits.int32_eq (ds : Digits) :
    int32 (strtol ds.text) = ds.number ↔ ds.number < 2 ^ 31 := by
  rw [ds.strtol_eq]
  constructor
  · intro h
    have hlt := int32_lt (min (2 ^ 63 - 1) (ds.number : Int))
    rw [h] at hlt
    exact_mod_cast hlt
  · intro h
    have hmin : min (2 ^ 63 - 1) (ds.number : Int) = ds.number := by omega
    rw [hmin]
    exact int32_eq_self (by omega) (by exact_mod_cast h)

theorem readNumber_digits (hne : texts ≠ []) :
    readNumber (texts ++ [ds.text]) err = ⟨texts, some (int32 (strtol ds.text)), err⟩ := by
  have hlength : (texts ++ [ds.text]).length ≠ 1 := by
    have hpos := List.length_pos_of_ne_nil hne
    rw [List.length_append, List.length_singleton]
    omega
  rw [readNumber, List.getLast?_concat]
  dsimp only
  rw [if_pos ⟨hlength, ds.head_ne_space⟩, List.dropLast_concat]

theorem Pipeline.commands_eq (p : Pipeline) :
    p.commands = p.front.map CommandText.text ++ [p.last.text] := List.map_append

theorem Pipeline.commands_ne_nil (p : Pipeline) : p.commands ≠ [] := by
  rw [p.commands_eq]
  exact List.append_ne_nil_of_right_ne_nil _ (List.cons_ne_nil _ _)

theorem Pipeline.mem_commands (p : Pipeline) {piece : Text} (h : piece ∈ p.commands) :
    piece ≠ [] ∧ ∀ c ∈ ['|', '!', '<', '>'], c ∉ piece := by
  obtain ⟨command, -, rfl⟩ := List.mem_map.mp h
  exact ⟨command.nonempty, command.plain⟩

theorem Pipeline.blank_eq_false (p : Pipeline) (behind : Text) (more : List Text) :
    blank (p.front.map CommandText.text ++ (p.last.text ++ behind) :: more) = false := by
  obtain ⟨c, tail, hlast⟩ := List.exists_cons_of_ne_nil p.last.nonempty
  have hstart := p.start
  cases hfront : p.front with
  | nil =>
    rw [hfront, List.nil_append] at hstart
    have hc := hstart p.last rfl
    rw [hlast] at hc
    simpa [blank, hlast] using hc
  | cons first front =>
    rw [hfront, List.cons_append] at hstart
    have hc := hstart first rfl
    simpa [blank] using hc

theorem Pipeline.splitPipe_plain (p : Pipeline) :
    splitPipe (['|'].intercalate p.commands) = p.commands := by
  apply strtok_intercalate
  intro piece hmem
  exact ⟨(p.mem_commands hmem).1, (p.mem_commands hmem).2 '|' (by simp)⟩

theorem Pipeline.splitPipe_pipe (p : Pipeline) (ds : Digits) :
    splitPipe (['|'].intercalate p.commands ++ '|' :: ds.text) = p.commands ++ [ds.text] := by
  rw [← intercalate_concat p.commands_ne_nil]
  apply strtok_intercalate
  intro piece hmem
  rw [List.mem_append, List.mem_singleton] at hmem
  rcases hmem with hmem | rfl
  · exact ⟨(p.mem_commands hmem).1, (p.mem_commands hmem).2 '|' (by simp)⟩
  · exact ⟨ds.nonempty, ds.not_mem (by decide)⟩

/-- The number behind a `!` stays with the last command at first. -/
theorem Pipeline.splitPipe_error (p : Pipeline) (ds : Digits) :
    splitPipe (['|'].intercalate p.commands ++ '!' :: ds.text) =
      p.front.map CommandText.text ++ [p.last.text ++ '!' :: ds.text] := by
  rw [p.commands_eq, intercalate_append]
  apply strtok_intercalate
  intro piece hmem
  rw [List.mem_append, List.mem_singleton] at hmem
  rcases hmem with hmem | rfl
  · have hcommand : piece ∈ p.commands := by
      rw [p.commands_eq]
      exact List.mem_append_left _ hmem
    exact ⟨(p.mem_commands hcommand).1, (p.mem_commands hcommand).2 '|' (by simp)⟩
  · refine ⟨by simp, ?_⟩
    rw [List.mem_append, List.mem_cons, not_or, not_or]
    exact ⟨p.last.plain '|' (by simp), by decide, ds.not_mem (by decide)⟩

theorem Pipeline.splitErrorPipe (p : Pipeline) (ds : Digits) :
    splitErrorPipe (p.front.map CommandText.text ++ [p.last.text ++ '!' :: ds.text]) =
      (p.commands ++ [ds.text], true) := by
  have hbang : '!' ∉ p.last.text := p.last.plain '!' (by simp)
  have hpieces : strtok '!' (p.last.text ++ '!' :: ds.text) = [p.last.text, ds.text] := by
    rw [strtok_word_cons p.last.nonempty hbang, strtok_word ds.nonempty (ds.not_mem (by decide))]
  have hhead : strtokHead '!' (p.last.text ++ '!' :: ds.text) = p.last.text := by
    obtain ⟨c, tail, hlast⟩ := List.exists_cons_of_ne_nil p.last.nonempty
    have hc : ¬ (c == '!') = true := by
      rw [hlast, List.mem_cons, not_or] at hbang
      simpa using Ne.symm hbang.1
    rw [strtokHead, hlast, List.cons_append, List.takeWhile_cons_of_neg (p := (· == '!')) hc,
      List.dropWhile_cons_of_neg (p := (· == '!')) hc, List.nil_append, ← List.cons_append, ← hlast,
      takeWhile_append_delim hbang]
  rw [CommandLine.splitErrorPipe, List.getLast?_concat]
  dsimp only
  rw [hpieces, hhead, List.dropLast_concat, p.commands_eq]
  simp

theorem Pipeline.readLine_plain (p : Pipeline) (h : p.ending = .plain) :
    readLine p.text = some (readNumber p.commands false) := by
  have hblank := p.blank_eq_false [] []
  have hlast : p.commands.getLast? = some p.last.text := by
    rw [p.commands_eq, List.getLast?_concat]
  have hchr : strchr p.last.text '!' = none := strchr_eq_none (p.last.plain '!' (by simp))
  rw [List.append_nil, ← p.commands_eq] at hblank
  rw [readLine, Pipeline.text, h, Ending.text, List.append_nil, p.splitPipe_plain]
  simp [hblank, hlast, hchr]

theorem Pipeline.readLine_pipe (p : Pipeline) (h : p.ending = .pipe ds) :
    readLine p.text = some ⟨p.commands, some (int32 (strtol ds.text)), false⟩ := by
  have hblank := p.blank_eq_false [] [ds.text]
  have hchr : strchr ds.text '!' = none := strchr_eq_none (ds.not_mem (by decide))
  rw [List.append_nil, List.append_cons, ← p.commands_eq] at hblank
  rw [readLine, Pipeline.text, h, Ending.text, p.splitPipe_pipe]
  simp [hblank, hchr, readNumber_digits p.commands_ne_nil]

theorem Pipeline.readLine_error (p : Pipeline) (h : p.ending = .error ds) :
    readLine p.text = some ⟨p.commands, some (int32 (strtol ds.text)), true⟩ := by
  have hblank := p.blank_eq_false ('!' :: ds.text) []
  obtain ⟨c, tail, hcons, hc⟩ := ds.exists_cons
  have hspace : c ≠ ' ' := by
    rintro rfl
    exact absurd hc (by decide)
  have hchr : strchr (p.last.text ++ '!' :: ds.text) '!' = some ('!' :: c :: tail) := by
    rw [strchr, dropWhile_append_delim (p.last.plain '!' (by simp)), hcons]
  have herror := p.splitErrorPipe ds
  rw [readLine, Pipeline.text, h, Ending.text, p.splitPipe_error]
  simp [hblank, hchr, hspace, herror, readNumber_digits p.commands_ne_nil]

/-- A last command behind a `|` is read as a number unless it begins with a space. -/
theorem Pipeline.readNumber_plain (p : Pipeline) :
    readNumber p.commands false = ⟨p.commands, none, false⟩ ↔
      p.front = [] ∨ p.last.text.head? = some ' ' := by
  have hlength : (p.front.map CommandText.text ++ [p.last.text]).length ≠ 1 ↔ p.front ≠ [] := by
    rw [List.length_append, List.length_map, List.length_singleton, ← List.length_pos_iff]
    omega
  rw [p.commands_eq, readNumber, List.getLast?_concat]
  dsimp only
  split
  next h => simp [hlength.mp h.1, h.2]
  next h =>
    simp only [true_iff]
    by_contra hnot
    rw [not_or] at hnot
    exact h ⟨hlength.mpr hnot.1, hnot.2⟩

/-- A pipeline is read as it is typed exactly when it is readable. -/
theorem line_read_iff (p : Pipeline) : readLine p.text = some p.reading ↔ p.Readable := by
  have hnumber : ∀ ds : Digits, p.ending.number = some ds.number →
      ((int32 (strtol ds.text) = ds.number) ↔ p.Readable) := by
    intro ds hending
    rw [ds.int32_eq]
    constructor
    · intro hlt
      constructor
      · intro hnone
        rw [hending] at hnone
        contradiction
      · intro n hn
        rw [hending, Option.some.injEq] at hn
        rwa [← hn]
    · intro h
      exact h.range _ hending
  cases hending : p.ending with
  | plain =>
    rw [p.readLine_plain hending, Pipeline.reading, hending, Option.some.injEq]
    refine p.readNumber_plain.trans ?_
    constructor
    · intro h
      constructor
      · exact fun _ => h
      · intro n hn
        rw [hending] at hn
        contradiction
    · intro h
      exact h.unnumbered (by rw [hending]; rfl)
  | pipe ds =>
    rw [p.readLine_pipe hending, Pipeline.reading, hending, ← hnumber ds (by rw [hending]; rfl)]
    simp [Ending.number, Ending.isError]
  | error ds =>
    rw [p.readLine_error hending, Pipeline.reading, hending, ← hnumber ds (by rw [hending]; rfl)]
    simp [Ending.number, Ending.isError]

def joinedTightly : Pipeline where
  front := [⟨"ls".toList, by decide, by simp⟩]
  last := ⟨"cat".toList, by decide, by simp⟩
  ending := .plain
  start := by
    intro c hc
    cases hc
    decide

/-- The line `ls|cat` is taken for `ls` with the number 0. -/
theorem second_command_read_as_number :
    joinedTightly.text = "ls|cat".toList ∧
      readLine joinedTightly.text = some ⟨["ls".toList], some 0, false⟩ ∧
      readLine joinedTightly.text ≠ some joinedTightly.reading := by
  decide

end NetworkProgramming.Single
