import NetworkProgramming.CommandLine
import NetworkProgramming.Npshell.Session
import Mathlib.Data.List.DropRight

/-! Pipelines as they are written, and how `executeCMD` reads them. -/
namespace NetworkProgramming.Npshell
open Library.CString CommandLine

/-- Commands joined by `|`, and a number behind a last `|` or `!`. -/
structure Pipeline where
  first : Text
  rest : List Text
  ending : Option (Char × Nat)

def endText : Option (Char × Nat) → Text
  | none => []
  | some (symbol, n) => symbol :: decimal n

def joinText (ending : Option (Char × Nat)) : Text → List Text → Text
  | command, [] => command ++ endText ending
  | command, next :: rest => command ++ '|' :: joinText ending next rest

def Pipeline.text (p : Pipeline) : Text := joinText p.ending p.first p.rest

def Pipeline.commands (p : Pipeline) : List Text := p.first :: p.rest

def argv (command : Text) : List Text :=
  (scanOperation command).1 :: strtok ' ' (scanOperation command).2

/-- The words that `executeCMD` does not run as commands. -/
def IsBuiltin (op : Text) : Prop :=
  op = "setenv".toList ∨ op = "printenv".toList ∨ op = "exit".toList

structure Segment (command : Text) : Prop where
  chars : ∀ c ∈ command, isWordChar c = true
  visible : ∃ c ∈ command, isspace c = false

/-- A pipeline that is read as it is written: no command behind a `|` starts like
a number, and the last one is no built-in. -/
structure Pipeline.Plain (p : Pipeline) : Prop where
  segments : ∀ command ∈ p.commands, Segment command
  later : ∀ command ∈ p.rest, scanInt command = none
  ending : ∀ symbol n, p.ending = some (symbol, n) →
    (symbol = '|' ∨ symbol = '!') ∧ 0 < n ∧ n < 2 ^ 31
  last : p.ending = none → ∀ command, p.commands.getLast? = some command →
    ¬ IsBuiltin (scanOperation command).1

instance (op : Text) : Decidable (IsBuiltin op) := by
  unfold IsBuiltin
  infer_instance

instance (command : Text) : Decidable (Segment command) :=
  decidable_of_iff (command.all isWordChar = true ∧ command.all isspace = false)
    ⟨fun h => ⟨List.all_eq_true.mp h.1, by simpa using h.2⟩,
      fun h => ⟨List.all_eq_true.mpr h.chars, by simpa using h.visible⟩⟩

instance (p : Pipeline) : Decidable p.Plain :=
  decidable_of_iff ((∀ command ∈ p.commands, Segment command) ∧
      (∀ command ∈ p.rest, scanInt command = none) ∧
      (∀ e ∈ p.ending, (e.1 = '|' ∨ e.1 = '!') ∧ 0 < e.2 ∧ e.2 < 2 ^ 31) ∧
      (p.ending = none → ∀ command ∈ p.commands.getLast?, ¬ IsBuiltin (scanOperation command).1))
    ⟨fun h => ⟨h.1, h.2.1, fun symbol n => h.2.2.1 (symbol, n), h.2.2.2⟩,
      fun h => ⟨h.segments, h.later, fun e => h.ending e.1 e.2, h.last⟩⟩

variable {command rest : Text} {set : Char → Bool} {ending : Option (Char × Nat)}

theorem scanSet_append (hne : command ≠ []) (hset : ∀ c ∈ command, set c = true)
    (hstop : ∀ c, rest.head? = some c → set c = false) :
    scanSet set (command ++ rest) = some (command, rest) := by
  have htake : rest.takeWhile set = [] := by
    cases rest with
    | nil => rfl
    | cons c rest => rw [List.takeWhile_cons_of_neg (by simp [hstop c rfl])]
  have hdrop : rest.dropWhile set = rest := by
    cases rest with
    | nil => rfl
    | cons c rest => rw [List.dropWhile_cons_of_neg (by simp [hstop c rfl])]
  rw [scanSet, List.takeWhile_append_of_pos hset, List.dropWhile_append_of_pos hset, htake, hdrop,
    List.append_nil, if_neg hne]

theorem Segment.ne_nil (h : Segment command) : command ≠ [] := by
  obtain ⟨c, hc, -⟩ := h.visible
  exact List.ne_nil_of_mem hc

theorem Segment.dropWhile_append (h : Segment command) :
    (command ++ rest).dropWhile isspace = command.dropWhile isspace ++ rest := by
  obtain ⟨c, hc, hvisible⟩ := h.visible
  have hne : (command.dropWhile isspace).isEmpty = false := by
    rw [List.isEmpty_eq_false_iff]
    intro hnil
    rw [List.dropWhile_eq_nil_iff] at hnil
    have hspace := hnil c hc
    rw [hvisible] at hspace
    contradiction
  rw [List.dropWhile_append, hne]
  rfl

theorem Segment.dropWhile (h : Segment command) : Segment (command.dropWhile isspace) := by
  have happend := @Segment.dropWhile_append command [] h
  obtain ⟨c, hc, hvisible⟩ := h.visible
  constructor
  · intro c hc
    exact h.chars c ((List.dropWhile_sublist _).mem hc)
  · rw [← List.takeWhile_append_dropWhile (p := isspace) (l := command), List.mem_append] at hc
    rcases hc with htake | hdrop
    · have hspace := List.mem_takeWhile_imp htake
      rw [hvisible] at hspace
      contradiction
    · exact ⟨c, hdrop, hvisible⟩

def tailText (ending : Option (Char × Nat)) : List Text → Text
  | [] => endText ending
  | next :: rest => '|' :: joinText ending next rest

theorem joinText_eq (more : List Text) :
    joinText ending command more = command ++ tailText ending more := by
  cases more <;> rfl

theorem unsigned_of_ne {c : Char} (hminus : c ≠ '-') (hplus : c ≠ '+') :
    unsigned (c :: rest) = c :: rest := by
  unfold unsigned
  split
  next h => exact absurd (List.cons.inj h).1 hminus
  next h => exact absurd (List.cons.inj h).1 hplus
  next => rfl

theorem scanInt_eq_none : scanInt rest = none ↔
    (unsigned (rest.dropWhile isspace)).head?.any Char.isDigit = false := by
  unfold scanInt
  split
  next h => simp [h]
  next h => simp [h]

theorem Segment.scanInt_append (h : Segment command) (hint : scanInt command = none)
    (hstop : ∀ c, rest.head? = some c → c.isDigit = false) : scanInt (command ++ rest) = none := by
  rw [scanInt_eq_none] at hint ⊢
  rw [h.dropWhile_append]
  obtain ⟨c, tail, hbody⟩ := List.exists_cons_of_ne_nil h.dropWhile.ne_nil
  rw [hbody] at hint ⊢
  have hbehind : tail.head?.any Char.isDigit = false →
      (tail ++ rest).head?.any Char.isDigit = false := by
    intro htail
    cases tail with
    | cons d tail => exact htail
    | nil =>
      cases hrest : rest.head? with
      | none => simp [hrest]
      | some d => simp [hrest, hstop d hrest]
  by_cases hminus : c = '-'
  · subst hminus
    exact hbehind hint
  · by_cases hplus : c = '+'
    · subst hplus
      exact hbehind hint
    · rw [unsigned_of_ne hminus hplus] at hint
      rw [List.cons_append, unsigned_of_ne hminus hplus]
      exact hint

theorem unsigned_decimal (n : Nat) : unsigned (decimal n) = decimal n := by
  obtain ⟨c, tail, hcons⟩ := List.exists_cons_of_ne_nil (decimal_ne_nil n)
  have hc : c.isDigit = true := isDigit_of_mem_decimal (n := n) (by simp [hcons])
  rw [hcons]
  apply unsigned_of_ne
  · rintro rfl
    exact absurd hc (by decide)
  · rintro rfl
    exact absurd hc (by decide)

theorem scanInt_decimal {n : Nat} (h : n < 2 ^ 31) : scanInt (decimal n) = some (n : Int) := by
  obtain ⟨c, tail, hcons⟩ := List.exists_cons_of_ne_nil (decimal_ne_nil n)
  have hc : c.isDigit = true := isDigit_of_mem_decimal (n := n) (by simp [hcons])
  unfold scanInt
  rw [dropWhile_decimal, unsigned_decimal, strtol_decimal h, int32_eq_self (by omega) (by omega),
    if_pos (by simp [hcons, hc])]

theorem Segment.scanSet (h : Segment command)
    (hstop : ∀ c, rest.head? = some c → isWordChar c = false) :
    scanSet isWordChar (command ++ rest) = some (command, rest) :=
  scanSet_append h.ne_nil h.chars hstop

theorem scanSet_symbol (set : Char → Bool) (symbol : Char) (hsymbol : set symbol = true)
    (hstop : ∀ c, rest.head? = some c → set c = false) :
    Npshell.scanSet set (symbol :: rest) = some ([symbol], rest) := by
  have hset : ∀ c ∈ [symbol], set c = true := by
    intro c hc
    rwa [List.mem_singleton.mp hc]
  exact scanSet_append (List.cons_ne_nil _ _) hset hstop

theorem ne_of_isWordChar {c d : Char} (hc : isWordChar c = true) (hd : isWordChar d = false) :
    c ≠ d := by
  rintro rfl
  rw [hc] at hd
  contradiction

theorem readCommand_last (h : Segment command) :
    readCommand command = ⟨1, some command, [], 0, none⟩ := by
  have hscan := @Segment.scanSet command [] h (by simp)
  rw [List.append_nil] at hscan
  have hnone : ∀ set, Npshell.scanSet set [] = none := fun set => rfl
  simp only [readCommand, readNumbered, readOrdinary, hscan, hnone]
  rfl

theorem readCommand_numbered (h : Segment command) {symbol : Char} {n : Nat}
    (hsymbol : symbol = '|' ∨ symbol = '!') (hn : n < 2 ^ 31) :
    readCommand (command ++ symbol :: decimal n) = ⟨3, some command, [symbol], n, none⟩ := by
  have hword : isWordChar symbol = false := by
    rcases hsymbol with rfl | rfl <;> decide
  have hscan := @Segment.scanSet command (symbol :: decimal n) h (by
    intro c hc
    rw [List.head?_cons, Option.some.injEq] at hc
    rw [← hc, hword])
  have hdigits : ∀ c, (decimal n).head? = some c → (c == '|' || c == '!') = false := by
    intro c hc
    have hdigit : c.isDigit = true := isDigit_of_mem_decimal (List.mem_of_head? hc)
    rw [Bool.or_eq_false_iff, beq_eq_false_iff_ne, beq_eq_false_iff_ne]
    constructor
    · rintro rfl
      exact absurd hdigit (by decide)
    · rintro rfl
      exact absurd hdigit (by decide)
  have hscanSymbol := scanSet_symbol (fun c => c == '|' || c == '!') symbol
    (by rcases hsymbol with rfl | rfl <;> rfl) hdigits
  have hread : readNumbered (command ++ symbol :: decimal n) =
      ⟨3, some command, [symbol], n, none⟩ := by
    simp only [readNumbered, hscan, hscanSymbol, scanInt_decimal hn]
  simp only [readCommand, hread, if_true]

/-- A command in front of a `|`; the rest of the text goes to `_buf`. -/
theorem readCommand_pipe (h : Segment command) {next : Char}
    (hnext : rest.head? = some next) (hword : isWordChar next = true)
    (hint : scanInt rest = none) (hline : ∀ c ∈ rest, c ≠ '\n')
    (hvisible : rest.dropWhile isspace ≠ []) :
    readCommand (command ++ '|' :: rest) =
      ⟨3, some command, ['|'], 0, some (rest.dropWhile isspace)⟩ := by
  have hscan := @Segment.scanSet command ('|' :: rest) h (by
    intro c hc
    rw [List.head?_cons, Option.some.injEq] at hc
    rw [← hc]
    decide)
  have hbar : next ≠ '|' := ne_of_isWordChar hword (by decide)
  have hbang : next ≠ '!' := ne_of_isWordChar hword (by decide)
  have hgreater : next ≠ '>' := ne_of_isWordChar hword (by decide)
  have hstop : ∀ set : Char → Bool, set next = false →
      ∀ c, rest.head? = some c → set c = false := by
    intro set hset c hc
    rw [hnext, Option.some.injEq] at hc
    rw [← hc, hset]
  have hfirst := scanSet_symbol (fun c => c == '|' || c == '!') '|' rfl
    (hstop _ (by simp [hbar, hbang]))
  have hsecond := scanSet_symbol (fun c => c == '|' || c == '!' || c == '>') '|' rfl
    (hstop _ (by simp [hbar, hbang, hgreater]))
  have hbuf : Npshell.scanSet (· != '\n') (rest.dropWhile isspace) =
      some (rest.dropWhile isspace, []) := by
    have hchars : ∀ c ∈ rest.dropWhile isspace, (c != '\n') = true := by
      intro c hc
      have hmem := hline c ((List.dropWhile_sublist _).mem hc)
      simpa using hmem
    have hrun := scanSet_append hvisible hchars (by simp : ∀ c, [].head? = some c → _)
    rwa [List.append_nil] at hrun
  have hnumbered : readNumbered (command ++ '|' :: rest) = ⟨2, some command, ['|'], 0, none⟩ := by
    simp only [readNumbered, hscan, hfirst, hint]
  simp only [readCommand, hnumbered, readOrdinary, hscan, hsecond, hbuf]
  rfl

section Join
variable {more : List Text}

/-- The symbols of an ending, and its digits, are none of the commands' characters
and no end of a line. -/
def GoodEnding (ending : Option (Char × Nat)) : Prop :=
  ∀ symbol n, ending = some (symbol, n) → symbol = '|' ∨ symbol = '!'

theorem tailText_head (hending : GoodEnding ending) {c : Char}
    (hc : (tailText ending more).head? = some c) : c = '|' ∨ c = '!' := by
  cases more with
  | cons next rest =>
    simp only [tailText, List.head?_cons, Option.some.injEq] at hc
    exact .inl hc.symm
  | nil =>
    cases ending with
    | none => simp [tailText, endText] at hc
    | some pair =>
      obtain ⟨symbol, n⟩ := pair
      simp only [tailText, endText, List.head?_cons, Option.some.injEq] at hc
      rw [← hc]
      exact hending symbol n rfl

theorem joinText_line (hending : GoodEnding ending)
    (hsegments : ∀ c ∈ command :: more, Segment c) :
    ∀ c ∈ joinText ending command more, c ≠ '\n' := by
  have hcommand : ∀ text, Segment text → ∀ c ∈ text, c ≠ '\n' :=
    fun text h c hc => ne_of_isWordChar (h.chars c hc) (by decide)
  induction more generalizing command with
  | nil =>
    intro c hc
    rw [joinText, List.mem_append] at hc
    rcases hc with hc | hc
    · exact hcommand command (hsegments command (List.mem_cons_self ..)) c hc
    · cases ending with
      | none => simp [endText] at hc
      | some pair =>
        obtain ⟨symbol, n⟩ := pair
        rw [endText, List.mem_cons] at hc
        rcases hc with rfl | hdigit
        · rcases hending c n rfl with rfl | rfl <;> decide
        · rintro rfl
          exact absurd hdigit (not_mem_decimal (by decide))
  | cons next rest ih =>
    intro c hc
    rw [joinText, List.mem_append, List.mem_cons] at hc
    rcases hc with hc | rfl | hc
    · exact hcommand command (hsegments command (List.mem_cons_self ..)) c hc
    · decide
    · exact ih (fun text htext => hsegments text (List.mem_cons_of_mem _ htext)) c hc

theorem joinText_scanInt (hending : GoodEnding ending) (h : Segment command)
    (hint : scanInt command = none) : scanInt (joinText ending command more) = none := by
  rw [joinText_eq]
  apply h.scanInt_append hint
  intro c hc
  rcases tailText_head hending hc with rfl | rfl <;> decide

theorem joinText_dropWhile (h : Segment command) :
    (joinText ending command more).dropWhile isspace =
      joinText ending (command.dropWhile isspace) more := by
  rw [joinText_eq, joinText_eq, h.dropWhile_append]

theorem head_joinText (h : Segment command) :
    ∃ c, (joinText ending command more).head? = some c ∧ isWordChar c = true := by
  obtain ⟨c, tail, rfl⟩ := List.exists_cons_of_ne_nil h.ne_nil
  refine ⟨c, ?_, h.chars c (List.mem_cons_self ..)⟩
  rw [joinText_eq]
  rfl

theorem joinText_ne_nil (h : Segment command) : joinText ending command more ≠ [] := by
  rw [joinText_eq]
  intro hnil
  exact h.ne_nil (List.append_eq_nil_iff.mp hnil).1

end Join

theorem scanOperation_dropWhile (command : Text) :
    scanOperation (command.dropWhile isspace) = scanOperation command := by
  have hword : scanWord (command.dropWhile isspace) = scanWord command := by
    simp only [scanWord, List.dropWhile_idempotent]
  rw [scanOperation, hword]
  rfl

theorem argv_dropWhile (command : Text) : argv (command.dropWhile isspace) = argv command := by
  rw [argv, argv, scanOperation_dropWhile]

variable {p : Pipeline}

theorem Pipeline.Plain.goodEnding (h : p.Plain) : GoodEnding p.ending :=
  fun symbol n hending => (h.ending symbol n hending).1

theorem Pipeline.Plain.text_ne_nil (h : p.Plain) : p.text ≠ [] :=
  joinText_ne_nil (h.segments p.first (List.mem_cons_self ..))

/-- What is left in `_buf` behind the first command. -/
def Pipeline.behind (p : Pipeline) (next : Text) (rest : List Text) : Pipeline :=
  ⟨next.dropWhile isspace, rest, p.ending⟩

theorem Pipeline.Plain.behind (h : p.Plain) {next : Text} {rest : List Text}
    (hrest : p.rest = next :: rest) : (p.behind next rest).Plain := by
  have hnext : Segment next := h.segments next (by simp [Pipeline.commands, hrest])
  constructor
  · intro command hcommand
    rw [Pipeline.commands, Pipeline.behind, List.mem_cons] at hcommand
    rcases hcommand with rfl | hmem
    · exact hnext.dropWhile
    · exact h.segments command (by simp [Pipeline.commands, hrest, hmem])
  · intro command hcommand
    exact h.later command (by simp [hrest]; exact .inr hcommand)
  · exact h.ending
  · intro hending command hcommand
    rw [Pipeline.commands, Pipeline.behind] at hcommand
    have hlast := h.last hending
    rw [Pipeline.commands, hrest, List.getLast?_cons_cons] at hlast
    cases rest with
    | nil =>
      rw [List.getLast?_singleton, Option.some.injEq] at hcommand
      rw [← hcommand, scanOperation_dropWhile]
      exact hlast next List.getLast?_singleton
    | cons second rest =>
      rw [List.getLast?_cons_cons] at hcommand hlast
      exact hlast command hcommand

theorem Pipeline.Plain.readCommand_pipe (h : p.Plain) {next : Text} {rest : List Text}
    (hrest : p.rest = next :: rest) : readCommand p.text =
      ⟨3, some p.first, ['|'], 0, some (p.behind next rest).text⟩ := by
  have hfirst : Segment p.first := h.segments p.first (by simp [Pipeline.commands])
  have hnext : Segment next := h.segments next (by simp [Pipeline.commands, hrest])
  obtain ⟨c, hc, hword⟩ := @head_joinText next p.ending rest hnext
  have hline := joinText_line h.goodEnding (fun text htext => h.segments text (by
    rw [Pipeline.commands, hrest]
    exact List.mem_cons_of_mem _ htext) : ∀ text ∈ next :: rest, Segment text)
  have hdrop := @joinText_dropWhile next p.ending rest hnext
  have hvisible : (joinText p.ending next rest).dropWhile isspace ≠ [] := by
    rw [hdrop]
    exact joinText_ne_nil hnext.dropWhile
  have hread := Npshell.readCommand_pipe hfirst hc hword
    (joinText_scanInt h.goodEnding hnext (h.later next (by simp [hrest]))) hline hvisible
  rw [hdrop] at hread
  rw [Pipeline.text, hrest]
  exact hread

theorem Pipeline.Plain.readCommand_end (h : p.Plain) (hrest : p.rest = [])
    (hending : p.ending = none) : readCommand p.text = ⟨1, some p.first, [], 0, none⟩ := by
  have htext : p.text = p.first := by
    rw [Pipeline.text, hrest, hending, joinText, endText, List.append_nil]
  rw [htext]
  exact readCommand_last (h.segments p.first (List.mem_cons_self ..))

theorem Pipeline.Plain.readCommand_number (h : p.Plain) (hrest : p.rest = []) {symbol : Char}
    {n : Nat} (hending : p.ending = some (symbol, n)) :
    readCommand p.text = ⟨3, some p.first, [symbol], n, none⟩ := by
  obtain ⟨hsymbol, -, hlt⟩ := h.ending symbol n hending
  have htext : p.text = p.first ++ symbol :: decimal n := by
    rw [Pipeline.text, hrest, hending, joinText, endText]
  rw [htext]
  exact readCommand_numbered (h.segments p.first (List.mem_cons_self ..)) hsymbol hlt

section Number
variable {before : Text}

theorem endNumber_decimal {symbol : Char} {n : Nat} (hsymbol : symbol = '|' ∨ symbol = '!')
    (hn : 0 < n) : endNumber (before ++ symbol :: decimal n) = some n := by
  have hreverse : (before ++ symbol :: decimal n).reverse =
      (decimal n).reverse ++ symbol :: before.reverse := by simp
  have hdigits : ∀ c ∈ (decimal n).reverse, c.isDigit = true :=
    fun c hc => isDigit_of_mem_decimal (List.mem_reverse.mp hc)
  have hsymbolDigit : symbol.isDigit = false := by
    rcases hsymbol with rfl | rfl <;> decide
  have hbody : ((decimal n).reverse ++ symbol :: before.reverse).dropWhile isspace =
      (decimal n).reverse ++ symbol :: before.reverse := by
    obtain ⟨c, tail, hcons⟩ := List.exists_cons_of_ne_nil
      (List.reverse_eq_nil_iff.not.mpr (decimal_ne_nil n))
    have hc := hdigits c (by simp [hcons])
    rw [hcons, List.cons_append, List.dropWhile_cons_of_neg (by simp [isspace_of_isDigit hc])]
  have hvalue : Nat.ofDigitChars 10 (decimal n) 0 = n := Nat.ofDigitChars_ten_toDigits
  simp only [endNumber, hreverse, hbody, List.takeWhile_append_of_pos hdigits,
    List.dropWhile_append_of_pos hdigits, List.takeWhile_cons, List.dropWhile_cons, hsymbolDigit,
    Bool.false_eq_true, if_false, List.append_nil, List.reverse_reverse, hvalue]
  rw [if_pos ⟨hsymbol, hn⟩]

theorem Segment.scanInt_of_digits (h : Segment command)
    (hdigits : ∀ c ∈ command.reverse.dropWhile isspace, c.isDigit = true) :
    scanInt command ≠ none := by
  have hsplit : command = (command.reverse.dropWhile isspace).reverse ++
      (command.reverse.takeWhile isspace).reverse := by
    rw [← List.reverse_append, List.takeWhile_append_dropWhile, List.reverse_reverse]
  have hne : (command.reverse.dropWhile isspace).reverse ≠ [] := by
    rw [ne_eq, List.reverse_eq_nil_iff, List.dropWhile_eq_nil_iff]
    intro hspaces
    obtain ⟨c, hc, hvisible⟩ := h.visible
    have hspace := hspaces c (List.mem_reverse.mpr hc)
    rw [hvisible] at hspace
    contradiction
  obtain ⟨c, tail, hcons⟩ := List.exists_cons_of_ne_nil hne
  have hc : c.isDigit = true := by
    apply hdigits c
    rw [← List.mem_reverse, hcons]
    exact List.mem_cons_self ..
  rw [hcons, List.cons_append] at hsplit
  rw [ne_eq, scanInt_eq_none, hsplit,
    List.dropWhile_cons_of_neg (by simp [isspace_of_isDigit hc]), unsigned_of_ne]
  · simp [hc]
  · rintro rfl
    exact absurd hc (by decide)
  · rintro rfl
    exact absurd hc (by decide)

/-- A last command without a number: in front of its digits at the end, if it has
any, stands another of its characters. -/
theorem endNumber_none (h : Segment command) (hbefore : before = [] ∨ scanInt command = none) :
    endNumber (before ++ command) = none := by
  have hvisible : (command.reverse.dropWhile isspace).isEmpty = false := by
    rw [List.isEmpty_eq_false_iff, ne_eq, List.dropWhile_eq_nil_iff]
    intro hspaces
    obtain ⟨c, hc, hvisible⟩ := h.visible
    have hspace := hspaces c (List.mem_reverse.mpr hc)
    rw [hvisible] at hspace
    contradiction
  have hbody : (before ++ command).reverse.dropWhile isspace =
      command.reverse.dropWhile isspace ++ before.reverse := by
    rw [List.reverse_append, List.dropWhile_append, hvisible]
    rfl
  simp only [endNumber, hbody]
  cases hdrop : (command.reverse.dropWhile isspace).dropWhile Char.isDigit with
  | nil =>
    rw [List.dropWhile_eq_nil_iff] at hdrop
    have hnumber := h.scanInt_of_digits hdrop
    obtain rfl : before = [] := hbefore.resolve_right hnumber
    rw [List.dropWhile_append_of_pos hdrop]
    rfl
  | cons c tail =>
    have hc : c ∈ command := by
      have hmem : c ∈ (command.reverse.dropWhile isspace).dropWhile Char.isDigit := by
        rw [hdrop]
        exact List.mem_cons_self ..
      have hinner := (List.dropWhile_sublist _).mem ((List.dropWhile_sublist _).mem hmem)
      exact List.mem_reverse.mp hinner
    have hword := h.chars c hc
    have hbar : c ≠ '|' := ne_of_isWordChar hword (by decide)
    have hbang : c ≠ '!' := ne_of_isWordChar hword (by decide)
    rw [List.dropWhile_append, hdrop]
    simp [hbar, hbang]

end Number

theorem endNumber_joinText (hending : ∀ symbol n, ending = some (symbol, n) →
      (symbol = '|' ∨ symbol = '!') ∧ 0 < n) (h : Segment command) {more : List Text}
    (hmore : ∀ next ∈ more, Segment next ∧ scanInt next = none) {before : Text}
    (hbefore : before = [] ∨ scanInt command = none) :
    endNumber (before ++ joinText ending command more) = ending.map Prod.snd := by
  induction more generalizing command before with
  | nil =>
    cases ending with
    | none =>
      rw [joinText, endText, List.append_nil]
      exact endNumber_none h hbefore
    | some pair =>
      obtain ⟨symbol, n⟩ := pair
      obtain ⟨hsymbol, hn⟩ := hending symbol n rfl
      rw [joinText, endText, ← List.append_assoc]
      exact endNumber_decimal hsymbol hn
  | cons next rest ih =>
    obtain ⟨hnext, hint⟩ := hmore next (List.mem_cons_self ..)
    have hassoc : before ++ joinText ending command (next :: rest) =
        (before ++ command ++ ['|']) ++ joinText ending next rest := by
      simp [joinText]
    rw [hassoc]
    exact ih hnext (fun text htext => hmore text (List.mem_cons_of_mem _ htext)) (.inr hint)

theorem Pipeline.Plain.endNumber_text (h : p.Plain) :
    endNumber p.text = p.ending.map Prod.snd := by
  have hnumber := @endNumber_joinText p.first p.ending
    (fun symbol n hending => ⟨(h.ending symbol n hending).1, (h.ending symbol n hending).2.1⟩)
    (h.segments p.first (List.mem_cons_self ..)) p.rest
    (fun next hnext => ⟨h.segments next (List.mem_cons_of_mem _ hnext), h.later next hnext⟩) []
    (.inl rfl)
  exact hnumber

end NetworkProgramming.Npshell
