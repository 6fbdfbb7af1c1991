import NetworkProgramming.Npshell.Handing

/-! What becomes of the characters of a line: those that a command, a built-in or a file
name takes, and those that the patterns leave behind. -/
namespace NetworkProgramming.Npshell
open Library.CString Library.Descriptors Library.Run Library.Words

/-- Behind the number that `%d` reads, if there is one. -/
def skipNumber (text : Text) : Text :=
  let digits := unsigned (text.dropWhile isspace)
  if digits.head?.any Char.isDigit then digits.dropWhile Char.isDigit else text

theorem unsigned_suffix (text : Text) : unsigned text <:+ text := by
  unfold unsigned
  split
  next => exact List.suffix_cons _ _
  next => exact List.suffix_cons _ _
  next => exact List.suffix_rfl

theorem skipNumber_suffix (text : Text) : skipNumber text <:+ text := by
  unfold skipNumber
  dsimp only
  split
  next =>
    exact (List.dropWhile_suffix _).trans ((unsigned_suffix _).trans (List.dropWhile_suffix _))
  next => exact List.suffix_rfl

theorem skipNumber_none {text : Text} (h : scanInt text = none) : skipNumber text = text := by
  rw [scanInt_eq_none] at h
  unfold skipNumber
  dsimp only
  rw [if_neg (by rw [h]; decide)]

/-- The characters of a text but its spaces, its symbols and the numbers behind them. -/
def plainText : Text → Text
  | [] => []
  | c :: rest =>
    if isSymbol c then plainText (skipNumber rest)
    else if isspace c then plainText rest
    else c :: plainText rest
termination_by text => text.length
decreasing_by
  · have hle := (skipNumber_suffix rest).length_le
    rw [List.length_cons]
    omega
  all_goals simp

def visible (text : Text) : Text := text.filter fun c => !isspace c

def fileName : Option File → Text
  | some (.created name) => name
  | _ => []

def Outcome.words : Outcome → Text
  | .ran c => c.argv.flatten ++ fileName c.stdout
  | .setenv var value => "setenv".toList ++ (var ++ value)
  | .printenv arg => "printenv".toList ++ arg
  | .exit => "exit".toList
  | _ => []

/-- The rounds of the inner loop from the `i`th on, to its end or that of the process. -/
inductive Ends (calls : Nat → Calls) : Nat → Session → List Outcome → Prop
  | stop (i : Nat) (st : Session) (hinput : st.input = []) : Ends calls i st []
  | exits (i : Nat) (st : Session) (s : Shell) (hinput : st.input ≠ [])
      (hround : executeCMD st.shell st.input (calls i) = some (s, .exit)) : Ends calls i st [.exit]
  | round (i : Nat) (st st' : Session) (s : Shell) (o : Outcome) (outcomes : List Outcome)
      (hround : executeCMD st.shell st.input (calls i) = some (s, o))
      (hstep : next st (.round (calls i)) = some st') (hrest : Ends calls (i + 1) st' outcomes) :
      Ends calls i st (o :: outcomes)

/-- The error is printed, in the `i`th round or behind it. -/
inductive Complains (calls : Nat → Calls) : Nat → Session → Prop
  | now (i : Nat) (st : Session) (s : Shell)
      (hround : executeCMD st.shell st.input (calls i) = some (s, .error)) : Complains calls i st
  | later (i : Nat) (st st' : Session) (hstep : next st (.round (calls i)) = some st')
      (h : Complains calls (i + 1) st') : Complains calls i st

/-- The error is printed, or the loop ends and the line's characters all had a use. -/
def KeepsText (calls : Nat → Calls) (i : Nat) (st : Session) : Prop :=
  Complains calls i st ∨ ∃ outcomes, Ends calls i st outcomes ∧
    (plainText st.input).Sublist (outcomes.flatMap Outcome.words)

/-- `pipe` gives numbers that are not in use, in every round from the `i`th on. -/
inductive Answers (calls : Nat → Calls) : Nat → Session → Prop
  | stop (i : Nat) (st : Session) (hinput : st.input = []) : Answers calls i st
  | round (i : Nat) (st : Session) (hanswered : Answered st.shell st.input (calls i))
      (hrest : ∀ st', next st (.round (calls i)) = some st' → Answers calls (i + 1) st') :
      Answers calls i st

/-- What the patterns store of a text has room in `symbolMeth`, `OP` and `arg`, and so
in the rounds behind it. -/
inductive FitsBuffers : Text → Prop
  | nil : FitsBuffers []
  | round (text : Text) (hsymbol : (readCommand text).symbolMeth.length < 2)
      (hop : ∀ command ∈ (readCommand text).instruction,
        (scanOperation command).1.length < tempBuffSize ∧
          (scanOperation command).2.length < tempBuffSize)
      (hrest : FitsBuffers (leftOver text)) : FitsBuffers text

/-- Behind the command there is at most a symbol with its number. -/
def Covered (text : Text) : Prop := plainText (text.dropWhile isWordChar) = []

/-- `setenv` with no more than two arguments, `exit` with none, or any other command. -/
def TakesAll (command : Text) : Prop :=
  ((scanOperation command).1 = "setenv".toList → (argv command).length ≤ 3) ∧
    ((scanOperation command).1 = "exit".toList → (argv command).length ≤ 1)

/-- The patterns read a line to its end, or find it wrong, and what they read can be run. -/
inductive Whole (calls : Nat → Calls) : Nat → Text → Prop
  | done (i : Nat) : Whole calls i []
  | refused (i : Nat) (text : Text) (h : Refuses text) : Whole calls i text
  | alone (i : Nat) (text : Text) (hn : (readCommand text).n = 1) (hrest : Covered text)
      (hargs : TakesAll (text.takeWhile isWordChar)) : Whole calls i text
  | numbered (i : Nat) (text : Text) (hn : (readCommand text).n = 3)
      (hnumber : 0 < (readCommand text).numPipe) (hrest : Covered text)
      (hforks : (calls i).forks ∨ plainText text = []) : Whole calls i text
  | zero (i : Nat) (text : Text) (hn : (readCommand text).n = 3)
      (hnumber : (readCommand text).numPipe = 0)
      (hsymbol : (readCommand text).symbolMeth.head? = some '|')
      (hbuf : (readCommand text).buf = none) (hrest : Covered text) : Whole calls i text
  | piped (i : Nat) (text : Text) (hn : (readCommand text).n = 3)
      (hsymbol : (readCommand text).symbolMeth.head? = some '|')
      (hbuf : (readCommand text).buf ≠ none) (hrest : Whole calls (i + 1) (leftOver text)) :
      Whole calls i text
  | redirected (i : Nat) (text : Text) (hn : (readCommand text).n = 3)
      (hnumber : (readCommand text).numPipe = 0)
      (hsymbol : (readCommand text).symbolMeth.head? = some '>')
      (hopens : (calls i).opens ∨ plainText text = []) : Whole calls i text

section PlainText
variable {text command rest : Text} {c : Char}

theorem plainText_symbol (h : isSymbol c = true) :
    plainText (c :: rest) = plainText (skipNumber rest) := by
  rw [plainText, if_pos h]

theorem isSymbol_of_isspace (h : isspace c = true) : isSymbol c = false := by
  by_contra hsymbol
  rw [Bool.not_eq_false] at hsymbol
  simp only [isSymbol, Bool.or_eq_true, beq_iff_eq] at hsymbol
  rcases hsymbol with (rfl | rfl) | rfl
  all_goals exact absurd h (by decide)

theorem isSymbol_of_isWordChar (h : isWordChar c = true) : isSymbol c = false := by
  by_contra hsymbol
  rw [Bool.not_eq_false] at hsymbol
  simp only [isSymbol, Bool.or_eq_true, beq_iff_eq] at hsymbol
  rcases hsymbol with (rfl | rfl) | rfl
  all_goals exact absurd h (by decide)

theorem plainText_append (h : ∀ c ∈ command, isSymbol c = false) :
    plainText (command ++ rest) = visible command ++ plainText rest := by
  induction command with
  | nil => rfl
  | cons c command ih =>
    have hc := h c List.mem_cons_self
    have htail := ih fun d hd => h d (List.mem_cons_of_mem _ hd)
    rw [List.cons_append, plainText, if_neg (by rw [hc]; decide), htail]
    unfold visible
    split
    next hspace => rw [List.filter_cons_of_neg (by simpa using hspace)]
    next hspace => rw [List.filter_cons_of_pos (by simpa using hspace), List.cons_append]

theorem visible_takeWhile (text : Text) : visible (text.takeWhile isspace) = [] := by
  rw [visible, List.filter_eq_nil_iff]
  intro c hc
  simpa using List.mem_takeWhile_imp hc

theorem visible_dropWhile (text : Text) : visible (text.dropWhile isspace) = visible text := by
  have hsplit := congrArg visible (List.takeWhile_append_dropWhile (p := isspace) (l := text))
  rw [visible, List.filter_append] at hsplit
  change visible (text.takeWhile isspace) ++ _ = _ at hsplit
  rwa [visible_takeWhile, List.nil_append] at hsplit

theorem plainText_dropWhile (text : Text) : plainText (text.dropWhile isspace) = plainText text := by
  have hspace : ∀ c ∈ text.takeWhile isspace, isSymbol c = false :=
    fun c hc => isSymbol_of_isspace (List.mem_takeWhile_imp hc)
  have hsplit := @plainText_append _ (text.dropWhile isspace) hspace
  rw [List.takeWhile_append_dropWhile, visible_takeWhile, List.nil_append] at hsplit
  exact hsplit.symm

theorem plainText_sublist (text : Text) : (plainText text).Sublist text := by
  fun_induction plainText text with
  | case1 => exact List.Sublist.slnil
  | case2 c rest hsymbol ih =>
    exact (ih.trans (skipNumber_suffix rest).sublist).trans (List.sublist_cons_self c rest)
  | case3 c rest hsymbol hspace ih => exact ih.trans (List.sublist_cons_self c rest)
  | case4 c rest hsymbol hspace ih => exact ih.cons_cons c

theorem visible_plainText (text : Text) : visible (plainText text) = plainText text := by
  fun_induction plainText text with
  | case1 => rfl
  | case2 c rest hsymbol ih => exact ih
  | case3 c rest hsymbol hspace ih => exact ih
  | case4 c rest hsymbol hspace ih =>
    rw [visible, List.filter_cons_of_pos (by simpa using hspace)]
    exact congrArg (c :: ·) ih

theorem plainText_split (text : Text) : plainText text =
    visible (text.takeWhile isWordChar) ++ plainText (text.dropWhile isWordChar) := by
  have hword : ∀ c ∈ text.takeWhile isWordChar, isSymbol c = false :=
    fun c hc => isSymbol_of_isWordChar (List.mem_takeWhile_imp hc)
  have hsplit := @plainText_append _ (text.dropWhile isWordChar) hword
  rwa [List.takeWhile_append_dropWhile] at hsplit

theorem argv_flatten (hchars : ∀ c ∈ command, isWordChar c = true) :
    (argv command).flatten = visible command := by
  have hvisible : ∀ text : Text, (∀ c ∈ text, isWordChar c = true) →
      visible text = text.filter (· != ' ') := by
    intro text htext
    apply List.filter_congr
    intro c hc
    rw [isspace_of_isWordChar (htext c hc)]
    rfl
  by_cases hop : (scanOperation command).1 = []
  · obtain ⟨hword, harg⟩ := scanOperation_split hchars
    obtain ⟨hbody, -, -, hempty⟩ := scanWord_split command
    have hnil : (scanWord command).1 = [] := hword ▸ hop
    rw [hnil, hempty hnil, List.append_nil, List.dropWhile_eq_nil_iff] at hbody
    have hnone : visible command = [] := by
      rw [visible, List.filter_eq_nil_iff]
      intro c hc
      simpa using hbody c hc
    rw [argv, harg, hop, hempty hnil, hnone]
    rfl
  · rw [argv_eq_strtok hchars hop, strtok_flatten, hvisible command hchars]

end PlainText

section Reading
variable {text : Text} {s : Shell}

theorem readCommand_instruction (h : (readCommand text).n = 1 ∨ (readCommand text).n = 3) :
    (readCommand text).instruction = some (text.takeWhile isWordChar) := by
  have hscanned := readCommand_scanned text
  generalize readCommand text = r at hscanned h
  cases hscanned with
  | nothing => simp at h
  | unread => simp at h
  | alone command rest hcommand => rw [hcommand.takeWhile]
  | bare => simp at h
  | number command symbols rest n hcommand => rw [hcommand.takeWhile]
  | ordinary command symbols rest body more hcommand => rw [hcommand.takeWhile]

theorem stored_instruction (h : (readCommand text).n = 1 ∨ (readCommand text).n = 3) :
    (stored s text).instruction = text.takeWhile isWordChar := by
  rw [stored, readCommand_instruction h, Option.getD_some]

theorem Longest.singleton {set : Char → Bool} {symbols rest : Text} (h : Longest set symbols rest)
    (hlength : symbols.length < 2) : ∃ symbol, symbols = [symbol] ∧ set symbol = true := by
  obtain ⟨symbol, tail, rfl⟩ := List.exists_cons_of_ne_nil h.ne_nil
  have htail : tail = [] := by
    rw [List.length_cons] at hlength
    exact List.length_eq_zero_iff.mp (by omega)
  exact ⟨symbol, by rw [htail], h.chars symbol List.mem_cons_self⟩

theorem body_whole {rest body more : Text} (hbody : Longest (· != '\n') body more)
    (hrest : rest.dropWhile isspace = body ++ more) (hline : '\n' ∉ rest) :
    rest.dropWhile isspace = body := by
  have hmore : more = [] := by
    cases hcases : more with
    | nil => rfl
    | cons c more =>
      have hc := hbody.stop c (by rw [hcases]; rfl)
      have heq : c = '\n' := by simpa using hc
      have hmem : c ∈ rest.dropWhile isspace := by
        rw [hrest, hcases]
        exact List.mem_append_right _ List.mem_cons_self
      exact absurd (heq ▸ (List.dropWhile_sublist _).mem hmem) hline
  rw [hrest, hmore, List.append_nil]

/-- The rest of a line behind a `|` is the text of the next round. -/
theorem plainText_leftOver (hsymbol : (readCommand text).symbolMeth.head? = some '|')
    (hfits : (readCommand text).symbolMeth.length < 2) (hbuf : (readCommand text).buf ≠ none)
    (hline : '\n' ∉ text) :
    plainText (text.dropWhile isWordChar) = plainText (leftOver text) := by
  have hscanned := readCommand_scanned text
  unfold leftOver
  rw [hsymbol, if_neg (by decide)]
  generalize readCommand text = r at hscanned hsymbol hfits hbuf
  cases hscanned with
  | ordinary command symbols rest body more hcommand hsymbols hbody hrest hn =>
    obtain ⟨symbol, rfl, hset⟩ := hsymbols.singleton hfits
    obtain rfl : symbol = '|' := by simpa using hsymbol
    have hlineRest : '\n' ∉ rest := fun hmem => hline (by simp [hmem])
    rw [hcommand.dropWhile, List.singleton_append, plainText_symbol hset,
      skipNumber_none (hn (by decide)), ← plainText_dropWhile rest, body_whole hbody hrest hlineRest]
    rfl
  | _ => exact absurd rfl hbuf

theorem plainText_buf (hn : (readCommand text).n = 3) (hzero : (readCommand text).numPipe = 0)
    (hsymbol : (readCommand text).symbolMeth.head? = some '>')
    (hfits : (readCommand text).symbolMeth.length < 2) (hline : '\n' ∉ text) :
    (plainText (text.dropWhile isWordChar)).Sublist ((readCommand text).buf.getD []) := by
  have hscanned := readCommand_scanned text
  generalize readCommand text = r at hscanned hn hzero hsymbol hfits
  cases hscanned with
  | number command symbols rest n hcommand hsymbols hint =>
    obtain ⟨symbol, rfl, hset⟩ := hsymbols.singleton hfits
    obtain rfl : symbol = '>' := by simpa using hsymbol
    contradiction
  | ordinary command symbols rest body more hcommand hsymbols hbody hrest hint =>
    obtain ⟨symbol, rfl, hset⟩ := hsymbols.singleton hfits
    have hlineRest : '\n' ∉ rest := fun hmem => hline (by simp [hmem])
    rw [hcommand.dropWhile, List.singleton_append, plainText_symbol hset, Option.getD_some,
      ← body_whole hbody hrest hlineRest, ← visible_plainText]
    have hvisible := ((plainText_sublist _).trans (skipNumber_suffix rest).sublist).filter
      fun c => !isspace c
    have hrestVisible : (visible rest).Sublist (rest.dropWhile isspace) := by
      rw [← visible_dropWhile]
      exact List.filter_sublist
    exact hvisible.trans hrestVisible
  | _ => simp at hn

end Reading

section Words
variable {command more arg text : Text} {s : Shell} {c : Child} {t : Table}

theorem append_sublist_self {front behind : Text} :
    (front ++ behind).Sublist front ↔ behind = [] := by
  constructor
  · intro h
    have hlength := h.length_le
    rw [List.length_append] at hlength
    exact List.length_eq_zero_iff.mp (by omega)
  · rintro rfl
    rw [List.append_nil]

theorem ne_nil_of_mem_strtok {delim : Char} {piece : Text} (h : piece ∈ strtok delim text) :
    piece ≠ [] := by
  rw [strtok, List.mem_filter] at h
  simpa using h.2

theorem taken_iff {pieces : List Text} (h : ∀ piece ∈ pieces, piece ≠ []) (more : Text) (k : Nat) :
    (pieces.flatten ++ more).Sublist (pieces.take k).flatten ↔ more = [] ∧ pieces.length ≤ k := by
  have hsplit : pieces.flatten = (pieces.take k).flatten ++ (pieces.drop k).flatten := by
    rw [← List.flatten_append, List.take_append_drop]
  rw [hsplit, List.append_assoc, append_sublist_self, List.append_eq_nil_iff, and_comm,
    List.flatten_eq_nil_iff, ← List.drop_eq_nil_iff]
  refine and_congr_right fun _ => ?_
  constructor
  · intro hnone
    rw [List.eq_nil_iff_forall_not_mem]
    intro piece hmem
    exact h piece (List.mem_of_mem_drop hmem) (hnone piece hmem)
  · intro hnil piece hmem
    rw [hnil] at hmem
    contradiction

theorem scanSetting_pieces (hchars : ∀ c ∈ arg, isWordChar c = true) :
    (scanSetting arg).1 ++ (scanSetting arg).2 = ((strtok ' ' arg).take 2).flatten := by
  have hrest : ∀ c ∈ (scanWord arg).2, isWordChar c = true :=
    fun c hc => hchars c (scanWord_mem (.inr hc))
  unfold scanSetting
  dsimp only
  by_cases hvar : (scanWord arg).1 = []
  · rw [strtok_eq_nil hchars hvar, hvar, (scanWord_split arg).2.2.2 hvar]
    rfl
  rw [strtok_eq_cons hchars hvar]
  by_cases hvalue : (scanWord (scanWord arg).2).1 = []
  · rw [strtok_eq_nil hrest hvalue, hvalue]
    simp
  · rw [strtok_eq_cons hrest hvalue]
    simp

theorem builtin_words (hchars : ∀ c ∈ command, isWordChar c = true)
    (hop : IsBuiltin (scanOperation command).1) (hmore : visible more = more) :
    (visible command ++ more).Sublist (builtinOutcome command).words ↔
      more = [] ∧ TakesAll command := by
  have hargChars : ∀ c ∈ (scanOperation command).2, isWordChar c = true := by
    intro c hc
    rw [(scanOperation_split hchars).2] at hc
    exact hchars c (scanWord_mem (.inr ((List.dropWhile_sublist _).mem hc)))
  have hpieces : ∀ piece ∈ strtok ' ' (scanOperation command).2, piece ≠ [] :=
    fun piece hmem => ne_nil_of_mem_strtok hmem
  rw [← argv_flatten hchars, argv, List.flatten_cons, List.append_assoc]
  unfold builtinOutcome TakesAll
  dsimp only
  rw [argv, List.length_cons]
  generalize (scanOperation command).2 = arg at hargChars hpieces
  generalize (scanOperation command).1 = op at hop
  rcases hop with rfl | rfl | rfl
  · rw [if_pos rfl]
    dsimp only [Outcome.words]
    have hlength : (strtok ' ' arg).length ≤ 2 ↔ (strtok ' ' arg).length + 1 ≤ 3 := by omega
    rw [List.append_sublist_append_left, scanSetting_pieces hargChars, taken_iff hpieces, hlength]
    simp
  · rw [if_neg (by decide : "printenv".toList ≠ "setenv".toList), if_pos rfl]
    dsimp only [Outcome.words]
    rw [List.append_sublist_append_left]
    have hvisible : (strtok ' ' arg).flatten = visible arg := by
      rw [strtok_flatten]
      apply List.filter_congr
      intro c hc
      rw [isspace_of_isWordChar (hargChars c hc)]
      rfl
    rw [hvisible]
    constructor
    · intro h
      have hfilter := h.filter fun c => !isspace c
      have hsame : (visible arg ++ more).filter (fun c => !isspace c) = visible arg ++ more := by
        rw [List.filter_append, visible, List.filter_filter]
        simp only [Bool.and_self]
        exact congrArg _ hmore
      rw [hsame] at hfilter
      refine ⟨append_sublist_self.mp hfilter, ?_, ?_⟩
      all_goals
        intro heq
        exact absurd heq (by decide)
    · rintro ⟨rfl, -⟩
      rw [List.append_nil]
      exact List.filter_sublist
  · rw [if_neg (by decide : "exit".toList ≠ "setenv".toList),
      if_neg (by decide : "exit".toList ≠ "printenv".toList)]
    dsimp only [Outcome.words]
    have htaken := taken_iff hpieces more 0
    rw [List.take_zero, List.flatten_nil] at htaken
    rw [append_sublist_self, ← List.sublist_nil, htaken]
    simp

theorem fileName_eq_nil (h : Uncreated t) (fd : Int) : fileName (t fd) = [] := by
  cases hfile : t fd with
  | none => rfl
  | some file =>
    cases file with
    | created name => exact absurd hfile (h fd name)
    | _ => rfl

theorem ran_words (hn : (readCommand text).n = 1 ∨ (readCommand text).n = 3)
    (hc : c.argv = argv (stored s text).instruction) (hout : fileName c.stdout = []) :
    (Outcome.ran c).words = visible (text.takeWhile isWordChar) := by
  have hchars : ∀ c ∈ text.takeWhile isWordChar, isWordChar c = true :=
    fun c hc => List.mem_takeWhile_imp hc
  change c.argv.flatten ++ fileName c.stdout = _
  rw [hout, List.append_nil, hc, stored_instruction hn, argv_flatten hchars]

end Words

section Rounds
variable {calls : Nat → Calls} {i : Nat} {st st' : Session} {s : Shell} {o : Outcome}
  {outcomes : List Outcome} {text : Text}

theorem Ends.stopped (h : Ends calls i st outcomes) (hinput : st.input = []) : outcomes = [] := by
  cases h with
  | stop => rfl
  | exits _ _ s hne => exact absurd hinput hne
  | round _ _ st' s o outcomes hround hstep =>
    obtain ⟨-, -, -, hne, -⟩ := next_round hstep
    exact absurd hinput hne

theorem Complains.ne_nil (h : Complains calls i st) : st.input ≠ [] := by
  intro hnil
  cases h with
  | now _ _ s hround =>
    rw [hnil] at hround
    exact absurd ((executeCMD_error_iff hround).mp rfl) (by decide)
  | later _ _ st' hstep =>
    obtain ⟨-, -, -, hne, -⟩ := next_round hstep
    exact hne hnil

theorem complains_iff (hround : executeCMD st.shell st.input (calls i) = some (s, o)) :
    Complains calls i st ↔
      o = .error ∨ ∃ st', next st (.round (calls i)) = some st' ∧ Complains calls (i + 1) st' := by
  constructor
  · intro h
    cases h with
    | now _ _ s' hround' =>
      rw [hround, Option.some.injEq, Prod.mk.injEq] at hround'
      exact .inl hround'.2
    | later _ _ st' hstep h => exact .inr ⟨st', hstep, h⟩
  · rintro (rfl | ⟨st', hstep, h⟩)
    · exact .now i st s hround
    · exact .later i st st' hstep h

theorem keeps_last (hbuf : st.shell.buf = []) (hne : st.input ≠ [])
    (hround : executeCMD st.shell st.input (calls i) = some (s, o)) (hleft : leftOver st.input = []) :
    KeepsText calls i st ↔ o = .error ∨ (plainText st.input).Sublist o.words := by
  have hinput : ∀ st', next st (.round (calls i)) = some st' → st'.input = [] := by
    intro st' hstep
    obtain ⟨_, _, -, -, hinput, -⟩ := next_round_leftOver hstep hbuf
    rw [hinput, hleft]
  have hcomplains : Complains calls i st ↔ o = .error := by
    rw [complains_iff hround, or_iff_left]
    rintro ⟨st', hstep, h⟩
    exact h.ne_nil (hinput st' hstep)
  have hends : ∀ outcomes, Ends calls i st outcomes ↔ outcomes = [o] := by
    intro outcomes
    constructor
    · intro h
      cases h with
      | stop _ _ hnil => exact absurd hnil hne
      | exits _ _ s' _ hround' =>
        rw [hround, Option.some.injEq, Prod.mk.injEq] at hround'
        rw [hround'.2]
      | round _ _ st' s' o' rest hround' hstep hrest =>
        rw [hround, Option.some.injEq, Prod.mk.injEq] at hround'
        rw [hround'.2, hrest.stopped (hinput st' hstep)]
    · rintro rfl
      by_cases hexit : o = .exit
      · subst hexit
        exact .exits i st s hne hround
      · obtain ⟨st', hstep⟩ := next_returns hne hround hexit
        exact .round i st st' s o [] hround hstep (.stop _ st' (hinput st' hstep))
  unfold KeepsText
  simp only [hcomplains, hends, exists_eq_left, List.flatMap_singleton]

theorem keeps_more (hround : executeCMD st.shell st.input (calls i) = some (s, o))
    (hexit : o ≠ .exit) (herror : o ≠ .error) (hstep : next st (.round (calls i)) = some st')
    (hplain : plainText st.input = o.words ++ plainText st'.input) :
    KeepsText calls i st ↔ KeepsText calls (i + 1) st' := by
  have hends : ∀ outcomes, Ends calls i st outcomes ↔
      ∃ rest, outcomes = o :: rest ∧ Ends calls (i + 1) st' rest := by
    intro outcomes
    constructor
    · intro h
      cases h with
      | stop _ _ hnil =>
        obtain ⟨-, -, -, hne, -⟩ := next_round hstep
        exact absurd hnil hne
      | exits _ _ s' _ hround' =>
        rw [hround, Option.some.injEq, Prod.mk.injEq] at hround'
        exact absurd hround'.2 hexit
      | round _ _ st'' s' o' rest hround' hstep' hrest =>
        rw [hround, Option.some.injEq, Prod.mk.injEq] at hround'
        rw [hstep, Option.some.injEq] at hstep'
        subst hstep'
        exact ⟨rest, by rw [hround'.2], hrest⟩
    · rintro ⟨rest, rfl, hrest⟩
      exact .round i st st' s o rest hround hstep hrest
  unfold KeepsText
  rw [complains_iff hround, or_iff_right herror]
  simp only [hstep, Option.some.injEq, exists_eq_left', hends]
  refine or_congr_right ?_
  constructor
  · rintro ⟨_, ⟨rest, rfl, hrest⟩, hkeeps⟩
    rw [hplain, List.flatMap_cons, List.append_sublist_append_left] at hkeeps
    exact ⟨rest, hrest, hkeeps⟩
  · rintro ⟨rest, hrest, hkeeps⟩
    refine ⟨o :: rest, ⟨rest, rfl, hrest⟩, ?_⟩
    rw [hplain, List.flatMap_cons, List.append_sublist_append_left]
    exact hkeeps

theorem keeps_none (hne : st.input ≠ []) (h : executeCMD st.shell st.input (calls i) = none) :
    ¬ KeepsText calls i st := by
  have hstep : next st (.round (calls i)) = none := by
    unfold next
    dsimp only
    rw [if_neg hne, h]
  rintro (hcomplains | ⟨outcomes, hends, -⟩)
  · cases hcomplains with
    | now _ _ s hround =>
      rw [h] at hround
      contradiction
    | later _ _ st' hsome =>
      rw [hstep] at hsome
      contradiction
  · cases hends with
    | stop _ _ hnil => exact hne hnil
    | exits _ _ s _ hround =>
      rw [h] at hround
      contradiction
    | round _ _ st' s o rest hround =>
      rw [h] at hround
      contradiction

theorem readCommand_nil : (readCommand []).n = -1 := rfl

theorem refuses_numPipe (h : Refuses text) : (readCommand text).numPipe = 0 := by
  rcases h with hn | hn | ⟨-, hmark⟩
  · exact readCommand_zero (by omega)
  · exact readCommand_zero (by omega)
  · exact hmark.1

theorem whole_alone (hn : (readCommand text).n = 1) : Whole calls i text ↔
    Covered text ∧ TakesAll (text.takeWhile isWordChar) := by
  constructor
  · intro h
    cases h with
    | done =>
      rw [readCommand_nil] at hn
      contradiction
    | refused _ _ h =>
      rcases h with h | h | ⟨h, -⟩
      all_goals omega
    | alone _ _ _ hrest hargs => exact ⟨hrest, hargs⟩
    | _ => omega
  · rintro ⟨hrest, hargs⟩
    exact .alone i text hn hrest hargs

theorem whole_numbered (hn : (readCommand text).n = 3) (hnumber : (readCommand text).numPipe ≠ 0) :
    Whole calls i text ↔ 0 < (readCommand text).numPipe ∧ Covered text ∧
      ((calls i).forks ∨ plainText text = []) := by
  constructor
  · intro h
    cases h with
    | done =>
      rw [readCommand_nil] at hn
      contradiction
    | refused _ _ h => exact absurd (refuses_numPipe h) hnumber
    | numbered _ _ _ hpos hrest hforks => exact ⟨hpos, hrest, hforks⟩
    | piped _ _ _ _ hbuf => exact absurd (readCommand_buf (.inr hnumber)) hbuf
    | _ => omega
  · rintro ⟨hpos, hrest, hforks⟩
    exact .numbered i text hn hpos hrest hforks

theorem whole_ordinary (hn : (readCommand text).n = 3) (hnumber : (readCommand text).numPipe = 0)
    (hsymbol : (readCommand text).symbolMeth.head? = some '|') : Whole calls i text ↔
      (readCommand text).buf = none ∧ Covered text ∨
        (readCommand text).buf ≠ none ∧ Whole calls (i + 1) (leftOver text) := by
  constructor
  · intro h
    cases h with
    | done =>
      rw [readCommand_nil] at hn
      contradiction
    | refused _ _ h =>
      rcases h with h | h | ⟨-, hmark⟩
      · omega
      · omega
      · exact absurd hsymbol hmark.2.1
    | zero _ _ _ _ _ hbuf hrest => exact .inl ⟨hbuf, hrest⟩
    | piped _ _ _ _ hbuf hrest => exact .inr ⟨hbuf, hrest⟩
    | redirected _ _ _ _ hgreater =>
      rw [hsymbol] at hgreater
      contradiction
    | _ => omega
  · rintro (⟨hbuf, hrest⟩ | ⟨hbuf, hrest⟩)
    · exact .zero i text hn hnumber hsymbol hbuf hrest
    · exact .piped i text hn hsymbol hbuf hrest

theorem whole_redirected (hn : (readCommand text).n = 3) (hnumber : (readCommand text).numPipe = 0)
    (hsymbol : (readCommand text).symbolMeth.head? = some '>') :
    Whole calls i text ↔ (calls i).opens ∨ plainText text = [] := by
  constructor
  · intro h
    cases h with
    | done =>
      rw [readCommand_nil] at hn
      contradiction
    | refused _ _ h =>
      rcases h with h | h | ⟨-, hmark⟩
      · omega
      · omega
      · exact absurd hsymbol hmark.2.2
    | zero _ _ _ _ hbar =>
      rw [hsymbol] at hbar
      contradiction
    | piped _ _ _ hbar =>
      rw [hsymbol] at hbar
      contradiction
    | redirected _ _ _ _ _ hopens => exact hopens
    | _ => omega
  · exact .redirected i text hn hnumber hsymbol

/-- The text behind a `|` is shorter, and as good as the line. -/
theorem FitsBuffers.rest (h : FitsBuffers text) (hne : text ≠ []) :
    (readCommand text).symbolMeth.length < 2 ∧ FitsBuffers (leftOver text) := by
  cases h with
  | nil => contradiction
  | round _ hsymbol hop hrest => exact ⟨hsymbol, hrest⟩

theorem leftOver_line (hline : '\n' ∉ text) : '\n' ∉ leftOver text := by
  have hscanned := readCommand_scanned text
  unfold leftOver
  generalize readCommand text = r at hscanned
  cases hscanned with
  | ordinary command symbols rest body more hcommand hsymbols hbody =>
    split
    next => exact List.not_mem_nil
    next =>
      intro hmem
      have hchar := hbody.chars _ hmem
      contradiction
  | _ =>
    rw [Option.getD_none, ite_self]
    exact List.not_mem_nil

structure Reads (calls : Nat → Calls) (i : Nat) (st : Session) : Prop where
  buf : st.shell.buf = []
  uncreated : Uncreated st.shell.files
  line : '\n' ∉ st.input
  fits : FitsBuffers st.input
  answers : Answers calls i st

theorem Reads.next (h : Reads calls i st) (hstep : next st (.round (calls i)) = some st') :
    Reads calls (i + 1) st' := by
  obtain ⟨_, _, -, -, hinput, -⟩ := next_round_leftOver hstep h.buf
  obtain ⟨-, -, -, hne, -⟩ := next_round hstep
  refine ⟨buf_next hstep h.buf, ?_, ?_, ?_, ?_⟩
  · exact files_next (fun _ fd h => h.close fd) (fun _ fds pipe h => h.openPipe fds pipe)
      h.uncreated hstep
  · rw [hinput]
    exact leftOver_line h.line
  · rw [hinput]
    exact (h.fits.rest hne).2
  · cases h.answers with
    | stop _ _ hnil => exact absurd hnil hne
    | round _ _ _ hrest => exact hrest st' hstep

theorem leftOver_nil (h : (readCommand text).n ≠ 3 ∨ (readCommand text).numPipe ≠ 0) :
    leftOver text = [] := by
  rw [leftOver, readCommand_buf h, Option.getD_none, ite_self]

theorem Reads.ne_nil (hn : (readCommand st.input).n = 1 ∨ (readCommand st.input).n = 3) :
    st.input ≠ [] := by
  intro hnil
  rw [hnil, readCommand_nil] at hn
  omega

theorem Reads.alone (h : Reads calls i st) (hn : (readCommand st.input).n = 1)
    (hround : executeCMD st.shell st.input (calls i) = some (s, o)) :
    KeepsText calls i st ↔ Whole calls i st.input := by
  have hchars : ∀ c ∈ st.input.takeWhile isWordChar, isWordChar c = true :=
    fun c hc => List.mem_takeWhile_imp hc
  have herror : o ≠ .error := by
    rw [ne_eq, executeCMD_error_iff hround]
    rintro (hzero | htwo | ⟨hthree, -⟩)
    all_goals omega
  rw [keeps_last h.buf (Reads.ne_nil (.inl hn)) hround (leftOver_nil (.inl (by omega))),
    or_iff_right herror, whole_alone hn, plainText_split]
  cases executeCMD_turn hround with
  | builtin o hn hop ho herror hnotice =>
    rw [stored_instruction (.inl hn)] at hop hnotice
    rw [hnotice, builtin_words hchars hop (visible_plainText _), Covered]
  | last c hn hop hc hout =>
    have hfiles : Uncreated (getPipe (stored st.shell st.input)).1.files :=
      getPipe_files (fun _ fd h => h.close fd) h.uncreated
    rw [inputFiles_of_ne (by decide)] at hout
    rw [stored_instruction (.inl hn)] at hop
    have hfile : fileName c.stdout = [] := by
      rw [hout]
      exact fileName_eq_nil hfiles 1
    rw [ran_words (.inl hn) hc hfile, append_sublist_self, Covered, and_iff_left]
    exact ⟨fun hsetenv => absurd (.inl hsetenv) hop, fun hexit => absurd (.inr (.inr hexit)) hop⟩
  | _ => omega

theorem outputFiles_fileName {files : Table} (h : Uncreated files) (input : Option Pipe)
    (pipe : Pipe) (errors : Bool) :
    fileName (outputFiles (inputFiles files input) pipe errors 1) = [] := by
  have hinput : Uncreated (inputFiles files input) := by
    cases input with
    | none => exact h
    | some pipe => exact h.dup2 _ _
  have hout : Uncreated (outputFiles (inputFiles files input) pipe errors) := by
    unfold outputFiles
    dsimp only
    split
    next => exact (hinput.dup2 _ _).dup2 _ _
    next => exact hinput.dup2 _ _
  exact fileName_eq_nil hout 1

theorem Reads.files (h : Reads calls i st)
    (hround : executeCMD st.shell st.input (calls i) = some (s, o)) : Uncreated s.files :=
  executeCMD_files (fun _ fd h => h.close fd) (fun _ fds pipe h => h.openPipe fds pipe)
    h.uncreated hround

theorem Reads.numbered (h : Reads calls i st) (hn : (readCommand st.input).n = 3)
    (hnumber : (readCommand st.input).numPipe ≠ 0)
    (hround : executeCMD st.shell st.input (calls i) = some (s, o)) :
    KeepsText calls i st ↔ Whole calls i st.input := by
  have hpos : 0 < (readCommand st.input).numPipe := by
    by_contra hneg
    rw [executeCMD_negative (by omega)] at hround
    contradiction
  have herror : o ≠ .error := by
    rw [ne_eq, executeCMD_error_iff hround]
    exact fun hrefuses => hnumber (refuses_numPipe hrefuses)
  have hfiles := h.files hround
  rw [keeps_last h.buf (Reads.ne_nil (.inr hn)) hround (leftOver_nil (.inr hnumber)),
    or_iff_right herror, whole_numbered hn hnumber, and_iff_right hpos]
  have hsplit := plainText_split st.input
  cases executeCMD_turn hround with
  | numbered s' pipe c o hn hne hpipe hc ho hout =>
    obtain ⟨errors, hout⟩ := hout
    cases hforks : (calls i).forks with
    | true =>
      rw [hforks, if_pos rfl] at ho
      have hfile : fileName c.stdout = [] := by
        rw [hout]
        exact outputFiles_fileName hfiles _ pipe errors
      rw [ho, ran_words (.inr hn) hc hfile, hsplit, append_sublist_self]
      simp [Covered]
    | false =>
      rw [hforks] at ho
      simp only [Bool.false_eq_true, if_false] at ho
      rw [ho]
      change (plainText st.input).Sublist [] ↔ _
      rw [List.sublist_nil]
      simp only [Bool.false_eq_true, false_or]
      constructor
      · intro hnil
        rw [hnil] at hsplit
        exact ⟨(List.append_eq_nil_iff.mp hsplit.symm).2, hnil⟩
      · exact fun h => h.2
  | ordinary s' pipe c hn hzero => exact absurd hzero hnumber
  | redirected c o hn hzero => exact absurd hzero hnumber
  | refused hn hmark => exact absurd hmark.1 hnumber
  | _ => omega

theorem Reads.redirected (h : Reads calls i st) (hn : (readCommand st.input).n = 3)
    (hnumber : (readCommand st.input).numPipe = 0)
    (hsymbol : (readCommand st.input).symbolMeth.head? = some '>')
    (hround : executeCMD st.shell st.input (calls i) = some (s, o)) :
    KeepsText calls i st ↔ Whole calls i st.input := by
  have hne := Reads.ne_nil (.inr hn)
  have herror : o ≠ .error := by
    rw [ne_eq, executeCMD_error_iff hround]
    rintro (hzero | htwo | ⟨-, hmark⟩)
    · omega
    · omega
    · exact hmark.2.2 hsymbol
  have hleft : leftOver st.input = [] := by rw [leftOver, hsymbol, if_pos rfl]
  have hname := plainText_buf hn hnumber hsymbol (h.fits.rest hne).1 h.line
  rw [keeps_last h.buf hne hround hleft, or_iff_right herror, whole_redirected hn hnumber hsymbol]
  have hsplit := plainText_split st.input
  cases executeCMD_turn hround with
  | redirected c o hn hzero hgreater hc hfile ho =>
    cases hopens : (calls i).opens with
    | true =>
      rw [hopens, if_pos rfl] at ho
      refine iff_of_true ?_ (.inl rfl)
      have hbuf : (stored st.shell st.input).buf = (readCommand st.input).buf.getD [] := by
        rw [← h.buf]
        rfl
      have hchars : ∀ c ∈ st.input.takeWhile isWordChar, isWordChar c = true :=
        fun c hc => List.mem_takeWhile_imp hc
      rw [ho]
      change (plainText st.input).Sublist (c.argv.flatten ++ fileName c.stdout)
      rw [hc, stored_instruction (.inr hn), argv_flatten hchars, hfile, hbuf, hsplit,
        List.append_sublist_append_left]
      exact hname
    | false =>
      rw [hopens] at ho
      simp only [Bool.false_eq_true, if_false] at ho
      rw [ho]
      change (plainText st.input).Sublist [] ↔ _
      rw [List.sublist_nil]
      simp only [Bool.false_eq_true, false_or]
  | numbered s' pipe c o hn hne => exact absurd hnumber hne
  | ordinary s' pipe c hn hzero hbar =>
    rw [hsymbol] at hbar
    contradiction
  | refused hn hmark => exact absurd hsymbol hmark.2.2
  | _ => omega

/-- A `|` with nothing behind it, or with the text of further rounds. -/
theorem Reads.ordinary (h : Reads calls i st) (hn : (readCommand st.input).n = 3)
    (hnumber : (readCommand st.input).numPipe = 0)
    (hsymbol : (readCommand st.input).symbolMeth.head? = some '|')
    (hround : executeCMD st.shell st.input (calls i) = some (s, o))
    (ih : ∀ st', Npshell.next st (.round (calls i)) = some st' →
      (KeepsText calls (i + 1) st' ↔ Whole calls (i + 1) st'.input)) :
    KeepsText calls i st ↔ Whole calls i st.input := by
  have hne := Reads.ne_nil (.inr hn)
  have hfiles := h.files hround
  have hsplit := plainText_split st.input
  rw [whole_ordinary hn hnumber hsymbol]
  obtain ⟨pipe, c, errors, rfl, hc, hout⟩ := executeCMD_ordinary hround hn hnumber hsymbol
  have hfile : fileName c.stdout = [] := by
    rw [hout]
    exact outputFiles_fileName hfiles _ pipe errors
  have hwords := ran_words (.inr hn) hc hfile
  by_cases hbuf : (readCommand st.input).buf = none
  · have hleft : leftOver st.input = [] := by
      rw [leftOver, hbuf, Option.getD_none, ite_self]
    rw [keeps_last h.buf hne hround hleft, hwords, hsplit, append_sublist_self]
    simp [hbuf, Covered]
  · obtain ⟨st', hstep⟩ := next_returns hne hround (by simp)
    obtain ⟨_, _, -, -, hinput, -⟩ := next_round_leftOver hstep h.buf
    have hplain : plainText st.input = (Outcome.ran c).words ++ plainText st'.input := by
      rw [hwords, hinput, hsplit,
        plainText_leftOver hsymbol (h.fits.rest hne).1 hbuf h.line]
    rw [keeps_more hround (by simp) (by simp) hstep hplain, ih st' hstep, hinput]
    simp [hbuf]

theorem keepsText_iff (h : Reads calls i st) : KeepsText calls i st ↔ Whole calls i st.input := by
  generalize hlength : st.input.length = length
  induction length using Nat.strong_induction_on generalizing st i with
  | _ length ih =>
    by_cases hnil : st.input = []
    · refine iff_of_true (.inr ⟨[], .stop i st hnil, ?_⟩) (hnil ▸ .done i)
      rw [hnil, plainText]
      exact List.nil_sublist _
    have hanswered : Answered st.shell st.input (calls i) := by
      cases h.answers with
      | stop _ _ hinput => exact absurd hinput hnil
      | round _ _ hanswered => exact hanswered
    by_cases hneg : (readCommand st.input).numPipe < 0
    · have hthree : (readCommand st.input).n = 3 := by
        by_contra hother
        have hzero := readCommand_zero hother
        omega
      rw [whole_numbered hthree (by omega)]
      exact iff_of_false (keeps_none hnil (executeCMD_negative hneg)) (by omega)
    obtain ⟨⟨s, o⟩, hround⟩ := (executeCMD_returns hanswered).mpr (by omega)
    by_cases hrefuses : Refuses st.input
    · have herror : o = .error := (executeCMD_error_iff hround).mpr hrefuses
      exact iff_of_true (.inl (.now i st s (herror ▸ hround))) (.refused i _ hrefuses)
    have hn : (readCommand st.input).n = 1 ∨ (readCommand st.input).n = 3 := by
      have hscanned := readCommand_scanned st.input
      unfold Refuses at hrefuses
      generalize readCommand st.input = r at hscanned hrefuses
      generalize st.input = text at hscanned hnil
      cases hscanned with
      | nothing => contradiction
      | alone => exact .inl rfl
      | number => exact .inr rfl
      | ordinary => exact .inr rfl
      | _ => simp at hrefuses
    rcases hn with hone | hthree
    · exact h.alone hone hround
    by_cases hnumber : (readCommand st.input).numPipe = 0
    · by_cases hbar : (readCommand st.input).symbolMeth.head? = some '|'
      · apply h.ordinary hthree hnumber hbar hround
        intro st' hstep
        obtain ⟨_, _, -, -, hinput, -⟩ := next_round_leftOver hstep h.buf
        have hshort := leftOver_length hnil
        exact ih st'.input.length (by rw [hinput]; omega) (h.next hstep) rfl
      · by_cases hgreater : (readCommand st.input).symbolMeth.head? = some '>'
        · exact h.redirected hthree hnumber hgreater hround
        · exact absurd (.inr (.inr ⟨hthree, hnumber, hbar, hgreater⟩)) hrefuses
    · exact h.numbered hthree hnumber hround

end Rounds

/-- The error is printed or nothing of a line is dropped, exactly when the patterns read
it to its end or find it wrong, and what they read can be run. -/
theorem text_kept_iff (es : List Event) (st started : Session) (line : Text) (calls : Nat → Calls)
    (hrun : exec next Session.initial es = some st) (hstart : next st (.line line) = some started)
    (hline : '\n' ∉ line) (hfits : FitsBuffers line) (hanswers : Answers calls 0 started) :
    KeepsText calls 0 started ↔ Whole calls 0 line := by
  have hbuf := buf_next hstart (buf_run es hrun)
  have huncreated : Uncreated started.shell.files := by
    apply files_next (fun _ fd h => h.close fd) (fun _ fds pipe h => h.openPipe fds pipe) _ hstart
    refine files_run (fun _ fd h => h.close fd) (fun _ fds pipe h => h.openPipe fds pipe) ?_ es hrun
    intro fd name
    unfold Shell.initial
    dsimp only
    split <;> simp
  have hinput : started.input = line := by
    obtain ⟨-, rfl⟩ := next_line hstart
    rfl
  rw [← hinput]
  exact keepsText_iff ⟨hbuf, huncreated, hinput ▸ hline, hinput ▸ hfits, hanswers⟩

/-- The shell behind one line, read at the start. -/
def startedWith (line : Text) : Session :=
  { Session.initial with shell := cleanPipes Shell.initial, input := line, line := line }

theorem text_kept_iff_listing : KeepsText (fun _ => lowestCalls 3) 0 (startedWith "ls -l".toList) ↔
    Whole (fun _ => lowestCalls 3) 0 "ls -l".toList := by
  have hleft : leftOver "ls -l".toList = [] := by decide
  have hfits : FitsBuffers "ls -l".toList := by
    refine .round _ (by decide) (by decide) ?_
    rw [hleft]
    exact .nil
  have hanswers : Answers (fun _ => lowestCalls 3) 0 (startedWith "ls -l".toList) := by
    refine .round _ _ (fun hmakes => absurd hmakes (by decide)) fun st' hstep => .stop _ _ ?_
    obtain ⟨_, _, -, -, hinput, -⟩ := next_round_leftOver hstep rfl
    rw [hinput]
    exact hleft
  exact text_kept_iff [] Session.initial _ _ _ rfl rfl (by decide) hfits hanswers

/-- `ls /tmp` runs `ls` without its argument. -/
theorem argument_dropped : ∃ s c,
    executeCMD (startedWith "ls /tmp".toList).shell "ls /tmp".toList (lowestCalls 3) =
      some (s, .ran c) ∧ c.argv = ["ls".toList] ∧ FitsBuffers "ls /tmp".toList ∧
    ¬ KeepsText (fun _ => lowestCalls 3) 0 (startedWith "ls /tmp".toList) := by
  have hleft : leftOver "ls /tmp".toList = [] := by decide
  have hfits : FitsBuffers "ls /tmp".toList := by
    refine .round _ (by decide) (by decide) ?_
    rw [hleft]
    exact .nil
  refine ⟨_, _, rfl, rfl, hfits, ?_⟩
  rw [keeps_last rfl (by decide) rfl hleft]
  have hplain : plainText "ls /tmp".toList = "ls/tmp".toList := by
    simp [plainText, isSymbol, isspace]
  rintro (herror | hwords)
  · contradiction
  · have hlength := hwords.length_le
    rw [show (startedWith "ls /tmp".toList).input = "ls /tmp".toList from rfl, hplain] at hlength
    exact absurd hlength (by decide)

end NetworkProgramming.Npshell
