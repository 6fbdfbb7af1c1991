import NetworkProgramming.Library.Words
import NetworkProgramming.Npshell.InnerLoop

/-! The commands of one line, as `main`'s inner loop hands them to `callExecs`. -/
namespace NetworkProgramming.Npshell
open Library.CString Library.Run Library.Words

variable {command text rest : Text} {c : Char}

theorem isspace_of_isWordChar (hc : isWordChar c = true) : isspace c = (c == ' ') := by
  by_cases hspace : c = ' '
  · subst hspace
    rfl
  · have hcontrol : ¬ ('\t' ≤ c ∧ c ≤ '\r') := by
      rintro ⟨hlow, hhigh⟩
      have hlow : 9 ≤ c.toNat := UInt32.le_iff_toNat_le.mp (Char.le_def.mp hlow)
      have hhigh : c.toNat ≤ 13 := UInt32.le_iff_toNat_le.mp (Char.le_def.mp hhigh)
      have hchar : Char.ofNat c.toNat = c := Char.ofNat_toNat c
      obtain hcode | hcode | hcode | hcode | hcode :
        c.toNat = 9 ∨ c.toNat = 10 ∨ c.toNat = 11 ∨ c.toNat = 12 ∨ c.toNat = 13 := by omega
      all_goals
        rw [← hchar, hcode] at hc
        exact absurd hc (by decide)
    rw [beq_eq_false_iff_ne.mpr hspace]
    simpa [isspace, hspace] using hcontrol

/-- The word that `%s` reads, and what is behind it, in the text itself. -/
theorem scanWord_split (text : Text) :
    text.dropWhile isspace = (scanWord text).1 ++ (scanWord text).2 ∧
      (∀ c ∈ (scanWord text).1, isspace c = false) ∧
      (∀ c, (scanWord text).2.head? = some c → isspace c = true) ∧
      ((scanWord text).1 = [] → (scanWord text).2 = []) := by
  have hspace := List.head?_dropWhile_not isspace text
  unfold scanWord
  dsimp only
  generalize text.dropWhile isspace = body at hspace
  refine ⟨List.takeWhile_append_dropWhile.symm, ?_, ?_, ?_⟩
  · intro c hc
    simpa using List.mem_takeWhile_imp hc
  · intro c hc
    have hhead := List.head?_dropWhile_not (fun c => !isspace c) body
    rw [hc] at hhead
    simpa using hhead
  · intro hnil
    cases body with
    | nil => rfl
    | cons c body =>
      have hvisible : isspace c = false := hspace
      rw [List.takeWhile_cons_of_pos (by simpa using hvisible)] at hnil
      contradiction

theorem scanWord_mem (hc : c ∈ (scanWord text).1 ∨ c ∈ (scanWord text).2) : c ∈ text := by
  apply (List.dropWhile_sublist isspace).mem
  rw [(scanWord_split text).1, List.mem_append]
  exact hc

theorem scanOperation_split (hchars : ∀ c ∈ command, isWordChar c = true) :
    (scanOperation command).1 = (scanWord command).1 ∧
      (scanOperation command).2 = (scanWord command).2.dropWhile isspace := by
  obtain ⟨-, -, -, hempty⟩ := scanWord_split command
  unfold scanOperation
  dsimp only
  split
  next hnil =>
    rw [hnil, hempty hnil]
    exact ⟨rfl, rfl⟩
  next =>
    refine ⟨rfl, ?_⟩
    generalize harg : (scanWord command).2.dropWhile isspace = arg
    have hargChars : ∀ c ∈ arg, isWordChar c = true := by
      intro c hc
      rw [← harg] at hc
      exact hchars c (scanWord_mem (.inr ((List.dropWhile_sublist _).mem hc)))
    have htake : arg.takeWhile isWordChar = arg := List.takeWhile_eq_self_iff.mpr hargChars
    unfold scanSet
    rw [htake]
    split
    next hnil => rw [hnil]; rfl
    next => rfl

theorem dropWhile_isspace (hchars : ∀ c ∈ command, isWordChar c = true) :
    command.dropWhile isspace = command.dropWhile (· == ' ') := by
  induction command with
  | nil => rfl
  | cons c command ih =>
    have hc := isspace_of_isWordChar (hchars c List.mem_cons_self)
    simp only [List.dropWhile_cons, hc, ih fun c hc => hchars c (List.mem_cons_of_mem _ hc)]

theorem strtok_dropWhile_isspace (hchars : ∀ c ∈ command, isWordChar c = true) :
    strtok ' ' (command.dropWhile isspace) = strtok ' ' command := by
  rw [dropWhile_isspace hchars, strtok_dropWhile]

theorem strtok_eq_nil (hchars : ∀ c ∈ command, isWordChar c = true)
    (hword : (scanWord command).1 = []) : strtok ' ' command = [] := by
  obtain ⟨hbody, -, -, hempty⟩ := scanWord_split command
  rw [← strtok_dropWhile_isspace hchars, hbody, hword, hempty hword]
  rfl

theorem strtok_eq_cons (hchars : ∀ c ∈ command, isWordChar c = true)
    (hword : (scanWord command).1 ≠ []) :
    strtok ' ' command = (scanWord command).1 :: strtok ' ' (scanWord command).2 := by
  obtain ⟨hbody, hwordChars, hstop, -⟩ := scanWord_split command
  have hspace : ' ' ∉ (scanWord command).1 := fun hmem => absurd (hwordChars _ hmem) (by decide)
  rw [← strtok_dropWhile_isspace hchars, hbody]
  cases hrest : (scanWord command).2 with
  | nil => rw [List.append_nil, strtok_word hword hspace, strtok_nil]
  | cons c rest =>
    have hc : isspace c = true := hstop c (by rw [hrest]; rfl)
    rw [isspace_of_isWordChar (hchars c (scanWord_mem (.inr (by simp [hrest])))), beq_iff_eq] at hc
    subst hc
    rw [strtok_word_cons hword hspace, strtok_delim]

theorem argv_eq_strtok (hchars : ∀ c ∈ command, isWordChar c = true)
    (hop : (scanOperation command).1 ≠ []) : argv command = strtok ' ' command := by
  obtain ⟨hword, harg⟩ := scanOperation_split hchars
  have hrestChars : ∀ c ∈ (scanWord command).2, isWordChar c = true :=
    fun c hc => hchars c (scanWord_mem (.inr hc))
  rw [argv, harg, strtok_dropWhile_isspace hrestChars, strtok_eq_cons hchars (hword ▸ hop), hword]

/-- `TEMP_BUFF_SIZE` -/
def tempBuffSize : Nat := 100

/-- The lines that a user writes: commands that the patterns can hold, none but the first
like a number, none a built-in, and each within the buffers. -/
structure Pipeline.WellFormed (p : Pipeline) : Prop where
  unnumbered : p.ending = none
  segments : ∀ command ∈ p.commands, Segment command
  later : ∀ command ∈ p.rest, scanInt command = none
  programs : ∀ command ∈ p.commands, ¬ IsBuiltin (scanOperation command).1
  fits : ∀ command ∈ p.commands, (scanOperation command).1.length < tempBuffSize ∧
    (scanOperation command).2.length < tempBuffSize

/-- After so many rounds, the commands so far were handed to `callExecs` as their words,
nothing else is in `_buf`, and the loop goes on until it was given all of them. -/
structure Handed (p : Pipeline) (rounds : Nat) (st : Session) : Prop where
  count : rounds ≤ p.commands.length
  ends : st.input = [] ↔ rounds = p.commands.length
  buf : st.shell.buf = []
  handed : ∃ children : List Child, st.outcomes = children.map .ran ∧
    children.map Child.argv = (p.commands.take rounds).map (strtok ' ')
  goesOn : st.input ≠ [] → ∀ calls, Answered st.shell st.input calls →
    ∃ st', next st (.round calls) = some st'

variable {p q : Pipeline} {st st' started : Session} {calls : Calls} {rounds : Nat}

theorem Pipeline.WellFormed.plain (h : p.WellFormed) : p.Plain := by
  refine ⟨h.segments, h.later, ?_, ?_⟩
  · intro symbol n hending
    rw [h.unnumbered] at hending
    contradiction
  · intro _ command hcommand
    exact h.programs command (List.mem_of_getLast? hcommand)

structure Remaining (p q : Pipeline) (rounds : Nat) : Prop where
  plain : q.Plain
  unnumbered : q.ending = none
  words : q.commands.map argv = (p.commands.drop rounds).map argv

theorem Remaining.round_last (h : Remaining p q rounds) (hrest : q.rest = []) {s s' : Shell}
    {o : Outcome} (hround : executeCMD s q.text calls = some (s', o)) :
    ∃ c, o = .ran c ∧ c.argv = argv q.first := by
  have hread := h.plain.readCommand_end hrest h.unnumbered
  have hone : (readCommand q.text).n = 1 := by rw [hread]
  have hbuiltin : ¬ IsBuiltin (scanOperation q.first).1 := h.plain.last h.unnumbered q.first (by
    rw [Pipeline.commands, hrest, List.getLast?_singleton])
  have hstored : (stored s q.text).instruction = q.first := by
    rw [stored, hread]
    rfl
  cases executeCMD_turn hround with
  | last c hn hop hc => exact ⟨c, rfl, hstored ▸ hc⟩
  | builtin o hn hop => exact absurd (hstored ▸ hop) hbuiltin
  | _ => omega

theorem Remaining.round_pipe (h : Remaining p q rounds) {command : Text} {more : List Text}
    (hrest : q.rest = command :: more) {s s' : Shell} {o : Outcome}
    (hround : executeCMD s q.text calls = some (s', o)) :
    ∃ c, o = .ran c ∧ c.argv = argv q.first := by
  have hread := h.plain.readCommand_pipe hrest
  have hthree : (readCommand q.text).n = 3 := by rw [hread]
  have hnumber : (readCommand q.text).numPipe = 0 := by rw [hread]
  have hsymbol : (readCommand q.text).symbolMeth.head? = some '|' := by
    rw [hread]
    rfl
  have hstored : (stored s q.text).instruction = q.first := by
    rw [stored, hread]
    rfl
  obtain ⟨pipe, c, errors, ho, hc, -⟩ := executeCMD_ordinary hround hthree hnumber hsymbol
  exact ⟨c, ho, hstored ▸ hc⟩

theorem Remaining.round (h : Remaining p q rounds) {s s' : Shell} {o : Outcome}
    (hround : executeCMD s q.text calls = some (s', o)) :
    ∃ c, o = .ran c ∧ c.argv = argv q.first := by
  cases hrest : q.rest with
  | nil => exact h.round_last hrest hround
  | cons command more => exact h.round_pipe hrest hround

theorem Remaining.length (h : Remaining p q rounds) :
    q.commands.length = p.commands.length - rounds := by
  have hlength := congrArg List.length h.words
  rwa [List.length_map, List.length_map, List.length_drop] at hlength

theorem Remaining.first (h : Remaining p q rounds) :
    (p.commands.take (rounds + 1)).map argv = (p.commands.take rounds).map argv ++ [argv q.first] := by
  have hlength := h.length
  have hpos : 0 < q.commands.length := Nat.succ_pos _
  have hlt : rounds < p.commands.length := by omega
  have hwords := h.words
  rw [List.drop_eq_getElem_cons hlt, Pipeline.commands, List.map_cons, List.map_cons,
    List.cons.injEq] at hwords
  rw [List.take_succ_eq_append_getElem hlt, List.map_append, List.map_singleton, hwords.1]

theorem Remaining.next (h : Remaining p q rounds) :
    (rounds + 1 = p.commands.length ∧ leftOver q.text = []) ∨
      ∃ q', Remaining p q' (rounds + 1) ∧ leftOver q.text = q'.text := by
  have hlength := h.length
  cases hrest : q.rest with
  | nil =>
    refine .inl ⟨?_, ?_⟩
    · rw [Pipeline.commands, hrest, List.length_singleton] at hlength
      omega
    · rw [leftOver, h.plain.readCommand_end hrest h.unnumbered]
      rfl
  | cons command more =>
    refine .inr ⟨q.behind command more, ⟨h.plain.behind hrest, h.unnumbered, ?_⟩, ?_⟩
    · have htail : (p.commands.drop (rounds + 1)).map argv =
          ((p.commands.drop rounds).map argv).tail := by
        rw [← List.map_tail, List.tail_drop]
      rw [htail, ← h.words]
      simp only [Pipeline.commands, Pipeline.behind, hrest, List.map_cons, List.tail_cons,
        argv_dropWhile]
    · rw [leftOver, h.plain.readCommand_pipe hrest]
      rfl

structure Midway (p : Pipeline) (rounds : Nat) (st : Session) : Prop where
  buf : st.shell.buf = []
  input : (rounds = p.commands.length ∧ st.input = []) ∨
    ∃ q, Remaining p q rounds ∧ st.input = q.text
  handed : ∃ children : List Child, st.outcomes = children.map .ran ∧
    children.map Child.argv = (p.commands.take rounds).map argv

theorem Midway.round (h : Midway p rounds st) (hstep : Npshell.next st (.round calls) = some st') :
    Midway p (rounds + 1) st' := by
  obtain ⟨s, o, hround, hshell, hinput, houtcomes⟩ := next_round_leftOver hstep h.buf
  obtain ⟨-, -, -, hne, -⟩ := next_round hstep
  obtain ⟨-, hnil⟩ | ⟨q, hq, htext⟩ := h.input
  · exact absurd hnil hne
  rw [htext] at hround hinput
  obtain ⟨c, rfl, hc⟩ := hq.round hround
  obtain ⟨children, hran, hargv⟩ := h.handed
  constructor
  · exact buf_next hstep h.buf
  · rw [hinput]
    exact hq.next
  · refine ⟨children ++ [c], ?_, ?_⟩
    · rw [houtcomes, hran, List.map_append, List.map_singleton]
    · rw [List.map_append, List.map_singleton, hargv, hc, hq.first]

theorem Pipeline.WellFormed.argv (h : p.WellFormed) {command : Text} (hmem : command ∈ p.commands) :
    argv command = strtok ' ' command := by
  have hsegment := h.segments command hmem
  apply argv_eq_strtok hsegment.chars
  intro hnil
  obtain ⟨hbody, -, -, hempty⟩ := scanWord_split command
  rw [(scanOperation_split hsegment.chars).1] at hnil
  rw [hnil, hempty hnil] at hbody
  exact hsegment.dropWhile.ne_nil hbody

theorem Midway.complete (h : Midway p rounds st) (hp : p.WellFormed) : Handed p rounds st := by
  have hwords : (p.commands.take rounds).map argv = (p.commands.take rounds).map (strtok ' ') :=
    List.map_congr_left fun command hmem => hp.argv (List.mem_of_mem_take hmem)
  have hinput : (rounds = p.commands.length ∧ st.input = []) ∨
      (rounds < p.commands.length ∧ st.input ≠ [] ∧ 0 ≤ (readCommand st.input).numPipe) := by
    refine h.input.imp_right ?_
    rintro ⟨q, hq, htext⟩
    have hlength := hq.length
    have hpos : 0 < q.commands.length := Nat.succ_pos _
    refine ⟨by omega, by rw [htext]; exact hq.plain.text_ne_nil, ?_⟩
    rw [htext]
    cases hrest : q.rest with
    | nil => rw [hq.plain.readCommand_end hrest hq.unnumbered]
    | cons command more => rw [hq.plain.readCommand_pipe hrest]
  constructor
  · omega
  · obtain ⟨hcount, hnil⟩ | ⟨hcount, hne, -⟩ := hinput
    · exact iff_of_true hnil hcount
    · exact iff_of_false hne (by omega)
  · exact h.buf
  · rw [← hwords]
    exact h.handed
  · intro hne calls hanswered
    obtain ⟨-, hnil⟩ | ⟨-, -, hnumber⟩ := hinput
    · exact absurd hnil hne
    obtain ⟨⟨s, o⟩, hround⟩ := (executeCMD_returns hanswered).mpr hnumber
    have hexit : o ≠ .exit := by
      rintro rfl
      obtain ⟨-, hnil⟩ | ⟨q, hq, htext⟩ := h.input
      · exact hne hnil
      · rw [htext] at hround
        obtain ⟨c, hc, -⟩ := hq.round hround
        contradiction
    exact next_returns hne hround hexit

/-- Every round of a well-formed line hands over the next command as its words; the
loop ends behind the last one, with nothing left in `_buf`. -/
theorem pipeline_handed (p : Pipeline) (hp : p.WellFormed) (es : List Event) (st started : Session)
    (hrun : exec next Session.initial es = some st) (hline : next st (.line p.text) = some started)
    (rounds : List Calls) (st' : Session)
    (hrounds : exec next started (rounds.map .round) = some st') : Handed p rounds.length st' := by
  have hstart : Midway p 0 started := by
    have hbuf := buf_next hline (buf_run es hrun)
    obtain ⟨-, rfl⟩ := next_line hline
    exact ⟨hbuf, .inr ⟨p, ⟨hp.plain, hp.unnumbered, rfl⟩, rfl⟩, [], rfl, rfl⟩
  rw [← exec_map] at hrounds
  have hmidway := invariant_always (I := fun rounds st => Midway p rounds.length st) hstart
    (fun rounds s calls s' _ h hstep => by
      rw [List.length_append, List.length_singleton]
      exact h.round hstep) rounds st' hrounds
  exact hmidway.complete hp

/-- `ls | cat -n | wc` -/
def threeCommands : Pipeline := ⟨"ls ".toList, [" cat -n ".toList, " wc".toList], none⟩

theorem pipeline_handed_threeCommands :
    ∃ started st, next Session.initial (.line threeCommands.text) = some started ∧
      exec next started ([lowestCalls 3, lowestCalls 4, lowestCalls 6].map .round) = some st ∧
      Handed threeCommands 3 st := by
  have hp : threeCommands.WellFormed :=
    ⟨rfl, by decide +kernel, by decide +kernel, by decide +kernel, by decide +kernel⟩
  have hsome : (exec next { Session.initial with
      input := threeCommands.text, line := threeCommands.text }
        ([lowestCalls 3, lowestCalls 4, lowestCalls 6].map .round)).isSome := by decide +kernel
  have hrounds := Option.eq_some_of_isSome hsome
  exact ⟨_, _, rfl, hrounds,
    pipeline_handed threeCommands hp [] Session.initial _ rfl rfl _ _ hrounds⟩

end NetworkProgramming.Npshell
