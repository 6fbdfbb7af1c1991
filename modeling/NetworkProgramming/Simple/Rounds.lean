import NetworkProgramming.Simple.Exec

/-! What the rounds of one line do: which files each child gets, which entries
change, and which descriptors are closed. -/
namespace NetworkProgramming.Simple
open Library.CString Library.Descriptors Library.Search CommandLine

/-- What the serving process keeps open. -/
structure Serving (sockfd : Int) (t : Table) : Prop where
  stdin : t 0 = some .terminal
  stdout : t 1 = some .terminal
  stderr : t 2 = some .terminal
  socket : t sockfd = some .socket

variable {sockfd : Int} {t t' : Table}

theorem Serving.spares {s : Nat → Prop} (h : Serving sockfd t) (hspares : Spares s t t') :
    Serving sockfd t' :=
  ⟨hspares.terminal h.stdin, hspares.terminal h.stdout, hspares.terminal h.stderr,
    hspares.socket h.socket⟩

theorem Serving.not_standard (h : Serving sockfd t) {fd : Int} {file : File}
    (hfd : t fd = some file) (hfile : file ≠ .terminal) : fd ≠ 0 ∧ fd ≠ 1 ∧ fd ≠ 2 := by
  refine ⟨?_, ?_, ?_⟩
  · rintro rfl
    rw [h.stdin, Option.some.injEq] at hfd
    exact hfile hfd.symm
  · rintro rfl
    rw [h.stdout, Option.some.injEq] at hfd
    exact hfile hfd.symm
  · rintro rfl
    rw [h.stderr, Option.some.injEq] at hfd
    exact hfile hfd.symm

variable {args : ParserArgs} {pipefd : Int × Int} {fd : Int}

theorem stageFiles_high (h : fd ≠ 0 ∧ fd ≠ 1 ∧ fd ≠ 2) : stageFiles t args pipefd fd = t fd := by
  unfold stageFiles
  split
  · exact dup2_of_ne h.2.1
  · split
    · rw [dup2_of_ne h.2.1, dup2_of_ne h.1]
    · split
      · exact dup2_of_ne h.2.1
      · rw [dup2_of_ne h.2.2, dup2_of_ne h.2.1, dup2_of_ne h.1]

theorem errorFiles_of_ne (h : fd ≠ 2) : errorFiles t args pipefd fd = t fd := by
  unfold errorFiles
  split
  · exact dup2_of_ne h
  · split
    · exact dup2_of_ne h
    · rfl

theorem enterFiles_of_ne (h : fd ≠ 0) : enterFiles t args fd = t fd := by
  unfold enterFiles
  split
  · exact dup2_of_ne h
  · rfl

theorem lastFiles_of_ne (h : fd ≠ 1) : lastFiles t args pipefd fd = t fd := by
  unfold lastFiles
  split
  · exact dup2_of_ne h
  · split
    · exact dup2_of_ne h
    · rfl

theorem beforeLast_high (h : fd ≠ 0 ∧ fd ≠ 1 ∧ fd ≠ 2) :
    enterFiles (errorFiles (stageFiles t args pipefd) args pipefd) args fd = t fd := by
  rw [enterFiles_of_ne h.1, errorFiles_of_ne h.2.2, stageFiles_high h]

theorem dup2_same (t : Table) (fd : Int) : dup2 t fd fd fd = t fd := by
  cases hfd : t fd with
  | none => rw [dup2, hfd]; exact hfd
  | some file => exact dup2_target hfd

theorem childFiles_stdin_own (hinput : args.input = 0) (henter : args.enter = false) :
    childFiles t args pipefd 0 = t 0 := by
  rw [childFiles, lastFiles_of_ne (by decide), enterFiles, henter, if_neg (by decide),
    errorFiles_of_ne (by decide)]
  unfold stageFiles
  split
  · exact dup2_of_ne (by decide)
  · split
    next hstage => exact absurd hinput hstage.2.2
    next =>
      split
      · exact dup2_of_ne (by decide)
      · rw [dup2_of_ne (by decide), dup2_of_ne (by decide), hinput, dup2_same]

theorem childFiles_stdin_input {file : File} (hinput : t args.input = some file)
    (hfd : args.input ≠ 0 ∧ args.input ≠ 1 ∧ args.input ≠ 2)
    (hentered : args.enter = true ∨ args.first = false) :
    childFiles t args pipefd 0 = some file := by
  rw [childFiles, lastFiles_of_ne (by decide), enterFiles]
  split
  next =>
    apply dup2_target
    rw [errorFiles_of_ne hfd.2.2, stageFiles_high hfd, hinput]
  next hnot =>
    -- not entered, so this is a later command: both its branches take the input
    have hlater : args.first = false := hentered.resolve_left hnot
    rw [errorFiles_of_ne (by decide)]
    unfold stageFiles
    rw [if_neg (by simp [hlater])]
    split
    · rw [dup2_of_ne (by decide)]
      exact dup2_target hinput
    · rw [if_neg (by simp [hlater]), dup2_of_ne (by decide), dup2_of_ne (by decide)]
      exact dup2_target hinput

theorem childFiles_stdout_new {file : File} (hpipe : t pipefd.2 = some file)
    (hfd : pipefd.2 ≠ 0 ∧ pipefd.2 ≠ 1 ∧ pipefd.2 ≠ 2) (hlast : args.last = true)
    (hget : args.getInput = 4) : childFiles t args pipefd 1 = some file := by
  rw [childFiles, lastFiles, if_pos ⟨hlast, hget⟩]
  apply dup2_target
  rw [beforeLast_high hfd, hpipe]

theorem childFiles_stdout_merged {file : File} (houtput : t args.output = some file)
    (hfd : args.output ≠ 0 ∧ args.output ≠ 1 ∧ args.output ≠ 2) (hlast : args.last = true)
    (hget : args.getInput = 3) : childFiles t args pipefd 1 = some file := by
  rw [childFiles, lastFiles, if_neg (by simp [hget]), if_pos ⟨hlast, hget⟩]
  apply dup2_target
  rw [beforeLast_high hfd, houtput]

structure SameEntries (s s' : Shell) : Prop where
  inputNum : s'.inputNum = s.inputNum
  inputCount : s'.inputCount = s.inputCount
  outputNum : s'.outputNum = s.outputNum
  pos : s'.pos = s.pos

theorem SameEntries.refl (s : Shell) : SameEntries s s := ⟨rfl, rfl, rfl, rfl⟩

theorem SameEntries.trans {a b c : Shell} (hab : SameEntries a b) (hbc : SameEntries b c) :
    SameEntries a c :=
  ⟨hbc.inputNum.trans hab.inputNum, hbc.inputCount.trans hab.inputCount,
    hbc.outputNum.trans hab.outputNum, hbc.pos.trans hab.pos⟩

theorem SameEntries.completeEntry {a b : Shell} (h : SameEntries a b) (pipe : Int × Int) :
    SameEntries (completeEntry a pipe) (completeEntry b pipe) := by
  constructor
  · simp [Simple.completeEntry, h.inputNum, h.pos]
  · exact h.inputCount
  · simp [Simple.completeEntry, h.outputNum, h.pos]
  · simp [Simple.completeEntry, h.pos]

variable {s s' : Shell} {call : ParserCall} {c : Child} {spared : Nat → Prop}
  {stdin output : File}

structure StageDone (spared : Nat → Prop) (s s' : Shell) (args : ParserArgs) (stdin output : File)
    (pipefd : Int × Int) (c : Child) : Prop where
  cmd : c.cmd = args.cmd
  pipe : c.pipe = s.made
  stdin : c.stdin = some stdin
  made : s'.made = s.made + 1
  readEnd : s'.files pipefd.1 = some (.readEnd s.made)
  spares : Spares spared s.files s'.files
  merged : args.last = true → args.getInput = 3 → '>' ∉ args.cmd → c.stdout = some output
  fresh : args.last = true → args.getInput = 4 →
    ('>' ∉ args.cmd → c.stdout = some (.writeEnd s.made)) ∧
      s'.files pipefd.2 = some (.writeEnd s.made) ∧ SameEntries (completeEntry s pipefd) s'
  kept : args.last = false ∨ args.getInput ≠ 4 → SameEntries s s'

def InputFrom (spared : Nat → Prop) (t : Table) (args : ParserArgs) (stdin : File) : Prop :=
  (args.input = 0 ∧ args.enter = false ∧ stdin = .terminal) ∨
    ∃ p, stdin = .readEnd p ∧ t args.input = some (.readEnd p) ∧ spared p ∧
      (args.enter = true ∨ args.first = false)

theorem parser_eq_some (h : parser s args call = some (s', c)) :
    Unused s.files call.pipeFd ∧
      s' = { s with
        files := if args.input ≠ 0 then close (openPipe s.files call.pipeFd s.made) args.input
          else openPipe s.files call.pipeFd s.made
        made := s.made + 1 } ∧
      c = child (openPipe s.files call.pipeFd s.made) args call.pipeFd s.made := by
  unfold parser at h
  split at h
  next hunused =>
    simp only [Option.some.injEq, Prod.mk.injEq] at h
    exact ⟨hunused, h.1.symm, h.2.symm⟩
  next => contradiction

/-- The parent's closing of `input` only touches the pipe it stands for. -/
theorem parser_files (hserving : Serving sockfd s.files) (hunused : Unused s.files call.pipeFd)
    (hinput : InputFrom spared s.files args stdin) :
    let t := openPipe s.files call.pipeFd s.made
    let t' := if args.input ≠ 0 then close t args.input else t
    Spares spared s.files t' ∧ t' call.pipeFd.1 = some (.readEnd s.made) ∧
      t' call.pipeFd.2 = some (.writeEnd s.made) := by
  dsimp only
  have hopen : Spares spared s.files (openPipe s.files call.pipeFd s.made) :=
    Spares.openPipe hunused
  rcases hinput with ⟨hzero, -, -⟩ | ⟨p, -, hfile, hp, -⟩
  · rw [if_neg (by simp [hzero])]
    exact ⟨hopen, openPipe_read hunused, openPipe_write⟩
  · have hne := (hserving.not_standard hfile (by simp)).1
    have hread : call.pipeFd.1 ≠ args.input := by
      intro heq
      rw [← heq, hunused.2.2.2.1] at hfile
      contradiction
    have hwrite : call.pipeFd.2 ≠ args.input := by
      intro heq
      rw [← heq, hunused.2.2.2.2] at hfile
      contradiction
    rw [if_pos hne]
    refine ⟨hopen.trans (Spares.close (openPipe_old hunused hfile) (.inl rfl) hp), ?_, ?_⟩
    · rw [close_of_ne hread, openPipe_read hunused]
    · rw [close_of_ne hwrite, openPipe_write]

theorem child_stdin (hserving : Serving sockfd s.files) (hunused : Unused s.files call.pipeFd)
    (hinput : InputFrom spared s.files args stdin) :
    (child (openPipe s.files call.pipeFd s.made) args call.pipeFd s.made).stdin = some stdin := by
  rcases hinput with ⟨hzero, henter, rfl⟩ | ⟨p, rfl, hfile, -, hentered⟩
  · rw [child, childFiles_stdin_own hzero henter]
    exact openPipe_old hunused hserving.stdin
  · have hfd := hserving.not_standard hfile (by simp)
    exact childFiles_stdin_input (openPipe_old hunused hfile) hfd hentered

theorem finishRound_made (last : Bool) (getInput : Nat) (pipefd : Int × Int) :
    (finishRound s last getInput pipefd).made = s.made := by
  unfold finishRound
  split
  · split
    · rfl
    · split <;> rfl
  · rfl

theorem finishRound_files (last : Bool) (getInput : Nat) (pipefd : Int × Int) :
    (finishRound s last getInput pipefd).files = s.files ∨
      (finishRound s last getInput pipefd).files = close s.files pipefd.2 := by
  unfold finishRound
  split
  · split
    · exact .inr rfl
    · split <;> exact .inl rfl
  · exact .inr rfl

theorem finishRound_kept {last : Bool} {getInput : Nat} (pipefd : Int × Int)
    (h : last = false ∨ getInput ≠ 4) : SameEntries s (finishRound s last getInput pipefd) := by
  unfold finishRound
  split
  next hlast =>
    split
    next => exact ⟨rfl, rfl, rfl, rfl⟩
    next =>
      split
      next hget => simp [hlast, hget] at h
      next => exact SameEntries.refl s
  next => exact ⟨rfl, rfl, rfl, rfl⟩

theorem finishRound_fresh (pipefd : Int × Int) :
    finishRound s true 4 pipefd = completeEntry s pipefd := rfl

theorem stage_done (hserving : Serving sockfd s.files)
    (hinput : InputFrom spared s.files args stdin)
    (houtput : s.files args.output = some output) (hpipeOut : output ≠ .terminal)
    (hspared : spared s.made) (hreturned : call.getData = call.pipeFd)
    (h : parser s args call = some (s', c)) :
    StageDone spared s (finishRound s' args.last args.getInput call.getData) args stdin output
      call.pipeFd c := by
  obtain ⟨hunused, hs', rfl⟩ := parser_eq_some h
  have hstdin := child_stdin hserving hunused hinput
  have hparser := parser_files hserving hunused hinput
  have hfiles : s'.files = if args.input ≠ 0 then
      close (openPipe s.files call.pipeFd s.made) args.input
      else openPipe s.files call.pipeFd s.made := by rw [hs']
  dsimp only at hparser
  rw [← hfiles] at hparser
  obtain ⟨hspares, hread, hwrite⟩ := hparser
  have hmade : s'.made = s.made + 1 := by rw [hs']
  have hentries : SameEntries s s' := by
    rw [hs']
    exact ⟨rfl, rfl, rfl, rfl⟩
  have hopen : Spares spared s.files (openPipe s.files call.pipeFd s.made) :=
    Spares.openPipe hunused
  rw [hreturned]
  constructor
  · rfl
  · rfl
  · exact hstdin
  · rw [finishRound_made, hmade]
  · rcases finishRound_files (s := s') args.last args.getInput call.pipeFd with heq | heq
    · rw [heq, hread]
    · rw [heq]
      exact close_eq_some hread (by simp [hwrite])
  · rcases finishRound_files (s := s') args.last args.getInput call.pipeFd with heq | heq
    · rw [heq]
      exact hspares
    · rw [heq]
      exact hspares.trans (Spares.close hwrite (.inr rfl) hspared)
  · intro hlast hget hplain
    have houtputFd := hserving.not_standard houtput hpipeOut
    rw [child, redirected, if_neg hplain]
    exact childFiles_stdout_merged (openPipe_old hunused houtput) houtputFd hlast hget
  · intro hlast hget
    rw [hlast, hget, finishRound_fresh]
    refine ⟨?_, hwrite, hentries.completeEntry _⟩
    intro hplain
    have hpipeFd := (hserving.spares hopen).not_standard openPipe_write (by simp)
    rw [child, redirected, if_neg hplain]
    exact childFiles_stdout_new openPipe_write hpipeFd hlast hget
  · intro hkept
    exact hentries.trans (finishRound_kept _ hkept)

/-- What a row of stages has done, from the shell `s` on; `base` has the entries
before the line's own one is completed. -/
structure StagesDone (spared : Nat → Prop) (base s s' : Shell) (getInput : Nat)
    (stdin output : File) (cmds : List Text) (children : List Child) : Prop where
  commands : children.map Child.cmd = cmds
  pipes : children.map Child.pipe = List.range' s.made cmds.length
  made : s'.made = s.made + cmds.length
  first : ∃ c, children.head? = some c ∧ c.stdin = some stdin
  later : ∀ i c, children[i + 1]? = some c → c.stdin = some (.readEnd (s.made + i))
  spares : Spares spared s.files s'.files
  merged : getInput = 1 → ∃ c, children.getLast? = some c ∧
    ('>' ∉ c.cmd → c.stdout = some output)
  fresh : getInput = 2 → ∃ c pipefd, children.getLast? = some c ∧
    ('>' ∉ c.cmd → c.stdout = some (.writeEnd c.pipe)) ∧
    s'.files pipefd.1 = some (.readEnd c.pipe) ∧ s'.files pipefd.2 = some (.writeEnd c.pipe) ∧
    SameEntries (completeEntry base pipefd) s'
  kept : getInput ≠ 2 → SameEntries base s'

variable {getInput : Nat} {cmds : List Text} {children : List Child} {pipefd : Int × Int}

theorem lastGetInput_three (h : getInput = 0 ∨ getInput = 1 ∨ getInput = 2) :
    (lastGetInput getInput = 3 ↔ getInput = 1) ∧ (lastGetInput getInput = 4 ↔ getInput = 2) := by
  rcases h with rfl | rfl | rfl <;> decide

theorem StagesDone.single (hget : getInput = 0 ∨ getInput = 1 ∨ getInput = 2)
    (hargs : args.last = true ∧ args.getInput = lastGetInput getInput)
    (h : StageDone spared s s' args stdin output pipefd c) :
    StagesDone spared s s s' getInput stdin output [args.cmd] [c] := by
  obtain ⟨hthree, hfour⟩ := lastGetInput_three hget
  constructor
  · simp [h.cmd]
  · simp [h.pipe]
  · exact h.made
  · exact ⟨c, rfl, h.stdin⟩
  · intro i c' hc'
    simp at hc'
  · exact h.spares
  · intro hone
    refine ⟨c, rfl, fun hplain => ?_⟩
    rw [h.cmd] at hplain
    exact h.merged hargs.1 (hargs.2.trans (hthree.mpr hone)) hplain
  · intro htwo
    obtain ⟨hstdout, hwrite, hentries⟩ := h.fresh hargs.1 (hargs.2.trans (hfour.mpr htwo))
    refine ⟨c, pipefd, rfl, ?_, ?_, ?_, hentries⟩
    · rw [h.cmd, h.pipe]
      exact hstdout
    · rw [h.pipe]
      exact h.readEnd
    · rw [h.pipe]
      exact hwrite
  · intro hne
    refine h.kept (.inr ?_)
    rw [hargs.2]
    exact fun heq => hne (hfour.mp heq)

theorem StagesDone.cons {middle : Shell} (hargs : args.last = false)
    (h : StageDone spared s middle args stdin output pipefd c)
    (hrest : StagesDone spared middle middle s' getInput (.readEnd s.made) output cmds children) :
    StagesDone spared s s s' getInput stdin output (args.cmd :: cmds) (c :: children) := by
  have hmiddle := h.kept (.inl hargs)
  obtain ⟨next, hnext, hnextIn⟩ := hrest.first
  have hlast : (c :: children).getLast? = children.getLast? := by
    cases children with
    | nil => simp at hnext
    | cons d ds => rfl
  constructor
  · simp [h.cmd, hrest.commands]
  · simp [h.pipe, hrest.pipes, h.made, List.range'_succ]
  · rw [hrest.made, h.made, List.length_cons]
    omega
  · exact ⟨c, rfl, h.stdin⟩
  · intro i c' hc'
    rw [List.getElem?_cons_succ] at hc'
    cases i with
    | zero =>
      rw [← List.head?_eq_getElem?, hnext, Option.some.injEq] at hc'
      rw [← hc']
      exact hnextIn
    | succ i =>
      rw [hrest.later i c' hc', h.made]
      congr 2
      omega
  · exact h.spares.trans hrest.spares
  · rw [hlast]
    exact hrest.merged
  · intro htwo
    obtain ⟨d, fds, hd, hstdout, hread, hwrite, hentries⟩ := hrest.fresh htwo
    refine ⟨d, fds, hlast.trans hd, hstdout, hread, hwrite, ?_⟩
    exact (hmiddle.completeEntry fds).trans hentries
  · intro hne
    exact hmiddle.trans (hrest.kept hne)

variable {line : Line} {calls : Nat → ParserCall} {r r' : Round}

/-- The arguments of `parser` in a round. -/
def roundArgs (line : Line) (first last : Bool) (cmd : Text) (r : Round) (due : Option Int) :
    ParserArgs where
  input := due.getD r.input
  first := first
  last := last
  wait := line.wait
  enter := due.isSome
  nPipeErr := line.nPipeErr
  output := line.lastOutput
  getInput := if last then lastGetInput r.getInput else r.getInput
  cmd := cmd

theorem runCommand_done {first last : Bool} {cmd : Text} {due : Option Int}
    (hdue : takeDue r.shell first = (s, due)) (hserving : Serving sockfd s.files)
    (hinput : InputFrom spared s.files (roundArgs line first last cmd r due) stdin)
    (houtput : s.files line.lastOutput = some output) (hwritable : output ≠ .terminal)
    (hspared : spared s.made) (hreturned : call.getData = call.pipeFd)
    (h : runCommand line first last cmd call r = some r') :
    ∃ c, r'.children = r.children ++ [c] ∧ r'.input = call.pipeFd.1 ∧
      r'.getInput = (if last then lastGetInput r.getInput else r.getInput) ∧
      StageDone spared s r'.shell (roundArgs line first last cmd r due) stdin output
        call.pipeFd c := by
  unfold runCommand at h
  simp only [hdue, Option.map_eq_some_iff, Prod.exists] at h
  obtain ⟨s', c, hparser, rfl⟩ := h
  refine ⟨c, rfl, by rw [hreturned], rfl, ?_⟩
  exact stage_done hserving hinput houtput hwritable
    hspared hreturned hparser

structure Unspared (spared : Nat → Prop) (made : Nat) (output : File) : Prop where
  later : ∀ p, made ≤ p → spared p
  kept : ∀ p, output = .readEnd p ∨ output = .writeEnd p → ¬ spared p
  writable : output ≠ .terminal

theorem Unspared.next {made : Nat} (h : Unspared spared made output) :
    Unspared spared (made + 1) output :=
  ⟨fun p hp => h.later p (by omega), h.kept, h.writable⟩

theorem runCommands_later {i p : Nat} (hi : i ≠ 0)
    (hget : r.getInput = 0 ∨ r.getInput = 1 ∨ r.getInput = 2)
    (hserving : Serving sockfd r.shell.files)
    (hinput : r.shell.files r.input = some (.readEnd p)) (hp : spared p)
    (houtput : r.shell.files line.lastOutput = some output)
    (hunspared : Unspared spared r.shell.made output)
    (hreturned : ∀ i, (calls i).getData = (calls i).pipeFd) (hne : cmds ≠ [])
    (h : runCommands line calls i cmds r = some r') :
    ∃ children, r'.children = r.children ++ children ∧
      StagesDone spared r.shell r.shell r'.shell r.getInput (.readEnd p) output cmds children := by
  induction cmds generalizing i p r with
  | nil => exact absurd rfl hne
  | cons cmd cmds ih =>
    simp only [runCommands, hi, decide_false, Option.bind_eq_some_iff] at h
    obtain ⟨middle, hfirst, hrest⟩ := h
    have hdue : takeDue r.shell false = (r.shell, none) := rfl
    have hargs : InputFrom spared r.shell.files (roundArgs line false cmds.isEmpty cmd r none)
        (.readEnd p) := .inr ⟨p, rfl, hinput, hp, .inr rfl⟩
    obtain ⟨c, hchildren, hmiddleInput, hmiddleGet, hdone⟩ := runCommand_done hdue hserving hargs
      houtput hunspared.writable (hunspared.later _ (le_refl _)) (hreturned i) hfirst
    cases cmds with
    | nil =>
      simp only [runCommands, Option.some.injEq] at hrest
      subst hrest
      exact ⟨[c], hchildren, StagesDone.single hget ⟨rfl, rfl⟩ hdone⟩
    | cons next cmds =>
      have hmiddle := hdone.spares
      have hread := hdone.readEnd
      rw [← hmiddleInput] at hread
      have hsame : middle.getInput = r.getInput := hmiddleGet
      have hgetMiddle : middle.getInput = 0 ∨ middle.getInput = 1 ∨ middle.getInput = 2 := by
        rwa [hsame]
      have hunsparedMiddle : Unspared spared middle.shell.made output := by
        rw [hdone.made]
        exact hunspared.next
      obtain ⟨children, hall, hstages⟩ := ih (Nat.succ_ne_zero i) hgetMiddle
        (hserving.spares hmiddle) hread (hunspared.later _ (le_refl _))
        (hmiddle _ _ houtput hunspared.kept) hunsparedMiddle (List.cons_ne_nil _ _) hrest
      refine ⟨c :: children, ?_, ?_⟩
      · rw [hall, hchildren, List.append_assoc]
        rfl
      · rw [hsame] at hstages
        exact StagesDone.cons rfl hdone hstages

theorem StagesDone.before {base start : Shell}
    (h : StagesDone spared s s s' getInput stdin output cmds children)
    (hentries : SameEntries base s) (hmade : s.made = start.made)
    (hspares : Spares spared start.files s.files) :
    StagesDone spared base start s' getInput stdin output cmds children := by
  constructor
  · exact h.commands
  · rw [h.pipes, hmade]
  · rw [h.made, hmade]
  · exact h.first
  · rw [← hmade]
    exact h.later
  · exact hspares.trans h.spares
  · exact h.merged
  · intro htwo
    obtain ⟨c, fds, hlast, hstdout, hread, hwrite, hafter⟩ := h.fresh htwo
    exact ⟨c, fds, hlast, hstdout, hread, hwrite, (hentries.completeEntry fds).trans hafter⟩
  · intro hne
    exact hentries.trans (h.kept hne)

inductive DueFile (spared : Nat → Prop) (s : Shell) : File → Prop
  | none (h : dueEntry s = none) : DueFile spared s .terminal
  | some (j p : Nat) (h : dueEntry s = some j) (hread : s.files (s.inputNum j) = some (.readEnd p))
      (hwrite : s.files (s.outputNum j) = some (.writeEnd p)) (hp : spared p) :
      DueFile spared s (.readEnd p)

theorem takeDue_done (hdue : DueFile spared s stdin) :
    ∃ s₁ due, takeDue s true = (s₁, due) ∧ SameEntries (countDown s) s₁ ∧ s₁.made = s.made ∧
      Spares spared s.files s₁.files ∧
      ∀ (line : Line) (last : Bool) (cmd : Text) (getInput : Nat),
        InputFrom spared s₁.files (roundArgs line true last cmd ⟨s, 0, getInput, []⟩ due) stdin := by
  cases hdue with
  | none h =>
    refine ⟨countDown s, none, by simp [takeDue, h], SameEntries.refl _, rfl, Spares.refl _ _, ?_⟩
    intro line last cmd getInput
    exact .inl ⟨rfl, rfl, rfl⟩
  | some j p h hread hwrite hp =>
    refine ⟨{ countDown s with files := close s.files (s.outputNum j) }, some (s.inputNum j),
      by simp [takeDue, h], ⟨rfl, rfl, rfl, rfl⟩, rfl, Spares.close hwrite (.inr rfl) hp, ?_⟩
    intro line last cmd getInput
    exact .inr ⟨p, rfl, close_eq_some hread (by simp [hwrite]), hp, .inl rfl⟩

theorem runCommands_line (hget : getInput = 0 ∨ getInput = 1 ∨ getInput = 2)
    (hserving : Serving sockfd s.files) (hdue : DueFile spared s stdin)
    (houtput : s.files line.lastOutput = some output)
    (hunspared : Unspared spared s.made output)
    (hreturned : ∀ i, (calls i).getData = (calls i).pipeFd) (hne : cmds ≠ [])
    (h : runCommands line calls 0 cmds ⟨s, 0, getInput, []⟩ = some r') :
    StagesDone spared (countDown s) s r'.shell getInput stdin output cmds r'.children := by
  obtain ⟨s₁, due, htake, hentries, hmade, hspares, hinput⟩ := takeDue_done hdue
  have houtput₁ := hspares _ _ houtput hunspared.kept
  have hunspared₁ : Unspared spared s₁.made output := by
    rw [hmade]
    exact hunspared
  cases cmds with
  | nil => exact absurd rfl hne
  | cons cmd cmds =>
    simp only [runCommands, decide_true, Option.bind_eq_some_iff] at h
    obtain ⟨middle, hfirst, hrest⟩ := h
    obtain ⟨c, hchildren, hmiddleInput, hmiddleGet, hdone⟩ := runCommand_done
      (r := ⟨s, 0, getInput, []⟩) htake (hserving.spares hspares) (hinput _ _ _ _) houtput₁
      hunspared.writable (hunspared₁.later _ (le_refl _)) (hreturned 0) hfirst
    cases cmds with
    | nil =>
      simp only [runCommands, Option.some.injEq] at hrest
      subst hrest
      rw [hchildren]
      exact (StagesDone.single hget ⟨rfl, rfl⟩ hdone).before hentries hmade hspares
    | cons next cmds =>
      have hread := hdone.readEnd
      rw [← hmiddleInput] at hread
      have hsame : middle.getInput = getInput := hmiddleGet
      have hgetMiddle : middle.getInput = 0 ∨ middle.getInput = 1 ∨ middle.getInput = 2 := by
        rwa [hsame]
      have hunsparedMiddle : Unspared spared middle.shell.made output := by
        rw [hdone.made]
        exact hunspared₁.next
      obtain ⟨children, hall, hstages⟩ := runCommands_later (Nat.succ_ne_zero 0) hgetMiddle
        ((hserving.spares hspares).spares hdone.spares) hread (hunspared₁.later _ (le_refl _))
        (hdone.spares _ _ houtput₁ hunspared.kept) hunsparedMiddle hreturned
        (List.cons_ne_nil _ _) hrest
      rw [hall, hchildren]
      rw [hsame] at hstages
      exact (StagesDone.cons rfl hdone hstages).before hentries hmade hspares

end NetworkProgramming.Simple
