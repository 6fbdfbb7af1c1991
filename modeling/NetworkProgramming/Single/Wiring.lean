import NetworkProgramming.Library.Words
import NetworkProgramming.Single.Countdown
import NetworkProgramming.Single.Redirections
import NetworkProgramming.Single.Tokens

/-! The standard input and output of the commands of one line, over all positions in the
line and all numbered pipes. -/
namespace NetworkProgramming.Single
open Library.CString Library.Descriptors Library.Run Library.Search Library.Words CommandLine

/-- A line of programs as `do_exec` has split it, without `<` and `>`, and with no number
or one from 1 on. -/
structure ProgramLine where
  text : Text
  reading : Reading
  read : readLine text = some reading
  programs : builtin reading.commands = none
  plain : '<' ∉ text ∧ '>' ∉ text
  positive : ∀ n ∈ reading.pipeNumber, 1 ≤ n

/-- The pair that `parser` returns holds the descriptors of the pipe it made. -/
structure Returned (call : ParserCall) : Prop where
  same : call.getData = call.pipeFd
  nonzero : call.pipeFd.1 ≠ 0 ∧ call.pipeFd.2 ≠ 0

/-- The arguments of the call of `parser` for command `i` of `count`; `due` is the read
end of the pipe that is due. -/
def stageArgs (line : Line) (calls : Nat → ParserCall) (path : Option Text) (due : Option Int)
    (getInput count i : Nat) (cmd : Text) : ParserArgs where
  input := if i = 0 then due.getD 0 else (calls (i - 1)).getData.1
  first := i = 0
  last := i + 1 = count
  wait := line.wait
  enter := decide (i = 0) && due.isSome
  nPipeErr := line.nPipeErr
  output := line.outputFd
  getInput := if i + 1 = count then lastGetInput getInput else getInput
  cmd := cmd
  sockfd := line.sockfd
  path := path
  pipeFd := (calls i).pipeFd

variable {s : Server} {args : ParserArgs} {line : Line} {calls : Nat → ParserCall}
  {call : ParserCall} {r r' : Round} {cmd : Text} {cmds : List Text} {path : Option Text}
  {due : Option Int} {getInput i : Nat} {fd : Int}

theorem parser_plain (hless : '<' ∉ args.cmd) (hmore : '>' ∉ args.cmd) :
    parser s args = .ok (s, [.fork args]) := by
  have hpipes : pipesOut args.cmd = false := pipesOut_plain hmore
  unfold parser parserSends parserReceives
  simp [hpipes, hless]

theorem doPrintenv_same {s s' : Server} (h : s'.clientsMap = s.clientsMap) (key : Text) :
    doPrintenv s' fd key = doPrintenv s fd key := by
  unfold doPrintenv
  rw [h]

theorem runCommand_stage (first last : Bool) (call : ParserCall) (hless : '<' ∉ cmd)
    (hmore : '>' ∉ cmd) (hpath : doPrintenv r.server line.sockfd "PATH".toList = .ok path) :
    ∃ r', runCommand line first last cmd call r = .ok r' ∧ r'.input = call.getData.1 ∧
      r'.getInput = (if last then lastGetInput r.getInput else r.getInput) ∧
      r'.server.clientsMap = r.server.clientsMap ∧
      forks r'.effects = forks r.effects ++
        [{ input := (((takeDue r.server line.sockfd first).2).map PipeInfo.inputNum).getD r.input
           first, last, wait := line.wait
           enter := (takeDue r.server line.sockfd first).2.isSome, nPipeErr := line.nPipeErr
           output := line.outputFd
           getInput := if last then lastGetInput r.getInput else r.getInput
           cmd, sockfd := line.sockfd, path, pipeFd := call.pipeFd }] := by
  have hpath' := hpath
  rw [← doPrintenv_same (takeDue_sameUsers r.server line.sockfd first).clientsMap] at hpath'
  unfold runCommand
  dsimp only
  rw [hpath']
  dsimp only
  rw [parser_plain hless hmore]
  refine ⟨_, rfl, rfl, rfl, ?_, ?_⟩
  · exact (finishRound_sameUsers _ _ _ _).clientsMap.trans (takeDue_sameUsers _ _ _).clientsMap
  · have hdue : forks (Option.map (fun entry => Effect.close entry.outputNum)
        (takeDue r.server line.sockfd first).2).toList = [] := by
      cases (takeDue r.server line.sockfd first).2 <;> rfl
    have hinput : ∀ fd : Int, forks (if fd ≠ 0 then [Effect.close fd] else []) = [] := by
      intro fd
      split <;> rfl
    rw [forks_append, forks_append, forks_append, forks_append, hdue, hinput,
      (finishRound_numbered (.refl _) _ _ _).2, List.append_nil, List.append_nil, List.append_nil]
    rfl

def stages (child : Nat → Text → ParserArgs) : Nat → List Text → List ParserArgs
  | _, [] => []
  | i, cmd :: cmds => child i cmd :: stages child (i + 1) cmds

theorem length_stages (child : Nat → Text → ParserArgs) (i : Nat) (cmds : List Text) :
    (stages child i cmds).length = cmds.length := by
  induction cmds generalizing i with
  | nil => rfl
  | cons cmd cmds ih => rw [stages, List.length_cons, ih, List.length_cons]

theorem getElem?_stages (child : Nat → Text → ParserArgs) (i j : Nat) (cmds : List Text) :
    (stages child i cmds)[j]? = cmds[j]?.map (child (i + j)) := by
  induction cmds generalizing i j with
  | nil => simp [stages]
  | cons cmd cmds ih =>
    cases j with
    | zero => simp [stages]
    | succ j =>
      rw [stages, List.getElem?_cons_succ, List.getElem?_cons_succ, ih]
      have hindex : i + 1 + j = i + (j + 1) := by omega
      rw [hindex]

theorem takeDue_due (s : Server) (fd : Int) (first : Bool) :
    (takeDue s fd first).2 = if first then dueEntry s fd else none := by
  cases first <;> rfl

variable {count : Nat}

theorem stageArgs_of_round {entry : Option PipeInfo} {input : Int}
    (hinput : input = if i = 0 then 0 else (calls (i - 1)).getData.1)
    (hdue : i = 0 → due = entry.map PipeInfo.inputNum) (hlater : i ≠ 0 → entry = none)
    (hcount : i + (cmds.length + 1) = count) :
    ({ input := (entry.map PipeInfo.inputNum).getD input, first := i = 0, last := cmds.isEmpty
       wait := line.wait, enter := entry.isSome, nPipeErr := line.nPipeErr
       output := line.outputFd, getInput := if cmds.isEmpty then lastGetInput getInput else getInput
       cmd, sockfd := line.sockfd, path, pipeFd := (calls i).pipeFd } : ParserArgs) =
      stageArgs line calls path due getInput count i cmd := by
  have hlast : cmds.isEmpty = decide (i + 1 = count) := by
    rw [Bool.eq_iff_iff, List.isEmpty_iff_length_eq_zero, decide_eq_true_eq]
    omega
  unfold stageArgs
  rw [hlast, hinput]
  by_cases hi : i = 0
  · rw [hdue hi]
    simp [hi]
  · rw [hlater hi]
    simp [hi]

/-- The children of the rounds from command `i` on, by their positions in the line. -/
theorem runCommands_stages (line : Line) (calls : Nat → ParserCall)
    (hplain : ∀ cmd ∈ cmds, '<' ∉ cmd ∧ '>' ∉ cmd)
    (hpath : doPrintenv r.server line.sockfd "PATH".toList = .ok path)
    (hinput : r.input = if i = 0 then 0 else (calls (i - 1)).getData.1)
    (hdue : i = 0 → due = (dueEntry r.server line.sockfd).map PipeInfo.inputNum)
    (hget : cmds ≠ [] → r.getInput = getInput) (hcount : i + cmds.length = count) :
    ∃ r', runCommands line calls i cmds r = .ok r' ∧
      forks r'.effects =
        forks r.effects ++ stages (stageArgs line calls path due getInput count) i cmds := by
  induction cmds generalizing i r with
  | nil => exact ⟨r, rfl, by simp [stages]⟩
  | cons cmd cmds ih =>
    obtain ⟨hless, hmore⟩ := hplain cmd List.mem_cons_self
    obtain ⟨middle, hfirst, hnext, hmiddleGet, hclients, hforks⟩ :=
      runCommand_stage (i = 0) cmds.isEmpty (calls i) hless hmore hpath
    have hentry : (takeDue r.server line.sockfd (i = 0)).2 =
        if i = 0 then dueEntry r.server line.sockfd else none := by
      rw [takeDue_due]
      simp
    have hdue' : i = 0 → due =
        (if i = 0 then dueEntry r.server line.sockfd else none).map PipeInfo.inputNum := by
      intro hi
      rw [if_pos hi]
      exact hdue hi
    have hrestGet : cmds ≠ [] → middle.getInput = getInput := by
      intro hne
      rw [hmiddleGet, if_neg (by simpa using hne)]
      exact hget (List.cons_ne_nil _ _)
    rw [hget (List.cons_ne_nil _ _), hentry,
      stageArgs_of_round hinput hdue' (fun hi => if_neg hi) hcount] at hforks
    have hmiddle : doPrintenv middle.server line.sockfd "PATH".toList = .ok path := by
      rw [doPrintenv_same hclients, hpath]
    obtain ⟨r', hrest, hmore'⟩ := ih (i := i + 1)
      (fun cmd hcmd => hplain cmd (List.mem_cons_of_mem _ hcmd)) hmiddle (by simpa using hnext)
      (by simp) hrestGet (by rw [← hcount, List.length_cons]; omega)
    refine ⟨r', ?_, ?_⟩
    · rw [runCommands, hfirst]
      exact hrest
    · rw [hmore', hforks, List.append_assoc, stages, List.singleton_append]

variable {text : Text} {reading : Reading} {l : ProgramLine} {slot : Nat} {n out : Int}
  {claimed : Server}

theorem readNumber_lt {filename : List Text} {err : Bool}
    (h : (readNumber filename err).pipeNumber = some n) : n < 2 ^ 31 := by
  unfold readNumber at h
  split at h
  next => contradiction
  next =>
    split at h
    next =>
      rw [← Option.some.inj h]
      exact int32_lt _
    next => contradiction

/-- The number is read from the pieces at `|`, or with a further one at `!`. -/
theorem readLine_eq (h : readLine text = some reading) : ∃ filename err,
    reading = readNumber filename err ∧
      (filename = splitPipe text ∨ filename = (splitErrorPipe (splitPipe text)).1) := by
  unfold readLine at h
  dsimp only at h
  split at h
  next => contradiction
  next =>
    have heither : ∀ b : Bool,
        (if b then splitErrorPipe (splitPipe text) else (splitPipe text, false)).1 =
            splitPipe text ∨
          (if b then splitErrorPipe (splitPipe text) else (splitPipe text, false)).1 =
            (splitErrorPipe (splitPipe text)).1 := by
      intro b
      cases b with
      | true => exact .inr rfl
      | false => exact .inl rfl
    exact ⟨_, _, (Option.some.inj h).symm, heither _⟩

theorem mem_strtokHead {c : Char} {str : Text} (h : c ∈ strtokHead '!' str) : c ∈ str := by
  unfold strtokHead at h
  rw [List.mem_append] at h
  cases h with
  | inl h => exact (List.takeWhile_sublist _).mem h
  | inr h => exact (List.dropWhile_sublist _).mem ((List.takeWhile_sublist _).mem h)

theorem mem_splitErrorPipe {c : Char} {filename : List Text} {piece : Text} (hc : c ≠ '!')
    (hpiece : piece ∈ (splitErrorPipe filename).1) (hmem : c ∈ piece) :
    ∃ whole ∈ filename, c ∈ whole := by
  unfold splitErrorPipe at hpiece
  split at hpiece
  next => contradiction
  next last hlast =>
    have hin : last ∈ filename := List.mem_of_getLast? hlast
    split at hpiece
    next first second hsplit =>
      simp only [List.mem_append, List.mem_cons, List.not_mem_nil, or_false] at hpiece
      rcases hpiece with hpiece | rfl | rfl
      · exact ⟨piece, List.dropLast_subset _ hpiece, hmem⟩
      · exact ⟨last, hin, mem_strtokHead hmem⟩
      · refine ⟨last, hin, (mem_iff_piece hc).mpr ⟨piece, ?_, hmem⟩⟩
        rw [hsplit]
        simp
    next =>
      simp only [List.mem_append, List.mem_singleton] at hpiece
      rcases hpiece with hpiece | rfl
      · exact ⟨piece, List.dropLast_subset _ hpiece, hmem⟩
      · exact ⟨last, hin, mem_strtokHead hmem⟩

theorem mem_readNumber {filename : List Text} {err : Bool} {piece : Text}
    (h : piece ∈ (readNumber filename err).commands) : piece ∈ filename := by
  unfold readNumber at h
  split at h
  next => contradiction
  next =>
    split at h
    next => exact List.dropLast_subset _ h
    next => exact h

theorem mem_readLine {c : Char} (hpipe : c ≠ '|') (hbang : c ≠ '!')
    (h : readLine text = some reading) (hcmd : cmd ∈ reading.commands) (hmem : c ∈ cmd) :
    c ∈ text := by
  obtain ⟨filename, err, rfl, rfl | rfl⟩ := readLine_eq h
  · exact (mem_iff_piece hpipe).mpr ⟨cmd, mem_readNumber hcmd, hmem⟩
  · obtain ⟨whole, hwhole, hc⟩ := mem_splitErrorPipe hbang (mem_readNumber hcmd) hmem
    exact (mem_iff_piece hpipe).mpr ⟨whole, hwhole, hc⟩

theorem ProgramLine.commands_plain (l : ProgramLine) (hcmd : cmd ∈ l.reading.commands) :
    '<' ∉ cmd ∧ '>' ∉ cmd :=
  ⟨fun hmem => l.plain.1 (mem_readLine (by decide) (by decide) l.read hcmd hmem),
    fun hmem => l.plain.2 (mem_readLine (by decide) (by decide) l.read hcmd hmem)⟩

def lineChildren (s : Server) (fd : Int) (l : ProgramLine) (calls : Nat → ParserCall)
    (path : Option Text) : List ParserArgs :=
  let (claimed, getInput, outputFd) := claimEntry s fd l.reading.pipeNumber
  stages (stageArgs ⟨fd, l.reading.pipeNumber.isNone, l.reading.pipeErrN, outputFd⟩ calls path
    ((dueEntry claimed fd).map PipeInfo.inputNum) getInput l.reading.commands.length) 0
    l.reading.commands

theorem doExec_children (l : ProgramLine) (calls : Nat → ParserCall)
    (hlogged : s.clientsMap.indexOf fd = some slot) :
    ∃ o path, doExec s l.text fd calls = .ok o ∧ o.ret = 0 ∧
      forks o.effects = lineChildren s fd l calls path := by
  have hclients := (claimEntry_sameUsers s fd l.reading.pipeNumber).clientsMap
  unfold lineChildren doExec
  rw [l.read]
  dsimp only
  generalize claimEntry s fd l.reading.pipeNumber = claim at hclients
  obtain ⟨claimed, getInput, outputFd⟩ := claim
  have hpath : doPrintenv claimed fd "PATH".toList =
      .ok ((s.clientsMap.env slot).first "PATH".toList) := by
    rw [doPrintenv_same hclients, doPrintenv, hlogged]
  dsimp only
  rw [checkUserPipes_plain l.plain.1 (pipesOut_plain l.plain.2)]
  obtain ⟨r', hrun, hforks⟩ := runCommands_stages
    ⟨fd, l.reading.pipeNumber.isNone, l.reading.pipeErrN, outputFd⟩ calls
    (r := ⟨claimed, 0, getInput, []⟩) (i := 0) (fun _ => l.commands_plain) hpath rfl (fun _ => rfl)
    (fun _ => rfl) (Nat.zero_add _)
  refine ⟨⟨r'.server, r'.effects, 0⟩, _, ?_, rfl, hforks⟩
  unfold runLine
  rw [l.programs]
  dsimp only
  rw [hrun]
  rfl

/-- Where the last command is to write: the client's socket, its own pipe, or the pipe of
the entry that counts to the same line. -/
def lineOutput (s : Server) (fd : Int) (number : Option Int) (own : Int) : Int :=
  match number with
  | none => fd
  | some n => ((findTarget s fd n).map fun i => (s.clientPipe i).outputNum).getD own

/-- What the standard input and output of the children of a line are to be. -/
structure RedirectionsWired (s : Server) (fd : Int) (l : ProgramLine) (calls : Nat → ParserCall)
    (children : List ParserArgs) : Prop where
  length : children.length = l.reading.commands.length
  first : ∀ args j, children.head? = some args → j < 1000 → (s.clientPipe j).waits fd 1 = true →
    source (childDups args) 0 = (s.clientPipe j).inputNum
  later : ∀ (i : Nat) (args : ParserArgs), children[i + 1]? = some args →
    source (childDups args) 0 = (calls i).pipeFd.1
  inner : ∀ (i : Nat) (args : ParserArgs), i + 1 < children.length → children[i]? = some args →
    source (childDups args) 1 = (calls i).pipeFd.2
  last : ∀ (i : Nat) (args : ParserArgs), i + 1 = children.length → children[i]? = some args →
    source (childDups args) 1 = lineOutput s fd l.reading.pipeNumber (calls i).pipeFd.2

/-- The line's new entry takes the place of the one that is due, and of its pipe. -/
def TakesDue (s : Server) (fd : Int) (l : ProgramLine) : Prop :=
  ∃ n, l.reading.pipeNumber = some n ∧ findTarget s fd n = none ∧ s.pos < 1000 ∧
    (s.clientPipe s.pos).waits fd 1 = true ∧ (s.clientPipe s.pos).inputNum ≠ 0

theorem length_lineChildren (s : Server) (fd : Int) (l : ProgramLine) (calls : Nat → ParserCall)
    (path : Option Text) :
    (lineChildren s fd l calls path).length = l.reading.commands.length :=
  length_stages _ _ _

theorem lineChildren_args (hclaim : claimEntry s fd l.reading.pipeNumber = (claimed, getInput, out))
    (hargs : (lineChildren s fd l calls path)[i]? = some args) : ∃ cmd,
      args = stageArgs ⟨fd, l.reading.pipeNumber.isNone, l.reading.pipeErrN, out⟩ calls path
        ((dueEntry claimed fd).map PipeInfo.inputNum) getInput l.reading.commands.length i cmd := by
  unfold lineChildren at hargs
  rw [hclaim] at hargs
  dsimp only at hargs
  rw [getElem?_stages, Nat.zero_add] at hargs
  obtain ⟨cmd, -, hcmd⟩ := Option.map_eq_some_iff.mp hargs
  exact ⟨cmd, hcmd.symm⟩

variable {number : Option Int}

theorem Claimed.getInput_cases (h : Claimed s fd number (claimed, getInput, out)) :
    getInput = 0 ∨ getInput = 1 ∨ getInput = 2 := by
  cases h with
  | plain => exact .inl rfl
  | shared => exact .inr (.inl rfl)
  | fresh => exact .inr (.inr rfl)

theorem Claimed.lineOutput (h : Claimed s fd number (claimed, getInput, out)) (own : Int) :
    lineOutput s fd number own = if getInput = 2 then own else out := by
  cases h with
  | plain => rfl
  | shared n i h =>
    unfold Single.lineOutput
    dsimp only
    rw [h]
    rfl
  | fresh n h =>
    unfold Single.lineOutput
    dsimp only
    rw [h]
    rfl

theorem Claimed.fresh_number (h : Claimed s fd number (claimed, getInput, out))
    (hget : getInput = 2) :
    ∃ n, number = some n ∧ findTarget s fd n = none := by
  cases h with
  | plain => exact absurd hget (by decide)
  | shared => exact absurd hget (by decide)
  | fresh n h => exact ⟨n, rfl, h⟩

theorem lastGetInput_four (h : getInput = 0 ∨ getInput = 1 ∨ getInput = 2) :
    (lastGetInput getInput = 4 ↔ getInput = 2) ∧ (lastGetInput getInput = 3 ↔ getInput = 1) := by
  rcases h with rfl | rfl | rfl <;> decide

theorem stage_stdin (hreturned : ∀ i, Returned (calls i)) :
    source (childDups (stageArgs line calls path due getInput count i cmd)) 0 =
      if i = 0 then due.getD 0 else (calls (i - 1)).pipeFd.1 := by
  rw [source_stdin]
  unfold stageArgs
  dsimp only
  rw [(hreturned (i - 1)).same]

theorem stage_inner (line : Line) (path : Option Text) (due : Option Int) (getInput : Nat)
    (cmd : Text) (hreturned : ∀ i, Returned (calls i)) (hlast : i + 1 ≠ count) :
    (stageArgs line calls path due getInput count i cmd).last = false ∧
      ((stageArgs line calls path due getInput count i cmd).first = true ∨
        (stageArgs line calls path due getInput count i cmd).input ≠ 0) := by
  unfold stageArgs
  dsimp only
  refine ⟨decide_eq_false hlast, ?_⟩
  by_cases hi : i = 0
  · exact .inl (decide_eq_true hi)
  · rw [if_neg hi, (hreturned (i - 1)).same]
    exact .inr (hreturned (i - 1)).nonzero.1

theorem stage_stdout_inner (hreturned : ∀ i, Returned (calls i)) (hlast : i + 1 ≠ count) :
    source (childDups (stageArgs line calls path due getInput count i cmd)) 1 =
      (calls i).pipeFd.2 := by
  rw [source_stdout, if_pos (.inl (stage_inner _ _ _ _ _ hreturned hlast))]
  rfl

theorem stage_stdout_last (hlast : i + 1 = count)
    (hget : getInput = 0 ∨ getInput = 1 ∨ getInput = 2) :
    source (childDups (stageArgs line calls path due getInput count i cmd)) 1 =
      if getInput = 2 then (calls i).pipeFd.2 else line.outputFd := by
  rw [source_stdout]
  have htrue : (stageArgs line calls path due getInput count i cmd).last = true :=
    decide_eq_true hlast
  have hfour : (stageArgs line calls path due getInput count i cmd).getInput = 4 ↔
      getInput = 2 := by
    unfold stageArgs
    dsimp only
    rw [if_pos hlast, (lastGetInput_four hget).1]
  simp only [htrue, hfour, Bool.true_eq_false, false_and, true_and, false_or]
  rfl

theorem dueEntry_unique {j : Nat} (hj : j < 1000) (hwaits : (s.clientPipe j).waits fd 1 = true)
    (honce : ∀ i < 1000, (s.clientPipe i).waits fd 1 = true → i = j) :
    dueEntry s fd = some (s.clientPipe j) := by
  unfold dueEntry
  rw [Option.map_eq_some_iff]
  refine ⟨j, ?_, rfl⟩
  rw [lastBelow_eq_some]
  refine ⟨hj, hwaits, fun k hk hk' => ?_⟩
  rw [Bool.eq_false_iff]
  intro hother
  have heq := honce k hk' hother
  omega

theorem dueEntry_eq_none (h : ∀ i < 1000, ¬ (s.clientPipe i).waits fd 1 = true) :
    dueEntry s fd = none := by
  unfold dueEntry
  rw [Option.map_eq_none_iff, lastBelow_eq_none]
  intro i hi
  rw [Bool.eq_false_iff]
  exact h i hi

theorem claimNew_waits (hne : int32 (n + 1) ≠ 1) {j : Nat} :
    ((claimNew s fd n).clientPipe j).waits fd 1 = true ↔
      j ≠ s.pos ∧ (s.clientPipe j).waits fd 1 = true := by
  by_cases hj : j = s.pos
  · simp [claimNew, PipeInfo.waits, hne, hj]
  · simp [claimNew, hj]

theorem Claimed.dueEntry_eq (h : Claimed s fd number (claimed, getInput, out))
    (hint : ∀ n, number = some n → int32 (n + 1) ≠ 1) {j : Nat} (hj : j < 1000)
    (hwaits : (s.clientPipe j).waits fd 1 = true)
    (honce : ∀ i < 1000, (s.clientPipe i).waits fd 1 = true → i = j) :
    dueEntry claimed fd = if getInput = 2 ∧ j = s.pos then none else some (s.clientPipe j) := by
  cases h with
  | plain =>
    rw [if_neg (by omega)]
    exact dueEntry_unique hj hwaits honce
  | shared =>
    rw [if_neg (by omega)]
    exact dueEntry_unique hj hwaits honce
  | fresh n =>
    have hne := hint n rfl
    by_cases hjpos : j = s.pos
    · rw [if_pos ⟨rfl, hjpos⟩]
      apply dueEntry_eq_none
      intro k hk hwaitsk
      obtain ⟨hkpos, hold⟩ := (claimNew_waits hne).mp hwaitsk
      exact hkpos ((honce k hk hold).trans hjpos)
    · rw [if_neg fun hcond => hjpos hcond.2, ← claimNew_other (n := n) hjpos]
      apply dueEntry_unique hj ((claimNew_waits hne).mpr ⟨hjpos, hwaits⟩)
      intro i hi hwaitsi
      exact honce i hi ((claimNew_waits hne).mp hwaitsi).2

theorem ProgramLine.count_ne_one (l : ProgramLine) (hn : l.reading.pipeNumber = some n) :
    int32 (n + 1) ≠ 1 := by
  have hlow := l.positive n hn
  obtain ⟨filename, err, hreading, -⟩ := readLine_eq l.read
  rw [hreading] at hn
  have hhigh := readNumber_lt hn
  by_cases hlt : n + 1 < 2 ^ 31
  · rw [int32_eq_self (by omega) hlt]
    omega
  · have heq : n + 1 = 2 ^ 31 := by omega
    rw [heq]
    decide

def DueOnce (s : Server) (fd : Int) : Prop :=
  ∀ i j, i < 1000 → j < 1000 → (s.clientPipe i).waits fd 1 = true →
    (s.clientPipe j).waits fd 1 = true → i = j

theorem lineChildren_nonempty (s : Server) (fd : Int) (l : ProgramLine)
    (calls : Nat → ParserCall) (path : Option Text) :
    0 < (lineChildren s fd l calls path).length := by
  rw [length_lineChildren]
  exact List.length_pos_iff.mpr (readLine_commands l.read)

theorem TakesDue.unwired (htakes : TakesDue s fd l) (honce : DueOnce s fd)
    (hreturned : ∀ i, Returned (calls i)) :
    ¬ RedirectionsWired s fd l calls (lineChildren s fd l calls path) := by
  intro hwired
  obtain ⟨n, hn, hfind, hpos, hwaits, hne⟩ := htakes
  have hclaim : claimEntry s fd l.reading.pipeNumber = (claimNew s fd n, 2, fd) := by
    rw [hn, claimEntry_new hfind]
  have hclaims := claimEntry_claimed s fd l.reading.pipeNumber
  rw [hclaim] at hclaims
  have hpositive := lineChildren_nonempty s fd l calls path
  have hargs : (lineChildren s fd l calls path)[0]? = some (lineChildren s fd l calls path)[0] :=
    List.getElem?_eq_getElem hpositive
  have hstdin := hwired.first _ s.pos (List.head?_eq_getElem?.trans hargs) hpos hwaits
  obtain ⟨cmd, heq⟩ := lineChildren_args hclaim hargs
  have hdue := hclaims.dueEntry_eq (fun n hn => l.count_ne_one hn) hpos hwaits
    fun i hi hother => honce i s.pos hi hpos hother hwaits
  rw [heq, stage_stdin hreturned, if_pos rfl, hdue, if_pos ⟨rfl, rfl⟩] at hstdin
  exact hne hstdin.symm

theorem lineChildren_wired (hkept : ¬ TakesDue s fd l) (honce : DueOnce s fd)
    (hreturned : ∀ i, Returned (calls i)) :
    RedirectionsWired s fd l calls (lineChildren s fd l calls path) := by
  have hlength := length_lineChildren s fd l calls path
  have hclaims := claimEntry_claimed s fd l.reading.pipeNumber
  generalize hclaim : claimEntry s fd l.reading.pipeNumber = claim at hclaims
  obtain ⟨claimed, getInput, out⟩ := claim
  constructor
  · exact hlength
  · intro args j hargs hj hwaits
    rw [List.head?_eq_getElem?] at hargs
    obtain ⟨cmd, rfl⟩ := lineChildren_args hclaim hargs
    have hdue := hclaims.dueEntry_eq (fun n hn => l.count_ne_one hn) hj hwaits
      fun i hi hother => honce i j hi hj hother hwaits
    rw [stage_stdin hreturned, if_pos rfl, hdue]
    split
    next htaken =>
      obtain ⟨hget, rfl⟩ := htaken
      obtain ⟨n, hn, hfind⟩ := hclaims.fresh_number hget
      by_contra hne
      exact hkept ⟨n, hn, hfind, hj, hwaits, fun hzero => hne hzero.symm⟩
    next => rfl
  · intro i args hargs
    obtain ⟨cmd, rfl⟩ := lineChildren_args hclaim hargs
    rw [stage_stdin hreturned, if_neg (Nat.succ_ne_zero i), Nat.add_sub_cancel]
  · intro i args hi hargs
    obtain ⟨cmd, rfl⟩ := lineChildren_args hclaim hargs
    exact stage_stdout_inner hreturned (by omega)
  · intro i args hi hargs
    obtain ⟨cmd, rfl⟩ := lineChildren_args hclaim hargs
    rw [stage_stdout_last (by omega) hclaims.getInput_cases, hclaims.lineOutput]

/-- The redirections of a line are the ones it asks for exactly when its new entry does
not take the place of the one that is due. -/
theorem redirections_iff (s : Server) (fd : Int) (slot : Nat) (l : ProgramLine)
    (calls : Nat → ParserCall) (hlogged : s.clientsMap.indexOf fd = some slot)
    (hreturned : ∀ i, Returned (calls i)) (honce : DueOnce s fd) :
    ∃ o, doExec s l.text fd calls = .ok o ∧
      (RedirectionsWired s fd l calls (forks o.effects) ↔ ¬ TakesDue s fd l) := by
  obtain ⟨o, path, hexec, -, hforks⟩ := doExec_children l calls hlogged
  refine ⟨o, hexec, ?_⟩
  rw [hforks]
  constructor
  · intro hwired htakes
    exact htakes.unwired honce hreturned hwired
  · intro hkept
    exact lineChildren_wired hkept honce hreturned

theorem Counted.dueOnce (hcounted : Counted s) (fd : Int) : DueOnce s fd := by
  intro i j hi hj hwaits hwaits'
  simp only [PipeInfo.waits, Bool.and_eq_true, decide_eq_true_eq] at hwaits hwaits'
  apply hcounted.distinct fd i j
  · exact ⟨hi, hwaits.2, by omega⟩
  · exact ⟨hj, hwaits'.2, by omega⟩
  · omega

/-- Before `pos` comes back to a used entry no claim takes the one that is due. -/
theorem Tidy.notTakesDue (htidy : Tidy s) : ¬ TakesDue s fd l := by
  rintro ⟨n, -, -, -, -, hne⟩
  exact hne (congrArg Prod.fst (htidy.unused s.pos (le_refl _)))

theorem redirections_run {limit : Nat} (es : List Event) (s : Server)
    (hapart : Meets (next limit) Server.initial (fun _ s e => Apart s e) es)
    (hrun : exec (next limit) Server.initial es = some s)
    (hlogged : s.clientsMap.indexOf fd = some slot) (hreturned : ∀ i, Returned (calls i)) :
    ∃ o, doExec s l.text fd calls = .ok o ∧ RedirectionsWired s fd l calls (forks o.effects) := by
  have htidy := tidy_run es s hapart hrun
  obtain ⟨o, path, hexec, -, hforks⟩ := doExec_children l calls hlogged
  refine ⟨o, hexec, ?_⟩
  rw [hforks]
  exact lineChildren_wired htidy.notTakesDue (htidy.counted.dueOnce fd) hreturned

/-- The two ends of a pipe, and a block in which both can be read back. -/
def pipeEnds (fd fd' : Int) : ParserCall := ⟨(fd, fd'), BitVec.ofInt 64 (fd' * 2 ^ 32)⟩

def lsToNext : ProgramLine where
  text := "ls |1".toList
  reading := ⟨["ls ".toList], some 1, false⟩
  read := by decide +kernel
  programs := by decide
  plain := by decide
  positive := by decide

def catToNext : ProgramLine where
  text := "cat |1".toList
  reading := ⟨["cat ".toList], some 1, false⟩
  read := by decide +kernel
  programs := by decide
  plain := by decide
  positive := by decide

def oneWaiting : List Event :=
  [.login 4 ⟨[127, 0, 0, 1], 4000⟩, .login 5 ⟨[127, 0, 0, 1], 4001⟩,
    .line 4 "ls |1\n".toList fun _ => pipeEnds 6 7]

theorem exists_oneWaiting : ∃ s, exec (next 30) Server.initial oneWaiting = some s ∧
    s.clientsMap.indexOf 4 = some 0 := by
  have hsome : (exec (next 30) Server.initial oneWaiting).isSome = true := by decide +kernel
  obtain ⟨s, hs⟩ := Option.isSome_iff_exists.mp hsome
  have hslot : (exec (next 30) Server.initial oneWaiting).map (·.clientsMap.indexOf 4) =
      some (some 0) := by decide +kernel
  rw [hs, Option.map_some, Option.some_inj] at hslot
  exact ⟨s, hs, hslot⟩

theorem redirections_iff_oneWaiting : ∃ s o, exec (next 30) Server.initial oneWaiting = some s ∧
    doExec s catToNext.text 4 (fun _ => pipeEnds 8 9) = .ok o ∧
    (RedirectionsWired s 4 catToNext (fun _ => pipeEnds 8 9) (forks o.effects) ↔
      ¬ TakesDue s 4 catToNext) := by
  obtain ⟨s, hs, hslot⟩ := exists_oneWaiting
  have hapart : Meets (next 30) Server.initial (fun _ s e => Apart s e) oneWaiting := by
    decide +kernel
  have hreturned : Returned (pipeEnds 8 9) := ⟨by decide, by decide⟩
  obtain ⟨o, ho, hiff⟩ := redirections_iff s 4 0 catToNext (fun _ => pipeEnds 8 9) hslot
    (fun _ => hreturned) ((tidy_run oneWaiting s hapart hs).counted.dueOnce 4)
  exact ⟨s, o, hs, ho, hiff⟩

/-- A line that makes a new pipe leaves its entry one nearer, and `pos` behind it. -/
theorem afterFresh_entry (pipe : Int × Int) {j : Nat} (hj : j ≠ s.pos) :
    (afterLine (claimNew s fd n) fd 2 pipe).clientPipe j = (countDown s fd).clientPipe j := by
  simp [afterLine, completeEntry, countDown, claimNew, Function.update_of_ne hj]

theorem afterFresh_count (pipe : Int × Int) (hpos : s.pos < 1000) :
    ((afterLine (claimNew s fd n) fd 2 pipe).clientPipe s.pos).inputCount =
      int32 (int32 (n + 1) - 1) := by
  simp [afterLine, completeEntry, countDown, claimNew, hpos]

theorem afterFresh_fd (pipe : Int × Int) :
    ((afterLine (claimNew s fd n) fd 2 pipe).clientPipe s.pos).fd = fd := by
  by_cases hpos : s.pos < 1000 <;> simp [afterLine, completeEntry, countDown, claimNew, hpos]

theorem afterFresh_pos (pipe : Int × Int) :
    (afterLine (claimNew s fd n) fd 2 pipe).pos = if s.pos + 1 > 1000 then 0 else s.pos + 1 := rfl

/-- A line of programs of a client in the table goes through `next`. -/
theorem next_programs (limit : Nat) (l : ProgramLine) {chunk : Text} (calls : Nat → ParserCall)
    (hchunk : lineOf chunk = l.text)
    (hin : fd ∈ s.allset) (hlogged : s.clientsMap.indexOf fd = some slot) :
    ∃ s', next limit s (.line fd chunk calls) = some s' ∧ SameSlots s s' ∧
      SameNumberedPipes
        (afterLine (claimEntry s fd l.reading.pipeNumber).1 fd
          (claimEntry s fd l.reading.pipeNumber).2.1 (linePipe l.reading calls)) s' := by
  obtain ⟨o, path, hexec, hret, -⟩ := doExec_children l calls hlogged
  have haccept : rejection s l.text fd = none := by
    simp [rejection, l.read, checkUserPipes_plain l.plain.1 (pipesOut_plain l.plain.2)]
  refine ⟨o.server, ?_, doExec_sameSlots hexec, ?_⟩
  · have hstep : step s (.line fd chunk calls) = .ok (o.server, o.effects ++ [.send fd .prompt]) := by
      simp [step, handleNewConnection, hchunk, hexec, Except.map, hret]
    have hadm : Admissible limit s (.line fd chunk calls) := hin
    rw [next, if_pos hadm, hstep]
    rfl
  · cases doExec_numbered hexec with
    | unread hread =>
      rw [l.read] at hread
      contradiction
    | stopped reading hread hstop =>
      rw [l.read] at hread
      cases hread
      exact absurd haccept (hstop.resolve_right (not_not.mpr l.programs))
    | ran reading claimed getInput outputFd hread _ _ hclaim hsame =>
      rw [l.read] at hread
      cases hread
      rw [hclaim]
      exact hsame

structure FreshLine (s s' : Server) (fd n : Int) : Prop where
  slots : SameSlots s s'
  others : ∀ j, j ≠ s.pos → s'.clientPipe j = (countDown s fd).clientPipe j
  owner : (s'.clientPipe s.pos).fd = fd
  count : s.pos < 1000 → (s'.clientPipe s.pos).inputCount = int32 (int32 (n + 1) - 1)
  pos : s'.pos = if s.pos + 1 > 1000 then 0 else s.pos + 1

theorem next_fresh (limit : Nat) (l : ProgramLine) {chunk : Text} (calls : Nat → ParserCall)
    (hchunk : lineOf chunk = l.text) (hin : fd ∈ s.allset)
    (hlogged : s.clientsMap.indexOf fd = some slot) (hn : l.reading.pipeNumber = some n)
    (hfind : findTarget s fd n = none) :
    ∃ s', next limit s (.line fd chunk calls) = some s' ∧ FreshLine s s' fd n := by
  obtain ⟨s', hnext, hslots, hsame⟩ := next_programs limit l calls hchunk hin hlogged
  rw [hn, claimEntry_new hfind] at hsame
  refine ⟨s', hnext, hslots, ?_, ?_, ?_, ?_⟩
  · intro j hj
    rw [hsame.clientPipe, afterFresh_entry _ hj]
  · rw [hsame.clientPipe, afterFresh_fd]
  · intro hpos
    rw [hsame.clientPipe, afterFresh_count _ hpos]
  · rw [hsame.pos, afterFresh_pos]

/-- While a second client makes `k` pipes, the first one's waits at the start of the table. -/
structure Lap (k : Nat) (s : Server) : Prop where
  pos : s.pos = if k < 1000 then k + 1 else 0
  waiting : s.clientPipe 0 = ⟨6, 1, 7, 4⟩
  others : ∀ j < 2047, j ≠ 0 → (s.clientPipe j).fd ≠ 4
  counts : k < 1000 → ∀ j < 2047, (s.clientPipe j).fd = 5 →
    -k ≤ (s.clientPipe j).inputCount ∧ (s.clientPipe j).inputCount ≤ 1
  slots : s.clientsMap.indexOf 4 = some 0 ∧ s.clientsMap.indexOf 5 = some 1
  logged : (5 : Int) ∈ s.allset

theorem Lap.findTarget {k : Nat} (hlap : Lap k s) (hk : k < 1000) :
    findTarget s 5 1 = none := by
  rw [Single.findTarget, List.find?_eq_none]
  intro j hj hwaits
  simp only [PipeInfo.waits, Bool.and_eq_true, decide_eq_true_eq] at hwaits
  have hcount := hlap.counts hk j (List.mem_range.mp hj) hwaits.2
  have htwo : int32 (1 + 1) = 2 := by decide
  omega

theorem Lap.counted {k : Nat} (hlap : Lap k s) (hk : k < 1000) {j : Nat} (hj : j < 2047)
    (hfd : ((countDown s 5).clientPipe j).fd = 5) :
    -(k + 1) ≤ ((countDown s 5).clientPipe j).inputCount ∧
      ((countDown s 5).clientPipe j).inputCount ≤ 1 := by
  unfold countDown at hfd ⊢
  dsimp only at hfd ⊢
  split at hfd
  next hcond =>
    rw [if_pos hcond]
    have hcount := hlap.counts hk j hj hcond.2
    dsimp only
    rw [int32_eq_self (by omega) (by omega)]
    omega
  next hcond =>
    rw [if_neg hcond]
    have hcount := hlap.counts hk j hj hfd
    omega

theorem Lap.next {k : Nat} (hlap : Lap k s) (hk : k < 1000) (calls : Nat → ParserCall) :
    ∃ s', Single.next 30 s (.line 5 "ls |1\n".toList calls) = some s' ∧ Lap (k + 1) s' := by
  have hchunk : lineOf "ls |1\n".toList = lsToNext.text := by decide +kernel
  obtain ⟨s', hnext, hfresh⟩ := next_fresh 30 lsToNext calls hchunk hlap.logged hlap.slots.2 rfl
    (hlap.findTarget hk)
  have hpos := hlap.pos
  rw [if_pos hk] at hpos
  refine ⟨s', hnext, ?_⟩
  constructor
  · rw [hfresh.pos, hpos]
    split_ifs <;> omega
  · rw [hfresh.others 0 (by omega), countDown_other, hlap.waiting]
    rw [hlap.waiting]
    decide
  · intro j hlow hj
    by_cases hjpos : j = s.pos
    · rw [hjpos, hfresh.owner]
      decide
    · have hfd := hlap.others j hlow hj
      rw [hfresh.others j hjpos]
      unfold countDown
      dsimp only
      split <;> exact hfd
  · intro hk' j hlow hfd
    by_cases hjpos : j = s.pos
    · have hone : int32 (int32 (1 + 1) - 1) = 1 := by decide
      rw [hjpos, hfresh.count (by omega)]
      omega
    · rw [hfresh.others j hjpos] at hfd ⊢
      have hcount := hlap.counted hk hlow hfd
      omega
  · rw [hfresh.slots.indexOf, hfresh.slots.indexOf]
    exact hlap.slots
  · rw [hfresh.slots.allset]
    exact hlap.logged

theorem Lap.run {k : Nat} (hlap : Lap k s) (lines : List (Nat → ParserCall))
    (hlines : k + lines.length ≤ 1000) :
    ∃ s', exec (Single.next 30) s (lines.map (.line 5 "ls |1\n".toList)) = some s' ∧
      Lap (k + lines.length) s' := by
  induction lines generalizing k s with
  | nil => exact ⟨s, rfl, hlap⟩
  | cons calls lines ih =>
    rw [List.length_cons] at hlines
    obtain ⟨middle, hnext, hlap'⟩ := hlap.next (by omega) calls
    obtain ⟨s', hexec, hend⟩ := ih hlap' (by omega)
    refine ⟨s', ?_, ?_⟩
    · simp only [List.map_cons, exec, hnext, Option.bind_some]
      exact hexec
    · rw [List.length_cons, Nat.add_comm lines.length 1, ← Nat.add_assoc]
      exact hend

theorem Lap.start (h : exec (Single.next 30) Server.initial oneWaiting = some s) : Lap 0 s := by
  have htables : (exec (Single.next 30) Server.initial oneWaiting).all (fun s =>
      decide (s.pos = 1 ∧ s.clientPipe 0 = ⟨6, 1, 7, 4⟩ ∧ s.clientsMap.indexOf 4 = some 0 ∧
        s.clientsMap.indexOf 5 = some 1 ∧ (5 : Int) ∈ s.allset) &&
      decide (∀ j : Nat, j < 2047 → (j ≠ 0 → (s.clientPipe j).fd ≠ 4) ∧
        (s.clientPipe j).fd ≠ 5)) = true := by decide +kernel
  rw [h, Option.all_some, Bool.and_eq_true, decide_eq_true_iff, decide_eq_true_iff] at htables
  obtain ⟨⟨hpos, hwaiting, hfirst, hsecond, hlogged⟩, hfree⟩ := htables
  exact ⟨hpos, hwaiting, fun j hj => (hfree j hj).1, fun _ j hj hfd => absurd hfd (hfree j hj).2,
    ⟨hfirst, hsecond⟩, hlogged⟩

def lapLines : List (Nat → ParserCall) := (List.range 1000).map fun k _ =>
  if k = 0 then pipeEnds 8 9 else if k % 2 = 1 then pipeEnds 9 10 else pipeEnds 8 10

/-- Once `pos` has come round, the line that is to read the pipe claims its entry. -/
theorem due_entry_replaced : ∃ s o, exec (next 30) Server.initial
      (oneWaiting ++ lapLines.map (.line 5 "ls |1\n".toList)) = some s ∧ DueOnce s 4 ∧
    doExec s catToNext.text 4 (fun _ => pipeEnds 8 11) = .ok o ∧
    ¬ RedirectionsWired s 4 catToNext (fun _ => pipeEnds 8 11) (forks o.effects) := by
  obtain ⟨t, ht, -⟩ := exists_oneWaiting
  have hlength : lapLines.length = 1000 := by rw [lapLines, List.length_map, List.length_range]
  obtain ⟨s, hs, hlap⟩ := (Lap.start ht).run lapLines (by omega)
  rw [hlength] at hlap
  have honly : ∀ j < 1000, (s.clientPipe j).waits 4 1 = true → j = 0 := by
    intro j hj hwaits
    simp only [PipeInfo.waits, Bool.and_eq_true, decide_eq_true_eq] at hwaits
    by_contra hne
    exact hlap.others j (by omega) hne hwaits.2
  have honce : DueOnce s 4 := by
    intro i j hi hj hwaits hwaits'
    rw [honly i hi hwaits, honly j hj hwaits']
  have hfind : findTarget s 4 1 = none := by
    rw [findTarget, List.find?_eq_none]
    intro j hj hwaits
    simp only [PipeInfo.waits, Bool.and_eq_true, decide_eq_true_eq] at hwaits
    by_cases hzero : j = 0
    · rw [hzero, hlap.waiting] at hwaits
      exact absurd hwaits.1 (by decide)
    · exact hlap.others j (List.mem_range.mp hj) hzero hwaits.2
  have htakes : TakesDue s 4 catToNext := by
    have hpos : s.pos = 0 := hlap.pos
    refine ⟨1, rfl, hfind, by omega, ?_, ?_⟩
    · rw [hpos, hlap.waiting]
      decide
    · rw [hpos, hlap.waiting]
      decide
  have hreturned : Returned (pipeEnds 8 11) := ⟨by decide, by decide⟩
  obtain ⟨o, path, hexec, -, hforks⟩ :=
    doExec_children catToNext (fun _ => pipeEnds 8 11) hlap.slots.1
  refine ⟨s, o, ?_, honce, hexec, ?_⟩
  · rw [exec_append, ht, Option.bind_some, hs]
  · rw [hforks]
    exact htakes.unwired honce fun _ => hreturned

end NetworkProgramming.Single
