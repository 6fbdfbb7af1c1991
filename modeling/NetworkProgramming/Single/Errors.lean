import NetworkProgramming.Single.Wiring

/-! The standard error of the commands of a numbered line, where it makes a new pipe and
where it is merged into one that waits. -/
namespace NetworkProgramming.Single
open Library.CString Library.Descriptors Library.Run CommandLine

variable {s claimed : Server} {args : ParserArgs} {line : Line} {calls : Nat → ParserCall}
  {l : ProgramLine} {cmd : Text} {path : Option Text} {due number : Option Int}
  {getInput i count slot : Nat} {fd n out : Int}

/-- What the standard error of the children of a line is to be: that of all commands
but the last is the client's, and so is that of the last one unless the line ends in `!N`. -/
structure ErrorsWired (fd : Int) (l : ProgramLine) (children : List ParserArgs) : Prop where
  length : children.length = l.reading.commands.length
  inner : ∀ (i : Nat) (args : ParserArgs), i + 1 < children.length → children[i]? = some args →
    source (childDups args) 2 = fd
  pipe : l.reading.pipeErrN = false → ∀ args, children.getLast? = some args →
    source (childDups args) 2 = fd
  error : l.reading.pipeErrN = true → ∀ args, children.getLast? = some args →
    source (childDups args) 2 = source (childDups args) 1

/-- A `|N` whose target no entry has yet, or only one whose write end is the client's
socket; a `!N` behind one command. -/
def ErrorsKept (s : Server) (fd : Int) (l : ProgramLine) (n : Int) : Prop :=
  if l.reading.pipeErrN = true then l.reading.commands.length = 1
  else ∀ i, findTarget s fd n = some i → (s.clientPipe i).outputNum = fd

/-- Before the last command it is the socket, or where the line writes; a `!N` changes
that of every command. -/
theorem stage_stderr_inner (hlast : i + 1 ≠ count)
    (hget : getInput = 0 ∨ getInput = 1 ∨ getInput = 2) :
    source (childDups (stageArgs line calls path due getInput count i cmd)) 2 =
      if line.nPipeErr = true then (calls i).pipeFd.2
      else if i = 0 ∨ (calls (i - 1)).getData.1 ≠ 0 then line.sockfd else line.outputFd := by
  have hfalse : (stageArgs line calls path due getInput count i cmd).last = false :=
    decide_eq_false hlast
  have hthree : (stageArgs line calls path due getInput count i cmd).getInput ≠ 3 := by
    unfold stageArgs
    dsimp only
    rw [if_neg hlast]
    omega
  have hinput : ((stageArgs line calls path due getInput count i cmd).first = true ∨
      (stageArgs line calls path due getInput count i cmd).input ≠ 0) ↔
        i = 0 ∨ (calls (i - 1)).getData.1 ≠ 0 := by
    unfold stageArgs
    dsimp only
    by_cases hi : i = 0
    · simp [hi]
    · simp [hi]
  rw [source_stderr]
  simp only [hfalse, hinput, if_neg hthree, Bool.false_eq_true, true_and, false_and, and_false,
    or_false]
  rfl

/-- The error of the last command goes with its output, unless the line ends in a plain
number; behind a single command that makes a new pipe it is then the client's. -/
theorem stage_stderr_last (hlast : i + 1 = count)
    (hget : getInput = 0 ∨ getInput = 1 ∨ getInput = 2) :
    source (childDups (stageArgs line calls path due getInput count i cmd)) 2 =
      if line.nPipeErr = true then if getInput = 1 then line.outputFd else (calls i).pipeFd.2
      else if i = 0 ∧ getInput = 2 then line.sockfd else line.outputFd := by
  have htrue : (stageArgs line calls path due getInput count i cmd).last = true :=
    decide_eq_true hlast
  have hlastGet : (stageArgs line calls path due getInput count i cmd).getInput =
      lastGetInput getInput := if_pos hlast
  have hfirst : (stageArgs line calls path due getInput count i cmd).first = true ↔ i = 0 :=
    decide_eq_true_iff
  rw [source_stderr]
  simp only [htrue, hlastGet, hfirst, lastGetInput_four hget, Bool.true_eq_false, false_and,
    true_and, false_or]
  rfl

theorem Claimed.numbered (h : Claimed s fd (some n) (claimed, getInput, out)) :
    (getInput = 1 ∧ ∃ i, findTarget s fd n = some i ∧ out = (s.clientPipe i).outputNum) ∨
      (getInput = 2 ∧ findTarget s fd n = none ∧ out = fd) := by
  cases h with
  | shared _ i h => exact .inl ⟨rfl, i, h, rfl⟩
  | fresh _ h => exact .inr ⟨rfl, h, rfl⟩

theorem lineChildren_last (hclaim : claimEntry s fd l.reading.pipeNumber = (claimed, getInput, out))
    (hargs : (lineChildren s fd l calls path).getLast? = some args) : ∃ cmd i,
      i + 1 = l.reading.commands.length ∧
      args = stageArgs ⟨fd, l.reading.pipeNumber.isNone, l.reading.pipeErrN, out⟩ calls path
        ((dueEntry claimed fd).map PipeInfo.inputNum) getInput l.reading.commands.length i cmd := by
  have hpositive := lineChildren_nonempty s fd l calls path
  have hlength := length_lineChildren s fd l calls path
  rw [List.getLast?_eq_getElem?] at hargs
  obtain ⟨cmd, hcmd⟩ := lineChildren_args hclaim hargs
  exact ⟨cmd, _, by omega, hcmd⟩

/-- Behind a `!N` the first of several commands writes its errors to its own pipe. -/
theorem ErrorsWired.alone (hwired : ErrorsWired fd l (lineChildren s fd l calls path))
    (herr : l.reading.pipeErrN = true) (hnew : ∀ i, (calls i).pipeFd.2 ≠ fd) :
    l.reading.commands.length = 1 := by
  have hlength := length_lineChildren s fd l calls path
  have hpositive := lineChildren_nonempty s fd l calls path
  have hclaims := claimEntry_claimed s fd l.reading.pipeNumber
  generalize hclaim : claimEntry s fd l.reading.pipeNumber = claim at hclaims
  obtain ⟨claimed, getInput, out⟩ := claim
  by_contra hmany
  have hfirst : (lineChildren s fd l calls path)[0]? = some (lineChildren s fd l calls path)[0] :=
    List.getElem?_eq_getElem hpositive
  have hinner := hwired.inner 0 _ (by omega) hfirst
  obtain ⟨cmd, heq⟩ := lineChildren_args hclaim hfirst
  rw [heq, stage_stderr_inner (by omega) hclaims.getInput_cases] at hinner
  dsimp only at hinner
  rw [if_pos herr] at hinner
  exact hnew 0 hinner

theorem errorsWired_alone (hn : l.reading.pipeNumber = some n)
    (herr : l.reading.pipeErrN = true) (hone : l.reading.commands.length = 1) :
    ErrorsWired fd l (lineChildren s fd l calls path) := by
  have hlength := length_lineChildren s fd l calls path
  have hclaims := claimEntry_claimed s fd l.reading.pipeNumber
  generalize hclaim : claimEntry s fd l.reading.pipeNumber = claim at hclaims
  obtain ⟨claimed, getInput, out⟩ := claim
  have hcases := hclaims.getInput_cases
  rw [hn] at hclaims
  constructor
  · exact hlength
  · intro i args hi
    omega
  · intro hpipe
    rw [herr] at hpipe
    exact absurd hpipe (by decide)
  · intro _ args hargs
    obtain ⟨cmd, i, hi, rfl⟩ := lineChildren_last hclaim hargs
    rw [stage_stderr_last hi hcases, stage_stdout_last hi hcases]
    dsimp only
    rw [if_pos herr]
    obtain ⟨rfl, -⟩ | ⟨rfl, -⟩ := hclaims.numbered <;> rfl

/-- Behind a `|N` the errors of the last command go where the line's output goes. -/
theorem ErrorsWired.merged (hn : l.reading.pipeNumber = some n)
    (hwired : ErrorsWired fd l (lineChildren s fd l calls path))
    (herr : l.reading.pipeErrN = false) {j : Nat} (hfind : findTarget s fd n = some j) :
    (s.clientPipe j).outputNum = fd := by
  have hpositive := lineChildren_nonempty s fd l calls path
  have hclaim : claimEntry s fd l.reading.pipeNumber = (s, 1, (s.clientPipe j).outputNum) := by
    rw [hn, claimEntry, hfind]
    rfl
  have hargs : (lineChildren s fd l calls path).getLast? =
      some ((lineChildren s fd l calls path).getLast (List.length_pos_iff.mp hpositive)) :=
    List.getLast?_eq_some_getLast _
  have hpipe := hwired.pipe herr _ hargs
  obtain ⟨cmd, i, hi, heq⟩ := lineChildren_last hclaim hargs
  rw [heq, stage_stderr_last hi (.inr (.inl rfl))] at hpipe
  dsimp only at hpipe
  rw [if_neg (by rw [herr]; decide), if_neg (by omega)] at hpipe
  exact hpipe

theorem errorsWired_kept (hn : l.reading.pipeNumber = some n)
    (herr : l.reading.pipeErrN = false)
    (hkept : ∀ i, findTarget s fd n = some i → (s.clientPipe i).outputNum = fd) :
    ErrorsWired fd l (lineChildren s fd l calls path) := by
  have hlength := length_lineChildren s fd l calls path
  have hclaims := claimEntry_claimed s fd l.reading.pipeNumber
  generalize hclaim : claimEntry s fd l.reading.pipeNumber = claim at hclaims
  obtain ⟨claimed, getInput, out⟩ := claim
  have hcases := hclaims.getInput_cases
  rw [hn] at hclaims
  have hout : out = fd := by
    obtain ⟨-, j, hj, heq⟩ | ⟨-, -, heq⟩ := hclaims.numbered
    · exact heq.trans (hkept j hj)
    · exact heq
  subst hout
  constructor
  · exact hlength
  · intro i args hi hargs
    obtain ⟨cmd, rfl⟩ := lineChildren_args hclaim hargs
    rw [stage_stderr_inner (by omega) hcases]
    dsimp only
    rw [if_neg (by rw [herr]; decide)]
    exact ite_self _
  · intro _ args hargs
    obtain ⟨cmd, i, hi, rfl⟩ := lineChildren_last hclaim hargs
    rw [stage_stderr_last hi hcases]
    dsimp only
    rw [if_neg (by rw [herr]; decide)]
    exact ite_self _
  · intro herror
    rw [herr] at herror
    exact absurd herror (by decide)

/-- The standard errors of a numbered line are the ones it asks for exactly when a `|N`
is not merged into the pipe of an earlier line and a `!N` has one command before it. -/
theorem errors_iff (s : Server) (fd : Int) (slot : Nat) (l : ProgramLine) (n : Int)
    (calls : Nat → ParserCall) (hlogged : s.clientsMap.indexOf fd = some slot)
    (hn : l.reading.pipeNumber = some n) (hnew : ∀ i, (calls i).pipeFd.2 ≠ fd) :
    ∃ o, doExec s l.text fd calls = .ok o ∧
      (ErrorsWired fd l (forks o.effects) ↔ ErrorsKept s fd l n) := by
  obtain ⟨o, path, hexec, -, hforks⟩ := doExec_children l calls hlogged
  refine ⟨o, hexec, ?_⟩
  rw [hforks]
  unfold ErrorsKept
  cases herr : l.reading.pipeErrN with
  | true =>
    rw [if_pos rfl]
    constructor
    · intro hwired
      exact hwired.alone herr hnew
    · intro hone
      exact errorsWired_alone hn herr hone
  | false =>
    rw [if_neg (by decide)]
    constructor
    · intro hwired i hfind
      exact hwired.merged hn herr hfind
    · intro hkept
      exact errorsWired_kept hn herr hkept

theorem errors_iff_oneWaiting : ∃ s o, exec (next 30) Server.initial oneWaiting = some s ∧
    doExec s catToNext.text 4 (fun _ => pipeEnds 8 9) = .ok o ∧
    (ErrorsWired 4 catToNext (forks o.effects) ↔ ErrorsKept s 4 catToNext 1) := by
  obtain ⟨s, hs, hslot⟩ := exists_oneWaiting
  obtain ⟨o, ho, hiff⟩ := errors_iff s 4 0 catToNext 1 (fun _ => pipeEnds 8 9) hslot rfl
    fun _ => by decide
  exact ⟨s, o, hs, ho, hiff⟩

def waitsForSecond : List Event :=
  [.login 4 ⟨[127, 0, 0, 1], 4000⟩, .line 4 "ls |2\n".toList fun _ => pipeEnds 5 6]

/-- The next line is merged into it by a `|1`, and so are its errors. -/
theorem merged_errors_in_pipe : ∃ s o, exec (next 30) Server.initial waitsForSecond = some s ∧
    doExec s lsToNext.text 4 (fun _ => pipeEnds 7 8) = .ok o ∧
    lsToNext.reading.pipeErrN = false ∧ ¬ ErrorsWired 4 lsToNext (forks o.effects) := by
  have hsome : (exec (next 30) Server.initial waitsForSecond).isSome = true := by decide +kernel
  obtain ⟨s, hs⟩ := Option.isSome_iff_exists.mp hsome
  have htable : (exec (next 30) Server.initial waitsForSecond).all (fun s =>
      decide (s.clientsMap.indexOf 4 = some 0 ∧ findTarget s 4 1 = some 0 ∧
        (s.clientPipe 0).outputNum = 6)) = true := by decide +kernel
  rw [hs, Option.all_some, decide_eq_true_iff] at htable
  obtain ⟨hslot, hfind, houtput⟩ := htable
  obtain ⟨o, path, hexec, -, hforks⟩ :=
    doExec_children lsToNext (fun _ => pipeEnds 7 8) hslot
  refine ⟨s, o, hs, hexec, rfl, ?_⟩
  intro hwired
  rw [hforks] at hwired
  have hmerged := hwired.merged rfl rfl hfind
  rw [houtput] at hmerged
  exact absurd hmerged (by decide)

end NetworkProgramming.Single
