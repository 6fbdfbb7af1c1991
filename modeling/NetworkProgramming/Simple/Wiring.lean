import NetworkProgramming.Simple.Balance
import Mathlib.Data.List.Find

/-! The standard input and output of the commands of one line. -/
namespace NetworkProgramming.Simple
open Library.CString Library.Descriptors Library.Run Library.Search CommandLine

/-- A line of programs without a `>`, and with no number or one from 1 on. -/
structure ProgramLine where
  text : Text
  counted : Counted text
  plain : ∀ cmd ∈ (readLine text).commands, '>' ∉ cmd
  positive : ∀ n ∈ (readLine text).pipeNumber, 1 ≤ n

def ProgramLine.commands (l : ProgramLine) : List Text := (readLine l.text).commands

def ProgramLine.number (l : ProgramLine) : Option Int := (readLine l.text).pipeNumber

/-- The tables between two lines: the pipes that wait have both ends open, each its own,
and no counter is at the end of `int`. -/
structure Ready (sockfd : Int) (s : Shell) : Prop where
  serving : Serving sockfd s.files
  ends : ∀ j, Waiting s j → ∃ p < s.made, s.files (s.inputNum j) = some (.readEnd p) ∧
    s.files (s.outputNum j) = some (.writeEnd p)
  separate : ∀ i j p, Waiting s i → Waiting s j → s.files (s.inputNum i) = some (.readEnd p) →
    s.files (s.inputNum j) = some (.readEnd p) → i = j
  counts : ∀ j < 1000, -2 ^ 31 < s.inputCount j ∧ s.inputCount j < 2 ^ 31

/-- Where the last command is to write: the client's socket, its own pipe, or the pipe
that waits for the same line already. -/
def endFile (s : Shell) (number : Option Int) (own : Nat) : Option File :=
  match number with
  | none => some .socket
  | some n =>
    (((List.range 1000).find? fun i => s.inputCount i = n + 1).map fun i =>
      s.files (s.outputNum i)).getD (some (.writeEnd own))

/-- What the commands of a line are to read and write. -/
structure LineWired (s : Shell) (l : ProgramLine) (children : List Child) : Prop where
  commands : children.map Child.cmd = l.commands
  pipes : children.map Child.pipe = List.range' s.made l.commands.length
  due : ∀ j, dueEntry s = some j →
    ∃ c, children.head? = some c ∧ c.stdin = s.files (s.inputNum j)
  later : ∀ (i : Nat) (c d : Child), children[i]? = some c → children[i + 1]? = some d →
    d.stdin = some (.readEnd c.pipe)
  inner : ∀ (i : Nat) (c : Child), i + 1 < children.length → children[i]? = some c →
    c.stdout = some (.writeEnd c.pipe)
  last : ∀ c, children.getLast? = some c → c.stdout = endFile s l.number c.pipe

def Outcome.children : Outcome → List Child
  | .ran _ children => children
  | _ => []

/-- The line's new entry takes the place of the one that is due. -/
def TakesDue (s : Shell) (l : ProgramLine) : Prop :=
  ∃ n, l.number = some n ∧ findTarget s n = none ∧ dueEntry s = some s.pos

variable {sockfd : Int} {t : Table} {s s' : Shell} {args : ParserArgs} {call : ParserCall}
  {line : Line} {calls : Nat → ParserCall} {r r' : Round} {getInput : Nat} {cmds : List Text}
  {children : List Child} {output : File} {spared : Nat → Prop} {l : ProgramLine}

/-- The cases of `parser` that give a child its own pipe. -/
def ParserArgs.Own (args : ParserArgs) : Prop :=
  (args.last = false ∧ (args.first = true ↔ args.input = 0)) ∨
    (args.last = true ∧ args.getInput = 4)

instance (args : ParserArgs) : Decidable args.Own :=
  inferInstanceAs (Decidable (_ ∨ _))

theorem stageFiles_stdout (houtput : t args.output = some output) (hzero : args.output ≠ 0)
    (hlast : args.last = false ∨ args.getInput ≠ 4) (pipefd : Int × Int) {file : File}
    (hpipe : t pipefd.2 = some file) (hne : pipefd.2 ≠ 0) :
    stageFiles t args pipefd 1 =
      if args.last = false ∧ (args.first = true ↔ args.input = 0) then some file
      else some output := by
  unfold stageFiles
  split
  next hfirst =>
    rw [if_pos (by simpa [hfirst.1, hfirst.2.2] using hfirst.2.1)]
    exact dup2_target hpipe
  next hfirst =>
    split
    next hmiddle =>
      rw [if_pos (by simpa [hmiddle.1, hmiddle.2.2] using hmiddle.2.1)]
      apply dup2_target
      rw [dup2_of_ne hne, hpipe]
    next hmiddle =>
      rw [if_neg (by
        intro hget
        exact hlast.elim (fun h => by simp [h] at hget) fun h => h hget.2.2)]
      rw [if_neg (by
        rintro ⟨hnot, hiff⟩
        by_cases hinput : args.input = 0
        · exact hfirst ⟨hiff.mpr hinput, by simp [hnot], hinput⟩
        · exact hmiddle ⟨fun h => hinput (hiff.mp h), by simp [hnot], hinput⟩)]
      rw [dup2_of_ne (by decide)]
      apply dup2_target
      rw [dup2_of_ne hzero, houtput]

theorem childFiles_stdout (houtput : t args.output = some output)
    (houtputFd : args.output ≠ 0 ∧ args.output ≠ 1 ∧ args.output ≠ 2) {pipefd : Int × Int}
    {file : File} (hpipe : t pipefd.2 = some file)
    (hpipeFd : pipefd.2 ≠ 0 ∧ pipefd.2 ≠ 1 ∧ pipefd.2 ≠ 2) :
    childFiles t args pipefd 1 = some (if args.Own then file else output) := by
  by_cases hnew : args.last = true ∧ args.getInput = 4
  · rw [if_pos (.inr hnew)]
    exact childFiles_stdout_new hpipe hpipeFd hnew.1 hnew.2
  · by_cases hmerged : args.last = true ∧ args.getInput = 3
    · rw [if_neg]
      · exact childFiles_stdout_merged houtput houtputFd hmerged.1 hmerged.2
      · rintro (hinner | hlast)
        · simp [hinner.1] at hmerged
        · exact hnew hlast
    · have hlast : args.last = false ∨ args.getInput ≠ 4 := by
        cases hcase : args.last with
        | false => exact .inl rfl
        | true => exact .inr fun hget => hnew ⟨hcase, hget⟩
      have hown : args.Own ↔ args.last = false ∧ (args.first = true ↔ args.input = 0) :=
        or_iff_left hnew
      rw [childFiles, lastFiles, if_neg hnew, if_neg hmerged, enterFiles_of_ne (by decide),
        errorFiles_of_ne (by decide), stageFiles_stdout houtput houtputFd.1 hlast pipefd hpipe
        hpipeFd.1]
      split_ifs with hinner hnot hnot
      · rfl
      · exact absurd (hown.mpr hinner) hnot
      · exact absurd (hown.mp hnot) hinner
      · rfl

/-- The output of a child that `parser` makes for a command without a `>`. -/
theorem child_stdout (hserving : Serving sockfd s.files) (hunused : Unused s.files call.pipeFd)
    (houtput : s.files args.output = some output) (hwritable : output ≠ .terminal)
    (hplain : '>' ∉ args.cmd) :
    (child (openPipe s.files call.pipeFd s.made) args call.pipeFd s.made).stdout =
      some (if args.Own then .writeEnd s.made else output) := by
  have hopened : Serving sockfd (openPipe s.files call.pipeFd s.made) :=
    hserving.spares (s := fun _ => False) (Spares.openPipe hunused)
  rw [child, redirected, if_neg hplain]
  exact childFiles_stdout (openPipe_old hunused houtput)
    (hserving.not_standard houtput hwritable) openPipe_write
    (hopened.not_standard openPipe_write (by simp))

/-- A round is one stage, and its child writes where the case of `parser` says. -/
theorem runCommand_wired {first last : Bool} {cmd : Text} {due : Option Int} {stdin : File}
    (hdue : takeDue r.shell first = (s, due)) (hserving : Serving sockfd s.files)
    (hinput : InputFrom spared s.files (roundArgs line first last cmd r due) stdin)
    (houtput : s.files line.lastOutput = some output)
    (hunspared : Unspared spared s.made output) (hreturned : call.getData = call.pipeFd)
    (hplain : '>' ∉ cmd) (h : runCommand line first last cmd call r = some r') :
    ∃ c, r'.children = r.children ++ [c] ∧ r'.input = call.pipeFd.1 ∧
      r'.getInput = (if last then lastGetInput r.getInput else r.getInput) ∧
      StageDone spared s r'.shell (roundArgs line first last cmd r due) stdin output
        call.pipeFd c ∧
      c.stdout =
        some (if (roundArgs line first last cmd r due).Own then .writeEnd c.pipe else output) := by
  obtain ⟨c, hchildren, hinput', hget, hdone⟩ := runCommand_done hdue hserving hinput houtput
    hunspared.writable (hunspared.later _ (le_refl _)) hreturned h
  refine ⟨c, hchildren, hinput', hget, hdone, ?_⟩
  unfold runCommand at h
  simp only [hdue, Option.map_eq_some_iff, Prod.exists] at h
  obtain ⟨s', c', hparser, rfl⟩ := h
  obtain ⟨hunused, -, rfl⟩ := parser_eq_some hparser
  have hc := List.append_cancel_left hchildren
  rw [List.cons.injEq] at hc
  rw [hdone.pipe, ← hc.1]
  exact child_stdout hserving hunused houtput hunspared.writable hplain

theorem lastGetInput_four (h : getInput = 0 ∨ getInput = 1 ∨ getInput = 2) (last : Bool) :
    (if last then lastGetInput getInput else getInput) = 4 ↔ last = true ∧ getInput = 2 := by
  rcases h with rfl | rfl | rfl <;> cases last <;> decide

theorem own_first (line : Line) (last : Bool) (cmd : Text) (due : Option Int)
    (hget : r.getInput = 0 ∨ r.getInput = 1 ∨ r.getInput = 2) :
    (roundArgs line true last cmd r due).Own ↔
      (last = false ∧ due.getD r.input = 0) ∨ (last = true ∧ r.getInput = 2) := by
  unfold ParserArgs.Own roundArgs
  dsimp only
  rw [lastGetInput_four hget last]
  simp

theorem own_later (line : Line) (last : Bool) (cmd : Text) (hinput : r.input ≠ 0)
    (hget : r.getInput = 0 ∨ r.getInput = 1 ∨ r.getInput = 2) :
    (roundArgs line false last cmd r none).Own ↔ last = false ∨ (last = true ∧ r.getInput = 2) := by
  unfold ParserArgs.Own roundArgs
  dsimp only
  rw [lastGetInput_four hget last]
  simp [hinput]

def Outputs (getInput : Nat) (output : File) (children : List Child) : Prop :=
  ∀ (i : Nat) (c : Child), children[i]? = some c →
    c.stdout = some (if i + 1 < children.length ∨ getInput = 2 then .writeEnd c.pipe else output)

theorem Outputs.single {c : Child} {own : Prop} [Decidable own] (hown : own ↔ getInput = 2)
    (h : c.stdout = some (if own then .writeEnd c.pipe else output)) :
    Outputs getInput output [c] := by
  intro i d hd
  obtain ⟨rfl, rfl⟩ : i = 0 ∧ c = d := by
    cases i with
    | zero => exact ⟨rfl, by simpa using hd⟩
    | succ i => simp at hd
  rw [h]
  simp [hown]

theorem Outputs.cons {c : Child} (hne : children ≠ []) (hc : c.stdout = some (.writeEnd c.pipe))
    (h : Outputs getInput output children) : Outputs getInput output (c :: children) := by
  intro i d hd
  cases i with
  | zero =>
    obtain rfl : c = d := by simpa using hd
    rw [hc, if_pos]
    exact .inl (by simpa using List.length_pos_iff.mpr hne)
  | succ i =>
    rw [h i d (by simpa using hd)]
    simp

theorem runCommands_outputs {i p : Nat} (hi : i ≠ 0)
    (hget : r.getInput = 0 ∨ r.getInput = 1 ∨ r.getInput = 2)
    (hserving : Serving sockfd r.shell.files)
    (hinput : r.shell.files r.input = some (.readEnd p)) (hp : spared p)
    (houtput : r.shell.files line.lastOutput = some output)
    (hunspared : Unspared spared r.shell.made output)
    (hreturned : ∀ i, (calls i).getData = (calls i).pipeFd) (hne : cmds ≠ [])
    (hplain : ∀ cmd ∈ cmds, '>' ∉ cmd) (h : runCommands line calls i cmds r = some r') :
    ∃ children, r'.children = r.children ++ children ∧ children.length = cmds.length ∧
      Outputs r.getInput output children := by
  induction cmds generalizing i p r with
  | nil => exact absurd rfl hne
  | cons cmd cmds ih =>
    simp only [runCommands, hi, decide_false, Option.bind_eq_some_iff] at h
    obtain ⟨middle, hfirst, hrest⟩ := h
    have hargs : InputFrom spared r.shell.files (roundArgs line false cmds.isEmpty cmd r none)
        (.readEnd p) := .inr ⟨p, rfl, hinput, hp, .inr rfl⟩
    have hdue : takeDue r.shell false = (r.shell, none) := rfl
    obtain ⟨c, hchildren, hmiddleInput, hmiddleGet, hdone, hstdout⟩ := runCommand_wired hdue
      hserving hargs houtput hunspared (hreturned i) (hplain cmd List.mem_cons_self) hfirst
    have hown := own_later line cmds.isEmpty cmd
      (hserving.not_standard hinput (by simp)).1 hget
    cases cmds with
    | nil =>
      simp only [runCommands, Option.some.injEq] at hrest
      subst hrest
      exact ⟨[c], hchildren, rfl, Outputs.single (hown.trans (by simp)) hstdout⟩
    | cons next cmds =>
      have hread := hdone.readEnd
      rw [← hmiddleInput] at hread
      have hsame : middle.getInput = r.getInput := hmiddleGet
      have hunsparedMiddle : Unspared spared middle.shell.made output := by
        rw [hdone.made]
        exact hunspared.next
      obtain ⟨children, hall, hlength, houtputs⟩ := ih (Nat.succ_ne_zero i) (by rwa [hsame])
        (hserving.spares hdone.spares) hread (hunspared.later _ (le_refl _))
        (hdone.spares _ _ houtput hunspared.kept) hunsparedMiddle (List.cons_ne_nil _ _)
        (fun cmd hcmd => hplain cmd (List.mem_cons_of_mem _ hcmd)) hrest
      rw [hsame] at houtputs
      rw [if_pos (hown.mpr (.inl rfl))] at hstdout
      refine ⟨c :: children, ?_, by simp [hlength], houtputs.cons ?_ hstdout⟩
      · rw [hall, hchildren, List.append_assoc]
        rfl
      · rintro rfl
        simp at hlength

theorem takeDue_zero {due : Option Int} {s₁ : Shell} {stdin : File}
    (hserving : Serving sockfd s.files) (hdue : DueFile spared s stdin)
    (htake : takeDue s true = (s₁, due)) : due.getD 0 = 0 ↔ dueEntry s = none := by
  cases hdue with
  | none hnone =>
    simp only [takeDue, if_true, hnone, Prod.mk.injEq] at htake
    rw [← htake.2, hnone]
    simp
  | some j p hsome hread hwrite hp =>
    simp only [takeDue, if_true, hsome, Prod.mk.injEq] at htake
    rw [← htake.2, hsome]
    simpa using (hserving.not_standard hread (by simp)).1

theorem line_outputs {stdin : File} (hget : getInput = 0 ∨ getInput = 1 ∨ getInput = 2)
    (hserving : Serving sockfd s.files) (hdue : DueFile spared s stdin)
    (houtput : s.files line.lastOutput = some output)
    (hunspared : Unspared spared s.made output)
    (hreturned : ∀ i, (calls i).getData = (calls i).pipeFd) (hne : cmds ≠ [])
    (hplain : ∀ cmd ∈ cmds, '>' ∉ cmd)
    (h : runCommands line calls 0 cmds ⟨s, 0, getInput, []⟩ = some r') :
    if cmds.length = 1 ∨ dueEntry s = none then Outputs getInput output r'.children
    else ∃ c, r'.children.head? = some c ∧ c.stdout = some output := by
  obtain ⟨s₁, due, htake, hentries, hmade, hspares, hinput⟩ := takeDue_done hdue
  have houtput₁ := hspares _ _ houtput hunspared.kept
  have hunspared₁ : Unspared spared s₁.made output := by
    rw [hmade]
    exact hunspared
  cases cmds with
  | nil => exact absurd rfl hne
  | cons cmd cmds =>
    simp only [runCommands, decide_true, Option.bind_eq_some_iff] at h
    obtain ⟨middle, hfirst, hrest⟩ := h
    obtain ⟨c, hchildren, hmiddleInput, hmiddleGet, hdone, hstdout⟩ := runCommand_wired
      (r := ⟨s, 0, getInput, []⟩) htake (hserving.spares hspares) (hinput _ _ _ _) houtput₁
      hunspared₁ (hreturned 0) (hplain cmd List.mem_cons_self) hfirst
    have hown := own_first (r := ⟨s, 0, getInput, []⟩) line cmds.isEmpty cmd due hget
    cases cmds with
    | nil =>
      simp only [runCommands, Option.some.injEq] at hrest
      subst hrest
      rw [if_pos (.inl rfl), hchildren]
      exact Outputs.single (hown.trans (by simp)) hstdout
    | cons next cmds =>
      have hread := hdone.readEnd
      rw [← hmiddleInput] at hread
      have hsame : middle.getInput = getInput := hmiddleGet
      have hunsparedMiddle : Unspared spared middle.shell.made output := by
        rw [hdone.made]
        exact hunspared₁.next
      obtain ⟨children, hall, hlength, houtputs⟩ := runCommands_outputs (Nat.succ_ne_zero 0)
        (by rwa [hsame]) ((hserving.spares hspares).spares hdone.spares) hread
        (hunspared₁.later _ (le_refl _)) (hdone.spares _ _ houtput₁ hunspared₁.kept)
        hunsparedMiddle hreturned (List.cons_ne_nil _ _)
        (fun cmd hcmd => hplain cmd (List.mem_cons_of_mem _ hcmd)) hrest
      rw [hsame] at houtputs
      have hnil : children ≠ [] := by
        rintro rfl
        simp at hlength
      rw [hchildren] at hall
      rw [hall]
      have hzero : (roundArgs line true (next :: cmds).isEmpty cmd ⟨s, 0, getInput, []⟩ due).Own ↔
          dueEntry s = none := by
        rw [hown, ← takeDue_zero hserving hdue htake]
        simp
      by_cases hnone : dueEntry s = none
      · rw [if_pos (.inr hnone)]
        rw [if_pos (hzero.mpr hnone)] at hstdout
        exact houtputs.cons hnil hstdout
      · rw [if_neg (by simpa using hnone)]
        rw [if_neg (mt hzero.mp hnone)] at hstdout
        exact ⟨c, rfl, hstdout⟩

theorem readLine_number {text : Text} {n : Int} (h : (readLine text).pipeNumber = some n) :
    n < 2 ^ 31 := by
  unfold readLine readNumber at h
  dsimp only at h
  split at h
  next => contradiction
  next =>
    split at h
    next =>
      rw [← Option.some.inj h]
      exact int32_lt _
    next => contradiction

/-- The sum that `do_exec` compares with is out of range only for the largest `int`. -/
theorem int32_succ {n : Int} (hlow : 1 ≤ n) (hhigh : n < 2 ^ 31) :
    int32 (n + 1) = n + 1 ∧ n + 1 < 2 ^ 31 ∨ int32 (n + 1) = -2 ^ 31 ∧ n + 1 = 2 ^ 31 := by
  by_cases hlt : n + 1 < 2 ^ 31
  · exact .inl ⟨int32_eq_self (by omega) hlt, hlt⟩
  · have heq : n + 1 = 2 ^ 31 := by omega
    rw [heq]
    exact .inr ⟨by decide, rfl⟩

theorem Ready.findTarget_eq (hready : Ready sockfd s) {n : Int} (hlow : 1 ≤ n)
    (hhigh : n < 2 ^ 31) :
    findTarget s n = (List.range 1000).find? fun i => s.inputCount i = n + 1 := by
  unfold findTarget
  apply List.find?_congr
  intro i hi
  obtain ⟨hcountLow, hcountHigh⟩ := hready.counts i (List.mem_range.mp hi)
  rw [decide_eq_decide]
  rcases int32_succ hlow hhigh with ⟨heq, -⟩ | ⟨heq, hsum⟩
  · rw [heq]
  · rw [heq, hsum]
    omega

/-- The claim of a line: the table it leaves, and the file the last command is given. -/
inductive Claims (sockfd : Int) (s : Shell) : Option Int → Shell × Nat × Int → File → Prop
  | plain : Claims sockfd s none (s, 0, sockfd) .socket
  | merged (n : Int) (i p : Nat) (hlow : 1 ≤ n) (hfind : findTarget s n = some i)
      (hwaiting : Waiting s i) (hcount : s.inputCount i = n + 1)
      (hread : s.files (s.inputNum i) = some (.readEnd p))
      (hwrite : s.files (s.outputNum i) = some (.writeEnd p)) (hp : p < s.made) :
      Claims sockfd s (some n) (s, 1, s.outputNum i) (.writeEnd p)
  | fresh (n : Int) (hlow : 1 ≤ n) (hhigh : n < 2 ^ 31) (hfind : findTarget s n = none) :
      Claims sockfd s (some n) (claimNew s n, 2, sockfd) .socket

variable {number : Option Int} {claimed : Shell} {fd : Int}

theorem Ready.claims (hready : Ready sockfd s) (l : ProgramLine) :
    ∃ output, Claims sockfd s l.number (claimEntry s sockfd l.number) output := by
  cases hnumber : l.number with
  | none => exact ⟨_, .plain⟩
  | some n =>
    have hlow := l.positive n hnumber
    have hhigh := readLine_number hnumber
    unfold claimEntry
    dsimp only
    cases hfind : findTarget s n with
    | none => exact ⟨_, .fresh n hlow hhigh hfind⟩
    | some i =>
      have hfound := hfind
      rw [hready.findTarget_eq hlow hhigh, List.find?_range_eq_some] at hfound
      obtain ⟨hcount, hi, -⟩ := hfound
      rw [decide_eq_true_eq] at hcount
      have hwaiting : Waiting s i := ⟨List.mem_range.mp hi, by omega⟩
      obtain ⟨p, hp, hread, hwrite⟩ := hready.ends i hwaiting
      exact ⟨_, .merged n i p hlow hfind hwaiting hcount hread hwrite hp⟩

theorem Claims.same (h : Claims sockfd s number (claimed, getInput, fd) output) :
    claimed.files = s.files ∧ claimed.inputNum = s.inputNum ∧ claimed.outputNum = s.outputNum ∧
      claimed.made = s.made := by
  cases h <;> exact ⟨rfl, rfl, rfl, rfl⟩

theorem Claims.getInput_cases (h : Claims sockfd s number (claimed, getInput, fd) output) :
    getInput = 0 ∨ getInput = 1 ∨ getInput = 2 := by
  cases h with
  | plain => exact .inl rfl
  | merged => exact .inr (.inl rfl)
  | fresh => exact .inr (.inr rfl)

theorem Claims.count (h : Claims sockfd s number (claimed, getInput, fd) output) (j : Nat) :
    claimed.inputCount j = 1 ↔
      s.inputCount j = 1 ∧ ¬ (getInput = 2 ∧ j = s.pos) := by
  cases h with
  | plain => simp
  | merged => simp
  | fresh n hlow hhigh =>
    unfold claimNew
    dsimp only
    rw [Function.update_apply]
    by_cases hj : j = s.pos
    · have hne : int32 (n + 1) ≠ 1 := by
        rcases int32_succ hlow hhigh with ⟨heq, -⟩ | ⟨heq, -⟩ <;> omega
      simp [hj, hne]
    · simp [hj]

theorem Claims.due_waiting (h : Claims sockfd s number (claimed, getInput, fd) output) {j : Nat}
    (hdue : dueEntry claimed = some j) :
    Waiting s j ∧ s.inputCount j = 1 ∧ ¬ (getInput = 2 ∧ j = s.pos) := by
  obtain ⟨hwaiting, hone⟩ := dueEntry_waiting hdue
  have hcount := (h.count j).mp hone
  exact ⟨⟨hwaiting.1, by omega⟩, hcount⟩

theorem Claims.due_eq (h : Claims sockfd s number (claimed, getInput, fd) output)
    (hkept : getInput = 2 → dueEntry s ≠ some s.pos) : dueEntry claimed = dueEntry s := by
  cases hdue : dueEntry s with
  | none =>
    rw [dueEntry, lastBelow_eq_none] at hdue ⊢
    intro j hj
    have hmiss := hdue j hj
    rw [decide_eq_false_iff_not] at hmiss ⊢
    rw [h.count]
    exact fun hone => hmiss hone.1
  | some j =>
    have hpos : ¬ (getInput = 2 ∧ j = s.pos) := by
      rintro ⟨hget, rfl⟩
      exact hkept hget hdue
    rw [dueEntry, lastBelow_eq_some] at hdue ⊢
    obtain ⟨hj, hone, hlater⟩ := hdue
    rw [decide_eq_true_eq] at hone
    refine ⟨hj, ?_, ?_⟩
    · rw [decide_eq_true_eq, h.count]
      exact ⟨hone, hpos⟩
    · intro k hjk hk
      have hmiss := hlater k hjk hk
      rw [decide_eq_false_iff_not] at hmiss ⊢
      rw [h.count]
      exact fun hcount => hmiss hcount.1

/-- The pipes that the line itself may use: new ones, and the one that is due. -/
def usable (s claimed : Shell) (p : Nat) : Prop :=
  s.made ≤ p ∨ ∃ j, dueEntry claimed = some j ∧ s.files (s.inputNum j) = some (.readEnd p)

theorem Claims.dueFile (hready : Ready sockfd s)
    (h : Claims sockfd s number (claimed, getInput, fd) output) :
    ∃ stdin, DueFile (usable s claimed) claimed stdin ∧
      stdin = (dueEntry claimed).elim .terminal fun j => (s.files (s.inputNum j)).getD .terminal := by
  obtain ⟨hfiles, hinput, houtput, -⟩ := h.same
  cases hdue : dueEntry claimed with
  | none => exact ⟨_, .none hdue, rfl⟩
  | some j =>
    obtain ⟨p, -, hread, hwrite⟩ := hready.ends j (h.due_waiting hdue).1
    refine ⟨.readEnd p, .some j p hdue ?_ ?_ (.inr ⟨j, hdue, hread⟩), by simp [hread]⟩
    · rw [hfiles, hinput, hread]
    · rw [hfiles, houtput, hwrite]

theorem Claims.outputFile (hready : Ready sockfd s)
    (h : Claims sockfd s number (claimed, getInput, fd) output) :
    claimed.files fd = some output ∧ Unspared (usable s claimed) claimed.made output ∧
      ∀ p, s.made ≤ p → output ≠ .writeEnd p := by
  have hmade := h.same.2.2.2
  have hlater : ∀ p, claimed.made ≤ p → usable s claimed p := by
    intro p hp
    rw [hmade] at hp
    exact .inl hp
  cases h with
  | plain => exact ⟨hready.serving.socket, ⟨hlater, by simp, by simp⟩, by simp⟩
  | fresh => exact ⟨hready.serving.socket, ⟨hlater, by simp, by simp⟩, by simp⟩
  | merged n i p hlow hfind hwaiting hcount hread hwrite hp =>
    refine ⟨hwrite, ⟨hlater, ?_, by simp⟩, ?_⟩
    · intro q hq husable
      obtain rfl : p = q := by simpa using hq
      rcases husable with hle | ⟨j, hdue, hreadj⟩
      · omega
      · obtain ⟨hwaitingj, hone⟩ := dueEntry_waiting hdue
        rw [hready.separate i j p hwaiting hwaitingj hread hreadj] at hcount
        omega
    · rintro q hq heq
      obtain rfl : p = q := by simpa using heq
      omega

/-- All that the children of a line do, by what its claim and the due pipe come to. -/
structure LineRan (s claimed : Shell) (getInput : Nat) (output : File) (l : ProgramLine)
    (children : List Child) : Prop where
  commands : children.map Child.cmd = l.commands
  pipes : children.map Child.pipe = List.range' s.made l.commands.length
  first : ∃ c, children.head? = some c ∧ c.stdin =
    some ((dueEntry claimed).elim .terminal fun j => (s.files (s.inputNum j)).getD .terminal)
  later : ∀ i c, children[i + 1]? = some c → c.stdin = some (.readEnd (s.made + i))
  outputs : if l.commands.length = 1 ∨ dueEntry claimed = none then Outputs getInput output children
    else ∃ c, children.head? = some c ∧ c.stdout = some output

theorem Ready.ran (hready : Ready sockfd s) (l : ProgramLine)
    (hreturned : ∀ i, (calls i).getData = (calls i).pipeFd) {o : Outcome}
    (hclaims : Claims sockfd s l.number (claimed, getInput, fd) output)
    (hclaim : claimEntry s sockfd l.number = (claimed, getInput, fd))
    (h : doExec s l.text sockfd calls = some o) :
    LineRan s claimed getInput output l o.children := by
  obtain ⟨line, r', hlast, hrun, rfl⟩ := counted_runs l.counted h
  have hnumber : claimEntry s sockfd (readLine l.text).pipeNumber = (claimed, getInput, fd) := hclaim
  rw [hnumber] at hlast hrun
  obtain ⟨hfiles, -, -, hmade⟩ := hclaims.same
  obtain ⟨stdin, hdue, hstdin⟩ := hclaims.dueFile hready
  obtain ⟨houtput, hunspared, -⟩ := hclaims.outputFile hready
  have hserving : Serving sockfd claimed.files := by
    rw [hfiles]
    exact hready.serving
  have hne : l.commands ≠ [] := by
    intro hnil
    have hblank := l.counted.1
    simp [show (readLine l.text).commands = [] from hnil, blank] at hblank
  dsimp only at hlast
  rw [← hlast] at houtput
  have hdone := runCommands_line hclaims.getInput_cases hserving hdue houtput hunspared hreturned
    hne hrun
  have houtputs := line_outputs hclaims.getInput_cases hserving hdue houtput hunspared hreturned
    hne l.plain hrun
  constructor
  · exact hdone.commands
  · rw [← hmade]
    exact hdone.pipes
  · rw [← hstdin]
    exact hdone.first
  · rw [← hmade]
    exact hdone.later
  · exact houtputs

theorem LineRan.length (h : LineRan s claimed getInput output l children) :
    children.length = l.commands.length := by
  rw [← h.commands, List.length_map]

theorem LineRan.pipe (h : LineRan s claimed getInput output l children) {i : Nat} {c : Child}
    (hc : children[i]? = some c) : c.pipe = s.made + i := by
  have hpipe : (children.map Child.pipe)[i]? = some c.pipe := by simp [hc]
  rw [h.pipes] at hpipe
  obtain ⟨hi, hget⟩ := List.getElem?_eq_some_iff.mp hpipe
  rw [List.getElem_range', Nat.one_mul] at hget
  exact hget.symm

theorem LineRan.last (h : LineRan s claimed getInput output l children)
    (hready : Ready sockfd s) (hclaims : Claims sockfd s l.number (claimed, getInput, fd) output)
    (houtputs : Outputs getInput output children) {c : Child} (hc : children.getLast? = some c) :
    c.stdout = endFile s l.number c.pipe := by
  have hlast := houtputs (children.length - 1) c (by rwa [← List.getLast?_eq_getElem?])
  have hlength : ¬ children.length - 1 + 1 < children.length := by omega
  rw [hlast]
  generalize l.number = number at hclaims ⊢
  cases hclaims with
  | plain => rw [if_neg (by omega), endFile]
  | merged n i p hlow hfind hwaiting hcount hread hwrite hp =>
    have hhigh : n < 2 ^ 31 := by
      have hcounts := hready.counts i hwaiting.1
      omega
    rw [hready.findTarget_eq hlow hhigh] at hfind
    rw [if_neg (by omega), endFile, hfind, Option.map_some, Option.getD_some, hwrite]
  | fresh n hlow hhigh hfind =>
    rw [hready.findTarget_eq hlow hhigh] at hfind
    rw [if_pos (.inr rfl), endFile, hfind, Option.map_none, Option.getD_none]

theorem LineRan.wired (h : LineRan s claimed getInput output l children)
    (hready : Ready sockfd s) (hclaims : Claims sockfd s l.number (claimed, getInput, fd) output)
    (hdue : dueEntry claimed = dueEntry s)
    (hone : l.commands.length = 1 ∨ dueEntry s = none) : LineWired s l children := by
  have houtputs := h.outputs
  rw [hdue, if_pos hone] at houtputs
  constructor
  · exact h.commands
  · exact h.pipes
  · intro j hj
    obtain ⟨c, hc, hstdin⟩ := h.first
    obtain ⟨p, -, hread, -⟩ := hready.ends j (dueEntry_waiting hj).1
    refine ⟨c, hc, ?_⟩
    rw [hstdin, hdue, hj, Option.elim_some, hread, Option.getD_some]
  · intro i c d hc hd
    rw [h.later i d hd, h.pipe hc]
  · intro i c hi hc
    rw [houtputs i c hc, if_pos (.inl hi)]
  · exact fun c => h.last hready hclaims houtputs

theorem LineRan.takesDue (h : LineRan s claimed getInput output l children)
    (hready : Ready sockfd s) (hclaims : Claims sockfd s l.number (claimed, getInput, fd) output)
    (hget : getInput = 2) (hpos : dueEntry s = some s.pos) : ¬ LineWired s l children := by
  intro hwired
  have hwaiting := (dueEntry_waiting hpos).1
  obtain ⟨p, -, hread, -⟩ := hready.ends s.pos hwaiting
  obtain ⟨c, hc, hstdin⟩ := h.first
  obtain ⟨d, hd, hdue⟩ := hwired.due s.pos hpos
  obtain rfl : c = d := Option.some.inj (hc.symm.trans hd)
  rw [hdue, hread] at hstdin
  cases hother : dueEntry claimed with
  | none => simp [hother] at hstdin
  | some j =>
    obtain ⟨hj, -, hne⟩ := hclaims.due_waiting hother
    obtain ⟨q, -, hreadj, -⟩ := hready.ends j hj
    rw [hother, Option.elim_some, hreadj, Option.getD_some, Option.some.injEq,
      File.readEnd.injEq] at hstdin
    rw [← hstdin] at hreadj
    exact hne ⟨hget, hready.separate j s.pos p hj hwaiting hreadj hread⟩

theorem LineRan.several (h : LineRan s claimed getInput output l children)
    (hready : Ready sockfd s) (hclaims : Claims sockfd s l.number (claimed, getInput, fd) output)
    (hseveral : ¬ (l.commands.length = 1 ∨ dueEntry claimed = none)) : ¬ LineWired s l children := by
  intro hwired
  have houtputs := h.outputs
  rw [if_neg hseveral] at houtputs
  obtain ⟨c, hc, hstdout⟩ := houtputs
  have hzero : children[0]? = some c := by rwa [← List.head?_eq_getElem?]
  have hpositive : 0 < children.length := (List.getElem?_eq_some_iff.mp hzero).1
  have hlength := h.length
  have hown := hwired.inner 0 c (by omega) hzero
  rw [hstdout, Option.some.injEq] at hown
  exact (hclaims.outputFile hready).2.2 c.pipe (by rw [h.pipe hzero]; omega) hown

/-- A line is wired as it says exactly when no numbered pipe is due for it, or it is one
command, and its own new entry leaves the due one alone. -/
theorem line_wired_iff (sockfd : Int) (s : Shell) (l : ProgramLine) (calls : Nat → ParserCall)
    (o : Outcome) (hready : Ready sockfd s)
    (hreturned : ∀ i, (calls i).getData = (calls i).pipeFd)
    (h : doExec s l.text sockfd calls = some o) :
    LineWired s l o.children ↔
      (l.commands.length = 1 ∨ dueEntry s = none) ∧ ¬ TakesDue s l := by
  obtain ⟨output, hclaims⟩ := hready.claims l
  generalize hclaim : claimEntry s sockfd l.number = claim at hclaims
  obtain ⟨claimed, getInput, fd⟩ := claim
  have hran := hready.ran l hreturned hclaims hclaim h
  by_cases htakes : TakesDue s l
  · obtain ⟨n, hn, hfind, hpos⟩ := htakes
    have hget : getInput = 2 := by
      rw [hn, claimEntry, hfind] at hclaim
      exact (congrArg (fun claim => claim.2.1) hclaim).symm
    have hnot := hran.takesDue hready hclaims hget hpos
    exact ⟨fun hwired => absurd hwired hnot, fun hcond => absurd ⟨n, hn, hfind, hpos⟩ hcond.2⟩
  · have hdue : dueEntry claimed = dueEntry s := by
      apply hclaims.due_eq
      intro hget hpos
      apply htakes
      generalize hnumber : l.number = number at hclaims
      cases hclaims with
      | plain => exact absurd hget (by decide)
      | merged => exact absurd hget (by decide)
      | fresh n hlow hhigh hfind => exact ⟨n, hnumber, hfind, hpos⟩
    constructor
    · intro hwired
      refine ⟨?_, htakes⟩
      by_contra hseveral
      rw [← hdue] at hseveral
      exact hran.several hready hclaims hseveral hwired
    · intro hcond
      exact hran.wired hready hclaims hdue hcond.1

theorem Invariant.ready {st : Session} (hinv : Invariant sockfd st)
    (hcounters : ∀ j < 1000, -2 ^ 31 < st.shell.inputCount j) : Ready sockfd st.shell := by
  have hlength := @length_numbers st.log
  have hpipe : ∀ j, Waiting st.shell j → ∃ (t p : Nat), st.shell.inputCount j = t - st.log.length + 1 ∧
      pipeFor st.log t = some p ∧ st.shell.files (st.shell.inputNum j) = some (.readEnd p) ∧
      st.shell.files (st.shell.outputNum j) = some (.writeEnd p) := by
    intro j hj
    have hpositive := hj.2
    obtain ⟨d, hd⟩ := Int.eq_ofNat_of_zero_le (a := st.shell.inputCount j - 1) (by omega)
    obtain ⟨m, hmaker, p, hp, hread, hwrite⟩ := hinv.follows.sound j (st.log.length + d) hj.1
      (by omega) (by omega)
    refine ⟨st.log.length + d, p, by omega, ?_, hread, hwrite⟩
    rw [pipeFor, hmaker, Option.bind_some, hp]
  constructor
  · exact hinv.serving
  · intro j hj
    obtain ⟨t, p, -, hfor, hread, hwrite⟩ := hpipe j hj
    exact ⟨p, hinv.made_gt hfor, hread, hwrite⟩
  · intro i j p hi hj hiread hjread
    obtain ⟨ti, pi, hcounti, hfori, hreadi, -⟩ := hpipe i hi
    obtain ⟨tj, pj, hcountj, hforj, hreadj, -⟩ := hpipe j hj
    obtain rfl : p = pi := by simpa [hiread] using hreadi
    obtain rfl : p = pj := by simpa [hjread] using hreadj
    have hsame := pipeFor_unique hinv.nodup hfori hforj
    exact hinv.follows.distinct i j hi.1 hj.1 hi.2 (by omega)
  · exact fun j hj => ⟨hcounters j hj, hinv.counts j⟩

def catAlone : ProgramLine where
  text := "cat".toList
  counted := by decide
  plain := by decide
  positive := by decide

def catTwice : ProgramLine where
  text := "cat | cat".toList
  counted := by decide
  plain := by decide
  positive := by decide

def onePiped : List Event := [event "ls |1\n" (pairFrom 5)]

/-- The calls of `parser` for that line. -/
def nextCalls (i : Nat) : ParserCall := if i = 0 then pairFrom 7 else pairFrom 9

theorem nextCalls_returned (i : Nat) : (nextCalls i).getData = (nextCalls i).pipeFd := by
  unfold nextCalls
  split <;> decide

theorem line_wired_iff_catAlone :
    ∃ st o, exec (next 4) (Session.initial 4) onePiped = some st ∧ dueEntry st.shell = some 0 ∧
      doExec st.shell catAlone.text 4 nextCalls = some o ∧
      LineWired st.shell catAlone o.children := by
  have hfacts : (exec (next 4) (Session.initial 4) onePiped).any (fun st =>
      decide (dueEntry st.shell = some 0 ∧ ∀ j < 1000, -2 ^ 31 < st.shell.inputCount j) &&
        (doExec st.shell catAlone.text 4 nextCalls).isSome) = true := by decide +kernel
  obtain ⟨st, hrun, hs⟩ := (Option.any_eq_true _ _).mp hfacts
  rw [Bool.and_eq_true, decide_eq_true_eq] at hs
  obtain ⟨⟨hdue, hcounters⟩, hsome⟩ := hs
  obtain ⟨o, ho⟩ := Option.isSome_iff_exists.mp hsome
  have hreturned : ∀ e ∈ onePiped, e.Returned := by
    intro e he
    simp only [onePiped, List.mem_cons, List.not_mem_nil, or_false] at he
    rw [he]
    exact event_returned (by decide)
  have hfits : Meets (next 4) (Session.initial 4)
      (fun _ st e => Fits st.shell (lineOf e.chunk)) onePiped := by decide +kernel
  have hready := (invariant_run (by decide) onePiped st hreturned hfits hrun).ready hcounters
  refine ⟨st, o, hrun, hdue, ho, ?_⟩
  rw [line_wired_iff 4 st.shell catAlone nextCalls o hready nextCalls_returned ho]
  refine ⟨.inl (by decide), ?_⟩
  rintro ⟨n, hn, -⟩
  have hnone : catAlone.number = none := by decide
  rw [hnone] at hn
  cases hn

/-- Of two commands the first one writes to the client. -/
theorem first_writes_to_socket :
    ∃ st o, exec (next 4) (Session.initial 4) onePiped = some st ∧
      doExec st.shell catTwice.text 4 nextCalls = some o ∧
      ¬ LineWired st.shell catTwice o.children := by
  have hfacts : (exec (next 4) (Session.initial 4) onePiped).any (fun st =>
      (doExec st.shell catTwice.text 4 nextCalls).any fun o =>
        o.children.map Child.stdout == [some .socket, some .socket]) = true := by decide +kernel
  obtain ⟨st, hrun, hs⟩ := (Option.any_eq_true _ _).mp hfacts
  obtain ⟨o, ho, hstdouts⟩ := (Option.any_eq_true _ _).mp hs
  rw [beq_iff_eq] at hstdouts
  refine ⟨st, o, hrun, ho, ?_⟩
  intro hwired
  have hlength : o.children.length = 2 := by
    rw [← List.length_map Child.stdout, hstdouts]
    rfl
  have hfirst := hwired.inner 0 (o.children[0]) (by omega) (List.getElem?_eq_getElem _)
  have hsocket : (o.children.map Child.stdout)[0]? = some (some .socket) := by rw [hstdouts]; rfl
  rw [List.getElem?_map, List.getElem?_eq_getElem (by omega), Option.map_some, hfirst] at hsocket
  simp at hsocket

end NetworkProgramming.Simple
