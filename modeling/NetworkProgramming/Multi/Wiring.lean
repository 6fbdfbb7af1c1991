import NetworkProgramming.Library.Run
import NetworkProgramming.Multi.Rounds
import NetworkProgramming.Simple.Wiring

/-! The standard files of the commands of one line of `np_multi_proc`, with its numbered
pipes and user pipes, in every state that a run of lines reaches. -/
namespace NetworkProgramming.Multi.Programs
open Library.CString Library.Descriptors Library.Run Library.Search CommandLine
open Simple (Shell Child Serving StagesDone SameEntries Ready Waiting dueEntry findTarget)

/-- A line of programs that names no file, and with no number or one from 1 on. -/
structure ProgramLine where
  text : Text
  reading : Reading
  read : Programs.reading text = .ok (some reading)
  programs : builtin reading.commands = none
  plain : ∀ cmd ∈ reading.commands, '>' ∈ cmd → pipesOut cmd = true
  positive : ∀ n ∈ reading.pipeNumber, 1 ≤ n

/-- Where the first command is to read: the pipe that is due, the user pipe or the client. -/
def startFile (s : Shell) (userPipeIn : Int) : Option File :=
  (dueEntry s).elim (s.files userPipeIn) fun j => s.files (s.inputNum j)

/-- Where the last command is to write: its own pipe for a number, or the pipe that waits
for the same line already; without a number the user pipe or the client. -/
def endFile (s : Shell) (number : Option Int) (userPipeOut : Int) (own : Nat) : Option File :=
  match number with
  | none => if userPipeOut = 0 then some .terminal else some (.writeEnd s.made)
  | some n =>
    (((List.range 1000).find? fun i => s.inputCount i = n + 1).map fun i =>
      s.files (s.outputNum i)).getD (some (.writeEnd own))

/-- What the commands of a line are to read and write. -/
structure LineWired (s : Shell) (l : ProgramLine) (userPipeIn userPipeOut : Int)
    (children : List Child) : Prop where
  commands : children.map Child.cmd = l.reading.commands
  pipes : (children.map Child.pipe).Nodup ∧ ∀ c ∈ children, s.made ≤ c.pipe
  first : ∀ c, children.head? = some c → c.stdin = startFile s userPipeIn
  later : ∀ (i : Nat) (c d : Child), children[i]? = some c → children[i + 1]? = some d →
    d.stdin = some (.readEnd c.pipe)
  inner : ∀ (i : Nat) (c : Child), i + 1 < children.length → children[i]? = some c →
    c.stdout = some (.writeEnd c.pipe)
  last : ∀ c, children.getLast? = some c →
    c.stdout = endFile s l.reading.pipeNumber userPipeOut c.pipe

/-- What the standard error of the commands is to be: the client's, and for the last
command in front of a `!` the pipe of the number. -/
structure ErrorsWired (s : Shell) (l : ProgramLine) (children : List Child) : Prop where
  inner : ∀ (i : Nat) (c : Child), i + 1 < children.length → children[i]? = some c →
    c.stderr = some .terminal
  last : ∀ c, children.getLast? = some c → c.stderr =
    if l.reading.pipeErrN then endFile s l.reading.pipeNumber 0 c.pipe else some .terminal

/-- The line's number counts to the target of a pipe that waits already. -/
def Joins (s : Shell) (l : ProgramLine) : Prop :=
  ∃ n, l.reading.pipeNumber = some n ∧ findTarget s n ≠ none

/-- The line's new entry takes the place of the one that is due. -/
def TakesDue (s : Shell) (l : ProgramLine) : Prop :=
  ∃ n, l.reading.pipeNumber = some n ∧ findTarget s n = none ∧ dueEntry s = some s.pos

/-- The process between two lines: its tables, and the user pipes that wait to be read. -/
structure Session where
  shell : Shell
  fifos : List Int

/-- Behind `init_client`: what is open as 0, 1 and 2 is the client's socket. -/
def Session.initial (ssock : Int) : Session := ⟨Shell.initial ssock, []⟩

/-- The handler of `SIGUSR2` opens a FIFO; a line is refused for its user pipes, behind its
claim; a line goes on with its user pipes, 0 for none. -/
inductive Event where
  | fifo (fd : Int)
  | refused (line : Text)
  | line (line : Text) (userPipeIn userPipeOut : Int) (calls : Nat → ParserCall)

def openFifo (st : Session) (fd : Int) : Option Session :=
  if 0 < fd ∧ st.shell.files fd = none then
    some
      { shell :=
          { st.shell with
            files := Function.update st.shell.files fd (some (.readEnd st.shell.made))
            made := st.shell.made + 1 }
        fifos := fd :: st.fifos }
  else none

def next (st : Session) : Event → Option Session
  | .fifo fd => openFifo st fd
  | .refused line =>
    match reading line with
    | .ok (some reading) =>
      some { st with shell := (Simple.claimEntry st.shell 0 reading.pipeNumber).1 }
    | _ => none
  | .line line userPipeIn userPipeOut calls =>
    if userPipeIn = 0 ∨ userPipeIn ∈ st.fifos then
      match doExec st.shell line userPipeIn userPipeOut calls with
      | none => none
      | some (.builtin _ .exit) => none
      | some o => some ⟨o.shell, st.fifos.erase userPipeIn⟩
    else none

/-- The line as the loop over its commands is given it. -/
def given (text : Text) : Option Reading := (reading text).toOption.join

/-- A line that the table can schedule: only programs have a number, it is one that `int`
can count, and no counter is at the end of `int`. -/
structure Fits (s : Shell) (text : Text) : Prop where
  programs : ∀ r ∈ given text, r.pipeNumber = none ∨ builtin r.commands = none
  range : ∀ r ∈ given text, ∀ n ∈ r.pipeNumber, 1 ≤ n ∧ n + 1 < 2 ^ 31
  counters : ∀ j < 1000, -2 ^ 31 + 1 < s.inputCount j

instance (s : Shell) (text : Text) : Decidable (Fits s text) :=
  decidable_of_iff
    ((∀ r ∈ given text, r.pipeNumber = none ∨ builtin r.commands = none) ∧
      (∀ r ∈ given text, ∀ n ∈ r.pipeNumber, 1 ≤ n ∧ n + 1 < 2 ^ 31) ∧
      ∀ j < 1000, -2 ^ 31 + 1 < s.inputCount j)
    ⟨fun h => ⟨h.1, h.2.1, h.2.2⟩, fun h => ⟨h.programs, h.range, h.counters⟩⟩

/-- A refused line has no number, and any other line can be scheduled. -/
def Event.Fits (st : Session) : Event → Prop
  | .fifo _ => True
  | .refused text => ∀ r ∈ given text, r.pipeNumber = none
  | .line text _ _ _ => Programs.Fits st.shell text

instance (st : Session) : (e : Event) → Decidable (e.Fits st)
  | .fifo _ => inferInstanceAs (Decidable True)
  | .refused text => inferInstanceAs (Decidable (∀ r ∈ given text, r.pipeNumber = none))
  | .line text _ _ _ => inferInstanceAs (Decidable (Programs.Fits st.shell text))

def Event.Returned : Event → Prop
  | .line _ _ _ calls => ∀ i, (calls i).getData = (calls i).pipeFd
  | _ => True

variable {ssock : Int} {s s' claimed opened : Shell} {number : Option Int} {getInput : Nat}
  {fd : Int} {joined : Option File} {l : ProgramLine} {userPipeIn userPipeOut : Int}
  {children : List Child} {calls : Nat → ParserCall} {o : Outcome} {r : Reading}

/-- The number is read from the pieces at `|`, or with a further one at `!`. -/
theorem reading_eq {text : Text} (h : reading text = .ok (some r)) :
    ∃ filename err, r = readNumber filename err ∧ filename ≠ [] ∧
      (err = true → 2 ≤ filename.length) := by
  unfold reading at h
  split at h
  next => simp at h
  next =>
    dsimp only at h
    split at h
    next first last hfirst hlast =>
      have hne : splitPipe text ≠ [] := by
        intro hnil
        simp [hnil] at hfirst
      split at h
      next => simp at h
      next =>
        simp only [Except.ok.injEq, Option.some.injEq] at h
        refine ⟨_, _, h.symm, ?_⟩
        cases splitsError last with
        | false => exact ⟨hne, fun herr => by simp at herr⟩
        | true =>
          rw [if_pos rfl]
          unfold splitErrorPipe
          rw [hlast]
          dsimp only
          split
          next => exact ⟨by simp, fun _ => by simp⟩
          next => exact ⟨by simp, fun herr => by simp at herr⟩
    next => simp at h

theorem readNumber_cases {filename : List Text} (err : Bool) (hne : filename ≠ []) :
    (∃ n < 2 ^ 31, filename.length ≠ 1 ∧ readNumber filename err = ⟨filename.dropLast, some n, err⟩) ∨
      readNumber filename err = ⟨filename, none, err⟩ := by
  unfold readNumber
  cases hlast : filename.getLast? with
  | none => exact absurd (List.getLast?_eq_none_iff.mp hlast) hne
  | some last =>
    dsimp only
    split
    next hnumber => exact .inl ⟨_, int32_lt _, hnumber.1, rfl⟩
    next => exact .inr rfl

theorem reading_number {text : Text} (h : reading text = .ok (some r)) {n : Int}
    (hn : r.pipeNumber = some n) : n < 2 ^ 31 := by
  obtain ⟨filename, err, rfl, hne, -⟩ := reading_eq h
  obtain ⟨m, hm, -, heq⟩ | heq := readNumber_cases err hne
  · rw [heq, Option.some.injEq] at hn
    omega
  · rw [heq] at hn
    contradiction

theorem reading_commands_ne {text : Text} (h : reading text = .ok (some r)) : r.commands ≠ [] := by
  obtain ⟨filename, err, rfl, hne, -⟩ := reading_eq h
  obtain ⟨m, -, hlength, heq⟩ | heq := readNumber_cases err hne
  · rw [heq]
    intro hnil
    have hzero := congrArg List.length hnil
    have hpos := List.length_pos_iff.mpr hne
    rw [List.length_dropLast, List.length_nil] at hzero
    omega
  · rw [heq]
    exact hne

/-- A `!` that is split off leaves two pieces, so a line of one command has a number. -/
theorem reading_single {text : Text} (h : reading text = .ok (some r)) (herr : r.pipeErrN = true)
    (hone : r.commands.length = 1) : r.pipeNumber ≠ none := by
  obtain ⟨filename, err, rfl, hne, hpieces⟩ := reading_eq h
  obtain ⟨m, -, -, heq⟩ | heq := readNumber_cases err hne
  · rw [heq]
    simp
  · rw [heq] at herr hone
    have hlength := hpieces herr
    dsimp only at hone
    omega

/-- The claim of a line: the table it leaves, and the pipe that it joins. -/
inductive Claimed (s : Shell) : Option Int → Shell × Nat × Int → Option File → Prop
  | plain : Claimed s none (s, 0, 0) none
  | merged (n : Int) (i p : Nat) (hlow : 1 ≤ n) (hfind : findTarget s n = some i)
      (hwaiting : Waiting s i) (hcount : s.inputCount i = n + 1)
      (hread : s.files (s.inputNum i) = some (.readEnd p))
      (hwrite : s.files (s.outputNum i) = some (.writeEnd p)) (hp : p < s.made) :
      Claimed s (some n) (s, 1, s.outputNum i) (some (.writeEnd p))
  | fresh (n : Int) (hlow : 1 ≤ n) (hhigh : n < 2 ^ 31) (hfind : findTarget s n = none) :
      Claimed s (some n) (Simple.claimNew s n, 2, 0) none

theorem claimEntry_claimed (hready : Ready ssock s) (hrange : ∀ n ∈ number, 1 ≤ n ∧ n < 2 ^ 31) :
    ∃ joined, Claimed s number (Simple.claimEntry s 0 number) joined := by
  cases number with
  | none => exact ⟨_, .plain⟩
  | some n =>
    obtain ⟨hlow, hhigh⟩ := hrange n rfl
    unfold Simple.claimEntry
    dsimp only
    cases hfind : findTarget s n with
    | none => exact ⟨_, .fresh n hlow hhigh hfind⟩
    | some i =>
      have hfound := hfind
      rw [hready.findTarget_eq hlow hhigh, List.find?_range_eq_some] at hfound
      obtain ⟨hcount, hi, -⟩ := hfound
      rw [decide_eq_true_eq] at hcount
      have hwaiting : Waiting s i := ⟨List.mem_range.mp hi, by omega⟩
      obtain ⟨p, hp, hread, hwrite⟩ := hready.ends i hwaiting
      exact ⟨_, .merged n i p hlow hfind hwaiting hcount hread hwrite hp⟩

theorem Claimed.claims (h : Claimed s number (claimed, getInput, fd) joined) (ssock : Int) :
    ∃ fd output, Simple.Claims ssock s number (claimed, getInput, fd) output := by
  cases h with
  | plain => exact ⟨_, _, .plain⟩
  | merged n i p hlow hfind hwaiting hcount hread hwrite hp =>
    exact ⟨_, _, .merged n i p hlow hfind hwaiting hcount hread hwrite hp⟩
  | fresh n hlow hhigh hfind => exact ⟨_, _, .fresh n hlow hhigh hfind⟩

/-- A user pipe that waits to be read is none of the numbered ones. -/
def Apart (s : Shell) (fd : Int) : Prop :=
  ∃ q < s.made, s.files fd = some (.readEnd q) ∧
    ∀ j, Waiting s j → s.files (s.inputNum j) ≠ some (.readEnd q)

/-- The pipes that the line itself may close: its own, the one that is due, and the user
pipe that it reads. -/
def usable (s claimed opened : Shell) (userPipeIn : Int) (p : Nat) : Prop :=
  opened.made ≤ p ∨ (∃ j, dueEntry claimed = some j ∧ s.files (s.inputNum j) = some (.readEnd p)) ∨
    (userPipeIn ≠ 0 ∧ s.files userPipeIn = some (.readEnd p))

structure Opened (s opened : Shell) (fd : Int) : Prop where
  same : SameEntries s opened
  made : opened.made = if fd = 0 then s.made else s.made + 1
  old : ∀ other file, s.files other = some file → opened.files other = some file
  new : fd ≠ 0 → opened.files fd = some (.writeEnd s.made)

theorem openUserPipe_opened (h : openUserPipe s fd = some opened) : Opened s opened fd := by
  unfold openUserPipe at h
  split at h
  next hzero =>
    rw [← Option.some.inj h]
    exact ⟨.refl s, by rw [if_pos hzero], fun _ _ hfile => hfile, fun hne => absurd hzero hne⟩
  next hne =>
    split at h
    next hfree =>
      rw [← Option.some.inj h]
      refine ⟨⟨rfl, rfl, rfl, rfl⟩, by rw [if_neg hne], ?_, fun _ => Function.update_self _ _ _⟩
      intro other file hfile
      have hother : other ≠ fd := by
        rintro rfl
        rw [hfree.2] at hfile
        contradiction
      exact (Function.update_of_ne hother _ _).trans hfile
    next => contradiction

def linePlan (s : Shell) (r : Reading) (getInput : Nat) (joined : Option File)
    (userPipeOut : Int) : Plan where
  getInput := getInput
  nPipeErr := r.pipeErrN
  joined := joined
  userPipeOut := if userPipeOut = 0 then none else some (.writeEnd s.made)

theorem Claimed.fitted (h : Claimed s r.pipeNumber (claimed, getInput, fd) joined)
    (hready : Ready ssock s) (huser : userPipeIn ≠ 0 → Apart s userPipeIn)
    (hopened : Opened claimed opened userPipeOut) :
    Fitted (usable s claimed opened userPipeIn)
      ⟨r.pipeNumber.isNone, r.pipeErrN, fd, userPipeIn, userPipeOut⟩
      (linePlan s r getInput joined userPipeOut) opened := by
  obtain ⟨fd', output, hclaims⟩ := h.claims ssock
  obtain ⟨hfiles, hinput, houtput, hmade⟩ := hclaims.same
  have hmore : s.made ≤ opened.made := by
    rw [hopened.made, hmade]
    split <;> omega
  have hlabel : ∀ p, usable s claimed opened userPipeIn p → s.made ≤ p →
      opened.made ≤ p := by
    intro p husable hp
    rcases husable with hle | ⟨j, hdue, hread⟩ | ⟨hne, hread⟩
    · exact hle
    · obtain ⟨q, hq, hreadq, -⟩ := hready.ends j (hclaims.due_waiting hdue).1
      rw [hread, Option.some.injEq, File.readEnd.injEq] at hreadq
      omega
    · obtain ⟨q, hq, hreadq, -⟩ := huser hne
      rw [hread, Option.some.injEq, File.readEnd.injEq] at hreadq
      omega
  constructor
  · generalize r.pipeNumber = number at h
    cases h with
    | plain => exact .inl ⟨rfl, rfl⟩
    | fresh => exact .inl ⟨rfl, rfl⟩
    | merged n i p hlow hfind hwaiting hcount hread hwrite hp =>
      exact .inr ⟨_, rfl, hopened.old _ _ hwrite, by simp⟩
  · unfold linePlan
    dsimp only
    by_cases hzero : userPipeOut = 0
    · exact .inl ⟨hzero, if_pos hzero⟩
    · rw [if_neg hzero, ← hmade]
      exact .inr ⟨_, rfl, hopened.new hzero, by simp⟩
  · rintro file (hfile | hfile) p hp husable
    · generalize r.pipeNumber = number at h
      cases h with
      | plain => cases hfile
      | fresh => cases hfile
      | merged n i q hlow hfind hwaiting hcount hread hwrite hq =>
        obtain rfl : q = p := by
          rw [← Option.some.inj hfile] at hp
          simpa using hp
        rcases husable with hle | ⟨j, hdue, hreadj⟩ | ⟨hne, hreadIn⟩
        · omega
        · obtain ⟨hwaitingj, hone, -⟩ := hclaims.due_waiting hdue
          rw [hready.separate i j q hwaiting hwaitingj hread hreadj] at hcount
          omega
        · obtain ⟨q', -, hreadq', hapart⟩ := huser hne
          rw [hreadIn] at hreadq'
          exact hapart i hwaiting (hread.trans hreadq')
    · unfold linePlan at hfile
      dsimp only at hfile
      split at hfile
      next => contradiction
      next hzero =>
        obtain rfl : s.made = p := by
          rw [← Option.some.inj hfile] at hp
          simpa using hp
        have hle := hlabel _ husable (le_refl _)
        rw [hopened.made, if_neg hzero, hmade] at hle
        omega
  · exact fun p hp => .inl hp
  · rfl
  · exact hclaims.getInput_cases
  · intro hone
    have hone' : getInput = 1 := hone
    generalize r.pipeNumber = number at h
    cases h with
    | plain => exact absurd hone' (by decide)
    | fresh => exact absurd hone' (by decide)
    | merged => simp [linePlan]

theorem dueEntry_same (h : SameEntries s s') : dueEntry s' = dueEntry s := by
  unfold dueEntry
  rw [h.inputCount]

theorem Claimed.source (h : Claimed s number (claimed, getInput, fd) joined)
    (hready : Ready ssock s) (huser : userPipeIn ≠ 0 → Apart s userPipeIn)
    (hopened : Opened claimed opened userPipeOut) :
    ∃ stdin, Source (usable s claimed opened userPipeIn) opened userPipeIn stdin ∧
      some stdin =
        (dueEntry claimed).elim (s.files userPipeIn) fun j => s.files (s.inputNum j) := by
  obtain ⟨fd', output, hclaims⟩ := h.claims ssock
  obtain ⟨hfiles, hinput, houtput, hmade⟩ := hclaims.same
  have hdueOpened : dueEntry opened = dueEntry claimed := dueEntry_same hopened.same
  cases hdue : dueEntry claimed with
  | some j =>
    obtain ⟨p, hp, hread, hwrite⟩ := hready.ends j (hclaims.due_waiting hdue).1
    refine ⟨.readEnd p, .due j p (hdueOpened.trans hdue) ?_ ?_ (.inr (.inl ⟨j, hdue, hread⟩)), ?_⟩
    · rw [hopened.same.inputNum, hinput]
      exact hopened.old _ _ (by rw [hfiles, hread])
    · rw [hopened.same.outputNum, houtput]
      exact hopened.old _ _ (by rw [hfiles, hwrite])
    · rw [Option.elim_some, hread]
  | none =>
    rw [Option.elim_none]
    by_cases hzero : userPipeIn = 0
    · refine ⟨.terminal, .client (hdueOpened.trans hdue) hzero, ?_⟩
      rw [hzero, hready.serving.stdin]
    · obtain ⟨q, -, hread, -⟩ := huser hzero
      refine ⟨.readEnd q, .userPipe q (hdueOpened.trans hdue) ?_ (.inr (.inr ⟨hzero, hread⟩)), ?_⟩
      · exact hopened.old _ _ (by rw [hfiles, hread])
      · rw [hread]

theorem doExec_ran {text : Text} (hread : Programs.reading text = .ok (some r))
    (hprograms : builtin r.commands = none)
    (h : doExec s text userPipeIn userPipeOut calls = some o) :
    ∃ claimed getInput fd opened r',
      Simple.claimEntry s 0 r.pipeNumber = (claimed, getInput, fd) ∧
      openUserPipe claimed userPipeOut = some opened ∧
      runCommands ⟨r.pipeNumber.isNone, r.pipeErrN, fd, userPipeIn, userPipeOut⟩ calls 0
        r.commands ⟨opened, userPipeIn, getInput, []⟩ = some r' ∧
      o = .ran (closeUserPipe r'.shell userPipeOut) r'.children := by
  unfold doExec at h
  rw [hread] at h
  dsimp only at h
  obtain ⟨opened, hopened, hrun⟩ := Option.bind_eq_some_iff.mp h
  rw [hprograms] at hrun
  obtain ⟨r', hr', heq⟩ := Option.map_eq_some_iff.mp hrun
  exact ⟨_, _, _, opened, r', rfl, hopened, hr', heq.symm⟩

/-- All that a line of programs does: the children by its plan, and the tables. -/
structure LineRan (s claimed opened : Shell) (r : Reading) (getInput : Nat)
    (joined : Option File) (userPipeIn userPipeOut : Int) (o : Outcome) : Prop where
  claim : ∃ fd, Claimed s r.pipeNumber (claimed, getInput, fd) joined
  userPipe : Opened claimed opened userPipeOut
  children : ∃ stdin, o.children =
      (linePlan s r getInput joined userPipeOut).children opened.made stdin r.commands ∧
    some stdin = (dueEntry claimed).elim (s.files userPipeIn) fun j => s.files (s.inputNum j)
  tables : ∃ s' stdin output cmds children,
    StagesDone (usable s claimed opened userPipeIn) (Simple.countDown opened) opened s' getInput
      stdin output cmds children ∧
    o.shell = closeUserPipe s' userPipeOut

theorem LineRan.made (h : LineRan s claimed opened r getInput joined userPipeIn userPipeOut o) :
    opened.made = if userPipeOut = 0 then s.made else s.made + 1 := by
  obtain ⟨fd, hclaim⟩ := h.claim
  obtain ⟨fd', output, hclaims⟩ := hclaim.claims 0
  rw [h.userPipe.made, hclaims.same.2.2.2]

theorem line_ran {text : Text} (hready : Ready ssock s)
    (hread : Programs.reading text = .ok (some r)) (hprograms : builtin r.commands = none)
    (hpositive : ∀ n ∈ r.pipeNumber, 1 ≤ n) (huser : userPipeIn ≠ 0 → Apart s userPipeIn)
    (hreturned : ∀ i, (calls i).getData = (calls i).pipeFd)
    (h : doExec s text userPipeIn userPipeOut calls = some o) :
    ∃ claimed opened getInput joined,
      LineRan s claimed opened r getInput joined userPipeIn userPipeOut o := by
  obtain ⟨claimed, getInput, fd, opened, r', hclaim, hopen, hrun, rfl⟩ :=
    doExec_ran hread hprograms h
  have hrange : ∀ n ∈ r.pipeNumber, 1 ≤ n ∧ n < 2 ^ 31 := fun n hn =>
    ⟨hpositive n hn, reading_number hread hn⟩
  obtain ⟨joined, hclaims⟩ := claimEntry_claimed hready hrange
  rw [hclaim] at hclaims
  have hopened := openUserPipe_opened hopen
  obtain ⟨stdin, hsource, hstdin⟩ := hclaims.source hready huser hopened
  have hfitted := hclaims.fitted hready huser hopened
  obtain ⟨fd', output, hsimple⟩ := hclaims.claims ssock
  have hserving : Serving ssock opened.files := by
    have hold := hopened.old
    rw [hsimple.same.1] at hold
    exact ⟨hold _ _ hready.serving.stdin, hold _ _ hready.serving.stdout,
      hold _ _ hready.serving.stderr, hold _ _ hready.serving.socket⟩
  have hin : userPipeIn ≠ 0 → ∃ q, usable s claimed opened userPipeIn q ∧
      opened.files userPipeIn = some (.readEnd q) := by
    intro hzero
    obtain ⟨q, -, hfile, -⟩ := huser hzero
    refine ⟨q, .inr (.inr ⟨hzero, hfile⟩), hopened.old _ _ ?_⟩
    rw [hsimple.same.1, hfile]
  obtain ⟨hchildren, hstages⟩ := runCommands_line hserving hfitted hsource hin hreturned
    (reading_commands_ne hread) hrun
  exact ⟨claimed, opened, getInput, joined, ⟨fd, hclaims⟩, hopened,
    ⟨stdin, hchildren, hstdin⟩, r'.shell, _, _, _, _, hstages, rfl⟩

variable {plan : Plan} {pipe : Nat} {stdin : File} {cmds : List Text} {i : Nat} {c : Child}

theorem Plan.length_children (plan : Plan) (pipe : Nat) (stdin : File) (cmds : List Text) :
    (plan.children pipe stdin cmds).length = cmds.length := by
  induction cmds generalizing pipe stdin with
  | nil => rfl
  | cons cmd cmds ih => rw [Plan.children, List.length_cons, ih, List.length_cons]

theorem Plan.cmd_children (plan : Plan) (pipe : Nat) (stdin : File) (cmds : List Text) :
    (plan.children pipe stdin cmds).map Child.cmd = cmds := by
  induction cmds generalizing pipe stdin with
  | nil => rfl
  | cons cmd cmds ih => rw [Plan.children, List.map_cons, ih, Plan.child]

theorem Plan.pipe_children (plan : Plan) (pipe : Nat) (stdin : File) (cmds : List Text) :
    (plan.children pipe stdin cmds).map Child.pipe = List.range' pipe cmds.length := by
  induction cmds generalizing pipe stdin with
  | nil => rfl
  | cons cmd cmds ih =>
    rw [Plan.children, List.map_cons, ih, List.length_cons, List.range'_succ, Plan.child]

theorem Plan.getElem?_children (plan : Plan) (pipe : Nat) (stdin : File) (cmds : List Text)
    (i : Nat) : (plan.children pipe stdin cmds)[i]? = cmds[i]?.map fun cmd =>
      plan.child (decide (i + 1 = cmds.length)) cmd
        (if i = 0 then stdin else .readEnd (pipe + i - 1)) (pipe + i) := by
  induction cmds generalizing pipe stdin i with
  | nil => rfl
  | cons cmd cmds ih =>
    cases i with
    | zero =>
      have hlast : cmds.isEmpty = decide (0 + 1 = (cmd :: cmds).length) := by
        rw [Bool.eq_iff_iff, List.isEmpty_iff_length_eq_zero, decide_eq_true_eq, List.length_cons]
        omega
      rw [Plan.children, hlast]
      rfl
    | succ i =>
      rw [Plan.children, List.getElem?_cons_succ, ih, List.getElem?_cons_succ]
      congr 1
      funext cmd'
      have hlast : decide (i + 1 = cmds.length) = decide (i + 1 + 1 = (cmd :: cmds).length) := by
        rw [List.length_cons, decide_eq_decide]
        omega
      have hpipe : pipe + 1 + i = pipe + (i + 1) := by omega
      have hstdin : (if i = 0 then File.readEnd pipe else .readEnd (pipe + 1 + i - 1)) =
          .readEnd (pipe + (i + 1) - 1) := by
        split
        next hi =>
          rw [hi]
          rfl
        next => congr 1; omega
      rw [hlast, hstdin, hpipe, if_neg (Nat.succ_ne_zero i)]

structure Stands (plan : Plan) (base : Nat) (source : File) (count i : Nat) (c : Child) : Prop where
  bound : i < count
  pipe : c.pipe = base + i
  stdin : c.stdin = some (if i = 0 then source else .readEnd (base + i - 1))
  inner : i + 1 ≠ count → c.stdout = some (plan.joined.getD (.writeEnd (base + i))) ∧
    c.stderr = some (plan.joined.getD (if plan.nPipeErr then .writeEnd (base + i) else .terminal))
  last : i + 1 = count → c.stdout = some (if plan.getInput = 2 then .writeEnd (base + i)
      else (plan.userPipeOut.or plan.joined).getD .terminal) ∧
    c.stderr = some ((plan.userPipeOut.or plan.joined).getD
      (if plan.nPipeErr then .writeEnd (base + i) else .terminal))

theorem Plan.stands (hplain : ∀ cmd ∈ cmds, '>' ∈ cmd → pipesOut cmd = true)
    (hc : (plan.children pipe stdin cmds)[i]? = some c) :
    Stands plan pipe stdin cmds.length i c := by
  rw [Plan.getElem?_children, Option.map_eq_some_iff] at hc
  obtain ⟨cmd, hcmd, rfl⟩ := hc
  have hredirected : ∀ stdout, redirected cmd stdout = stdout := fun stdout => if_neg fun hmore => by
    rw [hplain cmd (List.mem_of_getElem? hcmd) hmore.1] at hmore
    exact absurd hmore.2 (by decide)
  constructor
  · exact (List.getElem?_eq_some_iff.mp hcmd).1
  · rfl
  · rfl
  · intro hinner
    simp [Plan.child, Plan.target, hredirected, hinner]
  · intro hlast
    simp [Plan.child, Plan.target, hredirected, hlast]

theorem Claimed.joins (h : Claimed s l.reading.pipeNumber (claimed, getInput, fd) joined) :
    Joins s l ↔ joined ≠ none := by
  unfold Joins
  generalize l.reading.pipeNumber = number at h
  cases h with
  | plain => simp
  | merged n i p hlow hfind => simp [hfind]
  | fresh n hlow hhigh hfind => simp [hfind]

theorem Claimed.takesDue (h : Claimed s l.reading.pipeNumber (claimed, getInput, fd) joined) :
    TakesDue s l ↔ getInput = 2 ∧ dueEntry s = some s.pos := by
  unfold TakesDue
  generalize l.reading.pipeNumber = number at h
  cases h with
  | plain => simp
  | merged n i p hlow hfind => simp [hfind]
  | fresh n hlow hhigh hfind => simp [hfind]

theorem Claimed.joined_old (h : Claimed s number (claimed, getInput, fd) joined) {file : File}
    (hfile : joined = some file) : ∃ p < s.made, file = .writeEnd p := by
  cases h with
  | plain => cases hfile
  | fresh => cases hfile
  | merged n i p hlow hfind hwaiting hcount hread hwrite hp =>
    exact ⟨p, hp, (Option.some.inj hfile).symm⟩

theorem Claimed.endFile (h : Claimed s number (claimed, getInput, fd) joined)
    (hready : Ready ssock s) (userPipeOut : Int) (own : Nat) :
    endFile s number userPipeOut own = some (if getInput = 2 then .writeEnd own
      else joined.getD (if userPipeOut = 0 then .terminal else .writeEnd s.made)) := by
  unfold Programs.endFile
  cases h with
  | plain =>
    dsimp only
    split <;> rfl
  | merged n i p hlow hfind hwaiting hcount hread hwrite hp =>
    have hhigh := hready.counts i hwaiting.1
    rw [hready.findTarget_eq hlow (by omega)] at hfind
    dsimp only
    rw [hfind, Option.map_some, Option.getD_some, hwrite]
    rfl
  | fresh n hlow hhigh hfind =>
    rw [hready.findTarget_eq hlow hhigh] at hfind
    dsimp only
    rw [hfind]
    rfl

theorem Claimed.due_eq (h : Claimed s l.reading.pipeNumber (claimed, getInput, fd) joined)
    (hkept : ¬ TakesDue s l) : dueEntry claimed = dueEntry s := by
  obtain ⟨fd', output, hclaims⟩ := h.claims 0
  exact hclaims.due_eq fun hget hdue => hkept (h.takesDue.mpr ⟨hget, hdue⟩)

structure Ran (ssock : Int) (s claimed opened : Shell) (l : ProgramLine) (getInput : Nat)
    (joined : Option File) (userPipeIn userPipeOut : Int) (o : Outcome) : Prop where
  ready : Ready ssock s
  apart : userPipeIn ≠ 0 → Apart s userPipeIn
  ran : LineRan s claimed opened l.reading getInput joined userPipeIn userPipeOut o

theorem Ran.stands (h : Ran ssock s claimed opened l getInput joined userPipeIn userPipeOut o) :
    ∃ stdin, some stdin =
        (dueEntry claimed).elim (s.files userPipeIn) (fun j => s.files (s.inputNum j)) ∧
      o.children.length = l.reading.commands.length ∧
      ∀ i c, o.children[i]? = some c →
        Stands (linePlan s l.reading getInput joined userPipeOut) opened.made stdin
          o.children.length i c := by
  obtain ⟨stdin, hchildren, hstdin⟩ := h.ran.children
  refine ⟨stdin, hstdin, by rw [hchildren, Plan.length_children], ?_⟩
  intro i c hc
  rw [hchildren] at hc ⊢
  rw [Plan.length_children]
  exact Plan.stands l.plain hc

theorem Ran.children_pos (h : Ran ssock s claimed opened l getInput joined userPipeIn userPipeOut o) :
    0 < o.children.length := by
  obtain ⟨stdin, -, hlength, -⟩ := h.stands
  rw [hlength]
  exact List.length_pos_iff.mpr (reading_commands_ne l.read)

theorem Ran.target_ne (h : Ran ssock s claimed opened l getInput joined userPipeIn userPipeOut o)
    {file : File} {q : Nat} (hq : opened.made ≤ q)
    (hfile : (linePlan s l.reading getInput joined userPipeOut).userPipeOut = some file ∨
      joined = some file) : file ≠ .writeEnd q ∧ file ≠ .terminal := by
  have hmade := h.ran.made
  rcases hfile with hfile | hfile
  · unfold linePlan at hfile
    dsimp only at hfile
    split at hfile
    next => cases hfile
    next hne =>
      rw [if_neg hne] at hmade
      rw [← Option.some.inj hfile]
      exact ⟨by rw [ne_eq, File.writeEnd.injEq]; omega, by simp⟩
  · obtain ⟨fd, hclaim⟩ := h.ran.claim
    obtain ⟨p, hp, rfl⟩ := hclaim.joined_old hfile
    have hle : s.made ≤ opened.made := by
      rw [hmade]
      split <;> omega
    exact ⟨by rw [ne_eq, File.writeEnd.injEq]; omega, by simp⟩

theorem Ran.wired (h : Ran ssock s claimed opened l getInput joined userPipeIn userPipeOut o)
    (hjoins : Joins s l → l.reading.commands.length = 1 ∧ userPipeOut = 0)
    (hkept : ¬ TakesDue s l) : LineWired s l userPipeIn userPipeOut o.children := by
  obtain ⟨fd, hclaim⟩ := h.ran.claim
  obtain ⟨stdin, hstdin, hlength, hstands⟩ := h.stands
  obtain ⟨stdin', hchildren, -⟩ := h.ran.children
  have hmade := h.ran.made
  have hle : s.made ≤ opened.made := by
    rw [hmade]
    split <;> omega
  constructor
  · rw [hchildren, Plan.cmd_children]
  · rw [hchildren, Plan.pipe_children]
    refine ⟨List.nodup_range', ?_⟩
    intro c hc
    have hpipe := List.mem_map_of_mem (f := Child.pipe) hc
    rw [Plan.pipe_children, List.mem_range'_1] at hpipe
    omega
  · intro c hc
    rw [List.head?_eq_getElem?] at hc
    rw [(hstands 0 c hc).stdin, if_pos rfl, startFile, hstdin, hclaim.due_eq hkept]
  · intro i c d hc hd
    rw [(hstands _ d hd).stdin, (hstands i c hc).pipe, if_neg (Nat.succ_ne_zero i)]
    rfl
  · intro i c hi hc
    have hstand := hstands i c hc
    have hnone : joined = none := by
      by_contra hsome
      have hone := (hjoins (hclaim.joins.mpr hsome)).1
      omega
    rw [(hstand.inner (by omega)).1, hstand.pipe, linePlan, hnone, Option.getD_none]
  · intro c hc
    have hpos := h.children_pos
    rw [List.getLast?_eq_getElem?] at hc
    have hstand := hstands _ c hc
    rw [(hstand.last (by omega)).1, hclaim.endFile h.ready, hstand.pipe]
    unfold linePlan
    dsimp only
    congr 2
    cases hjoined : joined with
    | none =>
      rw [Option.or_none, Option.getD_none]
      split <;> rfl
    | some file =>
      rw [if_pos (hjoins (hclaim.joins.mpr (by simp [hjoined]))).2]
      rfl

theorem Ran.takesDue (h : Ran ssock s claimed opened l getInput joined userPipeIn userPipeOut o)
    (htakes : TakesDue s l) : ¬ LineWired s l userPipeIn userPipeOut o.children := by
  intro hwired
  obtain ⟨fd, hclaim⟩ := h.ran.claim
  obtain ⟨fd', output, hclaims⟩ := hclaim.claims ssock
  obtain ⟨hget, hdue⟩ := hclaim.takesDue.mp htakes
  have hwaiting := (Simple.dueEntry_waiting hdue).1
  obtain ⟨p, -, hread, -⟩ := h.ready.ends s.pos hwaiting
  obtain ⟨stdin, hstdin, -, hstands⟩ := h.stands
  have hzero := List.getElem?_eq_getElem h.children_pos
  have hfirst := hwired.first _ (List.head?_eq_getElem?.trans hzero)
  rw [(hstands 0 _ hzero).stdin, if_pos rfl, startFile, hdue, Option.elim_some, hread, hstdin]
    at hfirst
  cases hother : dueEntry claimed with
  | some j =>
    obtain ⟨hj, -, hne⟩ := hclaims.due_waiting hother
    rw [hother, Option.elim_some] at hfirst
    exact hne ⟨hget, h.ready.separate j s.pos p hj hwaiting hfirst hread⟩
  | none =>
    rw [hother, Option.elim_none] at hfirst
    by_cases hin : userPipeIn = 0
    · rw [hin, h.ready.serving.stdin] at hfirst
      simp at hfirst
    · obtain ⟨q, -, hreadq, hapart⟩ := h.apart hin
      rw [hfirst] at hreadq
      exact hapart s.pos hwaiting (hread.trans hreadq)

/-- The first of several commands writes past its own pipe, and the last one past the pipe
of the number. -/
theorem Ran.joins (h : Ran ssock s claimed opened l getInput joined userPipeIn userPipeOut o)
    (hjoins : Joins s l) (hnot : ¬ (l.reading.commands.length = 1 ∧ userPipeOut = 0)) :
    ¬ LineWired s l userPipeIn userPipeOut o.children := by
  intro hwired
  obtain ⟨fd, hclaim⟩ := h.ran.claim
  obtain ⟨file, hfile⟩ := Option.ne_none_iff_exists'.mp (hclaim.joins.mp hjoins)
  obtain ⟨stdin, -, hlength, hstands⟩ := h.stands
  have hpos := h.children_pos
  by_cases hone : o.children.length = 1
  · -- one command, so the line writes to a user pipe as well
    have hout : userPipeOut ≠ 0 := fun hzero => hnot ⟨by omega, hzero⟩
    have hget : getInput ≠ 2 := by
      intro hget
      generalize l.reading.pipeNumber = number at hclaim
      cases hclaim with
      | plain => cases hfile
      | merged => exact absurd hget (by decide)
      | fresh => cases hfile
    have hlast := List.getElem?_eq_getElem (Nat.sub_lt hpos Nat.one_pos)
    have hwrites := hwired.last _ (List.getLast?_eq_getElem?.trans hlast)
    obtain ⟨p, hp, rfl⟩ := hclaim.joined_old hfile
    rw [((hstands _ _ hlast).last (by omega)).1, hclaim.endFile h.ready] at hwrites
    unfold linePlan at hwrites
    dsimp only at hwrites
    rw [if_neg hget, if_neg hget, if_neg hout, hfile, Option.some_or, Option.getD_some,
      Option.getD_some, Option.some.injEq, File.writeEnd.injEq] at hwrites
    omega
  · have hzero := List.getElem?_eq_getElem hpos
    have hstand := hstands 0 _ hzero
    have hinner := hwired.inner 0 _ (by omega) hzero
    rw [(hstand.inner (by omega)).1, hstand.pipe, linePlan, hfile, Option.getD_some,
      Option.some.injEq] at hinner
    exact (h.target_ne (Nat.le_add_right _ _) (.inr hfile)).1 hinner

theorem Ran.lineWired_iff
    (h : Ran ssock s claimed opened l getInput joined userPipeIn userPipeOut o) :
    LineWired s l userPipeIn userPipeOut o.children ↔
      (Joins s l → l.reading.commands.length = 1 ∧ userPipeOut = 0) ∧ ¬ TakesDue s l := by
  constructor
  · intro hwired
    refine ⟨?_, fun htakes => h.takesDue htakes hwired⟩
    intro hjoins
    by_contra hnot
    exact h.joins hjoins hnot hwired
  · intro ⟨hjoins, hkept⟩
    exact h.wired hjoins hkept

theorem Ran.errors_last (h : Ran ssock s claimed opened l getInput joined userPipeIn userPipeOut o)
    (hcond : userPipeOut = 0 ∧
      if l.reading.pipeErrN then l.reading.commands.length = 1 else ¬ Joins s l) :
    ErrorsWired s l o.children := by
  obtain ⟨fd, hclaim⟩ := h.ran.claim
  obtain ⟨stdin, -, hlength, hstands⟩ := h.stands
  have hpos := h.children_pos
  obtain ⟨hout, herr⟩ := hcond
  have hplan : (linePlan s l.reading getInput joined userPipeOut).userPipeOut = none := by
    rw [linePlan]
    exact if_pos hout
  constructor
  · intro i c hi hc
    have hstand := hstands i c hc
    rw [(hstand.inner (by omega)).2, linePlan]
    dsimp only
    split at herr
    next => omega
    next hplain =>
      have hnone : joined = none := by
        by_contra hsome
        exact herr (hclaim.joins.mpr hsome)
      rw [hnone, if_neg hplain, Option.getD_none]
  · intro c hc
    rw [List.getLast?_eq_getElem?] at hc
    have hstand := hstands _ c hc
    rw [(hstand.last (by omega)).2, hplan, Option.none_or, hclaim.endFile h.ready, hstand.pipe,
      linePlan]
    cases hbang : l.reading.pipeErrN with
    | true =>
      rw [if_pos hbang] at herr
      simp only [if_true]
      have hnumber := reading_single l.read hbang herr
      generalize l.reading.pipeNumber = number at hclaim hnumber
      cases hclaim with
      | plain => exact absurd rfl hnumber
      | merged => rfl
      | fresh => rfl
    | false =>
      rw [if_neg (by simp [hbang])] at herr
      have hnone : joined = none := by
        by_contra hsome
        exact herr (hclaim.joins.mpr hsome)
      rw [hnone]
      rfl

theorem Ran.errors_userPipe
    (h : Ran ssock s claimed opened l getInput joined userPipeIn userPipeOut o)
    (hwired : ErrorsWired s l o.children) : userPipeOut = 0 := by
  by_contra hout
  obtain ⟨fd, hclaim⟩ := h.ran.claim
  obtain ⟨stdin, -, -, hstands⟩ := h.stands
  have hpos := h.children_pos
  have hmade := h.ran.made
  rw [if_neg hout] at hmade
  have hlast := List.getElem?_eq_getElem (Nat.sub_lt hpos Nat.one_pos)
  have hstand := hstands _ _ hlast
  have herrors := hwired.last _ (List.getLast?_eq_getElem?.trans hlast)
  rw [(hstand.last (by omega)).2, hclaim.endFile h.ready, hstand.pipe, linePlan] at herrors
  dsimp only at herrors
  rw [if_neg hout, Option.some_or, Option.getD_some] at herrors
  split at herrors
  next =>
    split at herrors
    next =>
      rw [Option.some.injEq, File.writeEnd.injEq] at herrors
      omega
    next =>
      cases hjoined : joined with
      | none => simp [hjoined] at herrors
      | some file =>
        obtain ⟨p, hp, rfl⟩ := hclaim.joined_old hjoined
        rw [hjoined, Option.getD_some, Option.some.injEq, File.writeEnd.injEq] at herrors
        omega
  next => simp at herrors

theorem Ran.errorsWired_iff
    (h : Ran ssock s claimed opened l getInput joined userPipeIn userPipeOut o) :
    ErrorsWired s l o.children ↔ userPipeOut = 0 ∧
      if l.reading.pipeErrN then l.reading.commands.length = 1 else ¬ Joins s l := by
  refine ⟨?_, h.errors_last⟩
  intro hwired
  have hout := h.errors_userPipe hwired
  obtain ⟨fd, hclaim⟩ := h.ran.claim
  obtain ⟨stdin, -, hlength, hstands⟩ := h.stands
  have hpos := h.children_pos
  refine ⟨hout, ?_⟩
  split
  next hbang =>
    -- the error output of the first of several commands goes to a pipe
    by_contra hseveral
    have hzero := List.getElem?_eq_getElem hpos
    have hstand := hstands 0 _ hzero
    have herrors := hwired.inner 0 _ (by omega) hzero
    rw [(hstand.inner (by omega)).2, linePlan] at herrors
    dsimp only at herrors
    rw [if_pos hbang] at herrors
    cases hjoined : joined with
    | none => simp [hjoined] at herrors
    | some file =>
      rw [hjoined, Option.getD_some, Option.some.injEq] at herrors
      exact (h.target_ne (le_refl _) (.inr hjoined)).2 herrors
  next hplain =>
    intro hjoins
    obtain ⟨file, hfile⟩ := Option.ne_none_iff_exists'.mp (hclaim.joins.mp hjoins)
    have hlast := List.getElem?_eq_getElem (Nat.sub_lt hpos Nat.one_pos)
    have herrors := hwired.last _ (List.getLast?_eq_getElem?.trans hlast)
    rw [((hstands _ _ hlast).last (by omega)).2, if_neg hplain, linePlan] at herrors
    dsimp only at herrors
    rw [if_pos hout, Option.none_or, hfile, Option.getD_some, Option.some.injEq] at herrors
    exact (h.target_ne (le_refl _) (.inr hfile)).2 herrors

/-- The tables after an event: what waits has waited before, or is the line's new pipe, and
no pipe that waits has been closed. -/
structure Follows (spared : Nat → Prop) (s s' : Shell) : Prop where
  spares : Spares spared s.files s'.files
  made : s.made ≤ s'.made
  waits : ∀ j, Waiting s' j →
    (Waiting s j ∧ s'.inputNum j = s.inputNum j ∧ s'.outputNum j = s.outputNum j ∧
      ∀ p, s.files (s.inputNum j) = some (.readEnd p) → ¬ spared p) ∨
    (j = s.pos ∧ ∃ p, s.made ≤ p ∧ p < s'.made ∧ s'.files (s'.inputNum j) = some (.readEnd p) ∧
      s'.files (s'.outputNum j) = some (.writeEnd p))
  counts : ∀ j < 1000, -2 ^ 31 < s'.inputCount j ∧ s'.inputCount j < 2 ^ 31

variable {spared : Nat → Prop}

theorem Follows.ends (h : Follows spared s s') (hready : Ready ssock s) {j : Nat}
    (hj : Waiting s' j) :
    (∃ p < s.made, Waiting s j ∧ s.files (s.inputNum j) = some (.readEnd p) ∧
      s'.files (s'.inputNum j) = some (.readEnd p) ∧
      s'.files (s'.outputNum j) = some (.writeEnd p)) ∨
    (j = s.pos ∧ ∃ p, s.made ≤ p ∧ p < s'.made ∧ s'.files (s'.inputNum j) = some (.readEnd p) ∧
      s'.files (s'.outputNum j) = some (.writeEnd p)) := by
  rcases h.waits j hj with ⟨hold, hinput, houtput, hkept⟩ | hnew
  · obtain ⟨p, hp, hread, hwrite⟩ := hready.ends j hold
    have hp' := hkept p hread
    rw [hinput, houtput]
    exact .inl ⟨p, hp, hold, hread, h.spares.readEnd hread hp', h.spares.writeEnd hwrite hp'⟩
  · exact .inr hnew

theorem Follows.ready (h : Follows spared s s') (hready : Ready ssock s) : Ready ssock s' where
  serving := hready.serving.spares h.spares
  ends j hj := by
    rcases h.ends hready hj with ⟨p, hp, -, -, hread, hwrite⟩ | ⟨-, p, -, hp, hread, hwrite⟩
    · exact ⟨p, lt_of_lt_of_le hp h.made, hread, hwrite⟩
    · exact ⟨p, hp, hread, hwrite⟩
  separate i j p hi hj hiread hjread := by
    rcases h.ends hready hi with ⟨pi, hpi, hoi, hri, hki, -⟩ | ⟨hi', pi, hpi, -, hki, -⟩ <;>
    rcases h.ends hready hj with ⟨pj, hpj, hoj, hrj, hkj, -⟩ | ⟨hj', pj, hpj, -, hkj, -⟩ <;>
    rw [hki, Option.some.injEq, File.readEnd.injEq] at hiread <;>
    rw [hkj, Option.some.injEq, File.readEnd.injEq] at hjread
    · exact hready.separate i j p hoi hoj (by rw [hri, hiread]) (by rw [hrj, hjread])
    · omega
    · omega
    · rw [hi', hj']
  counts := h.counts

theorem Follows.apart (h : Follows spared s s') (hready : Ready ssock s) (hapart : Apart s fd)
    (hkept : ∀ q, s.files fd = some (.readEnd q) → ¬ spared q) :
    Apart s' fd ∧ s'.files fd = s.files fd := by
  obtain ⟨q, hq, hread, hnone⟩ := hapart
  have hread' := h.spares.readEnd hread (hkept q hread)
  refine ⟨⟨q, lt_of_lt_of_le hq h.made, hread', ?_⟩, by rw [hread', hread]⟩
  intro j hj heq
  rcases h.ends hready hj with ⟨p, -, hold, hreadj, hreadj', -⟩ | ⟨-, p, hp, -, hreadj', -⟩
  · rw [hreadj'] at heq
    exact hnone j hold (hreadj.trans heq)
  · rw [hreadj', Option.some.injEq, File.readEnd.injEq] at heq
    omega

/-- What holds between two lines. -/
structure Invariant (ssock : Int) (st : Session) : Prop where
  ready : Ready ssock st.shell
  apart : ∀ fd ∈ st.fifos, Apart st.shell fd
  nodup : st.fifos.Nodup
  separate : ∀ fd ∈ st.fifos, ∀ fd' ∈ st.fifos,
    st.shell.files fd = st.shell.files fd' → fd = fd'

variable {st st' : Session}

theorem Invariant.follows (hinv : Invariant ssock st) (h : Follows spared st.shell s')
    {fifos : List Int} (hsub : ∀ fd ∈ fifos, fd ∈ st.fifos) (hnodup : fifos.Nodup)
    (hkept : ∀ fd ∈ fifos, ∀ q, st.shell.files fd = some (.readEnd q) → ¬ spared q) :
    Invariant ssock ⟨s', fifos⟩ := by
  have hapart : ∀ fd ∈ fifos, Apart s' fd ∧ s'.files fd = st.shell.files fd := fun fd hfd =>
    h.apart hinv.ready (hinv.apart fd (hsub fd hfd)) (hkept fd hfd)
  refine ⟨h.ready hinv.ready, fun fd hfd => (hapart fd hfd).1, hnodup, ?_⟩
  intro fd hfd fd' hfd' heq
  change s'.files fd = s'.files fd' at heq
  rw [(hapart fd hfd).2, (hapart fd' hfd').2] at heq
  exact hinv.separate fd (hsub fd hfd) fd' (hsub fd' hfd') heq

theorem follows_same (hready : Ready ssock s) (hsame : SameEntries s s') (hmade : s.made ≤ s'.made)
    (hspares : Spares spared s.files s'.files)
    (hkept : ∀ j p, Waiting s j → s.files (s.inputNum j) = some (.readEnd p) → ¬ spared p) :
    Follows spared s s' := by
  refine ⟨hspares, hmade, ?_, ?_⟩
  · intro j hj
    have hold : Waiting s j := by
      unfold Simple.Waiting at hj ⊢
      rwa [hsame.inputCount] at hj
    exact .inl ⟨hold, by rw [hsame.inputNum], by rw [hsame.outputNum], fun p => hkept j p hold⟩
  · rw [hsame.inputCount]
    exact hready.counts

theorem Invariant.cons (hinv : Invariant ssock st) (hsame : SameEntries st.shell s')
    (hmade : s'.made = st.shell.made + 1) (hspares : Spares (fun _ => False) st.shell.files s'.files)
    (hnew : s'.files fd = some (.readEnd st.shell.made)) :
    Invariant ssock ⟨s', fd :: st.fifos⟩ := by
  have hfollows : Follows (fun _ => False) st.shell s' :=
    follows_same hinv.ready hsame (by omega) hspares fun _ _ _ _ hfalse => hfalse
  have hold := hinv.follows hfollows (fun _ hfd => hfd) hinv.nodup (fun _ _ _ _ hfalse => hfalse)
  have hlabel : ∀ other ∈ st.fifos, s'.files other ≠ some (.readEnd st.shell.made) := by
    intro other hother heq
    obtain ⟨q, hq, hread, -⟩ := hinv.apart other hother
    rw [hspares.readEnd hread (fun hfalse => hfalse), Option.some.injEq, File.readEnd.injEq] at heq
    omega
  constructor
  · exact hold.ready
  · intro other hother
    rcases List.mem_cons.mp hother with rfl | hother
    · refine ⟨st.shell.made, by rw [hmade]; omega, hnew, ?_⟩
      intro j hj heq
      have hwaits : Waiting st.shell j := by
        have hcount := hj
        unfold Simple.Waiting at hcount ⊢
        rwa [show s'.inputCount = st.shell.inputCount from hsame.inputCount] at hcount
      obtain ⟨q, hq, hread, -⟩ := hinv.ready.ends j hwaits
      have hkept := hspares.readEnd hread (fun hfalse => hfalse)
      rw [← hsame.inputNum] at hkept
      have hlabels := hkept.symm.trans heq
      rw [Option.some.injEq, File.readEnd.injEq] at hlabels
      omega
    · exact hold.apart other hother
  · refine List.nodup_cons.mpr ⟨?_, hinv.nodup⟩
    intro hmem
    exact hlabel fd hmem hnew
  · intro a ha b hb heq
    change s'.files a = s'.files b at heq
    rcases List.mem_cons.mp ha with rfl | haOld <;> rcases List.mem_cons.mp hb with rfl | hbOld
    · rfl
    · exact absurd (heq.symm.trans hnew) (hlabel b hbOld)
    · exact absurd (heq.trans hnew) (hlabel a haOld)
    · exact hold.separate a haOld b hbOld heq

theorem Invariant.fifo (hinv : Invariant ssock st) (h : openFifo st fd = some st') :
    Invariant ssock st' := by
  unfold openFifo at h
  split at h
  next hfree =>
    rw [← Option.some.inj h]
    refine hinv.cons ⟨rfl, rfl, rfl, rfl⟩ rfl ?_ (Function.update_self _ _ _)
    intro other file hfile _
    have hne : other ≠ fd := by
      rintro rfl
      rw [hfree.2] at hfile
      contradiction
    exact (Function.update_of_ne hne _ _).trans hfile
  next => contradiction

theorem Invariant.initial (hssock : 2 < ssock) : Invariant ssock (Session.initial ssock) where
  ready :=
    { serving := (Simple.Tables.initial hssock).serving
      ends := fun j hj => absurd hj (Simple.not_waiting_initial j)
      separate := fun i _ _ hi => absurd hi (Simple.not_waiting_initial i)
      counts := fun _ _ => by simp [Session.initial, Simple.Shell.initial] }
  apart fd hfd := by simp [Session.initial] at hfd
  nodup := List.nodup_nil
  separate fd hfd := by simp [Session.initial] at hfd

theorem StagesDone_last {base : Shell} {output : File}
    (h : StagesDone spared base s s' getInput stdin output cmds children)
    (hlast : children.getLast? = some c) : s.made ≤ c.pipe ∧ c.pipe < s'.made := by
  have hpipe := List.mem_map_of_mem (f := Child.pipe) (List.mem_of_getLast? hlast)
  rw [h.pipes, List.mem_range'_1] at hpipe
  rw [h.made]
  exact hpipe

def lineSpared (s claimed : Shell) (userPipeIn : Int) (p : Nat) : Prop :=
  s.made ≤ p ∨ (∃ j, dueEntry claimed = some j ∧ s.files (s.inputNum j) = some (.readEnd p)) ∨
    (userPipeIn ≠ 0 ∧ s.files userPipeIn = some (.readEnd p))

theorem Claimed.count_old (h : Claimed s number (claimed, getInput, fd) joined) {j : Nat}
    (hj : ¬ (getInput = 2 ∧ j = s.pos)) : claimed.inputCount j = s.inputCount j := by
  cases h with
  | plain => rfl
  | merged => rfl
  | fresh n =>
    unfold Simple.claimNew
    dsimp only
    exact Function.update_of_ne (fun hpos => hj ⟨rfl, hpos⟩) _ _

theorem Claimed.pos_eq (h : Claimed s number (claimed, getInput, fd) joined) :
    claimed.pos = s.pos := by
  cases h <;> rfl

/-- The counters of a line's table are such that one less is an `int`. -/
theorem Claimed.count_range (h : Claimed s number (claimed, getInput, fd) joined)
    (hrange : ∀ n ∈ number, 1 ≤ n ∧ n + 1 < 2 ^ 31)
    (hcounters : ∀ j < 1000, -2 ^ 31 + 1 < s.inputCount j ∧ s.inputCount j < 2 ^ 31) {j : Nat}
    (hj : j < 1000) :
    -2 ^ 31 + 1 < claimed.inputCount j ∧ claimed.inputCount j < 2 ^ 31 := by
  by_cases hpos : getInput = 2 ∧ j = s.pos
  · obtain ⟨hget, rfl⟩ := hpos
    cases h with
    | plain => exact absurd hget (by decide)
    | merged => exact absurd hget (by decide)
    | fresh n =>
      have hn := hrange n rfl
      have hcount : (Simple.claimNew s n).inputCount s.pos = n + 1 := by
        unfold Simple.claimNew
        dsimp only
        rw [Function.update_self, int32_eq_self (by omega) (by omega)]
      rw [hcount]
      omega
  · rw [h.count_old hpos]
    exact hcounters j hj

theorem LineRan.userPipe_open
    (h : LineRan s claimed opened r getInput joined userPipeIn userPipeOut o)
    (hready : Ready ssock s) (huser : userPipeIn ≠ 0 → Apart s userPipeIn)
    (hspares : Spares (usable s claimed opened userPipeIn) opened.files s'.files)
    (hne : userPipeOut ≠ 0) : s'.files userPipeOut = some (.writeEnd s.made) := by
  obtain ⟨fd, hclaim⟩ := h.claim
  obtain ⟨fd', output, hclaims⟩ := hclaim.claims ssock
  have hmade := hclaims.same.2.2.2
  have hout : opened.files userPipeOut = some (.writeEnd s.made) := by
    rw [← hmade]
    exact h.userPipe.new hne
  apply hspares.writeEnd hout
  rintro (hle | ⟨j, hdue, hread⟩ | ⟨hin, hread⟩)
  · rw [h.userPipe.made, if_neg hne, hmade] at hle
    omega
  · obtain ⟨q, hq, hreadq, -⟩ := hready.ends j (hclaims.due_waiting hdue).1
    rw [hread, Option.some.injEq, File.readEnd.injEq] at hreadq
    omega
  · obtain ⟨q, hq, hreadq, -⟩ := huser hin
    rw [hread, Option.some.injEq, File.readEnd.injEq] at hreadq
    omega

theorem LineRan.made_le (h : LineRan s claimed opened r getInput joined userPipeIn userPipeOut o) :
    s.made ≤ opened.made ∧ opened.made ≤ o.shell.made := by
  obtain ⟨s', stdin, output, cmds, children, hstages, hshell⟩ := h.tables
  constructor
  · rw [h.made]
    split <;> omega
  · rw [hshell, closeUserPipe_made, hstages.made]
    omega

theorem LineRan.spares
    (h : LineRan s claimed opened r getInput joined userPipeIn userPipeOut o)
    (hready : Ready ssock s) (huser : userPipeIn ≠ 0 → Apart s userPipeIn) :
    Spares (lineSpared s claimed userPipeIn) s.files o.shell.files := by
  obtain ⟨fd, hclaim⟩ := h.claim
  obtain ⟨fd', output, hclaims⟩ := hclaim.claims ssock
  obtain ⟨s', stdin, output, cmds, children, hstages, hshell⟩ := h.tables
  have hopened : Spares (lineSpared s claimed userPipeIn) s.files opened.files := by
    intro fd file hfile _
    exact h.userPipe.old _ _ (by rw [hclaims.same.1, hfile])
  have husable : ∀ p, usable s claimed opened userPipeIn p → lineSpared s claimed userPipeIn p :=
    fun p => Or.imp_left h.made_le.1.trans
  have hrounds : Spares (lineSpared s claimed userPipeIn) opened.files s'.files :=
    fun fd file hfile hp => hstages.spares fd file hfile fun p heq hspared =>
      hp p heq (husable p hspared)
  rw [hshell]
  refine (hopened.trans hrounds).trans (Closes.spares fun hne _ => ?_)
  exact ⟨s.made, .inl (le_refl _), .inr (h.userPipe_open hready huser hstages.spares hne)⟩

theorem LineRan.new_entry (h : LineRan s claimed opened r getInput joined userPipeIn userPipeOut o)
    (hready : Ready ssock s) (huser : userPipeIn ≠ 0 → Apart s userPipeIn) (hget : getInput = 2) :
    ∃ p fds, s.made ≤ p ∧ p < o.shell.made ∧ o.shell.files fds.1 = some (.readEnd p) ∧
      o.shell.files fds.2 = some (.writeEnd p) ∧
      SameEntries (Simple.completeEntry (Simple.countDown opened) fds) o.shell := by
  obtain ⟨s', stdin, output, cmds, children, hstages, hshell⟩ := h.tables
  obtain ⟨c, fds, hlast, -, hread, hwrite, hentries⟩ := hstages.fresh hget
  obtain ⟨hlow, hhigh⟩ := StagesDone_last hstages hlast
  have hmade := h.made_le.1
  have hkept : ∀ fd file, s'.files fd = some file →
      (userPipeOut ≠ 0 → file ≠ .writeEnd s.made) → o.shell.files fd = some file := by
    intro fd file hfile hother
    rw [hshell]
    by_cases hzero : userPipeOut = 0
    · rwa [closeUserPipe, if_neg (by simpa using hzero)]
    · rw [closeUserPipe_of_ne, hfile]
      rintro rfl
      rw [h.userPipe_open hready huser hstages.spares hzero] at hfile
      exact hother hzero (Option.some.inj hfile).symm
  refine ⟨c.pipe, fds, by omega, ?_, hkept _ _ hread fun _ => by simp, hkept _ _ hwrite ?_, ?_⟩
  · rw [hshell, closeUserPipe_made]
    exact hhigh
  · intro hout
    have hopened := h.made
    rw [if_neg hout] at hopened
    rw [ne_eq, File.writeEnd.injEq]
    omega
  · rw [hshell]
    exact hentries.trans closeUserPipe_same

theorem LineRan.old_entries
    (h : LineRan s claimed opened r getInput joined userPipeIn userPipeOut o) (hget : getInput ≠ 2) :
    SameEntries (Simple.countDown opened) o.shell := by
  obtain ⟨s', stdin, output, cmds, children, hstages, hshell⟩ := h.tables
  rw [hshell]
  exact (hstages.kept hget).trans closeUserPipe_same

theorem LineRan.count (h : LineRan s claimed opened r getInput joined userPipeIn userPipeOut o)
    (hready : Ready ssock s) (huser : userPipeIn ≠ 0 → Apart s userPipeIn)
    (hrange : ∀ n ∈ r.pipeNumber, 1 ≤ n ∧ n + 1 < 2 ^ 31)
    (hcounters : ∀ j < 1000, -2 ^ 31 + 1 < s.inputCount j) {j : Nat} (hj : j < 1000) :
    o.shell.inputCount j = claimed.inputCount j - 1 ∧
      -2 ^ 31 + 1 < claimed.inputCount j ∧ claimed.inputCount j < 2 ^ 31 := by
  obtain ⟨fd, hclaim⟩ := h.claim
  have hbounds := hclaim.count_range hrange
    (fun j hj => ⟨hcounters j hj, (hready.counts j hj).2⟩) hj
  refine ⟨?_, hbounds⟩
  have hdown : o.shell.inputCount = (Simple.countDown opened).inputCount := by
    by_cases hget : getInput = 2
    · obtain ⟨p, fds, -, -, -, -, hentries⟩ := h.new_entry hready huser hget
      exact hentries.inputCount
    · exact (h.old_entries hget).inputCount
  rw [← h.userPipe.same.inputCount] at hbounds ⊢
  rw [hdown]
  exact Simple.countDown_count hj (by omega) hbounds.2

theorem LineRan.not_spared (h : LineRan s claimed opened r getInput joined userPipeIn userPipeOut o)
    (hready : Ready ssock s) (huser : userPipeIn ≠ 0 → Apart s userPipeIn) {j p : Nat}
    (hj : Waiting s j) (hlate : s.inputCount j ≠ 1)
    (hread : s.files (s.inputNum j) = some (.readEnd p)) : ¬ lineSpared s claimed userPipeIn p := by
  obtain ⟨fd, hclaim⟩ := h.claim
  obtain ⟨fd', output, hclaims⟩ := hclaim.claims ssock
  rintro (hle | ⟨k, hdue, hreadk⟩ | ⟨hin, hreadIn⟩)
  · obtain ⟨q, hq, hreadq, -⟩ := hready.ends j hj
    rw [hread, Option.some.injEq, File.readEnd.injEq] at hreadq
    omega
  · obtain ⟨hk, hone, -⟩ := hclaims.due_waiting hdue
    rw [hready.separate j k p hj hk hread hreadk] at hlate
    exact hlate hone
  · obtain ⟨q, -, hreadq, hapart⟩ := huser hin
    rw [hreadIn] at hreadq
    exact hapart j hj (hread.trans hreadq)

theorem LineRan.entry_new (h : LineRan s claimed opened r getInput joined userPipeIn userPipeOut o)
    {fds : Int × Int}
    (hentries : SameEntries (Simple.completeEntry (Simple.countDown opened) fds) o.shell) :
    o.shell.inputNum s.pos = fds.1 ∧ o.shell.outputNum s.pos = fds.2 := by
  obtain ⟨fd, hclaim⟩ := h.claim
  have hpos : (Simple.countDown opened).pos = s.pos := h.userPipe.same.pos.trans hclaim.pos_eq
  rw [hentries.inputNum, hentries.outputNum]
  unfold Simple.completeEntry
  dsimp only
  rw [hpos, Function.update_self, Function.update_self]
  exact ⟨rfl, rfl⟩

theorem LineRan.entry_old (h : LineRan s claimed opened r getInput joined userPipeIn userPipeOut o)
    (hready : Ready ssock s) (huser : userPipeIn ≠ 0 → Apart s userPipeIn) {j : Nat}
    (hj : ¬ (getInput = 2 ∧ j = s.pos)) :
    o.shell.inputNum j = s.inputNum j ∧ o.shell.outputNum j = s.outputNum j := by
  obtain ⟨fd, hclaim⟩ := h.claim
  obtain ⟨fd', output, hclaims⟩ := hclaim.claims 0
  obtain ⟨-, hinput, houtput, -⟩ := hclaims.same
  have hsame := h.userPipe.same
  rw [← hinput, ← houtput, ← hsame.inputNum, ← hsame.outputNum]
  by_cases hget : getInput = 2
  · obtain ⟨p, fds, -, -, -, -, hentries⟩ := h.new_entry hready huser hget
    have hpos : (Simple.countDown opened).pos = s.pos := hsame.pos.trans hclaim.pos_eq
    have hne : j ≠ (Simple.countDown opened).pos := by
      rw [hpos]
      exact fun heq => hj ⟨hget, heq⟩
    rw [hentries.inputNum, hentries.outputNum]
    exact ⟨Function.update_of_ne hne _ _, Function.update_of_ne hne _ _⟩
  · have hentries := h.old_entries hget
    rw [hentries.inputNum, hentries.outputNum]
    exact ⟨rfl, rfl⟩

theorem LineRan.follows (h : LineRan s claimed opened r getInput joined userPipeIn userPipeOut o)
    (hready : Ready ssock s) (huser : userPipeIn ≠ 0 → Apart s userPipeIn)
    (hrange : ∀ n ∈ r.pipeNumber, 1 ≤ n ∧ n + 1 < 2 ^ 31)
    (hcounters : ∀ j < 1000, -2 ^ 31 + 1 < s.inputCount j) :
    Follows (lineSpared s claimed userPipeIn) s o.shell := by
  obtain ⟨fd, hclaim⟩ := h.claim
  have hcount : ∀ j < 1000, o.shell.inputCount j = claimed.inputCount j - 1 ∧
      -2 ^ 31 + 1 < claimed.inputCount j ∧ claimed.inputCount j < 2 ^ 31 := fun j hj =>
    h.count hready huser hrange hcounters hj
  refine ⟨h.spares hready huser, h.made_le.1.trans h.made_le.2, ?_, ?_⟩
  · intro j hj
    have hpositive := hj.2
    rw [(hcount j hj.1).1] at hpositive
    by_cases hnew : getInput = 2 ∧ j = s.pos
    · obtain ⟨hget, rfl⟩ := hnew
      obtain ⟨p, fds, hlow, hhigh, hread, hwrite, hentries⟩ := h.new_entry hready huser hget
      obtain ⟨hinput, houtput⟩ := h.entry_new hentries
      rw [hinput, houtput]
      exact .inr ⟨rfl, p, hlow, hhigh, hread, hwrite⟩
    · rw [hclaim.count_old hnew] at hpositive
      have hold : Waiting s j := ⟨hj.1, by omega⟩
      obtain ⟨hinput, houtput⟩ := h.entry_old hready huser hnew
      refine .inl ⟨hold, hinput, houtput, fun p hread => ?_⟩
      exact h.not_spared hready huser hold (by omega) hread
  · intro j hj
    obtain ⟨heq, hlow, hhigh⟩ := hcount j hj
    omega

theorem given_eq {text : Text} (h : reading text = .ok (some r)) : given text = some r := by
  rw [given, h]
  rfl

theorem doExec_builtin {text : Text} (hread : reading text = .ok (some r)) {b : Builtin}
    (hbuiltin : builtin r.commands = some b) (hnumber : r.pipeNumber = none)
    (h : doExec s text userPipeIn userPipeOut calls = some o) :
    ∃ opened, Opened s opened userPipeOut ∧
      o = .builtin (closeUserPipe opened userPipeOut) b := by
  unfold doExec at h
  rw [hread] at h
  dsimp only at h
  rw [hnumber] at h
  obtain ⟨opened, hopened, hrun⟩ := Option.bind_eq_some_iff.mp h
  rw [hbuiltin] at hrun
  exact ⟨opened, openUserPipe_opened hopened, (Option.some.inj hrun).symm⟩

theorem Opened.follows (h : Opened s opened fd) (hready : Ready ssock s) :
    Follows (fun p => s.made ≤ p) s (closeUserPipe opened fd) := by
  have hkept : ∀ j p, Waiting s j → s.files (s.inputNum j) = some (.readEnd p) → ¬ s.made ≤ p := by
    intro j p hj hread
    obtain ⟨q, hq, hreadq, -⟩ := hready.ends j hj
    rw [hread, Option.some.injEq, File.readEnd.injEq] at hreadq
    omega
  apply follows_same hready (h.same.trans closeUserPipe_same) _ _ hkept
  · rw [closeUserPipe_made, h.made]
    split <;> omega
  · have hopened : Spares (fun p => s.made ≤ p) s.files opened.files :=
      fun fd file hfile _ => h.old fd file hfile
    exact hopened.trans (Closes.spares fun hne _ => ⟨s.made, le_refl _, .inr (h.new hne)⟩)

theorem Invariant.userPipe (hinv : Invariant ssock st)
    (hin : userPipeIn = 0 ∨ userPipeIn ∈ st.fifos) (hne : userPipeIn ≠ 0) :
    Apart st.shell userPipeIn :=
  hinv.apart _ (hin.resolve_left hne)

theorem Invariant.fifos_kept (hinv : Invariant ssock st)
    (hin : userPipeIn = 0 ∨ userPipeIn ∈ st.fifos)
    (hclaim : Claimed st.shell number (claimed, getInput, fd) joined) {other : Int} {q : Nat}
    (hother : other ∈ st.fifos.erase userPipeIn)
    (hread : st.shell.files other = some (.readEnd q)) :
    ¬ lineSpared st.shell claimed userPipeIn q := by
  obtain ⟨fd', output, hclaims⟩ := hclaim.claims ssock
  obtain ⟨hne, hmem⟩ := (List.Nodup.mem_erase_iff hinv.nodup).mp hother
  obtain ⟨p, hp, hreadp, hapart⟩ := hinv.apart other hmem
  obtain rfl : p = q := by
    rw [hread, Option.some.injEq, File.readEnd.injEq] at hreadp
    exact hreadp.symm
  rintro (hle | ⟨j, hdue, hreadj⟩ | ⟨hzero, hreadIn⟩)
  · omega
  · exact hapart j (hclaims.due_waiting hdue).1 hreadj
  · exact hne (hinv.separate other hmem userPipeIn (hin.resolve_left hzero)
      (hread.trans hreadIn.symm))

theorem Invariant.line {text : Text} (hinv : Invariant ssock st)
    (hin : userPipeIn = 0 ∨ userPipeIn ∈ st.fifos) (hfits : Fits st.shell text)
    (hreturned : ∀ i, (calls i).getData = (calls i).pipeFd)
    (h : doExec st.shell text userPipeIn userPipeOut calls = some o) :
    Invariant ssock ⟨o.shell, st.fifos.erase userPipeIn⟩ := by
  have hsub : ∀ fd ∈ st.fifos.erase userPipeIn, fd ∈ st.fifos := fun fd => List.mem_of_mem_erase
  have hnodup := hinv.nodup.erase userPipeIn
  cases hread : reading text with
  | error fault =>
    rw [Programs.doExec, hread] at h
    cases h
  | ok given =>
    cases given with
    | none =>
      rw [Programs.doExec, hread] at h
      rw [← Option.some.inj h]
      refine ⟨hinv.ready, fun fd hfd => hinv.apart fd (hsub fd hfd), hnodup, ?_⟩
      exact fun fd hfd fd' hfd' => hinv.separate fd (hsub fd hfd) fd' (hsub fd' hfd')
    | some r =>
      have hrange := hfits.range r (given_eq hread)
      cases hprograms : builtin r.commands with
      | some b =>
        have hnumber : r.pipeNumber = none := by
          apply (hfits.programs r (given_eq hread)).resolve_right
          simp [hprograms]
        obtain ⟨opened, hopened, rfl⟩ := doExec_builtin hread hprograms hnumber h
        apply hinv.follows (hopened.follows hinv.ready) hsub hnodup
        intro fd hfd q hfile hle
        obtain ⟨p, hp, hreadp, -⟩ := hinv.apart fd (hsub fd hfd)
        rw [hfile, Option.some.injEq, File.readEnd.injEq] at hreadp
        omega
      | none =>
        obtain ⟨claimed, opened, getInput, joined, hran⟩ := line_ran hinv.ready hread hprograms
          (fun n hn => (hrange n hn).1) (hinv.userPipe hin) hreturned h
        obtain ⟨fd, hclaim⟩ := hran.claim
        apply hinv.follows (hran.follows hinv.ready (hinv.userPipe hin) hrange hfits.counters) hsub
          hnodup
        exact fun other hother q hfile => hinv.fifos_kept hin hclaim hother hfile

theorem Invariant.next {e : Event} (hinv : Invariant ssock st) (hfits : e.Fits st)
    (hreturned : e.Returned)
    (h : next st e = some st') : Invariant ssock st' := by
  cases e with
  | fifo fd => exact hinv.fifo h
  | refused text =>
    unfold Programs.next at h
    dsimp only at h
    split at h
    next r hread =>
      rw [hfits r (given_eq hread)] at h
      rw [← Option.some.inj h]
      exact hinv
    next => contradiction
  | line text userPipeIn userPipeOut calls =>
    unfold Programs.next at h
    dsimp only at h
    split at h
    next hin =>
      cases hexec : doExec st.shell text userPipeIn userPipeOut calls with
      | none => simp [hexec] at h
      | some o =>
        have hnext := hinv.line hin hfits hreturned hexec
        rw [hexec] at h
        split at h
        next => contradiction
        next => contradiction
        next o' _ heq =>
          obtain rfl := Option.some.inj heq
          rw [← Option.some.inj h]
          exact hnext
    next => contradiction

theorem invariant_reached (hssock : 2 < ssock) (es : List Event) (st : Session)
    (hreturned : ∀ e ∈ es, e.Returned)
    (hfits : Meets next (Session.initial ssock) (fun _ st e => e.Fits st) es)
    (hrun : exec next (Session.initial ssock) es = some st) : Invariant ssock st := by
  have hmeets : Meets next (Session.initial ssock) (fun _ st e => e.Returned ∧ e.Fits st) es := by
    intro before e after s heq hs
    exact ⟨hreturned e (by simp [heq]), hfits before e after s heq hs⟩
  apply invariant (I := fun _ st => Invariant ssock st) (Invariant.initial hssock) _ es hmeets st
    hrun
  intro before s e s' _ hinv he hstep
  exact hinv.next he.2 he.1 hstep

theorem Invariant.ran (hinv : Invariant ssock st) (hin : userPipeIn = 0 ∨ userPipeIn ∈ st.fifos)
    (hreturned : ∀ i, (calls i).getData = (calls i).pipeFd)
    (h : Programs.doExec st.shell l.text userPipeIn userPipeOut calls = some o) :
    ∃ claimed opened getInput joined,
      Ran ssock st.shell claimed opened l getInput joined userPipeIn userPipeOut o := by
  obtain ⟨claimed, opened, getInput, joined, hran⟩ := line_ran hinv.ready l.read l.programs
    l.positive (hinv.userPipe hin) hreturned h
  exact ⟨claimed, opened, getInput, joined, hinv.ready, hinv.userPipe hin, hran⟩

/-- Behind every run of lines a line of programs is wired as it says exactly when a line
that joins a pipe is one command with no user pipe for its output, and the line's own new
entry leaves the due one alone. -/
theorem lines_wired (ssock : Int) (hssock : 2 < ssock) (es : List Event) (st : Session)
    (hes : ∀ e ∈ es, e.Returned)
    (hfits : Meets next (Session.initial ssock) (fun _ st e => e.Fits st) es)
    (hrun : exec next (Session.initial ssock) es = some st) (l : ProgramLine)
    (userPipeIn userPipeOut : Int) (calls : Nat → ParserCall) (o : Outcome)
    (hin : userPipeIn = 0 ∨ userPipeIn ∈ st.fifos)
    (hreturned : ∀ i, (calls i).getData = (calls i).pipeFd)
    (h : doExec st.shell l.text userPipeIn userPipeOut calls = some o) :
    LineWired st.shell l userPipeIn userPipeOut o.children ↔
      (Joins st.shell l → l.reading.commands.length = 1 ∧ userPipeOut = 0) ∧
        ¬ TakesDue st.shell l := by
  obtain ⟨claimed, opened, getInput, joined, hran⟩ :=
    (invariant_reached hssock es st hes hfits hrun).ran hin hreturned h
  exact hran.lineWired_iff

/-- `ls |2`, and a user pipe that waits to be read at descriptor 7. -/
def oneWaiting : List Event :=
  [.line "ls |2".toList 0 0 fun _ => Simple.pairFrom 5, .fifo 7]

theorem oneWaiting_returned : ∀ e ∈ oneWaiting, e.Returned := by
  intro e he
  simp only [oneWaiting, List.mem_cons, List.not_mem_nil, or_false] at he
  rcases he with rfl | rfl
  · have hpair : (Simple.pairFrom 5).getData = (Simple.pairFrom 5).pipeFd := by decide
    exact fun _ => hpair
  · exact True.intro

/-- Two commands behind a user pipe. -/
def catNumber : ProgramLine where
  text := "cat <2 | number".toList
  reading := ⟨["cat <2 ".toList, " number".toList], none, false⟩
  read := by rfl
  programs := by decide
  plain := by decide
  positive := by decide

def twoCalls (i : Nat) : ParserCall := if i = 0 then Simple.pairFrom 8 else Simple.pairFrom 10

theorem twoCalls_returned (i : Nat) : (twoCalls i).getData = (twoCalls i).pipeFd := by
  unfold twoCalls
  split <;> decide

theorem lines_wired_catNumber :
    ∃ st o, exec next (Session.initial 4) oneWaiting = some st ∧
      doExec st.shell catNumber.text 7 0 twoCalls = some o ∧
      LineWired st.shell catNumber 7 0 o.children := by
  have hfacts : (exec next (Session.initial 4) oneWaiting).any (fun st =>
      decide (7 ∈ st.fifos) && (doExec st.shell catNumber.text 7 0 twoCalls).isSome) = true := by
    decide +kernel
  obtain ⟨st, hrun, hs⟩ := (Option.any_eq_true _ _).mp hfacts
  rw [Bool.and_eq_true, decide_eq_true_eq] at hs
  obtain ⟨o, ho⟩ := Option.isSome_iff_exists.mp hs.2
  have hfits : Meets next (Session.initial 4) (fun _ st e => e.Fits st) oneWaiting := by
    decide +kernel
  refine ⟨st, o, hrun, ho, ?_⟩
  rw [lines_wired 4 (by decide) oneWaiting st oneWaiting_returned hfits hrun catNumber 7 0 twoCalls o
    (.inr hs.1) twoCalls_returned ho]
  constructor
  · rintro ⟨n, hn, -⟩
    cases hn
  · rintro ⟨n, hn, -⟩
    cases hn

/-- The error output of its commands goes where the line says exactly when it writes to no
user pipe, and it is one command in front of its `!`, or joins no pipe. -/
theorem errors_wired (ssock : Int) (hssock : 2 < ssock) (es : List Event) (st : Session)
    (hes : ∀ e ∈ es, e.Returned)
    (hfits : Meets next (Session.initial ssock) (fun _ st e => e.Fits st) es)
    (hrun : exec next (Session.initial ssock) es = some st) (l : ProgramLine)
    (userPipeIn userPipeOut : Int) (calls : Nat → ParserCall) (o : Outcome)
    (hin : userPipeIn = 0 ∨ userPipeIn ∈ st.fifos)
    (hreturned : ∀ i, (calls i).getData = (calls i).pipeFd)
    (h : doExec st.shell l.text userPipeIn userPipeOut calls = some o) :
    ErrorsWired st.shell l o.children ↔ userPipeOut = 0 ∧
      if l.reading.pipeErrN then l.reading.commands.length = 1 else ¬ Joins st.shell l := by
  obtain ⟨claimed, opened, getInput, joined, hran⟩ :=
    (invariant_reached hssock es st hes hfits hrun).ran hin hreturned h
  exact hran.errorsWired_iff

/-- One command in front of a `!`, whose number is that of the pipe that waits. -/
def catErrors : ProgramLine where
  text := "cat !1".toList
  reading := ⟨["cat ".toList], some 1, true⟩
  read := by rfl
  programs := by decide
  plain := by decide
  positive := by decide

theorem errors_wired_catErrors :
    ∃ st o, exec next (Session.initial 4) oneWaiting = some st ∧
      doExec st.shell catErrors.text 0 0 twoCalls = some o ∧
      ErrorsWired st.shell catErrors o.children := by
  have hfacts : (exec next (Session.initial 4) oneWaiting).any (fun st =>
      (doExec st.shell catErrors.text 0 0 twoCalls).isSome) = true := by decide +kernel
  obtain ⟨st, hrun, hs⟩ := (Option.any_eq_true _ _).mp hfacts
  obtain ⟨o, ho⟩ := Option.isSome_iff_exists.mp hs
  have hfits : Meets next (Session.initial 4) (fun _ st e => e.Fits st) oneWaiting := by
    decide +kernel
  refine ⟨st, o, hrun, ho, ?_⟩
  rw [errors_wired 4 (by decide) oneWaiting st oneWaiting_returned hfits hrun catErrors 0 0 twoCalls o
    (.inl rfl) twoCalls_returned ho]
  exact ⟨rfl, rfl⟩

end NetworkProgramming.Multi.Programs
