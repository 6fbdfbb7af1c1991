import NetworkProgramming.Multi.Programs
import NetworkProgramming.Simple.Rounds

/-! What the rounds of one line of `np_multi_proc` do: the files of each child, and the
tables of the parent, which go the way of those of `np_simple`. -/
namespace NetworkProgramming.Multi.Programs
open Library.CString Library.Descriptors CommandLine
open Simple (Shell ParserArgs Child Serving StageDone StagesDone SameEntries)

def Feeds (t : Table) (fd : Int) (stdin : File) : Prop :=
  (fd = 0 ∧ stdin = .terminal) ∨ ∃ p, stdin = .readEnd p ∧ t fd = some (.readEnd p)

def Leads (t : Table) (fd : Int) (target : Option File) : Prop :=
  (fd = 0 ∧ target = none) ∨ ∃ file, target = some file ∧ t fd = some file ∧ file ≠ .terminal

def Closes (spared : Nat → Prop) (t : Table) (fd : Int) : Prop :=
  fd ≠ 0 → t fd ≠ none → ∃ q, spared q ∧ (t fd = some (.readEnd q) ∨ t fd = some (.writeEnd q))

def roundArgs (line : Line) (first last : Bool) (cmd : Text) (r : Simple.Round) (due : Option Int) :
    ParserArgs where
  input := due.getD r.input
  first := first
  last := last
  wait := line.wait
  enter := due.isSome
  nPipeErr := line.nPipeErr
  output := line.output last
  getInput := if last then Simple.lastGetInput r.getInput else r.getInput
  cmd := cmd

/-- What a round needs of the descriptors: where its input comes from, what is there for
its output, and the user pipe that the first round closes. -/
structure Supplied (spared : Nat → Prop) (t : Table) (line : Line) (args : ParserArgs)
    (stdin : File) (target : Option File) : Prop where
  input : Feeds t args.input stdin
  inputSpared : ∀ p, stdin = .readEnd p → spared p
  output : Leads t args.output target
  merged : args.getInput = 3 → target ≠ none
  later : args.first = true ∨ args.input ≠ 0
  userPipe : args.first = true → line.userPipeIn ≠ 0 →
    ∃ q, spared q ∧ t line.userPipeIn = some (.readEnd q)

/-- The child of a round, by what is there for it. -/
def stage (args : ParserArgs) (stdin : File) (target : Option File) (pipe : Nat) : Child where
  cmd := args.cmd
  stdin := some stdin
  stdout := redirected args.cmd (some (if args.last ∧ args.getInput = 4 then .writeEnd pipe
    else target.getD (if args.last then .terminal else .writeEnd pipe)))
  stderr := some (target.getD (if args.nPipeErr then .writeEnd pipe else .terminal))
  pipe := pipe

/-- Where the commands of a line write: `get_input` after the claim, the numbered pipe it
joins, and the user pipe. -/
structure Plan where
  getInput : Nat
  nPipeErr : Bool
  joined : Option File
  userPipeOut : Option File

def Plan.target (plan : Plan) (last : Bool) : Option File :=
  if last then plan.userPipeOut.or plan.joined else plan.joined

def Plan.child (plan : Plan) (last : Bool) (cmd : Text) (stdin : File) (pipe : Nat) : Child where
  cmd := cmd
  stdin := some stdin
  stdout := redirected cmd (some (if last ∧ plan.getInput = 2 then .writeEnd pipe
    else (plan.target last).getD (if last then .terminal else .writeEnd pipe)))
  stderr := some ((plan.target last).getD (if plan.nPipeErr then .writeEnd pipe else .terminal))
  pipe := pipe

def Plan.children (plan : Plan) : Nat → File → List Text → List Child
  | _, _, [] => []
  | pipe, stdin, cmd :: cmds =>
    plan.child cmds.isEmpty cmd stdin pipe :: plan.children (pipe + 1) (.readEnd pipe) cmds

/-- The descriptors of a line lead where its plan says, and no round closes these files. -/
structure Fitted (spared : Nat → Prop) (line : Line) (plan : Plan) (s : Shell) : Prop where
  joined : Leads s.files line.outputFd plan.joined
  userPipeOut : Leads s.files line.userPipeOut plan.userPipeOut
  kept : ∀ file, plan.joined = some file ∨ plan.userPipeOut = some file →
    ∀ p, file = .readEnd p ∨ file = .writeEnd p → ¬ spared p
  later : ∀ p, s.made ≤ p → spared p
  nPipeErr : line.nPipeErr = plan.nPipeErr
  getInput : plan.getInput = 0 ∨ plan.getInput = 1 ∨ plan.getInput = 2
  merged : plan.getInput = 1 → plan.joined ≠ none

variable {t : Table} {args : ParserArgs} {pipeFd : Int × Int}

theorem source_append {dups more : Dups} {new : Int} : source (dups ++ more) new =
    more.foldl (fun fd d => if d.2 = new then d.1 else fd) (source dups new) := List.foldl_append

theorem source_stdin : source (childDups args pipeFd) 0 = args.input := by
  have hstage : source (stageDups args pipeFd) 0 = args.input := by
    unfold stageDups source
    split_ifs <;> simp <;> omega
  unfold childDups
  rw [source_append, source_append, source_append, source_append, hstage]
  unfold errorDups outputDups enterDups lastDups
  split_ifs <;> simp

theorem source_stdout : source (childDups args pipeFd) 1 =
    if args.last ∧ args.getInput = 4 then pipeFd.2
    else if (args.last ∧ args.getInput = 3) ∨ args.output ≠ 0 then args.output
    else if ¬ args.last ∧ (args.first ∨ args.input ≠ 0) then pipeFd.2
    else 1 := by
  unfold childDups
  rw [source_append, source_append, source_append, source_append]
  unfold stageDups errorDups outputDups enterDups lastDups source
  cases args.first <;> cases args.last <;> by_cases hinput : args.input = 0 <;>
    by_cases hfour : args.getInput = 4 <;> simp [hinput, hfour] <;> split_ifs <;> simp_all

theorem source_stderr : source (childDups args pipeFd) 2 =
    if args.output ≠ 0 then args.output
    else if args.nPipeErr then if args.getInput = 3 then args.output else pipeFd.2
    else 2 := by
  have hstage : source (stageDups args pipeFd) 2 = 2 := by
    unfold stageDups source
    split_ifs <;> simp
  unfold childDups
  rw [source_append, source_append, source_append, source_append, hstage]
  unfold errorDups outputDups enterDups lastDups
  split_ifs <;> simp_all

variable {sockfd fd : Int} {stdin : File} {target : Option File} {pipe : Nat}

theorem Feeds.input (h : Feeds t fd stdin) (hserving : Serving sockfd t) :
    t fd = some stdin ∧ (fd = 0 ∨ fd ≠ 0 ∧ fd ≠ 1 ∧ fd ≠ 2) := by
  obtain ⟨rfl, rfl⟩ | ⟨p, rfl, hfile⟩ := h
  · exact ⟨hserving.stdin, .inl rfl⟩
  · exact ⟨hfile, .inr (hserving.not_standard hfile (by simp))⟩

theorem Leads.eq_zero (h : Leads t fd target) (hserving : Serving sockfd t) :
    fd = 0 ↔ target = none := by
  obtain ⟨rfl, rfl⟩ | ⟨file, rfl, hfile, hne⟩ := h
  · simp
  · simp [(hserving.not_standard hfile hne).1]

theorem Leads.output (h : Leads t fd target) (hserving : Serving sockfd t) (hne : fd ≠ 0) :
    t fd = target ∧ fd ≠ 1 ∧ fd ≠ 2 := by
  obtain ⟨rfl, -⟩ | ⟨file, rfl, hfile, hfd⟩ := h
  · exact absurd rfl hne
  · exact ⟨hfile, (hserving.not_standard hfile hfd).2⟩

theorem mem_childDups (hmerged : args.getInput = 3 → args.output ≠ 0) {d : Int × Int}
    (h : d ∈ childDups args pipeFd) :
    (d.1 = args.input ∧ d.2 = 0) ∨
      ((d.1 = pipeFd.2 ∨ d.1 = args.output ∧ args.output ≠ 0) ∧ (d.2 = 1 ∨ d.2 = 2)) := by
  unfold childDups at h
  rw [List.mem_append, List.mem_append, List.mem_append, List.mem_append] at h
  rcases h with (((h | h) | h) | h) | h
  · unfold stageDups at h
    split_ifs at h <;> simp at h <;> grind
  · unfold errorDups at h
    split_ifs at h <;> simp at h <;> grind
  · unfold outputDups at h
    split_ifs at h
    · simp at h
      grind
    · contradiction
  · unfold enterDups at h
    split_ifs at h
    · simp at h
      grind
    · contradiction
  · unfold lastDups at h
    split_ifs at h <;> simp at h <;> grind

theorem dupAll_childDups (hserving : Serving sockfd t) (hinput : Feeds t args.input stdin)
    (houtput : Leads t args.output target) (hpipe : t pipeFd.2 = some (.writeEnd pipe))
    (hmerged : args.getInput = 3 → args.output ≠ 0) (new : Int) :
    dupAll t (childDups args pipeFd) new = t (source (childDups args pipeFd) new) := by
  obtain ⟨hopen, hinputFd⟩ := hinput.input hserving
  have hpipeFd := hserving.not_standard hpipe (by simp)
  apply dupAll_source
  intro d hd
  rcases mem_childDups hmerged hd with ⟨hold, -⟩ | ⟨hold, -⟩
  · refine ⟨by rw [hold, hopen]; simp, fun e he heq => ?_⟩
    rcases mem_childDups hmerged he with ⟨holdE, hnew⟩ | ⟨-, hnew⟩
    · rw [hold, holdE]
    · omega
  · have hsource : t d.1 ≠ none ∧ d.1 ≠ 0 ∧ d.1 ≠ 1 ∧ d.1 ≠ 2 := by
      rcases hold with hold | ⟨hold, hne⟩
      · rw [hold, hpipe]
        exact ⟨by simp, hpipeFd⟩
      · have hzero := mt (houtput.eq_zero hserving).mpr hne
        obtain ⟨hfile, hfd⟩ := houtput.output hserving hne
        rw [hold, hfile]
        exact ⟨hzero, hne, hfd⟩
    refine ⟨hsource.1, fun e he heq => ?_⟩
    rcases mem_childDups hmerged he with ⟨-, hnew⟩ | ⟨-, hnew⟩ <;> omega

/-- Where the output of a child goes: a new numbered pipe, or what is there for it, or its
own pipe; without these, the client. -/
theorem child_eq (hserving : Serving sockfd t) (hinput : Feeds t args.input stdin)
    (houtput : Leads t args.output target) (hpipe : t pipeFd.2 = some (.writeEnd pipe))
    (hmerged : args.getInput = 3 → target ≠ none)
    (hlater : args.first = true ∨ args.input ≠ 0) :
    child t args pipeFd pipe =
      { cmd := args.cmd
        stdin := some stdin
        stdout := redirected args.cmd (some (if args.last ∧ args.getInput = 4 then .writeEnd pipe
          else target.getD (if args.last then .terminal else .writeEnd pipe)))
        stderr := some (target.getD (if args.nPipeErr then .writeEnd pipe else .terminal))
        pipe := pipe } := by
  have hzero := houtput.eq_zero hserving
  have hmerged' : args.getInput = 3 → args.output ≠ 0 := fun hget => mt hzero.mp (hmerged hget)
  have hsource := dupAll_childDups hserving hinput houtput hpipe hmerged'
  have hfile : args.output ≠ 0 → t args.output = target := fun hne =>
    (houtput.output hserving hne).1
  unfold child
  dsimp only
  rw [hsource, hsource, hsource, source_stdin, source_stdout, source_stderr,
    (hinput.input hserving).1]
  congr 2
  · by_cases hnew : args.last = true ∧ args.getInput = 4
    · rw [if_pos hnew, if_pos hnew, hpipe]
    · rw [if_neg hnew, if_neg hnew]
      by_cases hout : args.output = 0
      · have hnot : ¬ args.getInput = 3 := fun hget => hmerged' hget hout
        rw [if_neg (by simp [hnot, hout]), hzero.mp hout, Option.getD_none]
        cases args.last with
        | false => rw [if_pos (by simpa using hlater), hpipe]; rfl
        | true => rw [if_neg (by simp), hserving.stdout]; rfl
      · rw [if_pos (.inr hout), hfile hout]
        obtain ⟨file, rfl⟩ := Option.ne_none_iff_exists'.mp (mt hzero.mpr hout)
        rfl
  · by_cases hout : args.output = 0
    · have hnot : ¬ args.getInput = 3 := fun hget => hmerged' hget hout
      rw [if_neg (by simp [hout]), if_neg hnot, hzero.mp hout, Option.getD_none]
      split
      · rw [hpipe]
      · rw [hserving.stderr]
    · rw [if_pos hout, hfile hout]
      obtain ⟨file, rfl⟩ := Option.ne_none_iff_exists'.mp (mt hzero.mpr hout)
      rfl

variable {spared : Nat → Prop} {plan : Plan} {s s' u : Shell} {call : ParserCall} {c : Child} {line : Line}
  {calls : Nat → ParserCall} {r r' : Simple.Round} {cmd : Text} {cmds : List Text} {getInput : Nat}

theorem parser_eq_some (h : parser s args call = some (s', c)) :
    Unused s.files call.pipeFd ∧
      s' = { s with
        files := if args.input ≠ 0 then close (openPipe s.files call.pipeFd s.made) args.input
          else openPipe s.files call.pipeFd s.made
        made := s.made + 1 } ∧
      c = child (openPipe s.files call.pipeFd s.made) args call.pipeFd s.made := by
  unfold parser at h
  split at h
  next hunused =>
    simp only [Option.some.injEq, Prod.mk.injEq] at h
    exact ⟨hunused, h.1.symm, h.2.symm⟩
  next => contradiction

theorem parser_files (hserving : Serving sockfd s.files) (hunused : Unused s.files call.pipeFd)
    (hinput : Feeds s.files args.input stdin) (hspared : ∀ p, stdin = .readEnd p → spared p) :
    let t := openPipe s.files call.pipeFd s.made
    let t' := if args.input ≠ 0 then close t args.input else t
    Spares spared s.files t' ∧ t' call.pipeFd.1 = some (.readEnd s.made) ∧
      t' call.pipeFd.2 = some (.writeEnd s.made) := by
  obtain ⟨hzero, hstdin⟩ | ⟨p, hstdin, hfile⟩ := hinput
  · have hfrom : Simple.InputFrom spared s.files { args with enter := false } stdin :=
      .inl ⟨hzero, rfl, hstdin⟩
    have hfiles := Simple.parser_files hserving hunused hfrom
    exact hfiles
  · have hfrom : Simple.InputFrom spared s.files { args with enter := true } stdin :=
      .inr ⟨p, hstdin, hfile, hspared p hstdin, .inl rfl⟩
    have hfiles := Simple.parser_files hserving hunused hfrom
    exact hfiles

theorem Closes.spares (h : Closes spared s.files fd) :
    Spares spared s.files (closeUserPipe s fd).files := by
  unfold closeUserPipe
  split
  next hne =>
    by_cases hclosed : s.files fd = none
    · intro other file hfile _
      apply close_eq_some hfile
      rw [hclosed]
      simp
    · obtain ⟨q, hq, hread | hwrite⟩ := h hne hclosed
      · exact Spares.close hread (.inl rfl) hq
      · exact Spares.close hwrite (.inr rfl) hq
  next => exact Spares.refl _ _

theorem closeUserPipe_of_ne {other : Int} (h : other ≠ fd) :
    (closeUserPipe s fd).files other = s.files other := by
  unfold closeUserPipe
  split
  · exact close_of_ne h
  · rfl

theorem closeUserPipe_same : SameEntries s (closeUserPipe s fd) := by
  unfold closeUserPipe
  split
  · exact ⟨rfl, rfl, rfl, rfl⟩
  · exact .refl s

theorem closeUserPipe_made : (closeUserPipe s fd).made = s.made := by
  unfold closeUserPipe
  split <;> rfl

theorem redirected_plain {stdout : Option File} (h : '>' ∉ cmd) : redirected cmd stdout = stdout :=
  if_neg fun hmore => h hmore.1

theorem parser_done (hserving : Serving sockfd s.files)
    (hsupplied : Supplied spared s.files line args stdin target)
    (h : parser s args call = some (s', c)) :
    let u := if args.first then closeUserPipe s' line.userPipeIn else s'
    c = stage args stdin target s.made ∧ SameEntries s u ∧ u.made = s.made + 1 ∧
      Spares spared s.files u.files ∧ u.files call.pipeFd.1 = some (.readEnd s.made) ∧
      u.files call.pipeFd.2 = some (.writeEnd s.made) := by
  obtain ⟨hunused, hs', rfl⟩ := parser_eq_some h
  have hopened : Serving sockfd (openPipe s.files call.pipeFd s.made) :=
    hserving.spares (s := spared) (Spares.openPipe hunused)
  have hchild : child (openPipe s.files call.pipeFd s.made) args call.pipeFd s.made =
      stage args stdin target s.made := by
    refine child_eq hopened ?_ ?_ openPipe_write hsupplied.merged hsupplied.later
    · exact hsupplied.input.imp_right fun ⟨p, hstdin, hfile⟩ =>
        ⟨p, hstdin, openPipe_old hunused hfile⟩
    · exact hsupplied.output.imp_right fun ⟨file, htarget, hfile, hne⟩ =>
        ⟨file, htarget, openPipe_old hunused hfile, hne⟩
  have hparser := parser_files hserving hunused hsupplied.input hsupplied.inputSpared
  have hfiles : s'.files = if args.input ≠ 0 then
      close (openPipe s.files call.pipeFd s.made) args.input
      else openPipe s.files call.pipeFd s.made := by rw [hs']
  dsimp only at hparser
  rw [← hfiles] at hparser
  obtain ⟨hspares, hread, hwrite⟩ := hparser
  have hentries : SameEntries s s' := by
    rw [hs']
    exact ⟨rfl, rfl, rfl, rfl⟩
  have hmade : s'.made = s.made + 1 := by rw [hs']
  dsimp only
  split
  next hfirst =>
    by_cases hzero : line.userPipeIn = 0
    · rw [closeUserPipe, if_neg (by simpa using hzero)]
      exact ⟨hchild, hentries, hmade, hspares, hread, hwrite⟩
    · obtain ⟨q, hq, huser⟩ := hsupplied.userPipe hfirst hzero
      have hne : call.pipeFd.1 ≠ line.userPipeIn ∧ call.pipeFd.2 ≠ line.userPipeIn := by
        constructor
        · intro heq
          rw [← heq, hunused.2.2.2.1] at huser
          contradiction
        · intro heq
          rw [← heq, hunused.2.2.2.2] at huser
          contradiction
      have hcloses : Closes spared s'.files line.userPipeIn := by
        intro _ hopen
        refine ⟨q, hq, .inl ?_⟩
        rw [hfiles] at hopen ⊢
        split at hopen
        next hinput =>
          have hother : line.userPipeIn ≠ args.input := by
            intro heq
            rw [heq, close_self] at hopen
            exact hopen rfl
          rw [if_pos hinput, close_of_ne hother, openPipe_old hunused huser]
        next hinput => rw [if_neg hinput, openPipe_old hunused huser]
      refine ⟨hchild, hentries.trans closeUserPipe_same, ?_, hspares.trans hcloses.spares, ?_, ?_⟩
      · rw [closeUserPipe_made, hmade]
      · rw [closeUserPipe_of_ne hne.1, hread]
      · rw [closeUserPipe_of_ne hne.2, hwrite]
  next => exact ⟨hchild, hentries, hmade, hspares, hread, hwrite⟩

theorem stage_done {output : File} (args : ParserArgs) (stdin : File) (target : Option File)
    (hentries : SameEntries s u) (hmade : u.made = s.made + 1)
    (hspares : Spares spared s.files u.files)
    (hread : u.files pipeFd.1 = some (.readEnd s.made))
    (hwrite : u.files pipeFd.2 = some (.writeEnd s.made)) (hspared : spared s.made)
    (houtput : args.last = true → target.getD .terminal = output) :
    StageDone spared s (Simple.finishRound u args.last args.getInput pipeFd) args stdin output
      pipeFd (stage args stdin target s.made) := by
  constructor
  · rfl
  · rfl
  · rfl
  · rw [Simple.finishRound_made, hmade]
  · rcases Simple.finishRound_files (s := u) args.last args.getInput pipeFd with heq | heq
    · rw [heq, hread]
    · rw [heq]
      exact close_eq_some hread (by simp [hwrite])
  · rcases Simple.finishRound_files (s := u) args.last args.getInput pipeFd with heq | heq
    · rw [heq]
      exact hspares
    · rw [heq]
      exact hspares.trans (Spares.close hwrite (.inr rfl) hspared)
  · intro hlast hget hplain
    rw [stage, redirected_plain hplain, if_neg (by simp [hget]), if_pos hlast, houtput hlast]
  · intro hlast hget
    rw [hlast, hget, Simple.finishRound_fresh]
    refine ⟨?_, hwrite, hentries.completeEntry _⟩
    intro hplain
    rw [stage, redirected_plain hplain, if_pos ⟨hlast, hget⟩]
  · intro hkept
    exact hentries.trans (Simple.finishRound_kept _ hkept)

/-- A round makes this child, and does to the tables what a round of `np_simple` does. -/
theorem runCommand_done {first last : Bool} {due : Option Int} {output : File}
    (htake : Simple.takeDue r.shell first = (s, due)) (hserving : Serving sockfd s.files)
    (hsupplied : Supplied spared s.files line (roundArgs line first last cmd r due) stdin target)
    (hspared : spared s.made) (hreturned : call.getData = call.pipeFd)
    (houtput : last = true → target.getD .terminal = output)
    (h : runCommand line first last cmd call r = some r') :
    r'.children = r.children ++ [stage (roundArgs line first last cmd r due) stdin target s.made] ∧
      r'.input = call.pipeFd.1 ∧
      r'.getInput = (if last then Simple.lastGetInput r.getInput else r.getInput) ∧
      StageDone spared s r'.shell (roundArgs line first last cmd r due) stdin output call.pipeFd
        (stage (roundArgs line first last cmd r due) stdin target s.made) := by
  unfold runCommand at h
  simp only [htake, Option.map_eq_some_iff, Prod.exists] at h
  obtain ⟨s', c, hparser, rfl⟩ := h
  obtain ⟨rfl, hentries, hmade, hspares, hread, hwrite⟩ := parser_done hserving hsupplied hparser
  rw [hreturned]
  exact ⟨rfl, rfl, rfl, stage_done (roundArgs line first last cmd r due) stdin target hentries
    hmade hspares hread hwrite hspared houtput⟩

theorem Leads.spares (h : Leads t fd target) (hspares : Spares spared t s.files)
    (hkept : ∀ file, target = some file → ∀ p, file = .readEnd p ∨ file = .writeEnd p → ¬ spared p) :
    Leads s.files fd target :=
  h.imp_right fun ⟨file, htarget, hfile, hne⟩ =>
    ⟨file, htarget, hspares fd file hfile (hkept file htarget), hne⟩

theorem Fitted.spares (h : Fitted spared line plan s) (hspares : Spares spared s.files s'.files)
    (hmade : s.made ≤ s'.made) : Fitted spared line plan s' where
  joined := h.joined.spares hspares fun file hfile => h.kept file (.inl hfile)
  userPipeOut := h.userPipeOut.spares hspares fun file hfile => h.kept file (.inr hfile)
  kept := h.kept
  later p hp := h.later p (hmade.trans hp)
  nPipeErr := h.nPipeErr
  getInput := h.getInput
  merged := h.merged

theorem Fitted.output (h : Fitted spared line plan s) (hserving : Serving sockfd s.files)
    (last : Bool) : Leads s.files (line.output last) (plan.target last) := by
  have hzero := h.userPipeOut.eq_zero hserving
  unfold Line.output Plan.target
  cases last with
  | false => exact h.joined
  | true =>
    by_cases hnone : line.userPipeOut = 0
    · rw [if_neg (by simp [hnone]), hzero.mp hnone]
      exact h.joined
    · obtain ⟨file, hfile⟩ := Option.ne_none_iff_exists'.mp (mt hzero.mpr hnone)
      have huser := h.userPipeOut
      rw [if_pos ⟨rfl, hnone⟩, if_pos rfl]
      rw [hfile] at huser ⊢
      exact huser

theorem lastGetInput_last (h : getInput = 0 ∨ getInput = 1 ∨ getInput = 2) (last : Bool) :
    (last = true ∧ (if last then Simple.lastGetInput getInput else getInput) = 4 ↔
      last = true ∧ getInput = 2) ∧
    ((if last then Simple.lastGetInput getInput else getInput) = 3 →
      last = true ∧ getInput = 1) := by
  rcases h with rfl | rfl | rfl <;> cases last <;> decide

theorem stage_roundArgs (hfitted : Fitted spared line plan s) (hget : r.getInput = plan.getInput)
    (first last : Bool) (cmd : Text) (due : Option Int) (stdin : File) (pipe : Nat) :
    stage (roundArgs line first last cmd r due) stdin (plan.target last) pipe =
      plan.child last cmd stdin pipe := by
  have hfour := (lastGetInput_last hfitted.getInput last).1
  unfold stage roundArgs Plan.child
  dsimp only
  rw [hget, hfitted.nPipeErr]
  simp only [hfour]

theorem Fitted.merged_last (h : Fitted spared line plan s) (hget : r.getInput = plan.getInput)
    (first last : Bool) (cmd : Text) (due : Option Int)
    (hthree : (roundArgs line first last cmd r due).getInput = 3) : plan.target last ≠ none := by
  unfold roundArgs at hthree
  dsimp only at hthree
  rw [hget] at hthree
  obtain ⟨rfl, hone⟩ := (lastGetInput_last h.getInput last).2 hthree
  unfold Plan.target
  rw [if_pos rfl]
  cases plan.userPipeOut with
  | none => simpa using h.merged hone
  | some file => simp

theorem round_done {first last : Bool} {due : Option Int}
    (htake : Simple.takeDue r.shell first = (s, due)) (hserving : Serving sockfd s.files)
    (hfitted : Fitted spared line plan s) (hget : r.getInput = plan.getInput)
    (hinput : Feeds s.files (due.getD r.input) stdin) (hspared : ∀ p, stdin = .readEnd p → spared p)
    (hlater : first = true ∨ due.getD r.input ≠ 0)
    (huser : first = true → line.userPipeIn ≠ 0 →
      ∃ q, spared q ∧ s.files line.userPipeIn = some (.readEnd q))
    (hreturned : call.getData = call.pipeFd) (h : runCommand line first last cmd call r = some r') :
    r'.children = r.children ++ [plan.child last cmd stdin s.made] ∧
      r'.input = call.pipeFd.1 ∧
      r'.getInput = (if last then Simple.lastGetInput r.getInput else r.getInput) ∧
      StageDone spared s r'.shell (roundArgs line first last cmd r due) stdin
        ((plan.target true).getD .terminal) call.pipeFd (plan.child last cmd stdin s.made) := by
  have hsupplied : Supplied spared s.files line (roundArgs line first last cmd r due) stdin
      (plan.target last) :=
    { input := hinput
      inputSpared := hspared
      output := hfitted.output hserving last
      merged := hfitted.merged_last hget first last cmd due
      later := hlater
      userPipe := huser }
  have houtput : last = true → (plan.target last).getD .terminal =
      (plan.target true).getD .terminal := by
    rintro rfl
    rfl
  have hdone := runCommand_done htake hserving hsupplied (hfitted.later _ (le_refl _)) hreturned
    houtput h
  rw [stage_roundArgs hfitted hget] at hdone
  exact hdone

theorem runCommands_later {i p : Nat} (hi : i ≠ 0) (hserving : Serving sockfd r.shell.files)
    (hfitted : Fitted spared line plan r.shell) (hget : r.getInput = plan.getInput)
    (hinput : r.shell.files r.input = some (.readEnd p)) (hp : spared p)
    (hreturned : ∀ i, (calls i).getData = (calls i).pipeFd) (hne : cmds ≠ [])
    (h : runCommands line calls i cmds r = some r') :
    r'.children = r.children ++ plan.children r.shell.made (.readEnd p) cmds ∧
      StagesDone spared r.shell r.shell r'.shell plan.getInput (.readEnd p)
        ((plan.target true).getD .terminal) cmds
        (plan.children r.shell.made (.readEnd p) cmds) := by
  induction cmds generalizing i p r with
  | nil => exact absurd rfl hne
  | cons cmd cmds ih =>
    simp only [runCommands, hi, decide_false, Option.bind_eq_some_iff] at h
    obtain ⟨middle, hfirst, hrest⟩ := h
    have htake : Simple.takeDue r.shell false = (r.shell, none) := rfl
    have hspared : ∀ q, File.readEnd p = .readEnd q → spared q := by
      intro q heq
      rw [File.readEnd.injEq] at heq
      rwa [← heq]
    obtain ⟨hchildren, hmiddleInput, hmiddleGet, hdone⟩ := round_done htake hserving hfitted hget
      (.inr ⟨p, rfl, hinput⟩) hspared (.inr (hserving.not_standard hinput (by simp)).1)
      (fun hfalse => absurd hfalse (by decide)) (hreturned i) hfirst
    cases cmds with
    | nil =>
      simp only [runCommands, Option.some.injEq] at hrest
      subst hrest
      exact ⟨hchildren, StagesDone.single hfitted.getInput ⟨rfl, by rw [← hget]; rfl⟩ hdone⟩
    | cons next cmds =>
      have hread := hdone.readEnd
      rw [← hmiddleInput] at hread
      have hmade : r.shell.made ≤ middle.shell.made := by
        rw [hdone.made]
        omega
      obtain ⟨hall, hstages⟩ := ih (Nat.succ_ne_zero i) (hserving.spares hdone.spares)
        (hfitted.spares hdone.spares hmade) (hmiddleGet.trans hget) hread
        (hfitted.later _ (le_refl _)) (List.cons_ne_nil _ _) hrest
      rw [hdone.made] at hall hstages
      refine ⟨?_, StagesDone.cons rfl hdone hstages⟩
      rw [hall, hchildren, List.append_assoc]
      rfl

/-- The pipe that the first command reads: the one that is due, or else the user pipe. -/
inductive Source (spared : Nat → Prop) (s : Shell) (userPipeIn : Int) : File → Prop
  | due (j p : Nat) (h : Simple.dueEntry s = some j)
      (hread : s.files (s.inputNum j) = some (.readEnd p))
      (hwrite : s.files (s.outputNum j) = some (.writeEnd p)) (hp : spared p) :
      Source spared s userPipeIn (.readEnd p)
  | userPipe (q : Nat) (h : Simple.dueEntry s = none)
      (hread : s.files userPipeIn = some (.readEnd q)) (hq : spared q) :
      Source spared s userPipeIn (.readEnd q)
  | client (h : Simple.dueEntry s = none) (hzero : userPipeIn = 0) :
      Source spared s userPipeIn .terminal

theorem takeDue_done {userPipeIn : Int} (h : Source spared s userPipeIn stdin) :
    ∃ s₁ due, Simple.takeDue s true = (s₁, due) ∧ SameEntries (Simple.countDown s) s₁ ∧
      s₁.made = s.made ∧ Spares spared s.files s₁.files ∧
      Feeds s₁.files (due.getD userPipeIn) stdin ∧ (∀ p, stdin = .readEnd p → spared p) ∧
      ∀ fd q, s.files fd = some (.readEnd q) → s₁.files fd = some (.readEnd q) := by
  cases h with
  | due j p h hread hwrite hp =>
    refine ⟨{ Simple.countDown s with files := close s.files (s.outputNum j) },
      some (s.inputNum j), by simp [Simple.takeDue, h], ⟨rfl, rfl, rfl, rfl⟩, rfl,
      Spares.close hwrite (.inr rfl) hp, .inr ⟨p, rfl, close_eq_some hread (by simp [hwrite])⟩,
      ?_, fun fd q hfd => close_eq_some hfd (by simp [hwrite])⟩
    intro q heq
    rw [File.readEnd.injEq] at heq
    rwa [← heq]
  | userPipe q h hread hq =>
    refine ⟨Simple.countDown s, none, by simp [Simple.takeDue, h], .refl _, rfl, .refl _ _,
      .inr ⟨q, rfl, hread⟩, ?_, fun _ _ hfd => hfd⟩
    intro p heq
    rw [File.readEnd.injEq] at heq
    rwa [← heq]
  | client h hzero =>
    refine ⟨Simple.countDown s, none, by simp [Simple.takeDue, h], .refl _, rfl, .refl _ _,
      .inl ⟨hzero, rfl⟩, ?_, fun _ _ hfd => hfd⟩
    intro p heq
    simp at heq

theorem runCommands_line (hserving : Serving sockfd s.files)
    (hfitted : Fitted spared line plan s) (hsource : Source spared s line.userPipeIn stdin)
    (huser : line.userPipeIn ≠ 0 → ∃ q, spared q ∧ s.files line.userPipeIn = some (.readEnd q))
    (hreturned : ∀ i, (calls i).getData = (calls i).pipeFd) (hne : cmds ≠ [])
    (h : runCommands line calls 0 cmds ⟨s, line.userPipeIn, plan.getInput, []⟩ = some r') :
    r'.children = plan.children s.made stdin cmds ∧
      StagesDone spared (Simple.countDown s) s r'.shell plan.getInput stdin
        ((plan.target true).getD .terminal) cmds (plan.children s.made stdin cmds) := by
  obtain ⟨s₁, due, htake, hentries, hmade, hspares, hinput, hspared, hkept⟩ := takeDue_done hsource
  have hserving₁ := hserving.spares hspares
  have hfitted₁ := hfitted.spares hspares hmade.ge
  have huser₁ : line.userPipeIn ≠ 0 →
      ∃ q, spared q ∧ s₁.files line.userPipeIn = some (.readEnd q) := by
    intro hzero
    obtain ⟨q, hq, hread⟩ := huser hzero
    exact ⟨q, hq, hkept _ _ hread⟩
  cases cmds with
  | nil => exact absurd rfl hne
  | cons cmd cmds =>
    simp only [runCommands, decide_true, Option.bind_eq_some_iff] at h
    obtain ⟨middle, hfirst, hrest⟩ := h
    obtain ⟨hchildren, hmiddleInput, hmiddleGet, hdone⟩ := round_done
      (r := ⟨s, line.userPipeIn, plan.getInput, []⟩) htake hserving₁ hfitted₁ rfl hinput hspared
      (.inl rfl) (fun _ => huser₁) (hreturned 0) hfirst
    rw [hmade] at hchildren hdone
    cases cmds with
    | nil =>
      simp only [runCommands, Option.some.injEq] at hrest
      subst hrest
      exact ⟨hchildren,
        (StagesDone.single hfitted.getInput ⟨rfl, rfl⟩ hdone).before hentries hmade hspares⟩
    | cons next cmds =>
      have hread := hdone.readEnd
      rw [← hmiddleInput] at hread
      have hmade' : s₁.made ≤ middle.shell.made := by
        rw [hdone.made]
        omega
      obtain ⟨hall, hstages⟩ := runCommands_later (Nat.succ_ne_zero 0)
        (hserving₁.spares hdone.spares) (hfitted₁.spares hdone.spares hmade') hmiddleGet hread
        (hfitted₁.later _ (le_refl _)) hreturned (List.cons_ne_nil _ _) hrest
      rw [hdone.made] at hall hstages
      have hcons := StagesDone.cons rfl hdone hstages
      rw [hmade] at hall hcons
      refine ⟨?_, hcons.before hentries hmade hspares⟩
      rw [hall, hchildren]
      rfl

end NetworkProgramming.Multi.Programs
