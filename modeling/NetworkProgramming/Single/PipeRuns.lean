import NetworkProgramming.Single.PipeLife

/-! A user pipe over a run: from the line whose last program writes into it to
the line whose first program reads it. -/
namespace NetworkProgramming.Single
open Library.CString Library.Descriptors Library.Run CommandLine

structure Good (w : World) : Prop where
  wellformed : w.server.table.Wellformed 0
  flags : FlagsHeld w.server
  live : PipesOpen w

/-- The pipe from `a` to `b` waits on an open descriptor. -/
structure Carries (w : World) (a b : Nat) (number : Int) (pipe : Nat) : Prop where
  flag : (w.server.userPipe a b).flag = 1
  pipeFd : (w.server.userPipe a b).pipeFd = number
  opened : w.files number = some (.readEnd pipe)

/-- The last child of the line has the write end of `pipe` as its output; the
parent has just made the pipe. -/
def LastWrites (w : World) (fd : Int) (chunk : Text) (calls : Nat → ParserCall) (pipe : Nat) : Prop :=
  ∃ server front args back tables files t,
    step w.server (.line fd chunk calls) = .ok (server, front ++ .fork args :: back) ∧
      forks back = [] ∧
      (lineServers w.server (lineOf chunk) fd calls).getLast? = some tables ∧
      exec perform (w.files, w.made) front = some (files, pipe) ∧
      childFiles tables (openPipe files args.pipeFd pipe) args = some t ∧
      t 1 = some (.writeEnd pipe)

/-- The first child of the line gets `number` as its `input` and reads `pipe`. -/
def FirstReads (w : World) (fd : Int) (chunk : Text) (calls : Nat → ParserCall) (number : Int)
    (pipe : Nat) : Prop :=
  ∃ server front args back files,
    step w.server (.line fd chunk calls) = .ok (server, front ++ .fork args :: back) ∧
      forks front = [] ∧ exec perform (w.files, w.made) front = some files ∧ args.input = number ∧
      ∀ tables t, childFiles tables (openPipe files.1 args.pipeFd files.2) args = some t →
        t 0 = some (.readEnd pipe)

/-- From `w` on, for as long as no step ends the pipe, it waits on its number; the
line of `b` that ends it reads it there. -/
structure LivesOn (limit : Nat) (w : World) (after : List Event) (a b : Nat) (number : Int)
    (pipe : Nat) : Prop where
  waits : ∀ middle rest v, after = middle ++ rest → exec (advance limit) w middle = some v →
    Meets (advance limit) w (fun _ u e => ¬ Ends limit u e a b) middle → Carries v a b number pipe
  read : ∀ middle reader chunk calls rest v v',
    after = middle ++ .line reader chunk calls :: rest → exec (advance limit) w middle = some v →
    Meets (advance limit) w (fun _ u e => ¬ Ends limit u e a b) middle →
    v.server.clientsMap.clientsFdSet (b - 1) = reader → Reads (lineOf chunk) a →
    advance limit v (.line reader chunk calls) = some v' →
    FirstReads v reader chunk calls number pipe

variable {w w' : World} {limit : Nat} {e : Event} {a b : Nat} {number : Int} {pipe : Nat}

theorem Good.initial : Good World.initial where
  wellformed := Library.SlotTable.Table.Wellformed.empty 0
  flags := FlagsHeld.initial
  live := PipesOpen.initial

theorem Good.step (hgood : Good w) (hsound : Sound w e) (h : advance limit w e = some w') :
    Good w' := by
  have hnext := (advance_eq_some h).1
  obtain ⟨gone, new, hevolves, -⟩ :=
    advance_evolves hgood.wellformed hgood.flags hgood.live hsound h
  constructor
  · exact wellformed_step hgood.wellformed hnext
  · exact (next_keepsHolders hgood.wellformed hgood.flags hnext).flags
  · exact hgood.live.evolves hevolves

theorem good_run (es : List Event) (w : World)
    (hmeets : Meets (advance limit) World.initial (fun _ w e => Sound w e) es)
    (hrun : exec (advance limit) World.initial es = some w) : Good w := by
  apply invariant (I := fun _ w => Good w) _ _ es hmeets w hrun
  · exact .initial
  · intro es w e w' _ hgood hsound hstep
    exact hgood.step hsound hstep

theorem Carries.step (hcarries : Carries w a b number pipe) (hgood : Good w) (hsound : Sound w e)
    (hnot : ¬ Ends limit w e a b) (h : advance limit w e = some w') :
    Carries w' a b number pipe := by
  obtain ⟨gone, new, hevolves, hends⟩ :=
    advance_evolves hgood.wellformed hgood.flags hgood.live hsound h
  have hkept : ¬ gone a b := fun hgone => hnot (hends a b hcarries.flag hgone)
  obtain ⟨hcell, hfile⟩ := hevolves.kept a b hcarries.flag hkept
  rw [hcarries.pipeFd] at hfile
  constructor
  · rw [hcell, hcarries.flag]
  · rw [hcell, hcarries.pipeFd]
  · rw [hfile, hcarries.opened]

theorem carries_run (middle : List Event) (v : World) (hgood : Good w)
    (hcarries : Carries w a b number pipe)
    (hmeets : Meets (advance limit) w (fun _ u e => Sound u e ∧ ¬ Ends limit u e a b) middle)
    (hrun : exec (advance limit) w middle = some v) : Good v ∧ Carries v a b number pipe := by
  apply invariant (I := fun _ v => Good v ∧ Carries v a b number pipe) _ _ middle hmeets v hrun
  · exact ⟨hgood, hcarries⟩
  · intro es u e u' _ hinv hcondition hstep
    exact ⟨hinv.1.step hcondition.1 hstep,
      hinv.2.step hinv.1 hcondition.1 hcondition.2 hstep⟩

section Line

variable {fd input : Int} {chunk : Text} {calls : Nat → ParserCall} {o : Outcome}
  {reading : Reading} {checked : Server} {announced : List Effect} {r : Round}

theorem advance_program
    (h : advance limit w (.line fd chunk calls) = some w')
    (hprogram : Program w.server (lineOf chunk) fd calls o reading checked announced input r)
    (hexec : doExec w.server (lineOf chunk) fd calls = .ok o) :
    step w.server (.line fd chunk calls) = .ok (w'.server, o.effects ++ [.send fd .prompt]) ∧
      w'.server = o.server ∧
      exec perform (w.files, w.made) (o.effects ++ [.send fd .prompt]) =
        some (w'.files, w'.made) := by
  obtain ⟨-, effects, files, hstep, hfiles, hrun⟩ := advance_eq_some h
  obtain rfl : w.files = files := by simpa [World.accepted] using hfiles
  obtain ⟨o', hexec', hend⟩ := step_line_effects hstep
  rw [hexec, Except.ok.injEq] at hexec'
  subst hexec'
  obtain ⟨hret, -⟩ | ⟨-, hserver, rfl⟩ := hend
  · rw [hprogram.outcome] at hret
    contradiction
  · exact ⟨hstep, hserver, hrun⟩

theorem Program.lineServers {s : Server} {text : Text}
    (h : Program s text fd calls o reading checked announced input r) :
    lineServers s text fd calls =
      childServers (loopLine s fd reading) calls 0 reading.commands
        (firstRound s checked fd input reading) := by
  rw [Single.lineServers, h.read]
  dsimp only
  rw [h.check]
  dsimp only
  rw [h.commands]
  rfl

theorem Program.starts (hgood : Good w)
    (hprogram : Program w.server (lineOf chunk) fd calls o reading checked announced input r)
    (hexec : doExec w.server (lineOf chunk) fd calls = .ok o)
    (h : advance limit w (.line fd chunk calls) = some w') (hown : w.server.ownId fd = .ok a)
    (hends : EndsIn (lineOf chunk) b) :
    ∃ number pipe, number ≠ 1 ∧ LastWrites w fd chunk calls pipe ∧ Carries w' a b number pipe := by
  obtain ⟨hstep, hserver, hrun⟩ := advance_program h hprogram hexec
  obtain ⟨lastCmd, tables, sent, args, front, back, hlastCmd, hchild, -⟩ := hprogram.lastChild
  obtain ⟨q, hfront, hunused, hback⟩ := hprogram.atFork hchild hrun
  obtain ⟨hout, hid⟩ := hprogram.sound.tokens.ends b hends
  obtain ⟨hnone, -⟩ | ⟨-, recvid, c, hcell⟩ := hprogram.sends hgood.flags hlastCmd hchild
  · rw [hout] at hnone
    contradiction
  · have hrecv : recvid = (b : Int) := by
      have hnamed := hcell.named
      rw [hid] at hnamed
      simpa using hnamed.symm
    have hsend : c = a := by
      have hsame := hcell.own
      rw [hown] at hsame
      simpa using hsame.symm
    subst hrecv hsend
    have hpipe : args.pipeFd = (calls (reading.commands.length - 1)).pipeFd := by
      simpa using hchild.pipe
    obtain ⟨hone, hlt⟩ := hprogram.sound.closes.standard hout
    rw [← hpipe] at hone hlt
    have husers := (claimEntry_sameUsers w.server fd reading.pipeNumber)
    have hreceived := hprogram.received
    have htables := hchild.users
    obtain ⟨t, hfiles, hwrites⟩ : ∃ t,
        childFiles tables (openPipe q.1 args.pipeFd q.2) args = some t ∧
          t 1 = some (.writeEnd q.2) := by
      apply childFiles_stdout hcell.command.1 hcell.command.2 (c := c)
      · rw [hchild.socket, htables.ownId]
        change checked.ownId fd = .ok c
        rw [hreceived.ownId, husers.ownId, hown]
      · rw [htables.present]
        change checked.present _ = true
        rw [hreceived.present, husers.present, hcell.present]
      · rw [htables.userPipe]
        change (checked.userPipe _ _).flag ≠ 1
        rw [hcell.flag]
        decide
      · exact openPipe_write
      · exact hlt
    refine ⟨args.pipeFd.1, q.2, hone, ?_, ?_⟩
    · refine ⟨w'.server, announced ++ front, args, back ++ [.send fd .prompt], tables, q.1, t, ?_, ?_,
        ?_, hfront, hfiles, hwrites⟩
      · rw [hstep, hprogram.effects hchild]
        simp only [List.append_assoc, List.cons_append]
      · rw [forks_append, hchild.noForks]
        rfl
      · rw [hprogram.lineServers, hchild.server]
    · have hafter : w'.server.userPipe c b = ⟨args.pipeFd.1, 1⟩ := by
        have hsent : o.server.userPipe = sent.userPipe := by
          rw [hprogram.outcome]
          exact hchild.after.userPipe
        rw [hserver, hsent, hcell.sent, Server.setUserPipe_userPipe]
        exact if_pos ⟨rfl, by simp⟩
      constructor
      · rw [hafter]
      · rw [hafter]
      · exact hprogram.newPipe hgood.live hgood.flags hchild hout hfront hunused hback

theorem Program.reads
    (hprogram : Program w.server (lineOf chunk) fd calls o reading checked announced input r)
    (hexec : doExec w.server (lineOf chunk) fd calls = .ok o)
    (h : advance limit w (.line fd chunk calls) = some w') (hown : w.server.ownId fd = .ok b)
    (hreads : Reads (lineOf chunk) a) (hcarries : Carries w a b number pipe) (hone : number ≠ 1) :
    FirstReads w fd chunk calls number pipe := by
  obtain ⟨hstep, -, hrun⟩ := advance_program h hprogram hexec
  obtain ⟨lastCmd, tables, sent, args, front, back, -, hchild, first, rest, heffects, hinput, henter⟩ :=
    hprogram.lastChild
  have hnotDue : dueEntry checked fd = none := by
    rw [hprogram.due]
    exact hprogram.sound.input hreads.1
  have htake : (takeDue (firstRound w.server checked fd input reading).server
      (loopLine w.server fd reading).sockfd (decide (0 = 0))).2 = none := hnotDue
  rw [htake] at heffects hinput henter
  simp only [Option.map_none, Option.toList_none, List.nil_append, Option.getD_none,
    Option.isSome_none] at heffects hinput henter
  have htaken : input = number := by
    have husers := claimEntry_sameUsers w.server fd reading.pipeNumber
    have hreceived := hprogram.received
    generalize (claimEntry w.server fd reading.pipeNumber).1 = claimed at hreceived husers
    cases hreceived with
    | nothing hnot => exact absurd hreads.1 hnot
    | taken q c htaken =>
      have hq := htaken.userId
      have hc := htaken.own
      rw [hreads.2, Option.some.injEq] at hq
      rw [husers.ownId, hown, Except.ok.injEq] at hc
      subst hq hc
      rw [husers.userPipe]
      exact hcarries.pipeFd
  have hannounced := (checkUserPipes_accepted hprogram.check).2.2
  have hall : o.effects = announced ++ .fork first :: rest := by
    rw [hprogram.effects hchild, List.append_assoc, heffects]
  rw [hall, List.append_assoc, List.cons_append] at hrun
  obtain ⟨q, hfront, hunused, -⟩ := exec_perform_fork hrun
  have hsame : q = (w.files, w.made) := by
    rw [hannounced.perform] at hfront
    simpa using hfront.symm
  have hnumber : first.input = number := by
    rw [hinput, ← htaken]
    rfl
  refine ⟨w'.server, announced, first, rest ++ [.send fd .prompt], q, ?_, ?_, hfront, hnumber, ?_⟩
  · rw [hstep, hall, List.append_assoc, List.cons_append]
  · exact hannounced.noForks
  · intro tables t hchild
    apply childFiles_stdin _ _ henter hchild
    · rw [hnumber]
      apply openPipe_old hunused
      rw [hsame]
      exact hcarries.opened
    · rw [hnumber]
      exact hone

end Line

/-- Over every run of sound steps: a line that is accepted and ends in `>r` makes
the pipe, and it lives until the next line of `r` reads it. -/
theorem user_pipe_lives (limit : Nat) {before after : List Event} {fd : Int} {chunk : Text}
    {calls : Nat → ParserCall} {w w' : World} {a b : Nat}
    (hmeets : Meets (advance limit) World.initial (fun _ w e => Sound w e)
      (before ++ .line fd chunk calls :: after))
    (hrun : exec (advance limit) World.initial before = some w)
    (hstep : advance limit w (.line fd chunk calls) = some w')
    (hown : w.server.ownId fd = .ok a) (haccepted : Accepted w.server (lineOf chunk) fd)
    (hends : EndsIn (lineOf chunk) b) :
    ∃ number pipe, LastWrites w fd chunk calls pipe ∧ LivesOn limit w' after a b number pipe := by
  have hgood := good_run before w hmeets.left hrun
  have hsound : Sound w (.line fd chunk calls) := hmeets before _ after w rfl hrun
  obtain ⟨-, effects, files, hline, -⟩ := advance_eq_some hstep
  obtain ⟨o, hexec, -⟩ := step_line_effects hline
  obtain ⟨-, hnot, -⟩ | ⟨reading, checked, announced, input, r, hprogram⟩ :=
    lineSound_cases hsound hexec
  · exact absurd ⟨haccepted, b, hends⟩ hnot
  · obtain ⟨number, pipe, hone, hwrites, hcarries⟩ :=
      hprogram.starts hgood hexec hstep hown hends
    have hgood' := hgood.step hsound hstep
    have hafter : Meets (advance limit) w' (fun _ u e => Sound u e) after := by
      have hrun' : exec (advance limit) World.initial (before ++ [.line fd chunk calls]) = some w' := by
        rw [exec_concat, hrun]
        exact hstep
      rw [List.append_cons] at hmeets
      exact hmeets.right hrun'
    refine ⟨number, pipe, hwrites, ?_, ?_⟩
    · rintro middle rest v rfl hv hnot
      exact (carries_run middle v hgood' hcarries (hafter.left.and hnot) hv).2
    · rintro middle reader more next rest v v' rfl hv hnot hreader hreads hstep'
      obtain ⟨hgoodV, hcarriesV⟩ := carries_run middle v hgood' hcarries (hafter.left.and hnot) hv
      have hsoundV : Sound v (.line reader more next) := hafter middle _ rest v rfl hv
      have hsender := hgoodV.flags.sender a b hcarriesV.flag
      have hreceiver := hgoodV.flags.receiver a b hcarriesV.flag
      have hownV : v.server.ownId reader = .ok b := by
        rw [hreader] at hreceiver
        rw [Server.ownId, indexOf_slot hgoodV.wellformed hreader hreceiver.2.2]
        dsimp only
        rw [if_pos (by omega)]
        congr 1
        omega
      have htakes : TakesPipe v.server (lineOf more) reader := by
        refine ⟨hreads.1, a, b, hreads.2, ?_, hownV, ?_⟩
        · rw [Server.present_iff]
          refine ⟨by omega, by omega, ?_⟩
          simpa using hsender.2.2
        · rw [Int.toNat_natCast, hcarriesV.flag]
          decide
      obtain ⟨-, effects', files', hline', -⟩ := advance_eq_some hstep'
      obtain ⟨o', hexec', -⟩ := step_line_effects hline'
      obtain ⟨-, -, hnotTaken⟩ | ⟨reading', checked', announced', input', r', hprogram'⟩ :=
        lineSound_cases hsoundV hexec'
      · exact absurd htakes (hnotTaken a hreads)
      · exact hprogram'.reads hexec' hstep' hownV hreads hcarriesV hone

def waiting (s : Server) : List Int :=
  (List.range 31).flatMap fun a =>
    ((List.range 31).filter fun b => (s.userPipe a b).flag = 1).map fun b =>
      (s.userPipe a b).pipeFd

section Single

variable {s : Server} {text : Text} {fd n : Int} {calls : Nat → ParserCall} {reading : Reading}

theorem not_needed (hflags : FlagsHeld s) (hset : n ∉ s.allset) (hwaiting : n ∉ waiting s) :
    ¬ Needed s text fd n := by
  rintro (hsocket | ⟨a, b, hflag, rfl, -⟩)
  · exact hset hsocket
  · apply hwaiting
    have ha := hflags.sender a b hflag
    have hb := hflags.receiver a b hflag
    simp only [waiting, List.mem_flatMap, List.mem_map, List.mem_filter, List.mem_range,
      decide_eq_true_eq]
    exact ⟨a, by omega, b, ⟨by omega, hflag⟩, rfl⟩

theorem EndsIn.unique {front : Text} {m r : Nat} (h : EndsIn (front ++ '>' :: decimal m) r) :
    r = m := by
  obtain ⟨front', heq⟩ := h
  have hdigits : ∀ (front : Text) (k : Nat),
      (front ++ '>' :: decimal k).reverse.takeWhile (· != '>') = (decimal k).reverse := by
    intro front k
    rw [List.reverse_append, List.reverse_cons, List.append_assoc, List.takeWhile_append_of_pos]
    · simp
    · intro c hc
      rw [List.mem_reverse] at hc
      rw [bne_iff_ne]
      rintro rfl
      exact not_mem_decimal (by decide) hc
  have hsame := congrArg (fun text : Text => text.reverse.takeWhile (· != '>')) heq
  rw [hdigits, hdigits, List.reverse_inj, decimal_inj] at hsame
  exact hsame.symm

theorem tokensAgree_single (hcommands : reading.commands = [text])
    (hone : '<' ∉ text ∨ pipesOut text = false)
    (hends : ∀ r, EndsIn text r → pipesOut text = true ∧ userId '>' text = some (r : Int)) :
    TokensAgree s text fd reading := by
  constructor
  · intro cmd hcmd hmem
    obtain rfl : cmd = text := by simpa [hcommands] using hcmd
    exact ⟨hmem, rfl⟩
  · simp [hcommands]
  · intro cmd hcmd
    obtain rfl : text = cmd := by simpa [hcommands] using hcmd
    exact ⟨rfl, fun _ => rfl⟩
  · intro cmd hcmd hmem hout
    obtain rfl : text = cmd := by simpa [hcommands] using hcmd
    obtain hnot | hnot := hone
    · exact absurd hmem hnot
    · rw [hnot] at hout
      contradiction
  · exact hends

theorem lineSound_single (hgood : Good w) (hread : readLine text = some reading)
    (haccepted : rejection w.server text fd = none)
    (hplain : reading.commands = [text] ∧ reading.pipeNumber = none ∧ builtin [text] = none)
    (hone : '<' ∉ text ∨ pipesOut text = false)
    (hends : ∀ r, EndsIn text r → pipesOut text = true ∧ userId '>' text = some (r : Int))
    (hdue : dueEntry w.server fd = none)
    (hstray : (calls 0).getData.2 ∉ w.server.allset ∧ (calls 0).getData.2 ∉ waiting w.server)
    (hfresh : pipesOut text = true → (calls 0).pipeFd.1 ≠ (calls 0).getData.2 ∧
      (calls 0).pipeFd.1 ≠ 1 ∧ 2 < (calls 0).pipeFd.2) :
    LineSound w.server text fd calls := by
  obtain ⟨hcommands, hnumber, hbuiltin⟩ := hplain
  have hclaim : claimEntry w.server fd reading.pipeNumber = (w.server, 0, fd) := by
    rw [hnumber]
    rfl
  rw [LineSound, hread]
  simp only [haccepted, hcommands, hbuiltin, ne_eq, not_true_eq_false, if_false]
  refine ⟨tokensAgree_single hcommands hone hends, ?_, ?_, ?_, ?_, ?_⟩
  · intro
    rw [hclaim]
    exact hdue
  · rw [hclaim, hdue]
    simp
  · rw [hclaim, hdue, hcommands]
    intro i hi n hn
    obtain rfl : i = 0 := by simpa using hi
    obtain rfl : n = (calls 0).getData.2 := by simpa [strayCloses] using hn
    exact not_needed hgood.flags hstray.1 hstray.2
  · rw [hclaim, hdue, hcommands]
    intro hout
    simpa [strayCloses] using (hfresh hout).1
  · rw [hcommands]
    intro hout
    exact (hfresh hout).2

end Single

def twoLogins : List Event :=
  [.login 4 ⟨[127, 0, 0, 1], 4000⟩, .login 5 ⟨[127, 0, 0, 1], 4001⟩]

def sendLine : Event := .line 4 "ls >2\n".toList fun _ => ⟨(6, 7), 0⟩

def readBack : Event := .line 5 "cat <1\n".toList fun _ => ⟨(0, 8), 0⟩

theorem sound_twoLogins :
    Meets (advance 30) World.initial (fun _ w e => Sound w e) (twoLogins ++ [sendLine, readBack]) := by
  have hlogins : Meets (advance 30) World.initial (fun _ w e => Sound w e) twoLogins :=
    (Meets.nil.concat fun _ _ => trivial).concat fun _ _ => trivial
  have hsend : Meets (advance 30) World.initial (fun _ w e => Sound w e)
      (twoLogins ++ [sendLine]) := by
    apply hlogins.concat
    intro w hw
    have hgood := good_run _ w hlogins hw
    have hstate : (exec (advance 30) World.initial twoLogins).all (fun w =>
        decide (rejection w.server "ls >2".toList 4 = none ∧ dueEntry w.server 4 = none ∧
          (ParserCall.getData ⟨(6, 7), 0⟩).2 ∉ w.server.allset ∧
          (ParserCall.getData ⟨(6, 7), 0⟩).2 ∉ waiting w.server)) = true := by decide +kernel
    rw [hw, Option.all_some, decide_eq_true_iff] at hstate
    have hread : readLine "ls >2".toList = some ⟨["ls >2".toList], none, false⟩ := by
      decide +kernel
    refine lineSound_single hgood hread hstate.1 (by decide +kernel) (by decide) ?_ hstate.2.1
      hstate.2.2 (by decide +kernel)
    intro r hr
    have hr : EndsIn ("ls ".toList ++ '>' :: decimal 2) r := hr
    rw [hr.unique]
    decide +kernel
  have hall := hsend.concat (e := readBack)
  rw [List.append_assoc] at hall
  apply hall
  intro w hw
  have hgood := good_run _ w hsend hw
  have hstate : (exec (advance 30) World.initial (twoLogins ++ [sendLine])).all (fun w =>
      decide (rejection w.server "cat <1".toList 5 = none ∧ dueEntry w.server 5 = none ∧
        (ParserCall.getData ⟨(0, 8), 0⟩).2 ∉ w.server.allset ∧
        (ParserCall.getData ⟨(0, 8), 0⟩).2 ∉ waiting w.server)) = true := by decide +kernel
  rw [hw, Option.all_some, decide_eq_true_iff] at hstate
  have hread : readLine "cat <1".toList = some ⟨["cat <1".toList], none, false⟩ := by
    decide +kernel
  refine lineSound_single hgood hread hstate.1 (by decide +kernel) (by decide) ?_ hstate.2.1
    hstate.2.2 (by decide +kernel)
  rintro r ⟨front, hfront⟩
  have hmem : '>' ∈ "cat <1".toList := by
    rw [hfront]
    simp
  exact absurd hmem (by decide)

theorem user_pipe_lives_twoLogins :
    ∃ w w' number pipe, exec (advance 30) World.initial twoLogins = some w ∧
      advance 30 w sendLine = some w' ∧
      LastWrites w 4 "ls >2\n".toList (fun _ => ⟨(6, 7), 0⟩) pipe ∧
      LivesOn 30 w' [readBack] 1 2 number pipe := by
  have hsome : (exec (advance 30) World.initial twoLogins).isSome = true := by decide +kernel
  obtain ⟨w, hw⟩ := Option.isSome_iff_exists.mp hsome
  have hstate : (exec (advance 30) World.initial twoLogins).all (fun w =>
      (advance 30 w sendLine).isSome && decide (w.server.clientsMap.indexOf 4 = some 0 ∧
        rejection w.server "ls >2".toList 4 = none)) = true := by decide +kernel
  rw [hw, Option.all_some, Bool.and_eq_true, decide_eq_true_iff] at hstate
  obtain ⟨hnext, hslot, hrejection⟩ := hstate
  obtain ⟨w', hw'⟩ := Option.isSome_iff_exists.mp hnext
  have hown : w.server.ownId 4 = .ok 1 := by
    rw [Server.ownId, hslot]
    rfl
  have hread : (readLine "ls >2".toList).isSome = true := by decide +kernel
  have haccepted : Accepted w.server (lineOf "ls >2\n".toList) 4 := ⟨hread, hrejection⟩
  have hends : EndsIn (lineOf "ls >2\n".toList) 2 := ⟨"ls ".toList, by decide +kernel⟩
  obtain ⟨number, pipe, hwrites, hlives⟩ :=
    user_pipe_lives 30 sound_twoLogins hw hw' hown haccepted hends
  exact ⟨w, w', number, pipe, hw, hw', hwrites, hlives⟩

def selfPiped : List Event :=
  [.login 4 ⟨[127, 0, 0, 1], 4000⟩, .line 4 "ls >1\n".toList fun _ => ⟨(5, 6), 0⟩]

def selfLine : Event := .line 4 "cat <1 >1\n".toList fun _ => ⟨(0, 7), 0⟩

theorem self_pipe_closed :
    ∃ w w', exec (advance 30) World.initial selfPiped = some w ∧
      advance 30 w selfLine = some w' ∧ w.server.ownId 4 = .ok 1 ∧
      Accepted w.server (lineOf "cat <1 >1\n".toList) 4 ∧
      EndsIn (lineOf "cat <1 >1\n".toList) 1 ∧
      (w'.server.userPipe 1 1).flag = 0 ∧ w'.files (w'.server.userPipe 1 1).pipeFd = none := by
  have hsome : (exec (advance 30) World.initial selfPiped).isSome = true := by decide +kernel
  obtain ⟨w, hw⟩ := Option.isSome_iff_exists.mp hsome
  have hstate : (exec (advance 30) World.initial selfPiped).all (fun w =>
      (advance 30 w selfLine).isSome && decide (w.server.clientsMap.indexOf 4 = some 0 ∧
        rejection w.server "cat <1 >1".toList 4 = none)) = true := by decide +kernel
  have hafter : ((exec (advance 30) World.initial selfPiped).bind fun w =>
      advance 30 w selfLine).all (fun w' => decide ((w'.server.userPipe 1 1).flag = 0 ∧
        w'.files (w'.server.userPipe 1 1).pipeFd = none)) = true := by decide +kernel
  rw [hw, Option.all_some, Bool.and_eq_true, decide_eq_true_iff] at hstate
  obtain ⟨hnext, hslot, hrejection⟩ := hstate
  obtain ⟨w', hw'⟩ := Option.isSome_iff_exists.mp hnext
  rw [hw, Option.bind_some, hw', Option.all_some, decide_eq_true_iff] at hafter
  have hown : w.server.ownId 4 = .ok 1 := by
    rw [Server.ownId, hslot]
    rfl
  have hread : (readLine "cat <1 >1".toList).isSome = true := by decide +kernel
  have haccepted : Accepted w.server (lineOf "cat <1 >1\n".toList) 4 := ⟨hread, hrejection⟩
  have hends : EndsIn (lineOf "cat <1 >1\n".toList) 1 := ⟨"cat <1 ".toList, by decide +kernel⟩
  exact ⟨w, w', hw, hw', hown, haccepted, hends, hafter⟩

end NetworkProgramming.Single
