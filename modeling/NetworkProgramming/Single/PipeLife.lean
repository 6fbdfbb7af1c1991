import NetworkProgramming.Single.Tokens

/-! The life of a user pipe, from the line that makes it to the line that reads
it: flag and descriptor, over runs of the server with its descriptors. -/
namespace NetworkProgramming.Single
open Library.CString Library.Descriptors Library.Run CommandLine

def Reads (text : Text) (a : Nat) : Prop := '<' ∈ text ∧ userId '<' text = some (a : Int)

/-- `do_exec` runs the line and answers it with no error about its tokens. -/
def Accepted (s : Server) (text : Text) (fd : Int) : Prop :=
  (readLine text).isSome ∧ rejection s text fd = none

/-- The commands of the line have no other tokens than those that `do_exec` looks
at, the first `<` and the first `>` of the line; the `>` is in the last command, and
no command has both for the client itself. -/
structure TokensAgree (s : Server) (text : Text) (fd : Int) (reading : Reading) : Prop where
  receives : ∀ cmd ∈ reading.commands, '<' ∈ cmd →
    '<' ∈ text ∧ userId '<' cmd = userId '<' text
  early : ∀ cmd ∈ reading.commands.dropLast, pipesOut cmd = false
  last : ∀ cmd ∈ reading.commands.getLast?, pipesOut cmd = pipesOut text ∧
    (pipesOut cmd = true → userId '>' cmd = userId '>' text)
  notSelf : ∀ cmd ∈ reading.commands.getLast?, '<' ∈ cmd → pipesOut cmd = true →
    ∀ c, s.ownId fd = .ok c → ¬ (userId '<' cmd = some (c : Int) ∧ userId '>' cmd = some (c : Int))
  ends : ∀ r, EndsIn text r → pipesOut text = true ∧ userId '>' text = some (r : Int)

/-- A number in use: a client's socket, or a pipe that waits. -/
def InUse (s : Server) (n : Int) : Prop :=
  n ∈ s.allset ∨ ∃ a b, (s.userPipe a b).flag = 1 ∧ (s.userPipe a b).pipeFd = n

def Needed (s : Server) (text : Text) (fd n : Int) : Prop :=
  n ∈ s.allset ∨ ∃ a b, (s.userPipe a b).flag = 1 ∧ (s.userPipe a b).pipeFd = n ∧
    ¬ (Reads text a ∧ s.ownId fd = .ok b)

/-- The numbers of the numbered pipe that is due and of `get_data`, which the line
closes, are not needed; the pipe of the last command is not among them, and the
`dup2` calls of the child leave it alone. -/
structure NoStrayClose (s : Server) (due : Option PipeInfo) (getInput : Nat) (text : Text)
    (fd : Int) (calls : Nat → ParserCall) (count : Nat) : Prop where
  output : ∀ entry ∈ due, ¬ Needed s text fd entry.outputNum
  stray : ∀ i < count, ∀ n ∈ strayCloses due getInput calls count i, ¬ Needed s text fd n
  fresh : pipesOut text = true →
    (calls (count - 1)).pipeFd.1 ∉ strayCloses due getInput calls count (count - 1)
  standard : pipesOut text = true →
    (calls (count - 1)).pipeFd.1 ≠ 1 ∧ 2 < (calls (count - 1)).pipeFd.2

structure RunsSoundly (s : Server) (text : Text) (fd : Int) (calls : Nat → ParserCall)
    (reading : Reading) : Prop where
  tokens : TokensAgree s text fd reading
  input : '<' ∈ text → dueEntry (claimEntry s fd reading.pipeNumber).1 fd = none
  closes : NoStrayClose s (dueEntry (claimEntry s fd reading.pipeNumber).1 fd)
    (claimEntry s fd reading.pipeNumber).2.1 text fd calls reading.commands.length

/-- A line without a trap: one that runs nothing takes and promises no pipe. -/
def LineSound (s : Server) (text : Text) (fd : Int) (calls : Nat → ParserCall) : Prop :=
  match readLine text with
  | none => '<' ∉ text
  | some reading =>
    if rejection s text fd ≠ none then ¬ TakesPipe s text fd
    else if builtin reading.commands ≠ none then
      ¬ TakesPipe s text fd ∧ ∀ r, ¬ EndsIn text r
    else RunsSoundly s text fd calls reading

def Sound (w : World) : Event → Prop
  | .login .. => True
  | .line fd chunk calls => LineSound w.server (lineOf chunk) fd calls

/-- Every socket and every user pipe that waits is open, and no two such pipes
have one number. -/
structure PipesOpen (w : World) : Prop where
  sockets : ∀ fd ∈ w.server.allset, w.files fd = some .socket
  pipes : ∀ a b, (w.server.userPipe a b).flag = 1 →
    ∃ pipe, w.files (w.server.userPipe a b).pipeFd = some (.readEnd pipe)
  distinct : ∀ a b a' b', (w.server.userPipe a b).flag = 1 → (w.server.userPipe a' b').flag = 1 →
    (w.server.userPipe a b).pipeFd = (w.server.userPipe a' b').pipeFd → a = a' ∧ b = b'

/-- What one step makes of the user pipes: those in `gone` are given up, and
`new` is added; the others keep their number and its file. -/
structure Evolves (w w' : World) (gone : Nat → Nat → Prop) (new : Option (Nat × Nat)) : Prop where
  sockets : ∀ fd ∈ w'.server.allset, w'.files fd = some .socket
  kept : ∀ a b, (w.server.userPipe a b).flag = 1 → ¬ gone a b →
    w'.server.userPipe a b = w.server.userPipe a b ∧
      w'.files (w.server.userPipe a b).pipeFd = w.files (w.server.userPipe a b).pipeFd
  flagged : ∀ a b, (w'.server.userPipe a b).flag = 1 →
    ((w.server.userPipe a b).flag = 1 ∧ ¬ gone a b) ∨ new = some (a, b)
  newOpen : ∀ a b, new = some (a, b) →
    ∃ pipe, w'.files (w'.server.userPipe a b).pipeFd = some (.readEnd pipe)
  newFresh : ∀ a b a' b', new = some (a, b) → (w.server.userPipe a' b').flag = 1 → ¬ gone a' b' →
    (w.server.userPipe a' b').pipeFd ≠ (w'.server.userPipe a b).pipeFd

variable {w w' : World} {limit : Nat} {e : Event} {gone : Nat → Nat → Prop}
  {new : Option (Nat × Nat)}

theorem PipesOpen.initial : PipesOpen World.initial := by
  constructor
  · intro fd hfd
    simp [World.initial, Server.initial] at hfd
  · intro a b hflag
    simp [World.initial, Server.initial] at hflag
  · intro a b a' b' hflag
    simp [World.initial, Server.initial] at hflag

theorem PipesOpen.evolves (hlive : PipesOpen w) (h : Evolves w w' gone new) : PipesOpen w' := by
  constructor
  · exact h.sockets
  · intro a b hflag
    obtain ⟨hold, hkept⟩ | hnew := h.flagged a b hflag
    · obtain ⟨hcell, hfile⟩ := h.kept a b hold hkept
      obtain ⟨pipe, hpipe⟩ := hlive.pipes a b hold
      exact ⟨pipe, by rw [hcell, hfile, hpipe]⟩
    · exact h.newOpen a b hnew
  · intro a b a' b' hflag hflag' hsame
    obtain ⟨hold, hkept⟩ | hnew := h.flagged a b hflag
    · obtain ⟨hold', hkept'⟩ | hnew' := h.flagged a' b' hflag'
      · rw [(h.kept a b hold hkept).1, (h.kept a' b' hold' hkept').1] at hsame
        exact hlive.distinct a b a' b' hold hold' hsame
      · rw [(h.kept a b hold hkept).1] at hsame
        exact absurd hsame (h.newFresh a' b' a b hnew' hold hkept)
    · obtain ⟨hold', hkept'⟩ | hnew' := h.flagged a' b' hflag'
      · rw [(h.kept a' b' hold' hkept').1] at hsame
        exact absurd hsame.symm (h.newFresh a b a' b' hnew hold' hkept')
      · rw [hnew, Option.some.injEq, Prod.mk.injEq] at hnew'
        exact hnew'

section Quiet

variable {s s' : Server} {fd : Int} {chunk text : Text} {calls : Nat → ParserCall} {o : Outcome}
  {effects : List Effect}

structure NoProgram (s : Server) (o : Outcome) : Prop where
  userPipe : o.server.userPipe = s.userPipe
  sends : SendsOnly o.effects

/-- A line that runs its commands. -/
structure Program (s : Server) (text : Text) (fd : Int) (calls : Nat → ParserCall) (o : Outcome)
    (reading : Reading) (checked : Server) (announced : List Effect) (input : Int) (r : Round) :
    Prop where
  read : readLine text = some reading
  commands : builtin reading.commands = none
  sound : RunsSoundly s text fd calls reading
  check : checkUserPipes (claimEntry s fd reading.pipeNumber).1 text fd =
    .ok (checked, announced, .ok input)
  run : runCommands ⟨fd, reading.pipeNumber.isNone, reading.pipeErrN,
      (claimEntry s fd reading.pipeNumber).2.2⟩ calls 0 reading.commands
    ⟨checked, input, (claimEntry s fd reading.pipeNumber).2.1, []⟩ = .ok r
  outcome : o = ⟨r.server, announced ++ r.effects, 0⟩

theorem claimed_takesPipe (s : Server) (text : Text) (fd : Int) (pipeNumber : Option Int) :
    TakesPipe (claimEntry s fd pipeNumber).1 text fd ↔ TakesPipe s text fd :=
  takesPipe_congr (claimEntry_sameUsers s fd pipeNumber).userPipe
    (claimEntry_sameUsers s fd pipeNumber).clientsMap

theorem Received.userPipe {checked : Server} {input : Int} (h : Received s text fd checked input)
    (hnot : ¬ TakesPipe s text fd) : checked = s := by
  cases h with
  | nothing => rfl
  | taken q c htaken => exact absurd htaken.takesPipe hnot

theorem lineSound_cases (hsound : LineSound s text fd calls)
    (h : doExec s text fd calls = .ok o) :
    (NoProgram s o ∧ ¬ (Accepted s text fd ∧ ∃ r, EndsIn text r) ∧
        ∀ a, Reads text a → ¬ TakesPipe s text fd) ∨
      ∃ reading checked announced input r,
        Program s text fd calls o reading checked announced input r := by
  obtain ⟨hread, rfl⟩ | ⟨reading, hread, ⟨checked, announced, message, hcheck, rfl⟩ |
    ⟨checked, announced, input, o', hcheck, hrun, rfl⟩⟩ := doExec_cases h
  · rw [LineSound, hread] at hsound
    refine .inl ⟨⟨rfl, .nil⟩, ?_, ?_⟩
    · rintro ⟨⟨hsome, -⟩, -⟩
      rw [hread] at hsome
      contradiction
    · exact fun a ha => absurd ha.1 hsound
  · have hreject : rejection s text fd = some message := by
      simp only [rejection, hread, Option.bind_some, hcheck]
    rw [LineSound, hread] at hsound
    simp only [hreject, ne_eq, reduceCtorEq, not_false_iff, if_true] at hsound
    obtain ⟨-, ⟨-, rfl, rfl⟩ | ⟨htakes, -⟩⟩ := checkUserPipes_rejected hcheck
    · refine .inl ⟨⟨(claimEntry_sameUsers s fd _).userPipe, .single⟩, ?_, fun _ _ => hsound⟩
      rintro ⟨⟨-, haccepted⟩, -⟩
      rw [hreject] at haccepted
      contradiction
    · exact absurd ((claimed_takesPipe s text fd _).mp htakes) hsound
  · have hreject : rejection s text fd = none := by
      simp only [rejection, hread, Option.bind_some, hcheck]
    rw [LineSound, hread] at hsound
    simp only [hreject, ne_eq, not_true_eq_false, if_false] at hsound
    obtain ⟨hreceived, -, hannounced⟩ := checkUserPipes_accepted hcheck
    unfold runLine at hrun
    cases hbuiltin : builtin reading.commands with
    | some b =>
      simp only [hbuiltin, reduceCtorEq, not_false_iff, if_true] at hsound hrun
      have hdone := runBuiltin_done hrun
      have hchecked := hreceived.userPipe (mt (claimed_takesPipe s text fd _).mp hsound.1)
      refine .inl ⟨⟨?_, hannounced.append hdone.sends⟩, ?_, fun _ _ => hsound.1⟩
      · rw [hdone.userPipe, hchecked, (claimEntry_sameUsers s fd _).userPipe]
      · rintro ⟨-, r, hr⟩
        exact hsound.2 r hr
    | none =>
      simp only [hbuiltin, not_true_eq_false, if_false] at hsound hrun
      split at hrun
      next => contradiction
      next r hcommands =>
        cases hrun
        exact .inr ⟨reading, checked, announced, input, r, hread, hbuiltin, hsound, hcheck, hcommands,
          rfl⟩

end Quiet

section Programs

variable {s checked tables sent : Server} {fd input : Int} {text lastCmd : Text}
  {calls : Nat → ParserCall} {o : Outcome} {reading : Reading} {announced front back : List Effect}
  {r : Round} {args : ParserArgs} {files files' : Table} {made made' : Nat}

def loopLine (s : Server) (fd : Int) (reading : Reading) : Line :=
  ⟨fd, reading.pipeNumber.isNone, reading.pipeErrN, (claimEntry s fd reading.pipeNumber).2.2⟩

def firstRound (s checked : Server) (fd input : Int) (reading : Reading) : Round :=
  ⟨checked, input, (claimEntry s fd reading.pipeNumber).2.1, []⟩

def lineDue (s : Server) (fd : Int) (reading : Reading) : Option PipeInfo :=
  dueEntry (claimEntry s fd reading.pipeNumber).1 fd

/-- The last child of a line that runs its commands. -/
abbrev ProgramChild (s : Server) (fd : Int) (calls : Nat → ParserCall) (reading : Reading)
    (checked : Server) (input : Int) (r : Round) (lastCmd : Text) (tables sent : Server)
    (args : ParserArgs) (front back : List Effect) : Prop :=
  LastChild (loopLine s fd reading) calls 0 reading.commands
    (firstRound s checked fd input reading) r
    (((lineDue s fd reading).map PipeInfo.inputNum).getD input) lastCmd tables sent args front back

theorem Received.nothingToTake {cmd : Text} (h : Received s text fd checked input)
    (hreceives : '<' ∈ cmd → '<' ∈ text ∧ userId '<' cmd = userId '<' text) :
    NothingToTake checked cmd fd := by
  intro hmem sendid recvid hid hown
  obtain ⟨htext, hsame⟩ := hreceives hmem
  cases h with
  | nothing hnot => exact absurd htext hnot
  | taken q c htaken =>
    have hq : q = sendid := by
      rw [hsame, htaken.userId] at hid
      simpa using hid
    have hc : c = recvid := by
      have hownTaken : s.ownId fd = .ok recvid := hown
      rw [htaken.own] at hownTaken
      simpa using hownTaken
    subst hq hc
    simp

theorem Program.due (h : Program s text fd calls o reading checked announced input r) :
    dueEntry checked fd = lineDue s fd reading :=
  (checkUserPipes_numbered h.check).1.dueEntry

theorem Program.received (h : Program s text fd calls o reading checked announced input r) :
    Received (claimEntry s fd reading.pipeNumber).1 text fd checked input :=
  (checkUserPipes_accepted h.check).1

theorem Received.present (h : Received s text fd checked input) : checked.present = s.present := by
  cases h <;> rfl

theorem Received.ownId (h : Received s text fd checked input) : checked.ownId = s.ownId := by
  cases h <;> rfl

theorem Received.allset (h : Received s text fd checked input) : checked.allset = s.allset := by
  cases h <;> rfl

theorem Received.flag {a b : Nat} (h : Received s text fd checked input)
    (hflag : (checked.userPipe a b).flag = 1) :
    (s.userPipe a b).flag = 1 ∧ checked.userPipe a b = s.userPipe a b ∧
      ∀ q, ¬ (Taken s text fd q b ∧ a = q.toNat) := by
  cases h with
  | nothing hnot => exact ⟨hflag, rfl, fun q hq => hnot hq.1.mem⟩
  | taken q c htaken =>
    rw [Server.setUserPipe_userPipe] at hflag ⊢
    split at hflag
    next => simp at hflag
    next hother =>
      rw [if_neg hother]
      refine ⟨hflag, rfl, ?_⟩
      rintro q' ⟨htaken', rfl⟩
      apply hother
      have hq := htaken'.userId
      have hc := htaken'.own
      rw [htaken.userId, Option.some.injEq] at hq
      rw [htaken.own, Except.ok.injEq] at hc
      exact ⟨by rw [hq], hc.symm⟩

theorem Program.lastChild (h : Program s text fd calls o reading checked announced input r) :
    ∃ lastCmd tables sent args front back, reading.commands.getLast? = some lastCmd ∧
      ProgramChild s fd calls reading checked input r lastCmd tables sent args front back ∧
      FirstChild (loopLine s fd reading) 0 (firstRound s checked fd input reading)
        (front ++ .fork args :: back) := by
  have htokens := h.sound.tokens
  have hreceived := h.received
  have hdue := h.due
  have hrun := h.run
  obtain ⟨cmd, cmds, hcommands⟩ := List.exists_cons_of_ne_nil (readLine_commands h.read)
  obtain ⟨lastCmd, hlastCmd⟩ : ∃ lastCmd, reading.commands.getLast? = some lastCmd := by
    rw [hcommands]
    exact ⟨_, List.getLast?_cons⟩
  have hlastMem : lastCmd ∈ reading.commands := List.mem_of_getLast? hlastCmd
  have hinput : RoundInput (loopLine s fd reading) calls 0 (firstRound s checked fd input reading)
      (((lineDue s fd reading).map PipeInfo.inputNum).getD input) := by
    rw [RoundInput, if_pos rfl, ← hdue]
    rfl
  have hearly : ∀ c ∈ reading.commands.dropLast, pipesOut c = false ∧ NothingToTake checked c fd :=
    fun c hc => ⟨htokens.early c hc,
      hreceived.nothingToTake (htokens.receives c (List.mem_of_mem_dropLast hc))⟩
  have hlast : ∀ tables sent pipeIn, SameUsers checked tables →
      parserSends tables lastCmd fd pipeIn = .ok sent → NothingToTake sent lastCmd fd := by
    intro tables sent pipeIn husers hsends
    have hnothing : NothingToTake tables lastCmd fd :=
      husers.nothingToTake (hreceived.nothingToTake (htokens.receives lastCmd hlastMem))
    obtain rfl | ⟨recvid, c, hout, hid, hown, hpresent, rfl⟩ := parserSends_cases hsends
    · exact hnothing
    · intro hmem sendid recvid' hid' hown'
      have hsame : tables.ownId fd = .ok recvid' := hown'
      rw [hown, Except.ok.injEq] at hsame
      subst hsame
      rw [Server.setUserPipe_userPipe]
      split
      next hcell =>
        -- the same command would have to name the client itself twice
        exfalso
        rw [husers.ownId, hreceived.ownId, (claimEntry_sameUsers s fd _).ownId] at hown
        apply htokens.notSelf lastCmd hlastCmd hmem hout c hown
        have hlow := (Server.ownId_eq hown).1
        have hsendid : sendid = (c : Int) := by omega
        have hrecvid : recvid = (c : Int) := by omega
        exact ⟨by rw [hid', hsendid], by rw [hid, hrecvid]⟩
      next => exact hnothing hmem sendid c hid' hown
  rw [hcommands] at hrun hlastCmd hearly
  obtain ⟨tables, sent, args, front, back, hchild, hfirst⟩ :=
    runCommands_lastChild hrun hlastCmd hinput hearly hlast
  rw [← hcommands] at hchild hlastCmd
  exact ⟨lastCmd, tables, sent, args, front, back, hlastCmd, hchild, hfirst⟩

structure SendsCell (s checked : Server) (text : Text) (fd recvid : Int) (c : Nat) (args : ParserArgs)
    (tables sent : Server) : Prop where
  named : userId '>' text = some recvid
  own : s.ownId fd = .ok c
  present : s.present recvid = true
  flag : (checked.userPipe c recvid.toNat).flag = 0
  command : pipesOut args.cmd = true ∧ userId '>' args.cmd = some recvid
  sent : sent = tables.setUserPipe c recvid.toNat ⟨args.pipeFd.1, 1⟩

theorem Program.sends (h : Program s text fd calls o reading checked announced input r)
    (hflags : FlagsHeld s) (hlastCmd : reading.commands.getLast? = some lastCmd)
    (hchild : ProgramChild s fd calls reading checked input r lastCmd tables sent args front back) :
    (pipesOut text = false ∧ sent = tables) ∨
      pipesOut text = true ∧
        ∃ recvid c, SendsCell s checked text fd recvid c args tables sent := by
  obtain ⟨hsame, hid⟩ := h.sound.tokens.last lastCmd hlastCmd
  have hsends : parserSends tables lastCmd fd args.pipeFd.1 = .ok sent := hchild.sends
  cases hout : pipesOut text with
  | false =>
    rw [hout] at hsame
    exact .inl ⟨rfl, parserSends_none hsame hsends⟩
  | true =>
    rw [hout] at hsame
    obtain ⟨hreceived, hsendsTo, -⟩ := checkUserPipes_accepted h.check
    obtain ⟨recvid, c, huser, hpresent, hown, hflag⟩ := hsendsTo hout
    have hclaimed := claimEntry_sameUsers s fd reading.pipeNumber
    have husers := hchild.users
    have hzero : (checked.userPipe c recvid.toNat).flag = 0 := by
      have hcases : (checked.userPipe c recvid.toNat).flag = 0 ∨
          (checked.userPipe c recvid.toNat).flag = 1 := by
        cases hreceived with
        | nothing =>
          rw [hclaimed.userPipe]
          exact hflags.zeroOrOne c recvid.toNat
        | taken q c' htaken =>
          rw [Server.setUserPipe_userPipe]
          split
          next => exact .inl rfl
          next =>
            rw [hclaimed.userPipe]
            exact hflags.zeroOrOne c recvid.toNat
      exact hcases.resolve_right hflag
    have hcommand : userId '>' lastCmd = some recvid := by
      rw [hid hsame, huser]
    have hset : parserSends tables lastCmd fd args.pipeFd.1 =
        .ok (tables.setUserPipe c recvid.toNat ⟨args.pipeFd.1, 1⟩) := by
      apply parserSends_set hsame hcommand
      · rw [husers.ownId]
        exact hown
      · rw [husers.present]
        exact hpresent
      · rw [husers.userPipe]
        exact hzero
    rw [hset, Except.ok.injEq] at hsends
    refine .inr ⟨rfl, recvid, c, huser, ?_, ?_, hzero, ?_, hsends.symm⟩
    · rw [← hclaimed.ownId, ← hreceived.ownId]
      exact hown
    · rw [← hclaimed.present, ← hreceived.present]
      exact hpresent
    · rw [hchild.command]
      exact ⟨hsame, hcommand⟩

/-- The effects of the line before and behind the last `fork`. -/
theorem Program.effects (h : Program s text fd calls o reading checked announced input r)
    (hchild : ProgramChild s fd calls reading checked input r lastCmd tables sent args front back) :
    o.effects = (announced ++ front) ++ .fork args :: back := by
  rw [h.outcome, hchild.effects, List.append_assoc]
  rfl

theorem close_not_mem (hsends : SendsOnly announced) {n : Int} : Effect.close n ∉ announced := by
  intro hmem
  obtain ⟨fd, message, heq⟩ := hsends _ hmem
  contradiction

variable {w w' : World}

theorem Taken.one {q : Int} {c : Nat} (h : Taken s text fd q c) (hflags : FlagsHeld s) :
    (s.userPipe q.toNat c).flag = 1 := (hflags.zeroOrOne _ _).resolve_left h.flag

theorem SameUsers.flagsHeld {s' : Server} (h : SameUsers s s') (hflags : FlagsHeld s) :
    FlagsHeld s' := by
  apply hflags.of_fewer
  · rw [h.clientsMap]
  · intro a b
    exact .inl (by rw [h.userPipe])

theorem PipesOpen.taken_not_inUse (hlive : PipesOpen w) {s : Server} (hsame : SameUsers w.server s)
    (hflags : FlagsHeld s) {q : Int} {c : Nat} (htaken : Taken s text fd q c)
    (h : Received s text fd checked (s.userPipe q.toNat c).pipeFd) :
    ¬ InUse checked (s.userPipe q.toNat c).pipeFd := by
  have hone := htaken.one hflags
  rw [hsame.userPipe] at hone ⊢
  obtain ⟨pipe, hpipe⟩ := hlive.pipes q.toNat c hone
  rintro (hsocket | ⟨a, b, hflag, hnumber⟩)
  · rw [h.allset, hsame.allset] at hsocket
    rw [hlive.sockets _ hsocket] at hpipe
    simp at hpipe
  · obtain ⟨hold, hcell, hother⟩ := h.flag hflag
    rw [hcell, hsame.userPipe] at hnumber
    rw [hsame.userPipe] at hold
    obtain ⟨rfl, rfl⟩ := hlive.distinct a b q.toNat c hold hone hnumber
    exact hother q ⟨htaken, rfl⟩

theorem SameUsers.taken {s' : Server} (h : SameUsers s s') {q : Int} {c : Nat} :
    Taken s' text fd q c ↔ Taken s text fd q c := by
  constructor
  · intro htaken
    exact ⟨htaken.mem, htaken.userId, by rw [← h.present]; exact htaken.present,
      by rw [← h.ownId]; exact htaken.own, by rw [← h.userPipe]; exact htaken.flag⟩
  · intro htaken
    exact ⟨htaken.mem, htaken.userId, by rw [h.present]; exact htaken.present,
      by rw [h.ownId]; exact htaken.own, by rw [h.userPipe]; exact htaken.flag⟩

theorem Program.checkedFlag (h : Program s text fd calls o reading checked announced input r)
    {a b : Nat} (hflag : (checked.userPipe a b).flag = 1) :
    (s.userPipe a b).flag = 1 ∧ checked.userPipe a b = s.userPipe a b ∧
      ¬ ∃ q, Taken s text fd q b ∧ a = q.toNat := by
  have hclaimed := claimEntry_sameUsers s fd reading.pipeNumber
  obtain ⟨hold, hcell, hother⟩ := h.received.flag hflag
  rw [hclaimed.userPipe] at hold hcell
  refine ⟨hold, hcell, ?_⟩
  rintro ⟨q, htaken, heq⟩
  exact hother q ⟨hclaimed.taken.mpr htaken, heq⟩

theorem Program.needed (h : Program s text fd calls o reading checked announced input r) {n : Int}
    (hn : InUse checked n) : Needed s text fd n := by
  have hclaimed := claimEntry_sameUsers s fd reading.pipeNumber
  obtain hsocket | ⟨a, b, hflag, hnumber⟩ := hn
  · left
    rw [← hclaimed.allset, ← h.received.allset]
    exact hsocket
  · right
    obtain ⟨hold, hcell, hother⟩ := h.checkedFlag hflag
    rw [hcell] at hnumber
    refine ⟨a, b, hold, hnumber, ?_⟩
    rintro ⟨⟨hmem, hid⟩, hown⟩
    have hreceived := h.received
    generalize (claimEntry s fd reading.pipeNumber).1 = claimed at hreceived hclaimed
    cases hreceived with
    | nothing hnot => exact hnot hmem
    | taken q c htaken =>
      have hsame := htaken.own
      have hq := htaken.userId
      rw [hclaimed.ownId, hown, Except.ok.injEq] at hsame
      rw [hid, Option.some.injEq] at hq
      subst hsame hq
      exact hother ⟨a, hclaimed.taken.mp htaken, rfl⟩

theorem Program.spares (hlive : PipesOpen w) (hflags : FlagsHeld w.server)
    (h : Program w.server text fd calls o reading checked announced input r)
    (hchild : ProgramChild w.server fd calls reading checked input r lastCmd tables sent args
      front back) {n : Int} (hn : InUse checked n) :
    Effect.close n ∉ front ∧ Effect.close n ∉ back := by
  have hcloses := h.sound.closes
  have hpos : 0 < reading.commands.length := List.length_pos_iff.mpr (readLine_commands h.read)
  have hround : ∀ i < reading.commands.length,
      n ∉ roundCloses (((lineDue w.server fd reading).map PipeInfo.inputNum).getD input)
        (claimEntry w.server fd reading.pipeNumber).2.1 calls reading.commands.length i := by
    intro i hi hmem
    obtain hstray | ⟨-, -, hinput⟩ := mem_roundCloses hmem
    · exact hcloses.stray i hi n hstray (h.needed hn)
    · have hreceived := h.received
      have hclaimed := claimEntry_sameUsers w.server fd reading.pipeNumber
      unfold inputCloses at hinput
      split at hinput
      next hne =>
        rw [List.mem_singleton] at hinput
        subst hinput
        generalize (claimEntry w.server fd reading.pipeNumber).1 = s at hreceived hclaimed
        cases hreceived with
        | nothing => exact hne rfl
        | taken q c htaken =>
          exact hlive.taken_not_inUse hclaimed (hclaimed.flagsHeld hflags) htaken
            (.taken q c htaken) hn
      next => simp at hinput
  constructor
  · intro hmem
    obtain ⟨entry, hentry, rfl⟩ | ⟨j, hj, hmem⟩ := hchild.front n hmem
    · have hdue : dueEntry checked fd = some entry := hentry
      rw [h.due] at hdue
      exact hcloses.output entry hdue (h.needed hn)
    · apply hround j _
      · simpa [firstRound] using hmem
      · omega
  · intro hmem
    apply hround (reading.commands.length - 1) (by omega)
    simpa [firstRound] using hchild.back n hmem

theorem Program.atFork (h : Program s text fd calls o reading checked announced input r)
    (hchild : ProgramChild s fd calls reading checked input r lastCmd tables sent args front back)
    (hrun : exec perform (files, made) (o.effects ++ [.send fd .prompt]) = some (files', made')) :
    ∃ q, exec perform (files, made) (announced ++ front) = some q ∧ Unused q.1 args.pipeFd ∧
      exec perform (openPipe q.1 args.pipeFd q.2, q.2 + 1) (back ++ [.send fd .prompt]) =
        some (files', made') := by
  rw [h.effects hchild, List.append_assoc, List.cons_append] at hrun
  exact exec_perform_fork hrun

/-- Needed descriptors keep their files up to the last `fork` and behind it. -/
theorem Program.keeps (hlive : PipesOpen w) (hflags : FlagsHeld w.server)
    (h : Program w.server text fd calls o reading checked announced input r)
    (hchild : ProgramChild w.server fd calls reading checked input r lastCmd tables sent args
      front back) {q : Table × Nat} {p' : Table × Nat}
    (hfront : exec perform (w.files, w.made) (announced ++ front) = some q)
    (hunused : Unused q.1 args.pipeFd)
    (hback : exec perform (openPipe q.1 args.pipeFd q.2, q.2 + 1) (back ++ [.send fd .prompt]) =
      some p') {n : Int} {file : File} (hn : InUse checked n) (hfile : w.files n = some file) :
    q.1 n = some file ∧ p'.1 n = some file := by
  obtain ⟨hcloseFront, hcloseBack⟩ := h.spares hlive hflags hchild hn
  have hannounced := (checkUserPipes_accepted h.check).2.2
  have hforked : q.1 n = some file := by
    apply exec_perform_keeps _ hfront hfile
    rw [List.mem_append]
    exact not_or_intro (close_not_mem hannounced) hcloseFront
  refine ⟨hforked, ?_⟩
  apply exec_perform_keeps _ hback (openPipe_old hunused hforked)
  simpa using hcloseBack

theorem Program.newPipe (hlive : PipesOpen w) (hflags : FlagsHeld w.server)
    (h : Program w.server text fd calls o reading checked announced input r)
    (hchild : ProgramChild w.server fd calls reading checked input r lastCmd tables sent args
      front back) (hout : pipesOut text = true) {q p' : Table × Nat}
    (hfront : exec perform (w.files, w.made) (announced ++ front) = some q)
    (hunused : Unused q.1 args.pipeFd)
    (hback : exec perform (openPipe q.1 args.pipeFd q.2, q.2 + 1) (back ++ [.send fd .prompt]) =
      some p') :
    p'.1 args.pipeFd.1 = some (.readEnd q.2) := by
  have hcloses := h.sound.closes
  have hpos : 0 < reading.commands.length := List.length_pos_iff.mpr (readLine_commands h.read)
  have hpipe : args.pipeFd = (calls (reading.commands.length - 1)).pipeFd := by
    simpa using hchild.pipe
  apply exec_perform_keeps _ hback (openPipe_read hunused)
  rw [List.mem_append]
  rintro (hmem | hmem)
  · have hround := hchild.back _ hmem
    simp only [firstRound, Nat.zero_add] at hround
    obtain hstray | ⟨hfirst, hnone, hinput⟩ := mem_roundCloses hround
    · apply hcloses.fresh hout
      rw [← hpipe]
      exact hstray
    · -- the only command: what it reads is still open when its pipe is made
      have hreceived := h.received
      have hclaimed := claimEntry_sameUsers w.server fd reading.pipeNumber
      have hnotFront : Effect.close args.pipeFd.1 ∉ announced ++ front := by
        rw [List.mem_append]
        rintro (hmem | hmem)
        · exact close_not_mem (checkUserPipes_accepted h.check).2.2 hmem
        · obtain ⟨entry, hentry, -⟩ | ⟨j, hj, -⟩ := hchild.front _ hmem
          · have hdue : dueEntry checked fd = some entry := hentry
            rw [h.due, hnone] at hdue
            contradiction
          · omega
      unfold inputCloses at hinput
      split at hinput
      next hne =>
        rw [List.mem_singleton] at hinput
        generalize (claimEntry w.server fd reading.pipeNumber).1 = s at hreceived hclaimed
        cases hreceived with
        | nothing => exact hne rfl
        | taken sendid c htaken =>
          have hone := htaken.one (hclaimed.flagsHeld hflags)
          rw [hclaimed.userPipe] at hone
          obtain ⟨pipe, hopen⟩ := hlive.pipes _ _ hone
          rw [hclaimed.userPipe] at hinput
          have hstill : q.1 args.pipeFd.1 = some (.readEnd pipe) := by
            apply exec_perform_keeps hnotFront hfront
            rw [hinput]
            exact hopen
          rw [hunused.2.2.2.1] at hstill
          contradiction
      next => simp at hinput
  · simp at hmem

theorem Program.checkedKept (h : Program s text fd calls o reading checked announced input r)
    {a b : Nat} (hkept : ¬ ∃ q, Taken s text fd q b ∧ a = q.toNat) :
    checked.userPipe a b = s.userPipe a b := by
  have hclaimed := claimEntry_sameUsers s fd reading.pipeNumber
  have hreceived := h.received
  generalize (claimEntry s fd reading.pipeNumber).1 = claimed at hreceived hclaimed
  cases hreceived with
  | nothing => rw [hclaimed.userPipe]
  | taken q c htaken =>
    rw [Server.setUserPipe_userPipe, if_neg, hclaimed.userPipe]
    rintro ⟨rfl, rfl⟩
    exact hkept ⟨q, hclaimed.taken.mp htaken, rfl⟩

theorem Program.allset (h : Program s text fd calls o reading checked announced input r)
    (hexec : doExec s text fd calls = .ok o) :
    checked.allset = s.allset ∧ o.server.allset = s.allset := by
  constructor
  · rw [h.received.allset, (claimEntry_sameUsers s fd reading.pipeNumber).allset]
  · exact (doExec_sameSlots hexec).allset

theorem Program.evolves (hlive : PipesOpen w) (hflags : FlagsHeld w.server)
    (h : Program w.server text fd calls o reading checked announced input r)
    (hexec : doExec w.server text fd calls = .ok o) (hserver : w'.server = o.server)
    (hrun : exec perform (w.files, w.made) (o.effects ++ [.send fd .prompt]) =
      some (w'.files, w'.made)) :
    ∃ new, Evolves w w' (fun a b => ∃ q, Taken w.server text fd q b ∧ a = q.toNat) new := by
  obtain ⟨lastCmd, tables, sent, args, front, back, hlastCmd, hchild, -⟩ := h.lastChild
  obtain ⟨q, hfront, hunused, hback⟩ := h.atFork hchild hrun
  obtain ⟨hcheckedSet, hset⟩ := h.allset hexec
  have hkeeps : ∀ n file, InUse checked n → w.files n = some file →
      q.1 n = some file ∧ w'.files n = some file :=
    fun n file => h.keeps hlive hflags hchild hfront hunused hback
  have hsockets : ∀ fd ∈ w'.server.allset, w'.files fd = some .socket := by
    intro socket hsocket
    rw [hserver, hset] at hsocket
    apply (hkeeps socket .socket _ (hlive.sockets socket hsocket)).2
    exact .inl (by rw [hcheckedSet]; exact hsocket)
  -- a cell that the line neither takes nor fills keeps its number, which is needed
  have hold : ∀ a b, (w.server.userPipe a b).flag = 1 →
      (¬ ∃ q, Taken w.server text fd q b ∧ a = q.toNat) →
      checked.userPipe a b = w.server.userPipe a b ∧
        w'.files (w.server.userPipe a b).pipeFd = w.files (w.server.userPipe a b).pipeFd ∧
        q.1 (w.server.userPipe a b).pipeFd = w.files (w.server.userPipe a b).pipeFd := by
    intro a b hflag hkept
    have hcell := h.checkedKept hkept
    obtain ⟨pipe, hpipe⟩ := hlive.pipes a b hflag
    have hneeded : InUse checked (w.server.userPipe a b).pipeFd :=
      .inr ⟨a, b, by rw [hcell, hflag], by rw [hcell]⟩
    obtain ⟨hforked, hafter⟩ := hkeeps _ _ hneeded hpipe
    exact ⟨hcell, by rw [hafter, hpipe], by rw [hforked, hpipe]⟩
  have hafter : o.server.userPipe = sent.userPipe := by
    rw [h.outcome]
    exact hchild.after.userPipe
  have htables : tables.userPipe = checked.userPipe := hchild.users.userPipe
  obtain ⟨-, rfl⟩ | ⟨hout, recvid, c, hcell⟩ := h.sends hflags hlastCmd hchild
  · refine ⟨none, hsockets, ?_, ?_, by simp, by simp⟩
    · intro a b hflag hkept
      obtain ⟨hcell, hfile, -⟩ := hold a b hflag hkept
      exact ⟨by rw [hserver, hafter, htables, hcell], hfile⟩
    · intro a b hflag
      rw [hserver, hafter, htables] at hflag
      obtain ⟨hwas, -, hkept⟩ := h.checkedFlag hflag
      exact .inl ⟨hwas, hkept⟩
  · have hcells : ∀ a b, w'.server.userPipe a b =
        if a = c ∧ b = recvid.toNat then ⟨args.pipeFd.1, 1⟩ else checked.userPipe a b := by
      intro a b
      rw [hserver, hafter, hcell.sent, Server.setUserPipe_userPipe, htables]
    have hnew := h.newPipe hlive hflags hchild hout hfront hunused hback
    refine ⟨some (c, recvid.toNat), hsockets, ?_, ?_, ?_, ?_⟩
    · intro a b hflag hkept
      obtain ⟨hsame, hfile, -⟩ := hold a b hflag hkept
      refine ⟨?_, hfile⟩
      rw [hcells, if_neg, hsame]
      rintro ⟨rfl, rfl⟩
      have hzero := hcell.flag
      rw [hsame] at hzero
      omega
    · intro a b hflag
      rw [hcells] at hflag
      split at hflag
      next hab => exact .inr (by rw [hab.1, hab.2])
      next =>
        obtain ⟨hwas, -, hkept⟩ := h.checkedFlag hflag
        exact .inl ⟨hwas, hkept⟩
    · intro a b hab
      rw [Option.some.injEq, Prod.mk.injEq] at hab
      refine ⟨q.2, ?_⟩
      rw [hcells, if_pos ⟨hab.1.symm, hab.2.symm⟩]
      exact hnew
    · intro a b a' b' hab hflag hkept hsame
      rw [Option.some.injEq, Prod.mk.injEq] at hab
      rw [hcells a b, if_pos ⟨hab.1.symm, hab.2.symm⟩] at hsame
      obtain ⟨-, -, hforked⟩ := hold a' b' hflag hkept
      obtain ⟨pipe, hpipe⟩ := hlive.pipes a' b' hflag
      rw [hpipe, hsame, hunused.2.2.2.1] at hforked
      contradiction

end Programs

section Steps

variable {s s' : Server} {fd : Int} {effects : List Effect} {o : Outcome}

theorem PipesOpen.idle (hlive : PipesOpen w) (hcells : w'.server.userPipe = w.server.userPipe)
    (hset : w'.server.allset = w.server.allset) (hfiles : w'.files = w.files) :
    Evolves w w' (fun _ _ => False) none := by
  refine ⟨?_, ?_, ?_, by simp, by simp⟩
  · rw [hset, hfiles]
    exact hlive.sockets
  · intro a b _ _
    exact ⟨by rw [hcells], by rw [hfiles]⟩
  · intro a b hflag
    rw [hcells] at hflag
    exact .inl ⟨hflag, id⟩

theorem PipesOpen.login {ssock : Int} {fsin : SockaddrIn} (hlive : PipesOpen w)
    (hwell : w.server.table.Wellformed 0)
    (h : advance limit w (.login ssock fsin) = some w') :
    Evolves w w' (fun _ _ => False) none := by
  obtain ⟨-, effects, files, hstep, hfiles, hrun⟩ := advance_eq_some h
  obtain ⟨i, -, htable, -⟩ := login_takes hwell hstep
  have hset : w'.server.allset = insert ssock w.server.allset :=
    congrArg Library.SlotTable.Table.used htable
  have hgreet : SendsOnly effects := by
    simp only [step, Single.login] at hstep
    split at hstep
    next => contradiction
    next =>
      split at hstep
      next => contradiction
      next =>
        simp only [Except.ok.injEq, Prod.mk.injEq] at hstep
        rw [← hstep.2]
        apply SendsOnly.append
        · intro e he
          simp only [List.mem_cons, List.not_mem_nil, or_false] at he
          obtain rfl | rfl | rfl := he <;> exact ⟨_, _, rfl⟩
        · exact sendsOnly_map
  rw [hgreet.perform, Option.some.injEq, Prod.mk.injEq] at hrun
  simp only [World.accepted] at hfiles
  split at hfiles
  next hunused =>
    rw [Option.some.injEq] at hfiles
    have hopen : w'.files = Function.update w.files ssock (some .socket) := by
      rw [hfiles, hrun.1]
    refine ⟨?_, ?_, ?_, by simp, by simp⟩
    · intro socket hsocket
      rw [hset, Finset.mem_insert] at hsocket
      rw [hopen, Function.update_apply]
      split
      next => rfl
      next hne => exact hlive.sockets socket (hsocket.resolve_left hne)
    · intro a b hflag _
      refine ⟨by rw [(login_frame hstep).userPipe], ?_⟩
      rw [hopen]
      apply Function.update_of_ne
      rintro heq
      obtain ⟨pipe, hpipe⟩ := hlive.pipes a b hflag
      rw [heq, hunused] at hpipe
      contradiction
    · intro a b hflag
      rw [(login_frame hstep).userPipe] at hflag
      exact .inl ⟨hflag, id⟩
  next => contradiction

theorem logout_effects (h : logout s fd = .ok (s', effects)) :
    ∃ sends, SendsOnly sends ∧ effects = .close fd :: sends := by
  obtain ⟨slots, userPipe, told, name, -, rfl⟩ := logout_eq h
  exact ⟨_, sendsOnly_map, rfl⟩

theorem PipesOpen.logout {i : Nat} (hlive : PipesOpen w) (hflags : FlagsHeld w.server)
    (hfd : fd ∈ w.server.allset)
    (hset : w'.server.allset = w.server.allset.erase fd)
    (hpipes : ∀ a b, w'.server.userPipe a b =
      if (a = i + 1 ∧ 1 ≤ b ∧ b ≤ 30) ∨ (b = i + 1 ∧ 1 ≤ a ∧ a ≤ 30) then
        { w.server.userPipe a b with flag := 0 }
      else w.server.userPipe a b)
    (hfiles : w'.files = close w.files fd) :
    Evolves w w' (fun a b => a = i + 1 ∨ b = i + 1) none := by
  refine ⟨?_, ?_, ?_, by simp, by simp⟩
  · intro socket hsocket
    rw [hset, Finset.mem_erase] at hsocket
    rw [hfiles, close_of_ne hsocket.1]
    exact hlive.sockets socket hsocket.2
  · intro a b hflag hkept
    constructor
    · rw [hpipes, if_neg]
      rintro (⟨ha, -⟩ | ⟨hb, -⟩)
      · exact hkept (.inl ha)
      · exact hkept (.inr hb)
    · rw [hfiles]
      apply close_of_ne
      rintro heq
      obtain ⟨pipe, hpipe⟩ := hlive.pipes a b hflag
      rw [heq, hlive.sockets fd hfd] at hpipe
      simp at hpipe
  · intro a b hflag
    obtain ⟨hwas, ha, hb⟩ := logout_flag hflags hpipes hflag
    exact .inl ⟨hwas, fun hgone => hgone.elim ha hb⟩

/-- The step is a logout of one of the two clients, or a line of `b` with `<a`. -/
def Ends (limit : Nat) (w : World) (e : Event) (a b : Nat) : Prop :=
  (∃ w', advance limit w e = some w' ∧
    ¬ (w'.server.clientsMap.clientsFdSet (a - 1) = w.server.clientsMap.clientsFdSet (a - 1) ∧
      w'.server.clientsMap.clientsFdSet (b - 1) = w.server.clientsMap.clientsFdSet (b - 1))) ∨
  ∃ fd chunk calls, e = .line fd chunk calls ∧
    w.server.clientsMap.clientsFdSet (b - 1) = fd ∧ Reads (lineOf chunk) a

theorem advance_evolves (hwell : w.server.table.Wellformed 0) (hflags : FlagsHeld w.server)
    (hlive : PipesOpen w) (hsound : Sound w e) (h : advance limit w e = some w') :
    ∃ gone new, Evolves w w' gone new ∧
      ∀ a b, (w.server.userPipe a b).flag = 1 → gone a b → Ends limit w e a b := by
  cases e with
  | login ssock fsin => exact ⟨_, none, hlive.login hwell h, fun a b _ hgone => hgone.elim⟩
  | line fd chunk calls =>
    obtain ⟨hnext, effects, files, hstep, hfiles, hrun⟩ := advance_eq_some h
    obtain ⟨hadm, -⟩ := next_eq_some hnext
    obtain rfl : w.files = files := by simpa [World.accepted] using hfiles
    obtain ⟨o, hexec, hend⟩ := step_line_effects hstep
    have hsame := doExec_sameSlots hexec
    obtain ⟨hquiet, -⟩ | ⟨reading, checked, announced, input, r, hprogram⟩ :=
      lineSound_cases hsound hexec
    · obtain ⟨-, more, hout, rfl⟩ | ⟨-, hserver, rfl⟩ := hend
      · -- the client leaves
        have hfd : fd ∈ o.server.allset := by
          rw [hsame.allset]
          exact hadm
        have hwellOut := hsame.wellformed hwell
        obtain ⟨i, hi, htable, hpipes⟩ := logout_releases hwellOut hfd hout
        obtain ⟨sends, hsends, rfl⟩ := logout_effects hout
        have hset : w'.server.allset = o.server.allset.erase fd :=
          congrArg Library.SlotTable.Table.used htable
        have hslot : w'.server.clientsMap.clientsFdSet =
            Function.update o.server.clientsMap.clientsFdSet i 0 :=
          congrArg Library.SlotTable.Table.slot htable
        rw [exec_append, hquiet.sends.perform, Option.bind_some, exec, perform, Option.bind_some,
          hsends.perform, Option.some.injEq, Prod.mk.injEq] at hrun
        rw [hquiet.userPipe] at hpipes
        rw [hsame.allset] at hset hfd
        refine ⟨_, none, hlive.logout hflags hfd hset hpipes hrun.1.symm, ?_⟩
        intro a b hflag hgone
        left
        refine ⟨w', h, ?_⟩
        have hzero : fd ≠ 0 := ((hwell.mem_used fd).mp hadm).1
        rw [hsame.slot] at hi hslot
        rintro ⟨ha, hb⟩
        rw [hslot] at ha hb
        obtain rfl | rfl := hgone
        · rw [Nat.add_sub_cancel, Function.update_self, hi] at ha
          exact hzero ha.symm
        · rw [Nat.add_sub_cancel, Function.update_self, hi] at hb
          exact hzero hb.symm
      · rw [(hquiet.sends.append .single).perform, Option.some.injEq, Prod.mk.injEq] at hrun
        refine ⟨_, none, hlive.idle ?_ ?_ hrun.1.symm, fun a b _ hgone => hgone.elim⟩
        · rw [hserver, hquiet.userPipe]
        · rw [hserver, hsame.allset]
    · obtain ⟨hret, -⟩ | ⟨-, hserver, rfl⟩ := hend
      · rw [hprogram.outcome] at hret
        contradiction
      · obtain ⟨new, hevolves⟩ := hprogram.evolves hlive hflags hexec hserver hrun
        refine ⟨_, new, hevolves, ?_⟩
        rintro a b hflag ⟨q, htaken, rfl⟩
        right
        refine ⟨fd, chunk, calls, rfl, (Server.ownId_eq htaken.own).2.2, htaken.mem, ?_⟩
        have hpresent := Server.present_iff.mp htaken.present
        rw [htaken.userId]
        simp only [Option.some.injEq]
        omega

end Steps

end NetworkProgramming.Single
