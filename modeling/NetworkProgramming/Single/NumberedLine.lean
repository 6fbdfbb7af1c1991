import NetworkProgramming.Single.Rejection

/-! One line and the numbered pipes: which one it reads, which one it writes,
and what becomes of the table. -/
namespace NetworkProgramming.Single
open Library.CString Library.Search CommandLine

def Effect.forked : Effect → Option ParserArgs
  | .fork args => some args
  | _ => none

def forks (effects : List Effect) : List ParserArgs := effects.filterMap Effect.forked

def numberedInput (effects : List Effect) : Option Int :=
  (forks effects).head?.bind fun args => if args.enter then some args.input else none

/-- The pipe for a later line: a new one, or that of an earlier line. -/
inductive Target where
  | new
  | shared (fd : Int)
  deriving DecidableEq, Repr

def numberedOutput (effects : List Effect) : Option Target :=
  (forks effects).getLast?.bind fun args =>
    if args.getInput = 4 then some .new
    else if args.getInput = 3 then some (.shared args.output)
    else none

variable {s s' : Server} {fd : Int} {effects more : List Effect}

@[simp] theorem forks_append : forks (effects ++ more) = forks effects ++ forks more :=
  List.filterMap_append

@[simp] theorem forks_nil : forks [] = [] := rfl

@[simp] theorem forks_send {message : Message} : forks [.send fd message] = [] := rfl

@[simp] theorem forks_close : forks [.close fd] = [] := rfl

theorem forks_sends {ι : Type} {is : List ι} {fds : ι → Int} {message : ι → Message} :
    forks (is.map fun i => .send (fds i) (message i)) = [] := by
  rw [forks, List.filterMap_map, List.filterMap_eq_nil_iff]
  exact fun _ _ => rfl

theorem SameNumberedPipes.refl (s : Server) : SameNumberedPipes s s := ⟨rfl, rfl⟩

theorem SameNumberedPipes.trans {a b c : Server} (hab : SameNumberedPipes a b)
    (hbc : SameNumberedPipes b c) : SameNumberedPipes a c :=
  ⟨hbc.clientPipe.trans hab.clientPipe, hbc.pos.trans hab.pos⟩

theorem SameNumberedPipes.countDown (h : SameNumberedPipes s s') :
    SameNumberedPipes (countDown s fd) (countDown s' fd) := by
  constructor
  · simp [Single.countDown, h.clientPipe]
  · exact h.pos

theorem SameNumberedPipes.completeEntry (h : SameNumberedPipes s s') (pipe : Int × Int) :
    SameNumberedPipes (completeEntry s pipe) (completeEntry s' pipe) := by
  constructor
  · simp [Single.completeEntry, h.clientPipe, h.pos]
  · simp [Single.completeEntry, h.pos]

theorem SameNumberedPipes.dueEntry (h : SameNumberedPipes s s') :
    dueEntry s' fd = dueEntry s fd := by
  simp [Single.dueEntry, h.clientPipe]

section Parser
variable {args : ParserArgs}

theorem parserSends_numbered {cmd : Text} {pipeIn : Int}
    (h : parserSends s cmd fd pipeIn = .ok s') : SameNumberedPipes s s' := by
  unfold parserSends at h
  split at h
  next =>
    split at h
    next => contradiction
    next =>
      split at h
      next => contradiction
      next =>
        split at h
        next =>
          cases h
          exact ⟨rfl, rfl⟩
        next =>
          split at h
          next =>
            cases h
            exact .refl s
          next => contradiction
  next =>
    cases h
    exact .refl s

theorem parserReceives_numbered {cmd : Text} (h : parserReceives s cmd fd = .ok (s', effects)) :
    SameNumberedPipes s s' ∧ forks effects = [] := by
  unfold parserReceives at h
  split at h
  next =>
    split at h
    next => contradiction
    next =>
      split at h
      next =>
        split at h
        next => contradiction
        next =>
          dsimp only at h
          split at h
          next =>
            cases h
            exact ⟨⟨rfl, rfl⟩, rfl⟩
          next =>
            cases h
            exact ⟨.refl s, rfl⟩
      next =>
        cases h
        exact ⟨.refl s, rfl⟩
  next =>
    cases h
    exact ⟨.refl s, rfl⟩

theorem parser_numbered (h : parser s args = .ok (s', effects)) :
    SameNumberedPipes s s' ∧ forks effects = [args] := by
  unfold parser at h
  split at h
  next => contradiction
  next hsends =>
    split at h
    next => contradiction
    next hreceives =>
      cases h
      obtain ⟨hsame, hforks⟩ := parserReceives_numbered hreceives
      refine ⟨(parserSends_numbered hsends).trans hsame, ?_⟩
      show args :: forks _ = [args]
      rw [hforks]

end Parser

theorem finishRound_numbered (h : SameNumberedPipes s s') (last : Bool) (getInput : Nat)
    (pipe : Int × Int) :
    SameNumberedPipes (finishRound s last getInput pipe).1 (finishRound s' last getInput pipe).1 ∧
      forks (finishRound s' last getInput pipe).2 = [] := by
  unfold finishRound
  split
  · split
    · exact ⟨h, rfl⟩
    · split
      · exact ⟨h.completeEntry pipe, rfl⟩
      · exact ⟨h, rfl⟩
  · exact ⟨h, rfl⟩

/-- What a child that is the first, and one that is the last of its line have
in their arguments. -/
structure Enters (line : Line) (first : Bool) (s : Server) (args : ParserArgs) : Prop where
  enter : args.enter = (takeDue s line.sockfd first).2.isSome
  input : ∀ entry, (takeDue s line.sockfd first).2 = some entry → args.input = entry.inputNum

structure Leaves (line : Line) (getInput : Nat) (args : ParserArgs) : Prop where
  output : args.output = line.outputFd
  getInput : args.getInput = getInput

variable {line : Line} {r r' : Round}

theorem runCommand_numbered {first last : Bool} {cmd : Text} {call : ParserCall}
    (h : runCommand line first last cmd call r = .ok r') :
    ∃ args, forks r'.effects = forks r.effects ++ [args] ∧ Enters line first r.server args ∧
      Leaves line r'.getInput args ∧
      r'.getInput = (if last then lastGetInput r.getInput else r.getInput) ∧
      SameNumberedPipes (finishRound (takeDue r.server line.sockfd first).1 last r'.getInput
        call.getData).1 r'.server := by
  unfold runCommand at h
  dsimp only at h
  split at h
  next => contradiction
  next path _ =>
    split at h
    next => contradiction
    next middle effects hparser =>
      cases h
      obtain ⟨args, hargs, henters, hleaves⟩ : ∃ args,
          parser (takeDue r.server line.sockfd first).1 args = .ok (middle, effects) ∧
            Enters line first r.server args ∧
            Leaves line (if last then lastGetInput r.getInput else r.getInput) args := by
        refine ⟨_, hparser, ⟨rfl, fun entry hentry => ?_⟩, ⟨rfl, rfl⟩⟩
        simp [hentry]
      obtain ⟨hsame, hforks⟩ := parser_numbered hargs
      obtain ⟨hpipes, hcloses⟩ := finishRound_numbered hsame last
        (if last then lastGetInput r.getInput else r.getInput) call.getData
      have hdue : forks (Option.map (fun entry => Effect.close entry.outputNum)
          (takeDue r.server line.sockfd first).2).toList = [] := by
        cases (takeDue r.server line.sockfd first).2 <;> rfl
      have hinput : ∀ fd : Int, forks (if fd ≠ 0 then [Effect.close fd] else []) = [] := by
        intro fd
        split <;> rfl
      refine ⟨args, ?_, henters, hleaves, rfl, hpipes⟩
      rw [forks_append, forks_append, forks_append, forks_append, hdue, hforks, hinput, hcloses,
        List.append_nil, List.append_nil, List.append_nil]

structure RoundsDone (line : Line) (first : Bool) (pipe : Int × Int) (r r' : Round)
    (children : List ParserArgs) : Prop where
  forks : forks r'.effects = forks r.effects ++ children
  head : ∃ args, children.head? = some args ∧ Enters line first r.server args
  getLast : ∃ args, children.getLast? = some args ∧ Leaves line (lastGetInput r.getInput) args
  pipes : SameNumberedPipes (finishRound (takeDue r.server line.sockfd first).1 true
    (lastGetInput r.getInput) pipe).1 r'.server

theorem runCommands_numbered {calls : Nat → ParserCall} {i : Nat} {cmd : Text} {cmds : List Text}
    (h : runCommands line calls i (cmd :: cmds) r = .ok r') :
    ∃ children, RoundsDone line (i = 0) (calls (i + cmds.length)).getData r r' children := by
  induction cmds generalizing i cmd r with
  | nil =>
    simp only [runCommands] at h
    split at h
    next => contradiction
    next middle hfirst =>
      cases h
      obtain ⟨args, hforks, henters, hleaves, hget, hpipes⟩ := runCommand_numbered hfirst
      simp only [List.isEmpty_nil, if_true] at hget hpipes
      rw [hget] at hleaves hpipes
      exact ⟨[args], hforks, ⟨args, rfl, henters⟩, ⟨args, rfl, hleaves⟩, hpipes⟩
  | cons next cmds ih =>
    rw [runCommands] at h
    split at h
    next => contradiction
    next middle hfirst =>
      obtain ⟨args, hforks, henters, -, hget, hpipes⟩ := runCommand_numbered hfirst
      obtain ⟨children, hrest⟩ := ih h
      simp only [List.isEmpty_cons, Bool.false_eq_true, if_false] at hget hpipes
      -- a round that is not the last leaves the table as the first look at it did
      have hlater : (decide (i + 1 = 0)) = false := by simp
      have hrestPipes := hrest.pipes
      rw [hlater, hget] at hrestPipes
      obtain ⟨last, hlast, hleaves⟩ := hrest.getLast
      rw [hget] at hleaves
      refine ⟨args :: children, ?_, ⟨args, rfl, henters⟩, ⟨last, ?_, hleaves⟩, ?_⟩
      · rw [hrest.forks, hforks, List.append_assoc]
        rfl
      · rw [List.getLast?_cons, hlast]
        rfl
      · have hindex : i + (next :: cmds).length = i + 1 + cmds.length := by
          simp
          omega
        rw [hindex]
        exact (finishRound_numbered hpipes true _ _).1.trans hrestPipes

def linePipe (reading : Reading) (calls : Nat → ParserCall) : Int × Int :=
  (calls (reading.commands.length - 1)).getData

def afterLine (s : Server) (fd : Int) (getInput : Nat) (pipe : Int × Int) : Server :=
  if getInput = 2 then completeEntry (countDown s fd) pipe else countDown s fd

inductive LineDone (s s' : Server) (fd : Int) (line : Text) (calls : Nat → ParserCall)
    (effects : List Effect) : Prop
  | unread (hread : readLine line = none) (hsame : SameNumberedPipes s s')
      (hforks : forks effects = [])
  | stopped (reading : Reading) (hread : readLine line = some reading)
      (hstop : rejection s line fd ≠ none ∨ builtin reading.commands ≠ none)
      (hsame : SameNumberedPipes (claimEntry s fd reading.pipeNumber).1 s')
      (hforks : forks effects = [])
  | ran (reading : Reading) (claimed : Server) (getInput : Nat) (outputFd : Int)
      (hread : readLine line = some reading) (haccept : rejection s line fd = none)
      (hbuiltin : builtin reading.commands = none)
      (hclaim : claimEntry s fd reading.pipeNumber = (claimed, getInput, outputFd))
      (hsame : SameNumberedPipes
        (afterLine claimed fd getInput (linePipe reading calls)) s')
      (hinput : numberedInput effects = (dueEntry claimed fd).map PipeInfo.inputNum)
      (houtput : numberedOutput effects =
        if getInput = 2 then some .new
        else if getInput = 1 then some (.shared outputFd)
        else none)

theorem splitErrorPipe_ne {filename : List Text} (h : filename ≠ []) :
    (splitErrorPipe filename).1 ≠ [] := by
  unfold splitErrorPipe
  split
  next hlast => exact absurd (List.getLast?_eq_none_iff.mp hlast) h
  next => split <;> simp

theorem readLine_commands {cmd : Text} {reading : Reading} (h : readLine cmd = some reading) :
    reading.commands ≠ [] := by
  have hnumber : ∀ filename pipeErrN, filename ≠ [] →
      (readNumber filename pipeErrN).commands ≠ [] := by
    intro filename pipeErrN hne
    unfold readNumber
    split
    next hlast => exact absurd (List.getLast?_eq_none_iff.mp hlast) hne
    next =>
      split
      next hcond =>
        have hpos := List.length_pos_iff.mpr hne
        apply List.ne_nil_of_length_pos
        rw [List.length_dropLast]
        omega
      next => exact hne
  unfold readLine at h
  dsimp only at h
  split at h
  next => contradiction
  next hblank =>
    rw [Option.some.injEq] at h
    rw [← h]
    apply hnumber
    have hne : splitPipe cmd ≠ [] := by
      intro hnil
      rw [hnil] at hblank
      exact hblank rfl
    have hpipe : ∀ b : Bool,
        (if b then splitErrorPipe (splitPipe cmd) else (splitPipe cmd, false)).1 ≠ [] := by
      intro b
      cases b with
      | true => exact splitErrorPipe_ne hne
      | false => exact hne
    exact hpipe _

theorem forks_announce {message : Message} : forks (s.announce message) = [] := forks_sends

theorem receivePipe_numbered {line : Text} {input : Int}
    (h : receivePipe s line fd = .ok (.accepted s' effects input)) :
    SameNumberedPipes s s' ∧ forks effects = [] := by
  obtain ⟨-, rfl, rfl⟩ | ⟨sendid, recvid, -, -, -, -, -, rfl, message, rfl, -⟩ :=
    receivePipe_accepted h
  · exact ⟨.refl _, rfl⟩
  · exact ⟨⟨rfl, rfl⟩, forks_announce⟩

theorem sendPipe_forks {line : Text} {input input' : Int}
    (h : sendPipe s line fd input = .ok (.accepted s' effects input')) : forks effects = [] := by
  unfold sendPipe at h
  split at h
  next =>
    split at h
    next => contradiction
    next =>
      split at h
      next =>
        split at h
        next => contradiction
        next =>
          split at h
          next => simp at h
          next =>
            cases h
            exact forks_announce
      next => simp at h
  next =>
    cases h
    rfl

theorem checkUserPipes_numbered {line : Text} {result : Except Message Int}
    (h : checkUserPipes s line fd = .ok (s', effects, result)) :
    SameNumberedPipes s s' ∧ forks effects = [] := by
  unfold checkUserPipes at h
  split at h
  next => contradiction
  next =>
    cases h
    exact ⟨.refl s, rfl⟩
  next hreceive =>
    obtain ⟨hsame, hforks⟩ := receivePipe_numbered hreceive
    split at h
    next => contradiction
    next =>
      cases h
      exact ⟨hsame, hforks⟩
    next hsend =>
      obtain ⟨rfl, -⟩ := sendPipe_accepted hsend
      have hmore := sendPipe_forks hsend
      cases h
      exact ⟨hsame, by rw [forks_append, hforks, hmore]; rfl⟩

theorem SendsOnly.noForks (h : SendsOnly effects) : forks effects = [] := by
  induction effects with
  | nil => rfl
  | cons e effects ih =>
    obtain ⟨fd, message, rfl⟩ := h e List.mem_cons_self
    exact ih fun e he => h e (List.mem_cons_of_mem _ he)

theorem BuiltinTables.numbered {cmd : Text} {b : Builtin} (h : BuiltinTables s fd cmd b s') :
    SameNumberedPipes s s' := by
  cases h <;> exact ⟨rfl, rfl⟩

theorem runLine_ran {reading : Reading} {getInput : Nat} {outputFd input : Int}
    {calls : Nat → ParserCall} {o : Outcome} (hne : reading.commands ≠ [])
    (hbuiltin : builtin reading.commands = none)
    (hget : getInput = 0 ∨ getInput = 1 ∨ getInput = 2)
    (h : runLine s fd reading getInput outputFd input calls = .ok o) :
    SameNumberedPipes (afterLine s fd getInput (linePipe reading calls)) o.server ∧
      numberedInput o.effects = (dueEntry s fd).map PipeInfo.inputNum ∧
      numberedOutput o.effects =
        if getInput = 2 then some .new
        else if getInput = 1 then some (.shared outputFd)
        else none := by
  simp only [runLine, hbuiltin] at h
  split at h
  next => contradiction
  next r hrun =>
    cases h
    obtain ⟨cmd, cmds, hcmds⟩ := List.exists_cons_of_ne_nil hne
    rw [hcmds] at hrun
    obtain ⟨children, hdone⟩ := runCommands_numbered hrun
    obtain ⟨args, hargs, henters⟩ := hdone.head
    obtain ⟨last, hlast, hleaves⟩ := hdone.getLast
    have hforks : forks r.effects = children := hdone.forks
    refine ⟨?_, ?_, ?_⟩
    · have hpipes := hdone.pipes
      have hlength : linePipe reading calls = (calls (0 + cmds.length)).getData := by
        rw [linePipe, hcmds, List.length_cons, Nat.add_sub_cancel, Nat.zero_add]
      rw [hlength]
      rcases hget with rfl | rfl | rfl
      · exact hpipes
      · exact hpipes
      · exact hpipes
    · rw [numberedInput, hforks, hargs, Option.bind_some, henters.enter]
      have hdue : (takeDue s fd true).2 = dueEntry s fd := rfl
      cases hentry : dueEntry s fd with
      | none =>
        simp [takeDue, hentry]
      | some entry =>
        have hinput := henters.input entry (by simp [takeDue, hentry])
        simp [takeDue, hentry, hinput]
    · rw [numberedOutput, hforks, hlast, Option.bind_some, hleaves.getInput, hleaves.output]
      rcases hget with rfl | rfl | rfl <;> rfl

theorem claimEntry_getInput (pipeNumber : Option Int) :
    (claimEntry s fd pipeNumber).2.1 = 0 ∨ (claimEntry s fd pipeNumber).2.1 = 1 ∨
      (claimEntry s fd pipeNumber).2.1 = 2 := by
  cases pipeNumber with
  | none => exact .inl rfl
  | some n =>
    simp only [claimEntry]
    cases findTarget s fd n with
    | none => exact .inr (.inr rfl)
    | some i => exact .inr (.inl rfl)

theorem SameNumberedPipes.lineDone {middle : Server} {line : Text} {calls : Nat → ParserCall}
    (hdone : LineDone s middle fd line calls effects) (h : SameNumberedPipes middle s')
    (hforks : forks more = []) : LineDone s s' fd line calls (effects ++ more) := by
  have hsame : forks (effects ++ more) = forks effects := by
    rw [forks_append, hforks, List.append_nil]
  cases hdone with
  | unread hread hold hnone => exact .unread hread (hold.trans h) (hsame.trans hnone)
  | stopped reading hread hstop hold hnone =>
    exact .stopped reading hread hstop (hold.trans h) (hsame.trans hnone)
  | ran reading claimed getInput outputFd hread haccept hbuiltin hclaim hold hinput houtput =>
    refine .ran reading claimed getInput outputFd hread haccept hbuiltin hclaim (hold.trans h) ?_ ?_
    · rw [numberedInput, hsame]
      exact hinput
    · rw [numberedOutput, hsame]
      exact houtput

theorem doExec_numbered {cmd : Text} {calls : Nat → ParserCall} {o : Outcome}
    (h : doExec s cmd fd calls = .ok o) : LineDone s o.server fd cmd calls o.effects := by
  obtain ⟨hread, rfl⟩ | ⟨reading, hread, ⟨s₂, effects, message, hcheck, rfl⟩ |
    ⟨s₂, effects, input, o', hcheck, hline, rfl⟩⟩ := doExec_cases h
  · exact .unread hread (.refl s) rfl
  · obtain ⟨hsame, hforks⟩ := checkUserPipes_numbered hcheck
    refine .stopped reading hread (.inl ?_) hsame (by rw [forks_append, hforks]; rfl)
    simp [rejection, hread, hcheck]
  · obtain ⟨hsame, hforks⟩ := checkUserPipes_numbered hcheck
    have haccept : rejection s cmd fd = none := by simp [rejection, hread, hcheck]
    cases hbuiltin : builtin reading.commands with
    | some b =>
      simp only [runLine, hbuiltin] at hline
      obtain ⟨htables, hsends⟩ := runBuiltin_cases hline
      refine .stopped reading hread (.inr (by simp [hbuiltin])) (hsame.trans htables.numbered) ?_
      rw [forks_append, hforks, hsends.noForks]
      rfl
    | none =>
      obtain ⟨hpipes, hinput, houtput⟩ := runLine_ran (readLine_commands hread) hbuiltin
        (claimEntry_getInput reading.pipeNumber) hline
      have hafter : SameNumberedPipes
          (afterLine (claimEntry s fd reading.pipeNumber).1 fd
            (claimEntry s fd reading.pipeNumber).2.1 (linePipe reading calls))
          (afterLine s₂ fd (claimEntry s fd reading.pipeNumber).2.1 (linePipe reading calls)) := by
        unfold afterLine
        split
        · exact hsame.countDown.completeEntry _
        · exact hsame.countDown
      have hall : forks (effects ++ o'.effects) = forks o'.effects := by
        rw [forks_append, hforks, List.nil_append]
      rw [hsame.dueEntry] at hinput
      refine .ran reading (claimEntry s fd reading.pipeNumber).1
        (claimEntry s fd reading.pipeNumber).2.1 (claimEntry s fd reading.pipeNumber).2.2 hread
        haccept hbuiltin rfl (hafter.trans hpipes) ?_ ?_
      · rw [numberedInput, hall]
        exact hinput
      · rw [numberedOutput, hall]
        exact houtput

theorem logout_forks (h : logout s fd = .ok (s', effects)) : forks effects = [] := by
  obtain ⟨slots, userPipe, told, name, -, rfl⟩ := logout_eq h
  exact forks_sends

theorem step_line_numbered {chunk : Text} {calls : Nat → ParserCall}
    (h : step s (.line fd chunk calls) = .ok (s', effects)) :
    LineDone s s' fd (lineOf chunk) calls effects := by
  obtain ⟨o, hexec, ⟨-, more, hout, rfl⟩ | ⟨-, rfl, rfl⟩⟩ := step_line_effects h
  · have hdone := doExec_numbered hexec
    exact (logout_frame hout).toSameNumberedPipes.lineDone hdone (logout_forks hout)
  · exact (SameNumberedPipes.refl _).lineDone (doExec_numbered hexec) rfl

end NetworkProgramming.Single
