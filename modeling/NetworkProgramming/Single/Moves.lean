import NetworkProgramming.Single.Server
import Mathlib.Logic.Relation

/-! Everything a line of a client can do to the tables is a chain of a few
elementary moves; what each move keeps, a line keeps. -/
namespace NetworkProgramming.Single
open Library.CString CommandLine

inductive Move (sockfd : Int) : Server → Server → Prop
  | claim (s : Server) (pipeNumber : Int) : Move sockfd s (claimNew s sockfd pipeNumber)
  | receive (s : Server) (sendid : Int) (recvid : Nat) (hpresent : s.present sendid = true)
      (hown : s.ownId sockfd = .ok recvid) (hflag : (s.userPipe sendid.toNat recvid).flag ≠ 0) :
      Move sockfd s (s.setUserPipe sendid.toNat recvid
        { s.userPipe sendid.toNat recvid with flag := 0 })
  | send (s : Server) (sendid : Nat) (recvid pipeIn : Int) (hpresent : s.present recvid = true)
      (hown : s.ownId sockfd = .ok sendid) (hflag : (s.userPipe sendid recvid.toNat).flag = 0) :
      Move sockfd s (s.setUserPipe sendid recvid.toNat ⟨pipeIn, 1⟩)
  | countDown (s : Server) : Move sockfd s (countDown s sockfd)
  | complete (s : Server) (pipe : Int × Int) : Move sockfd s (completeEntry s pipe)
  | setenv (s : Server) (i : Nat) (key val : Text) (m : ClientMap)
      (hown : s.clientsMap.indexOf sockfd = some i) (hput : s.clientsMap.putEnv i key val = .ok m) :
      Move sockfd s { s with clientsMap := m }
  | name (s : Server) (i : Nat) (nickname : Text) (hown : s.clientsMap.indexOf sockfd = some i) :
      Move sockfd s
        { s with
          clientsMap :=
            { s.clientsMap with nickname := Function.update s.clientsMap.nickname i nickname } }

abbrev Moves (sockfd : Int) : Server → Server → Prop := Relation.ReflTransGen (Move sockfd)

variable {s s' : Server} {sockfd : Int}

theorem Move.moves (h : Move sockfd s s') : Moves sockfd s s' := Relation.ReflTransGen.single h

theorem claimEntry_moves (pipeNumber : Option Int) :
    Moves sockfd s (claimEntry s sockfd pipeNumber).1 := by
  cases pipeNumber with
  | none => exact .refl
  | some n =>
    simp only [claimEntry]
    cases findTarget s sockfd n with
    | some i => exact .refl
    | none => exact (Move.claim s n).moves

theorem receivePipe_accepted {line : Text} {effects : List Effect} {input : Int}
    (h : receivePipe s line sockfd = .ok (.accepted s' effects input)) :
    ('<' ∉ line ∧ s' = s ∧ effects = []) ∨
      ∃ sendid recvid, '<' ∈ line ∧ userId '<' line = some sendid ∧ s.present sendid = true ∧
        s.ownId sockfd = .ok recvid ∧ (s.userPipe sendid.toNat recvid).flag ≠ 0 ∧
        s' = s.setUserPipe sendid.toNat recvid
          { s.userPipe sendid.toNat recvid with flag := 0 } ∧
        ∃ message, effects = s.announce message ∧ ∃ a b c d e, message = .justReceived a b c d e := by
  unfold receivePipe at h
  split at h
  next hmem =>
    split at h
    next => contradiction
    next sendid hid =>
      split at h
      next hpresent =>
        split at h
        next => contradiction
        next recvid hown =>
          dsimp only at h
          split at h
          next => simp at h
          next hflag =>
            simp only [Except.ok.injEq, Checked.accepted.injEq] at h
            obtain ⟨rfl, rfl, -⟩ := h
            exact .inr ⟨sendid, recvid, hmem, hid, hpresent, hown, hflag, rfl, _, rfl, _, _, _, _, _,
              rfl⟩
      next => simp at h
  next hmem =>
    simp only [Except.ok.injEq, Checked.accepted.injEq] at h
    exact .inl ⟨hmem, h.1.symm, h.2.1.symm⟩

theorem receivePipe_moves {line : Text} {effects : List Effect} {input : Int}
    (h : receivePipe s line sockfd = .ok (.accepted s' effects input)) : Moves sockfd s s' := by
  obtain ⟨-, rfl, -⟩ | ⟨sendid, recvid, -, -, hpresent, hown, hflag, rfl, -⟩ :=
    receivePipe_accepted h
  · exact .refl
  · exact (Move.receive s sendid recvid hpresent hown hflag).moves

theorem sendPipe_accepted {line : Text} {effects : List Effect} {input input' : Int}
    (h : sendPipe s line sockfd input = .ok (.accepted s' effects input')) :
    s' = s ∧ input' = input := by
  unfold sendPipe at h
  split at h
  next =>
    split at h
    next => contradiction
    next =>
      split at h
      next =>
        split at h
        next => contradiction
        next =>
          split at h
          next => simp at h
          next =>
            simp only [Except.ok.injEq, Checked.accepted.injEq] at h
            exact ⟨h.1.symm, h.2.2.symm⟩
      next => simp at h
  next =>
    simp only [Except.ok.injEq, Checked.accepted.injEq] at h
    exact ⟨h.1.symm, h.2.2.symm⟩

theorem checkUserPipes_moves {line : Text} {effects : List Effect} {result : Except Message Int}
    (h : checkUserPipes s line sockfd = .ok (s', effects, result)) : Moves sockfd s s' := by
  unfold checkUserPipes at h
  split at h
  next => contradiction
  next =>
    simp only [Except.ok.injEq, Prod.mk.injEq] at h
    rw [← h.1]
  next hreceive =>
    have hmoves := receivePipe_moves hreceive
    split at h
    next => contradiction
    next =>
      simp only [Except.ok.injEq, Prod.mk.injEq] at h
      rwa [← h.1]
    next hsend =>
      obtain ⟨rfl, -⟩ := sendPipe_accepted hsend
      simp only [Except.ok.injEq, Prod.mk.injEq] at h
      rwa [← h.1]

theorem parserSends_moves {cmd : Text} {pipeIn : Int}
    (h : parserSends s cmd sockfd pipeIn = .ok s') : Moves sockfd s s' := by
  unfold parserSends at h
  split at h
  next =>
    split at h
    next => contradiction
    next recvid _ =>
      split at h
      next => contradiction
      next sendid hown =>
        split at h
        next hset =>
          cases h
          exact (Move.send s sendid recvid pipeIn hset.1 hown hset.2).moves
        next =>
          split at h
          next =>
            cases h
            exact .refl
          next => contradiction
  next =>
    cases h
    exact .refl

theorem parserReceives_moves {cmd : Text} {effects : List Effect}
    (h : parserReceives s cmd sockfd = .ok (s', effects)) : Moves sockfd s s' := by
  unfold parserReceives at h
  split at h
  next =>
    split at h
    next => contradiction
    next sendid _ =>
      split at h
      next hpresent =>
        split at h
        next => contradiction
        next recvid hown =>
          dsimp only at h
          split at h
          next hflag =>
            simp only [Except.ok.injEq, Prod.mk.injEq] at h
            rw [← h.1]
            exact (Move.receive s sendid recvid hpresent hown (by simp [hflag])).moves
          next =>
            simp only [Except.ok.injEq, Prod.mk.injEq] at h
            rw [← h.1]
      next =>
        simp only [Except.ok.injEq, Prod.mk.injEq] at h
        rw [← h.1]
  next =>
    simp only [Except.ok.injEq, Prod.mk.injEq] at h
    rw [← h.1]

theorem parser_moves {args : ParserArgs} {effects : List Effect}
    (h : parser s args = .ok (s', effects)) : Moves args.sockfd s s' := by
  unfold parser at h
  split at h
  next => contradiction
  next middle hsends =>
    split at h
    next => contradiction
    next hreceives =>
      simp only [Except.ok.injEq, Prod.mk.injEq] at h
      rw [← h.1]
      exact (parserSends_moves hsends).trans (parserReceives_moves hreceives)

theorem takeDue_moves (first : Bool) : Moves sockfd s (takeDue s sockfd first).1 := by
  cases first with
  | false => exact .refl
  | true => exact (Move.countDown s).moves

theorem finishRound_moves (last : Bool) (getInput : Nat) (pipe : Int × Int) :
    Moves sockfd s (finishRound s last getInput pipe).1 := by
  unfold finishRound
  split
  · split
    · exact .refl
    · split
      · exact (Move.complete s pipe).moves
      · exact .refl
  · exact .refl

theorem runCommand_moves {line : Line} {first last : Bool} {cmd : Text} {call : ParserCall}
    {r r' : Round} (h : runCommand line first last cmd call r = .ok r') :
    Moves line.sockfd r.server r'.server := by
  unfold runCommand at h
  dsimp only at h
  split at h
  next => contradiction
  next =>
    split at h
    next => contradiction
    next middle effects hparser =>
      cases h
      exact ((takeDue_moves first).trans (parser_moves hparser)).trans (finishRound_moves _ _ _)

theorem runCommands_moves {line : Line} {calls : Nat → ParserCall} {i : Nat} {cmds : List Text}
    {r r' : Round} (h : runCommands line calls i cmds r = .ok r') :
    Moves line.sockfd r.server r'.server := by
  induction cmds generalizing i r with
  | nil =>
    cases h
    exact .refl
  | cons cmd cmds ih =>
    simp only [runCommands] at h
    split at h
    next => contradiction
    next middle hfirst => exact (runCommand_moves hfirst).trans (ih h)

def SendsOnly (effects : List Effect) : Prop := ∀ e ∈ effects, ∃ fd message, e = .send fd message

theorem SendsOnly.nil : SendsOnly [] := by simp [SendsOnly]

theorem SendsOnly.append {effects more : List Effect} (h : SendsOnly effects)
    (hmore : SendsOnly more) : SendsOnly (effects ++ more) := by
  intro e he
  obtain he | he := List.mem_append.mp he
  · exact h e he
  · exact hmore e he

theorem SendsOnly.single {fd : Int} {message : Message} : SendsOnly [.send fd message] := by
  simp [SendsOnly]

theorem sendsOnly_map {ι : Type} {is : List ι} {fds : ι → Int} {message : ι → Message} :
    SendsOnly (is.map fun i => .send (fds i) (message i)) := by
  intro e he
  obtain ⟨i, -, rfl⟩ := List.mem_map.mp he
  exact ⟨fds i, message i, rfl⟩

/-- The tables after a built-in: only `setenv` and `name` change an entry, in the
caller's own slot. -/
inductive BuiltinTables (s : Server) (sockfd : Int) (cmd : Text) : Builtin → Server → Prop
  | same (b : Builtin) : BuiltinTables s sockfd cmd b s
  | setenv (i : Nat) (key val : Text) (m : ClientMap) (hown : s.clientsMap.indexOf sockfd = some i)
      (hput : s.clientsMap.putEnv i key val = .ok m) :
      BuiltinTables s sockfd cmd .setenv { s with clientsMap := m }
  | name (i : Nat) (nickname : Text) (hword : (splitSpace cmd)[1]? = some nickname)
      (hfree : nameTaken s.clientsMap sockfd nickname = false)
      (hown : s.clientsMap.indexOf sockfd = some i) :
      BuiltinTables s sockfd cmd .name
        { s with
          clientsMap :=
            { s.clientsMap with nickname := Function.update s.clientsMap.nickname i nickname } }

theorem executeTell_cases {operand : List Text} {o : Outcome}
    (h : executeTell s sockfd operand = .ok o) : o.server = s ∧ SendsOnly o.effects := by
  unfold executeTell at h
  split at h
  next => contradiction
  next =>
    dsimp only at h
    split at h
    next =>
      split at h
      next =>
        cases h
        exact ⟨rfl, .single⟩
      next =>
        split at h
        next =>
          cases h
          exact ⟨rfl, .single⟩
        next => contradiction
        next => contradiction
    next => contradiction

theorem executeYell_cases {operand : List Text} {o : Outcome}
    (h : executeYell s sockfd operand = .ok o) : o.server = s ∧ SendsOnly o.effects := by
  unfold executeYell at h
  split at h
  next =>
    cases h
    exact ⟨rfl, sendsOnly_map⟩
  next => contradiction
  next => contradiction

theorem executeName_cases {cmd : Text} {o : Outcome}
    (h : executeName s sockfd (splitSpace cmd) = .ok o) :
    BuiltinTables s sockfd cmd .name o.server ∧ SendsOnly o.effects := by
  unfold executeName at h
  split at h
  next => contradiction
  next name hword =>
    split at h
    next =>
      cases h
      exact ⟨.same .name, .single⟩
    next hfree =>
      split at h
      next => contradiction
      next i hown =>
        cases h
        exact ⟨.name i name hword (by simpa using hfree) hown, sendsOnly_map⟩

theorem runBuiltin_cases {cmd : Text} {b : Builtin} {o : Outcome}
    (h : runBuiltin s sockfd cmd b = .ok o) :
    BuiltinTables s sockfd cmd b o.server ∧ SendsOnly o.effects := by
  cases b with
  | printenv =>
    simp only [runBuiltin] at h
    split at h
    next => contradiction
    next key _ =>
      cases hprint : doPrintenv s sockfd key with
      | error fault => simp [hprint, Except.map] at h
      | ok value =>
        simp only [hprint, Except.map, Except.ok.injEq] at h
        subst h
        exact ⟨.same .printenv, .single⟩
  | setenv =>
    simp only [runBuiltin] at h
    split at h
    next key val _ _ =>
      cases hload : loadEnv s sockfd (key ++ '=' :: val) with
      | error fault => simp [hload, Except.map] at h
      | ok next =>
        simp only [hload, Except.map, Except.ok.injEq] at h
        subst h
        obtain ⟨i, key, val, rest, m, -, hown, hput, rfl⟩ := loadEnv_eq hload
        exact ⟨.setenv i key val m hown hput, .nil⟩
    next => contradiction
  | exit =>
    cases h
    exact ⟨.same .exit, .nil⟩
  | who =>
    simp only [runBuiltin, executeWho] at h
    split at h
    next =>
      cases h
      exact ⟨.same .who, sendsOnly_map⟩
    next => contradiction
  | tell =>
    obtain ⟨hserver, hsends⟩ := executeTell_cases h
    rw [hserver]
    exact ⟨.same .tell, hsends⟩
  | yell =>
    obtain ⟨hserver, hsends⟩ := executeYell_cases h
    rw [hserver]
    exact ⟨.same .yell, hsends⟩
  | name => exact executeName_cases h

theorem BuiltinTables.moves {cmd : Text} {b : Builtin} (h : BuiltinTables s sockfd cmd b s') :
    Moves sockfd s s' := by
  cases h with
  | same => exact .refl
  | setenv i key val m hown hput => exact (Move.setenv s i key val m hown hput).moves
  | name i nickname _ _ hown => exact (Move.name s i nickname hown).moves

theorem runLine_moves {reading : Reading} {getInput : Nat} {outputFd input : Int}
    {calls : Nat → ParserCall} {o : Outcome}
    (h : runLine s sockfd reading getInput outputFd input calls = .ok o) :
    Moves sockfd s o.server := by
  unfold runLine at h
  split at h
  next => exact (runBuiltin_cases h).1.moves
  next =>
    dsimp only at h
    split at h
    next => contradiction
    next r hrun =>
      cases h
      exact runCommands_moves hrun

theorem doExec_cases {cmd : Text} {calls : Nat → ParserCall} {o : Outcome}
    (h : doExec s cmd sockfd calls = .ok o) :
    (readLine cmd = none ∧ o = ⟨s, [], 0⟩) ∨
      ∃ reading, readLine cmd = some reading ∧
        ((∃ s₂ effects message,
            checkUserPipes (claimEntry s sockfd reading.pipeNumber).1 cmd sockfd =
              .ok (s₂, effects, .error message) ∧
            o = ⟨s₂, effects ++ [.send sockfd message], 0⟩) ∨
          ∃ s₂ effects input o',
            checkUserPipes (claimEntry s sockfd reading.pipeNumber).1 cmd sockfd =
              .ok (s₂, effects, .ok input) ∧
            runLine s₂ sockfd reading (claimEntry s sockfd reading.pipeNumber).2.1
              (claimEntry s sockfd reading.pipeNumber).2.2 input calls = .ok o' ∧
            o = { o' with effects := effects ++ o'.effects }) := by
  unfold doExec at h
  split at h
  next hread =>
    cases h
    exact .inl ⟨hread, rfl⟩
  next reading hread =>
    refine .inr ⟨reading, hread, ?_⟩
    dsimp only at h
    split at h
    next => contradiction
    next s₂ effects message hcheck =>
      cases h
      exact .inl ⟨s₂, effects, message, hcheck, rfl⟩
    next s₂ effects input hcheck =>
      cases hline : runLine s₂ sockfd reading (claimEntry s sockfd reading.pipeNumber).2.1
          (claimEntry s sockfd reading.pipeNumber).2.2 input calls with
      | error fault => simp [hline, Except.map] at h
      | ok o' =>
        simp only [hline, Except.map, Except.ok.injEq] at h
        exact .inr ⟨s₂, effects, input, o', hcheck, hline, h.symm⟩

theorem doExec_moves {cmd : Text} {calls : Nat → ParserCall} {o : Outcome}
    (h : doExec s cmd sockfd calls = .ok o) : Moves sockfd s o.server := by
  obtain ⟨-, rfl⟩ | ⟨reading, -, ⟨s₂, _, _, hcheck, rfl⟩ | ⟨s₂, _, _, o', hcheck, hline, rfl⟩⟩ :=
    doExec_cases h
  · exact .refl
  · exact (claimEntry_moves _).trans (checkUserPipes_moves hcheck)
  · have hrun : Moves sockfd s₂ o'.server := runLine_moves hline
    exact ((claimEntry_moves _).trans (checkUserPipes_moves hcheck)).trans hrun

/-- A preorder that every move respects is respected by whole lines. -/
theorem Moves.lift {R : Server → Server → Prop} (hrefl : ∀ s, R s s)
    (htrans : ∀ {a b c}, R a b → R b c → R a c) (hmove : ∀ {a b}, Move sockfd a b → R a b)
    (h : Moves sockfd s s') : R s s' := by
  induction h with
  | refl => exact hrefl _
  | tail _ hlast ih => exact htrans ih (hmove hlast)

end NetworkProgramming.Single
