import NetworkProgramming.Single.Slots

/-! Lines that `do_exec` answers with an error about a user pipe, and what they
leave behind. -/
namespace NetworkProgramming.Single
open Library.CString Library.Run CommandLine

variable {s s' : Server} {sockfd : Int} {line : Text}

/-- The error message of the token checks, made after the numbered pipe of the
line was looked up or claimed. -/
def rejection (s : Server) (line : Text) (sockfd : Int) : Option Message :=
  (readLine line).bind fun reading =>
    match checkUserPipes (claimEntry s sockfd reading.pipeNumber).1 line sockfd with
    | .ok (_, _, .error message) => some message
    | _ => none

def Message.announcesPipe : Message → Bool
  | .justReceived .. => true
  | .justPiped .. => true
  | _ => false

/-- No trace of a line in the tables of pipes, and none announced. -/
structure Untouched (s : Server) (o : Outcome) : Prop where
  userPipe : o.server.userPipe = s.userPipe
  clientPipe : o.server.clientPipe = s.clientPipe
  pos : o.server.pos = s.pos
  quiet : ∀ fd message, .send fd message ∈ o.effects → message.announcesPipe = false

/-- The line ends in a number no waiting entry of the client counts down to. -/
def NeedsEntry (s : Server) (line : Text) (sockfd : Int) : Prop :=
  ∃ reading pipeNumber, readLine line = some reading ∧ reading.pipeNumber = some pipeNumber ∧
    findTarget s sockfd pipeNumber = none

/-- The line has a `<n`, and that user pipe exists. -/
def TakesPipe (s : Server) (line : Text) (sockfd : Int) : Prop :=
  '<' ∈ line ∧ ∃ sendid recvid, userId '<' line = some sendid ∧ s.present sendid = true ∧
    s.ownId sockfd = .ok recvid ∧ (s.userPipe sendid.toNat recvid).flag ≠ 0

theorem Move.pos_le (h : Move sockfd s s') (hpos : s.pos ≤ 1000) : s'.pos ≤ 1000 := by
  cases h with
  | complete =>
    simp only [completeEntry]
    split <;> omega
  | claim => exact hpos
  | receive => exact hpos
  | send => exact hpos
  | countDown => exact hpos
  | setenv => exact hpos
  | name => exact hpos

theorem pos_le_run {limit : Nat} (es : List Event) (s : Server)
    (hrun : exec (next limit) Server.initial es = some s) : s.pos ≤ 1000 := by
  refine invariant_always (I := fun _ s => s.pos ≤ 1000) (by decide) ?_ es s hrun
  intro es s e s' hs hpos hnext
  obtain ⟨-, effects, hstep⟩ := next_eq_some hnext
  cases e with
  | login ssock fsin =>
    rw [(login_frame hstep).pos]
    exact hpos
  | line fd chunk calls =>
    obtain ⟨o, hexec, hend⟩ := step_line_cases hstep
    have hline : o.server.pos ≤ 1000 :=
      Moves.lift (R := fun a b => a.pos ≤ 1000 → b.pos ≤ 1000) (fun _ => id)
        (fun hab hbc => hbc ∘ hab) Move.pos_le (doExec_moves hexec) hpos
    rcases hend with ⟨-, more, hout⟩ | ⟨-, rfl⟩
    · rw [(logout_frame hout).pos]
      exact hline
    · exact hline

/-- The new entry always shows: no entry below 2047, so not that at `pos`, had
this count and this owner. -/
theorem claimNew_changes {pipeNumber : Int} (hpos : s.pos ≤ 1000)
    (hnone : findTarget s sockfd pipeNumber = none) :
    (claimNew s sockfd pipeNumber).clientPipe ≠ s.clientPipe := by
  intro heq
  have hentry := congrFun heq s.pos
  simp only [claimNew, Function.update_self] at hentry
  rw [findTarget, List.find?_eq_none] at hnone
  have hmiss := hnone s.pos (by
    rw [List.mem_range, maxPipeNum]
    omega)
  rw [← hentry] at hmiss
  simp [PipeInfo.waits] at hmiss

theorem claimEntry_of_target {pipeNumber : Option Int}
    (h : ∀ n, pipeNumber = some n → findTarget s sockfd n ≠ none) :
    (claimEntry s sockfd pipeNumber).1 = s := by
  cases pipeNumber with
  | none => rfl
  | some n =>
    cases hfind : findTarget s sockfd n with
    | none => exact absurd hfind (h n rfl)
    | some i => simp [claimEntry, hfind]

theorem claimEntry_new {pipeNumber : Int} (h : findTarget s sockfd pipeNumber = none) :
    claimEntry s sockfd (some pipeNumber) = (claimNew s sockfd pipeNumber, 2, sockfd) := by
  simp [claimEntry, h]

theorem claimEntry_same (s : Server) (sockfd : Int) (pipeNumber : Option Int) :
    (claimEntry s sockfd pipeNumber).1.userPipe = s.userPipe ∧
      (claimEntry s sockfd pipeNumber).1.clientsMap = s.clientsMap ∧
      (claimEntry s sockfd pipeNumber).1.pos = s.pos := by
  cases pipeNumber with
  | none => exact ⟨rfl, rfl, rfl⟩
  | some n =>
    simp only [claimEntry]
    cases findTarget s sockfd n with
    | none => exact ⟨rfl, rfl, rfl⟩
    | some i => exact ⟨rfl, rfl, rfl⟩

theorem takesPipe_congr (hpipe : s'.userPipe = s.userPipe) (hmap : s'.clientsMap = s.clientsMap) :
    TakesPipe s' line sockfd ↔ TakesPipe s line sockfd := by
  simp only [TakesPipe, Server.present, Server.ownId, hpipe, hmap]

theorem receivePipe_not_accepted {message : Message}
    (h : receivePipe s line sockfd = .ok (.rejected message)) :
    ¬ TakesPipe s line sockfd ∧ message.announcesPipe = false := by
  unfold receivePipe at h
  split at h
  next hmem =>
    split at h
    next => contradiction
    next sendid hid =>
      split at h
      next hpresent =>
        split at h
        next => contradiction
        next recvid hown =>
          dsimp only at h
          split at h
          next hflag =>
            cases h
            refine ⟨?_, rfl⟩
            rintro ⟨-, sendid', recvid', hid', -, hown', hflag'⟩
            rw [hid] at hid'
            rw [hown] at hown'
            cases hid'
            cases hown'
            exact hflag' hflag
          next => simp at h
      next hpresent =>
        cases h
        refine ⟨?_, rfl⟩
        rintro ⟨-, sendid', recvid', hid', hpresent', -⟩
        rw [hid] at hid'
        cases hid'
        exact hpresent hpresent'
  next => simp at h

theorem receivePipe_takes {effects : List Effect} {input : Int}
    (h : receivePipe s line sockfd = .ok (.accepted s' effects input)) :
    (¬ TakesPipe s line sockfd ∧ s' = s ∧ effects = []) ∨
      TakesPipe s line sockfd ∧ s'.userPipe ≠ s.userPipe := by
  obtain ⟨hmem, rfl, rfl⟩ | ⟨sendid, recvid, hmem, hid, hpresent, hown, hflag, rfl, -⟩ :=
    receivePipe_accepted h
  · exact .inl ⟨fun htakes => hmem htakes.1, rfl, rfl⟩
  · refine .inr ⟨⟨hmem, sendid, recvid, hid, hpresent, hown, hflag⟩, ?_⟩
    -- the flag of the cell was set before, and is clear behind
    intro heq
    have hcell := congrFun (congrFun heq sendid.toNat) recvid
    rw [Server.setUserPipe_userPipe, if_pos ⟨rfl, rfl⟩] at hcell
    rw [← hcell] at hflag
    exact hflag rfl

theorem sendPipe_rejected {input : Int} {message : Message}
    (h : sendPipe s line sockfd input = .ok (.rejected message)) :
    message.announcesPipe = false := by
  unfold sendPipe at h
  split at h
  next =>
    split at h
    next => contradiction
    next =>
      split at h
      next =>
        split at h
        next => contradiction
        next =>
          split at h
          next =>
            cases h
            rfl
          next => simp at h
      next =>
        cases h
        rfl
  next => simp at h

/-- A rejected line has kept its `<n` pipe, or has used it up. -/
theorem checkUserPipes_rejected {effects : List Effect} {message : Message}
    (h : checkUserPipes s line sockfd = .ok (s', effects, .error message)) :
    message.announcesPipe = false ∧
      ((¬ TakesPipe s line sockfd ∧ s' = s ∧ effects = []) ∨
        TakesPipe s line sockfd ∧ s'.userPipe ≠ s.userPipe) := by
  unfold checkUserPipes at h
  split at h
  next => contradiction
  next hreceive =>
    simp only [Except.ok.injEq, Prod.mk.injEq, Except.error.injEq] at h
    obtain ⟨rfl, rfl, rfl⟩ := h
    obtain ⟨hkept, hquiet⟩ := receivePipe_not_accepted hreceive
    exact ⟨hquiet, .inl ⟨hkept, rfl, rfl⟩⟩
  next hreceive =>
    split at h
    next => contradiction
    next hsend =>
      simp only [Except.ok.injEq, Prod.mk.injEq, Except.error.injEq] at h
      obtain ⟨rfl, rfl, rfl⟩ := h
      exact ⟨sendPipe_rejected hsend, receivePipe_takes hreceive⟩
    next => simp at h

theorem rejection_cases {calls : Nat → ParserCall} {o : Outcome}
    (hreject : rejection s line sockfd ≠ none) (h : doExec s line sockfd calls = .ok o) :
    ∃ reading s₂ effects message, readLine line = some reading ∧
      checkUserPipes (claimEntry s sockfd reading.pipeNumber).1 line sockfd =
        .ok (s₂, effects, .error message) ∧
      o = ⟨s₂, effects ++ [.send sockfd message], 0⟩ := by
  obtain ⟨hread, -⟩ | ⟨reading, hread, ⟨s₂, effects, message, hcheck, rfl⟩ |
    ⟨s₂, effects, input, o', hcheck, -⟩⟩ := doExec_cases h
  · simp [rejection, hread] at hreject
  · exact ⟨reading, s₂, effects, message, hread, hcheck, rfl⟩
  · simp [rejection, hread, hcheck] at hreject

/-- A rejected line leaves no trace exactly when it claimed no entry and its
`<n`, if it has one, names no existing pipe. -/
theorem rejected_untouched_iff (limit : Nat) (es : List Event) (s : Server)
    (hrun : exec (next limit) Server.initial es = some s) (sockfd : Int) (line : Text)
    (calls : Nat → ParserCall) (o : Outcome) (hreject : rejection s line sockfd ≠ none)
    (h : doExec s line sockfd calls = .ok o) :
    Untouched s o ↔ ¬ NeedsEntry s line sockfd ∧ ¬ TakesPipe s line sockfd := by
  have hpos := pos_le_run es s hrun
  obtain ⟨reading, s₂, effects, message, hread, hcheck, rfl⟩ := rejection_cases hreject h
  obtain ⟨hpipe, hmap, hpos'⟩ := claimEntry_same s sockfd reading.pipeNumber
  obtain ⟨hquiet, hcases⟩ := checkUserPipes_rejected hcheck
  rw [takesPipe_congr hpipe hmap] at hcases
  constructor
  · intro huntouched
    rcases hcases with ⟨hkept, rfl, rfl⟩ | ⟨htakes, hchanged⟩
    · refine ⟨?_, hkept⟩
      rintro ⟨reading', pipeNumber, hread', hnumber, hnone⟩
      rw [hread] at hread'
      cases hread'
      have hclient := huntouched.clientPipe
      rw [hnumber, claimEntry_new hnone] at hclient
      exact claimNew_changes hpos hnone hclient
    · rw [hpipe] at hchanged
      exact absurd huntouched.userPipe hchanged
  · intro ⟨hentry, hkept⟩
    rcases hcases with ⟨-, rfl, rfl⟩ | ⟨htakes, -⟩
    · have hsame : (claimEntry s sockfd reading.pipeNumber).1 = s := by
        apply claimEntry_of_target
        intro n hn hnone
        exact hentry ⟨reading, n, hread, hn, hnone⟩
      rw [hsame]
      refine ⟨rfl, rfl, rfl, fun fd m hm => ?_⟩
      simp only [List.nil_append, List.mem_singleton, Effect.send.injEq] at hm
      rw [hm.2]
      exact hquiet
    · exact absurd htakes hkept

def oneClient : List Event := [.login 4 ⟨[127, 0, 0, 1], 4000⟩]

def sixSeven : Nat → ParserCall := fun _ => ⟨(6, 7), 0⟩

theorem rejected_untouched_iff_missingUser :
    ∃ s o, exec (next 30) Server.initial oneClient = some s ∧
      rejection s "ls <2".toList 4 ≠ none ∧ doExec s "ls <2".toList 4 sixSeven = .ok o ∧
      (Untouched s o ↔ ¬ NeedsEntry s "ls <2".toList 4 ∧ ¬ TakesPipe s "ls <2".toList 4) := by
  refine ⟨_, _, rfl, ?_, rfl, ?_⟩
  · decide
  · exact rejected_untouched_iff 30 oneClient _ rfl 4 "ls <2".toList sixSeven _ (by decide) rfl

/-- `ls <2|1` without a second user: rejected, but an entry counts down now. -/
theorem rejected_line_claims_entry :
    ∃ s o, exec (next 30) Server.initial oneClient = some s ∧ (4 : Int) ∈ s.allset ∧
      rejection s "ls <2|1".toList 4 = some (.noUser 2) ∧
      doExec s "ls <2|1".toList 4 sixSeven = .ok o ∧ ¬ Untouched s o := by
  obtain ⟨s, hrun, hlogged, htable, hpos, hother⟩ : ∃ s, exec (next 30) Server.initial oneClient =
      some s ∧ (4 : Int) ∈ s.allset ∧ s.clientPipe = Server.initial.clientPipe ∧ s.pos = 0 ∧
      s.present 2 = false := ⟨_, rfl, by decide, rfl, rfl, by decide⟩
  have hread : readLine "ls <2|1".toList = some ⟨["ls <2".toList], some 1, false⟩ := by decide
  have hnone : findTarget s 4 1 = none := by
    rw [findTarget, List.find?_eq_none]
    intro i _
    simp [htable, Server.initial, PipeInfo.waits]
  have hid : '<' ∈ "ls <2|1".toList ∧ userId '<' "ls <2|1".toList = some 2 := by decide
  have hcheck : checkUserPipes (claimNew s 4 1) "ls <2|1".toList 4 =
      .ok (claimNew s 4 1, [], .error (.noUser 2)) := by
    have hmissing : (claimNew s 4 1).present 2 = false := hother
    simp only [checkUserPipes, receivePipe, hid.2, if_pos hid.1, hmissing, Bool.false_eq_true,
      if_false]
  refine ⟨s, ⟨claimNew s 4 1, [.send 4 (.noUser 2)], 0⟩, hrun, hlogged, ?_, ?_, ?_⟩
  · simp only [rejection, hread, Option.bind_some, claimEntry_new hnone, hcheck]
  · simp only [doExec, hread, claimEntry_new hnone, hcheck, List.nil_append]
  · intro huntouched
    have hentry := congrArg PipeInfo.inputCount (congrFun huntouched.clientPipe 0)
    rw [htable] at hentry
    simp [claimNew, hpos, Server.initial, int32] at hentry

end NetworkProgramming.Single
