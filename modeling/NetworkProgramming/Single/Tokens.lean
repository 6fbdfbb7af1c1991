import NetworkProgramming.Single.Files
import NetworkProgramming.Single.NumberedLine

/-! What one line does to the user pipes and to the descriptors, when the tokens
of its commands are those that `do_exec` has checked. -/
namespace NetworkProgramming.Single
open Library.CString Library.Descriptors Library.Run CommandLine

def EndsIn (text : Text) (r : Nat) : Prop := ∃ front, text = front ++ '>' :: decimal r

def NothingToTake (s : Server) (cmd : Text) (sockfd : Int) : Prop :=
  '<' ∈ cmd → ∀ sendid recvid, userId '<' cmd = some sendid → s.ownId sockfd = .ok recvid →
    (s.userPipe sendid.toNat recvid).flag ≠ 1

structure SameUsers (s s' : Server) : Prop where
  userPipe : s'.userPipe = s.userPipe
  clientsMap : s'.clientsMap = s.clientsMap
  allset : s'.allset = s.allset

/-- `if(input) close(input)` -/
def inputCloses (input : Int) : List Int := if input ≠ 0 then [input] else []

/-- What a round closes behind its `pipe`, apart from a user pipe: the rest of
the numbered pipe that is due, and the numbers that `get_data` holds. -/
def strayCloses (due : Option PipeInfo) (getInput : Nat) (calls : Nat → ParserCall)
    (count i : Nat) : List Int :=
  (if i = 0 then (due.map fun entry => inputCloses entry.inputNum).getD []
    else inputCloses (calls (i - 1)).getData.1) ++
    if i + 1 = count ∧ getInput ≠ 0 then [] else [(calls i).getData.2]

variable {s s' mid : Server} {line : Line} {r r' : Round} {cmd : Text} {cmds : List Text}
  {calls : Nat → ParserCall} {call : ParserCall} {first last : Bool} {fd n : Int}
  {effects : List Effect}

theorem SameUsers.refl (s : Server) : SameUsers s s := ⟨rfl, rfl, rfl⟩

theorem SameUsers.trans {a b c : Server} (hab : SameUsers a b) (hbc : SameUsers b c) :
    SameUsers a c :=
  ⟨hbc.userPipe.trans hab.userPipe, hbc.clientsMap.trans hab.clientsMap,
    hbc.allset.trans hab.allset⟩

theorem SameUsers.ownId (h : SameUsers s s') : s'.ownId = s.ownId := by
  funext fd
  rw [Server.ownId, Server.ownId, h.clientsMap]

theorem SameUsers.present (h : SameUsers s s') : s'.present = s.present := by
  funext id
  rw [Server.present, Server.present, h.clientsMap]

theorem SameUsers.nothingToTake (h : SameUsers s s') (hnothing : NothingToTake s cmd fd) :
    NothingToTake s' cmd fd := by
  intro hmem sendid recvid hid hown
  rw [h.userPipe]
  rw [h.ownId] at hown
  exact hnothing hmem sendid recvid hid hown

theorem takeDue_sameUsers (s : Server) (fd : Int) (first : Bool) :
    SameUsers s (takeDue s fd first).1 := by
  cases first with
  | false => exact .refl s
  | true => exact ⟨rfl, rfl, rfl⟩

theorem finishRound_sameUsers (s : Server) (last : Bool) (getInput : Nat) (pipe : Int × Int) :
    SameUsers s (finishRound s last getInput pipe).1 := by
  unfold finishRound
  split
  · split
    · exact .refl s
    · split
      · exact ⟨rfl, rfl, rfl⟩
      · exact .refl s
  · exact .refl s

theorem claimEntry_sameUsers (s : Server) (fd : Int) (pipeNumber : Option Int) :
    SameUsers s (claimEntry s fd pipeNumber).1 := by
  cases pipeNumber with
  | none => exact .refl s
  | some n =>
    simp only [claimEntry]
    cases findTarget s fd n with
    | none => exact ⟨rfl, rfl, rfl⟩
    | some i => exact .refl s

theorem parserReceives_nothing {closes : List Effect} (hnothing : NothingToTake s cmd fd)
    (h : parserReceives s cmd fd = .ok (s', closes)) : s' = s ∧ closes = [] := by
  unfold parserReceives at h
  split at h
  next hmem =>
    split at h
    next => contradiction
    next sendid hid =>
      split at h
      next =>
        split at h
        next => contradiction
        next recvid hown =>
          dsimp only at h
          rw [if_neg (hnothing hmem sendid recvid hid hown)] at h
          cases h
          exact ⟨rfl, rfl⟩
      next =>
        cases h
        exact ⟨rfl, rfl⟩
  next =>
    cases h
    exact ⟨rfl, rfl⟩

/-- The arguments of `parser` in a round. -/
structure ArgsOf (line : Line) (first last : Bool) (cmd : Text) (call : ParserCall) (r : Round)
    (args : ParserArgs) : Prop where
  command : args.cmd = cmd
  socket : args.sockfd = line.sockfd
  isLast : args.last = last
  pipe : args.pipeFd = call.pipeFd
  enter : args.enter = (takeDue r.server line.sockfd first).2.isSome
  input : args.input =
    ((takeDue r.server line.sockfd first).2.map PipeInfo.inputNum).getD r.input

/-- One round, with the two parts of `parser` that touch the user pipes apart. -/
structure RoundParts (line : Line) (first last : Bool) (cmd : Text) (call : ParserCall)
    (r r' : Round) (args : ParserArgs) (sent received : Server) (closes : List Effect) : Prop where
  arguments : ArgsOf line first last cmd call r args
  sends : parserSends (takeDue r.server line.sockfd first).1 cmd line.sockfd call.pipeFd.1 = .ok sent
  receives : parserReceives sent cmd line.sockfd = .ok (received, closes)
  input : r'.input = call.getData.1
  getInput : r'.getInput = if last then lastGetInput r.getInput else r.getInput
  server : r'.server = (finishRound received last r'.getInput call.getData).1
  effects : r'.effects = r.effects ++
    ((takeDue r.server line.sockfd first).2.map fun entry => Effect.close entry.outputNum).toList ++
    (.fork args :: closes) ++ (if args.input ≠ 0 then [Effect.close args.input] else []) ++
    (finishRound received last r'.getInput call.getData).2

theorem runCommand_parts (h : runCommand line first last cmd call r = .ok r') :
    ∃ args sent received closes,
      RoundParts line first last cmd call r r' args sent received closes := by
  unfold runCommand at h
  dsimp only at h
  split at h
  next => contradiction
  next path _ =>
    split at h
    next => contradiction
    next received effects hparser =>
      cases h
      unfold parser at hparser
      split at hparser
      next => contradiction
      next sent hsends =>
        split at hparser
        next => contradiction
        next received closes hreceives =>
          cases hparser
          exact ⟨_, sent, received, closes, ⟨rfl, rfl, rfl, rfl, rfl, rfl⟩, hsends, hreceives, rfl,
            rfl, rfl, rfl⟩

/-- The numbers that round `i` of `count` closes behind its `pipe`; `input` is
the first round's. -/
def roundCloses (input : Int) (getInput : Nat) (calls : Nat → ParserCall) (count i : Nat) :
    List Int :=
  inputCloses (if i = 0 then input else (calls (i - 1)).getData.1) ++
    if i + 1 = count ∧ getInput ≠ 0 then [] else [(calls i).getData.2]

theorem mem_roundCloses {due : Option PipeInfo} {input : Int} {getInput count i : Nat}
    (h : n ∈ roundCloses ((due.map PipeInfo.inputNum).getD input) getInput calls count i) :
    n ∈ strayCloses due getInput calls count i ∨ i = 0 ∧ due = none ∧ n ∈ inputCloses input := by
  rw [roundCloses, List.mem_append] at h
  rw [strayCloses, List.mem_append]
  obtain h | h := h
  · by_cases hi : i = 0
    · rw [if_pos hi] at h ⊢
      cases due with
      | none => exact .inr ⟨hi, rfl, h⟩
      | some entry => exact .inl (.inl h)
    · rw [if_neg hi] at h ⊢
      exact .inl (.inl h)
  · exact .inl (.inr h)

theorem close_mem_finishRound {getInput : Nat} {pipe : Int × Int}
    (h : Effect.close n ∈ (finishRound s last getInput pipe).2) :
    n = pipe.2 ∧ ¬ (last = true ∧ getInput ≠ 0) := by
  unfold finishRound at h
  split at h
  next hlast =>
    split at h
    next hzero => simpa [hlast, hzero] using h
    next => split at h <;> simp at h
  next hlast => simpa [hlast] using h

theorem lastGetInput_eq_zero {getInput : Nat} : lastGetInput getInput = 0 ↔ getInput = 0 := by
  unfold lastGetInput
  split
  · omega
  · split <;> omega

/-- A round that takes nothing: its effects around the `fork`. -/
structure QuietRound (line : Line) (first last : Bool) (cmd : Text) (call : ParserCall)
    (r r' : Round) (args : ParserArgs) (sent : Server) (back : List Effect) : Prop where
  arguments : ArgsOf line first last cmd call r args
  sends : parserSends (takeDue r.server line.sockfd first).1 cmd line.sockfd call.pipeFd.1 = .ok sent
  users : SameUsers sent r'.server
  input : r'.input = call.getData.1
  getInput : r'.getInput = if last then lastGetInput r.getInput else r.getInput
  effects : r'.effects = r.effects ++
    (((takeDue r.server line.sockfd first).2.map fun entry =>
      Effect.close entry.outputNum).toList ++ .fork args :: back)
  noForks : forks back = []
  back : ∀ n, Effect.close n ∈ back →
    n ∈ inputCloses args.input ∨ n = call.getData.2 ∧ ¬ (last = true ∧ r'.getInput ≠ 0)

theorem quietRound (h : runCommand line first last cmd call r = .ok r')
    (hnothing : ∀ sent, parserSends (takeDue r.server line.sockfd first).1 cmd line.sockfd
      call.pipeFd.1 = .ok sent → NothingToTake sent cmd line.sockfd) :
    ∃ args sent back, QuietRound line first last cmd call r r' args sent back := by
  obtain ⟨args, sent, received, closes, hparts⟩ := runCommand_parts h
  obtain ⟨rfl, rfl⟩ := parserReceives_nothing (hnothing sent hparts.sends) hparts.receives
  refine ⟨args, received, (if args.input ≠ 0 then [Effect.close args.input] else []) ++
    (finishRound received last r'.getInput call.getData).2, hparts.arguments, hparts.sends, ?_,
    hparts.input, hparts.getInput, ?_, ?_, ?_⟩
  · rw [hparts.server]
    exact finishRound_sameUsers _ _ _ _
  · rw [hparts.effects]
    simp only [List.append_assoc, List.cons_append, List.nil_append]
  · rw [forks_append, (finishRound_numbered (.refl received) last _ _).2, List.append_nil]
    split <;> rfl
  · intro n hn
    rw [List.mem_append] at hn
    obtain hn | hn := hn
    · left
      unfold inputCloses
      split at hn
      next hne => simpa [hne] using hn
      next => simp at hn
    · exact .inr (close_mem_finishRound hn)

theorem parserSends_none {pipeIn : Int} (hout : pipesOut cmd = false)
    (h : parserSends s cmd fd pipeIn = .ok s') : s' = s := by
  rw [parserSends, hout] at h
  cases h
  rfl

/-- What the rounds from `i` on come to: the last child, with the tables that it
gets and the pipe that the parent then records, and all that is closed before
and after its `fork`. -/
structure LastChild (line : Line) (calls : Nat → ParserCall) (i : Nat) (cmds : List Text)
    (r r' : Round) (input : Int) (cmd : Text) (tables sent : Server) (args : ParserArgs)
    (front back : List Effect) : Prop where
  server : (childServers line calls i cmds r).getLast? = some tables
  users : SameUsers r.server tables
  sends : parserSends tables cmd line.sockfd args.pipeFd.1 = .ok sent
  after : SameUsers sent r'.server
  command : args.cmd = cmd
  socket : args.sockfd = line.sockfd
  isLast : args.last = true
  pipe : args.pipeFd = (calls (i + cmds.length - 1)).pipeFd
  effects : r'.effects = r.effects ++ (front ++ .fork args :: back)
  noForks : forks back = []
  front : ∀ n, Effect.close n ∈ front →
    (∃ entry, (takeDue r.server line.sockfd (i = 0)).2 = some entry ∧ n = entry.outputNum) ∨
      ∃ j < i + cmds.length - 1, n ∈ roundCloses input r.getInput calls (i + cmds.length) j
  back : ∀ n, Effect.close n ∈ back →
    n ∈ roundCloses input r.getInput calls (i + cmds.length) (i + cmds.length - 1)

def FirstChild (line : Line) (i : Nat) (r : Round) (effects : List Effect) : Prop :=
  ∃ args rest, effects =
      ((takeDue r.server line.sockfd (i = 0)).2.map fun entry =>
        Effect.close entry.outputNum).toList ++ .fork args :: rest ∧
    args.input =
      ((takeDue r.server line.sockfd (i = 0)).2.map PipeInfo.inputNum).getD r.input ∧
    args.enter = (takeDue r.server line.sockfd (i = 0)).2.isSome

def RoundInput (line : Line) (calls : Nat → ParserCall) (i : Nat) (r : Round) (input : Int) : Prop :=
  if i = 0 then
    input = ((takeDue r.server line.sockfd true).2.map PipeInfo.inputNum).getD r.input
  else r.input = (calls (i - 1)).getData.1

theorem RoundInput.head {i count : Nat} {getInput : Nat} {input : Int}
    (h : RoundInput line calls i r input)
    (hn : n ∈ inputCloses
      (((takeDue r.server line.sockfd (i = 0)).2.map PipeInfo.inputNum).getD r.input)) :
    n ∈ roundCloses input getInput calls count i := by
  unfold RoundInput at h
  rw [roundCloses, List.mem_append]
  left
  split at h
  next hi =>
    rw [if_pos hi, h]
    simpa [hi] using hn
  next hi =>
    have hlater : (decide (i = 0)) = false := by simp [hi]
    rw [if_neg hi, ← h]
    rw [hlater] at hn
    exact hn

theorem close_mem_takeDue {first : Bool}
    (h : Effect.close n ∈
      ((takeDue s fd first).2.map fun entry => Effect.close entry.outputNum).toList) :
    ∃ entry, (takeDue s fd first).2 = some entry ∧ n = entry.outputNum := by
  cases hdue : (takeDue s fd first).2 with
  | none => simp [hdue] at h
  | some entry => exact ⟨entry, rfl, by simpa [hdue] using h⟩

theorem QuietRound.lastChild {i : Nat} {input : Int} {args : ParserArgs} {sent : Server}
    {back : List Effect} (hround : runCommand line (i = 0) true cmd (calls i) r = .ok r')
    (hquiet : QuietRound line (i = 0) true cmd (calls i) r r' args sent back)
    (hinput : RoundInput line calls i r input) :
    LastChild line calls i [cmd] r r' input cmd (takeDue r.server line.sockfd (i = 0)).1 sent args
      ((takeDue r.server line.sockfd (i = 0)).2.map fun entry =>
        Effect.close entry.outputNum).toList back where
  server := by
    rw [childServers, List.isEmpty_nil, hround]
    rfl
  users := takeDue_sameUsers _ _ _
  sends := by
    rw [hquiet.arguments.pipe]
    exact hquiet.sends
  after := hquiet.users
  command := hquiet.arguments.command
  socket := hquiet.arguments.socket
  isLast := hquiet.arguments.isLast
  pipe := hquiet.arguments.pipe
  effects := hquiet.effects
  noForks := hquiet.noForks
  front := fun _ hn => .inl (close_mem_takeDue hn)
  back := by
    intro n hn
    obtain hn | ⟨rfl, hkeeps⟩ := hquiet.back n hn
    · rw [hquiet.arguments.input] at hn
      exact hinput.head hn
    · rw [hquiet.getInput] at hkeeps
      simp only [if_true, ne_eq, lastGetInput_eq_zero, true_and, Classical.not_not] at hkeeps
      simp [roundCloses, hkeeps]

theorem LastChild.cons {i : Nat} {second lastCmd : Text} {middle : Round} {input : Int}
    {args last : ParserArgs} {tables sent sentLast : Server} {between front back : List Effect}
    (hround : runCommand line (i = 0) false cmd (calls i) r = .ok middle)
    (hquiet : QuietRound line (i = 0) false cmd (calls i) r middle args sent between)
    (hsame : SameUsers r.server middle.server) (hinput : RoundInput line calls i r input)
    (h : LastChild line calls (i + 1) (second :: cmds) middle r' input lastCmd tables sentLast last
      front back) :
    LastChild line calls i (cmd :: second :: cmds) r r' input lastCmd tables sentLast last
      (((takeDue r.server line.sockfd (i = 0)).2.map fun entry =>
        Effect.close entry.outputNum).toList ++ .fork args :: (between ++ front)) back := by
  have hget : middle.getInput = r.getInput := hquiet.getInput
  have hcount : i + 1 + (second :: cmds).length = i + (cmd :: second :: cmds).length := by
    simp only [List.length_cons]
    omega
  have hfront := h.front
  have hback := h.back
  have hpipe := h.pipe
  rw [hcount, hget] at hfront hback
  rw [hcount] at hpipe
  refine ⟨?_, hsame.trans h.users, h.sends, h.after, h.command, h.socket, h.isLast, hpipe, ?_,
    h.noForks, ?_, hback⟩
  · rw [childServers, List.isEmpty_cons, hround]
    dsimp only
    rw [List.getLast?_cons, h.server]
    rfl
  · rw [h.effects, hquiet.effects]
    simp only [List.append_assoc, List.cons_append]
  · intro n hn
    simp only [List.mem_append, List.mem_cons, reduceCtorEq, false_or] at hn
    obtain hn | hn | hn := hn
    · exact .inl (close_mem_takeDue hn)
    · right
      refine ⟨i, by simp only [List.length_cons]; omega, ?_⟩
      obtain hn | ⟨rfl, -⟩ := hquiet.back n hn
      · rw [hquiet.arguments.input] at hn
        exact hinput.head hn
      · simp [roundCloses]
    · -- only the first round meets a numbered pipe that is due
      obtain ⟨entry, hentry, -⟩ | ⟨j, hj, hnum⟩ := hfront n hn
      · simp [takeDue] at hentry
      · exact .inr ⟨j, hj, hnum⟩

theorem runCommands_lastChild {i : Nat} {lastCmd : Text} {input : Int}
    (h : runCommands line calls i (cmd :: cmds) r = .ok r')
    (hlastCmd : (cmd :: cmds).getLast? = some lastCmd)
    (hinput : RoundInput line calls i r input)
    (hearly : ∀ c ∈ (cmd :: cmds).dropLast, pipesOut c = false ∧ NothingToTake r.server c line.sockfd)
    (hlast : ∀ tables sent pipeIn, SameUsers r.server tables →
      parserSends tables lastCmd line.sockfd pipeIn = .ok sent →
      NothingToTake sent lastCmd line.sockfd) :
    ∃ tables sent args front back,
      LastChild line calls i (cmd :: cmds) r r' input lastCmd tables sent args front back ∧
        FirstChild line i r (front ++ .fork args :: back) := by
  induction cmds generalizing i cmd r with
  | nil =>
    simp only [runCommands] at h
    split at h
    next => contradiction
    next middle hround =>
      cases h
      obtain rfl : cmd = lastCmd := by simpa using hlastCmd
      obtain ⟨args, sent, back, hquiet⟩ := quietRound hround
        fun sent hsends => hlast _ sent _ (takeDue_sameUsers _ _ _) hsends
      exact ⟨_, sent, args, _, back, hquiet.lastChild hround hinput,
        args, back, rfl, hquiet.arguments.input, hquiet.arguments.enter⟩
  | cons second cmds ih =>
    rw [runCommands] at h
    split at h
    next => contradiction
    next middle hround =>
      have hfirst := hearly cmd (by simp)
      obtain ⟨args, sent, between, hquiet⟩ := quietRound hround fun sent hsends => by
        rw [parserSends_none hfirst.1 hsends]
        exact (takeDue_sameUsers _ _ _).nothingToTake hfirst.2
      have hsame : SameUsers r.server middle.server := by
        have husers := hquiet.users
        rw [parserSends_none hfirst.1 hquiet.sends] at husers
        exact (takeDue_sameUsers _ _ _).trans husers
      have hnext : RoundInput line calls (i + 1) middle input := by
        rw [RoundInput, if_neg (by omega)]
        exact hquiet.input
      obtain ⟨tables, sentLast, last, front, back, hchild, -⟩ := ih h (by simpa using hlastCmd) hnext
        (fun c hc => by
          have hquiet := hearly c (by simp [List.dropLast, hc])
          exact ⟨hquiet.1, hsame.nothingToTake hquiet.2⟩)
        (fun tables sent pipeIn husers hsends => hlast tables sent pipeIn (hsame.trans husers) hsends)
      refine ⟨tables, sentLast, last, _, back, hchild.cons hround hquiet hsame hinput,
        args, between ++ (front ++ .fork last :: back), ?_, hquiet.arguments.input,
        hquiet.arguments.enter⟩
      simp only [List.append_assoc, List.cons_append]

theorem parserSends_cases {pipeIn : Int} (h : parserSends s cmd fd pipeIn = .ok s') :
    s' = s ∨ ∃ recvid c, pipesOut cmd = true ∧ userId '>' cmd = some recvid ∧ s.ownId fd = .ok c ∧
      s.present recvid = true ∧ s' = s.setUserPipe c recvid.toNat ⟨pipeIn, 1⟩ := by
  unfold parserSends at h
  split at h
  next hout =>
    split at h
    next => contradiction
    next recvid hid =>
      split at h
      next => contradiction
      next c hown =>
        split at h
        next hset =>
          cases h
          exact .inr ⟨recvid, c, hout, hid, hown, hset.1, rfl⟩
        next =>
          split at h
          next =>
            cases h
            exact .inl rfl
          next => contradiction
  next =>
    cases h
    exact .inl rfl

theorem parserSends_set {pipeIn recvid : Int} {c : Nat} (hout : pipesOut cmd = true)
    (hid : userId '>' cmd = some recvid) (hown : s.ownId fd = .ok c)
    (hpresent : s.present recvid = true) (hflag : (s.userPipe c recvid.toNat).flag = 0) :
    parserSends s cmd fd pipeIn = .ok (s.setUserPipe c recvid.toNat ⟨pipeIn, 1⟩) := by
  rw [parserSends, if_pos hout, hid]
  dsimp only
  rw [hown]
  dsimp only
  rw [if_pos ⟨hpresent, hflag⟩]

theorem SendsOnly.perform {p : Table × Nat} (h : SendsOnly effects) :
    exec perform p effects = some p := by
  induction effects with
  | nil => rfl
  | cons e effects ih =>
    obtain ⟨fd, message, rfl⟩ := h e List.mem_cons_self
    exact ih fun e he => h e (List.mem_cons_of_mem _ he)

/-- A `<q` that `do_exec` has accepted: the cell it takes, for `q` and the own id. -/
structure Taken (s : Server) (text : Text) (fd : Int) (q : Int) (c : Nat) : Prop where
  mem : '<' ∈ text
  userId : userId '<' text = some q
  present : s.present q = true
  own : s.ownId fd = .ok c
  flag : (s.userPipe q.toNat c).flag ≠ 0

theorem Taken.takesPipe {text : Text} {q : Int} {c : Nat} (h : Taken s text fd q c) :
    TakesPipe s text fd := ⟨h.mem, q, c, h.userId, h.present, h.own, h.flag⟩

/-- The tables and the input after an accepted check of `<q`. -/
inductive Received (s : Server) (text : Text) (fd : Int) : Server → Int → Prop
  | nothing (h : '<' ∉ text) : Received s text fd s 0
  | taken (q : Int) (c : Nat) (h : Taken s text fd q c) :
      Received s text fd
        (s.setUserPipe q.toNat c { s.userPipe q.toNat c with flag := 0 })
        (s.userPipe q.toNat c).pipeFd

theorem receivePipe_received {text : Text} {input : Int}
    (h : receivePipe s text fd = .ok (.accepted s' effects input)) :
    Received s text fd s' input ∧ SendsOnly effects := by
  unfold receivePipe at h
  split at h
  next hmem =>
    split at h
    next => contradiction
    next sendid hid =>
      split at h
      next hpresent =>
        split at h
        next => contradiction
        next recvid hown =>
          dsimp only at h
          split at h
          next => simp at h
          next hflag =>
            cases h
            exact ⟨.taken sendid recvid ⟨hmem, hid, hpresent, hown, hflag⟩, sendsOnly_map⟩
      next => simp at h
  next hmem =>
    cases h
    exact ⟨.nothing hmem, .nil⟩

/-- What an accepted check of `>r` has found. -/
def SendsTo (s : Server) (text : Text) (fd : Int) : Prop :=
  pipesOut text = true → ∃ recvid c, userId '>' text = some recvid ∧ s.present recvid = true ∧
    s.ownId fd = .ok c ∧ (s.userPipe c recvid.toNat).flag ≠ 1

theorem sendPipe_sendsTo {text : Text} {input input' : Int}
    (h : sendPipe s text fd input = .ok (.accepted s' effects input')) :
    SendsTo s text fd ∧ SendsOnly effects := by
  unfold sendPipe at h
  split at h
  next =>
    split at h
    next => contradiction
    next recvid hid =>
      split at h
      next hpresent =>
        split at h
        next => contradiction
        next c hown =>
          split at h
          next => simp at h
          next hflag =>
            cases h
            exact ⟨fun _ => ⟨recvid, c, hid, hpresent, hown, hflag⟩, sendsOnly_map⟩
      next => simp at h
  next hout =>
    cases h
    exact ⟨fun h => absurd h hout, .nil⟩

theorem checkUserPipes_accepted {text : Text} {input : Int}
    (h : checkUserPipes s text fd = .ok (s', effects, .ok input)) :
    Received s text fd s' input ∧ SendsTo s' text fd ∧ SendsOnly effects := by
  unfold checkUserPipes at h
  split at h
  next => contradiction
  next => simp at h
  next hreceive =>
    obtain ⟨hreceived, hquiet⟩ := receivePipe_received hreceive
    split at h
    next => contradiction
    next => simp at h
    next hsend =>
      obtain ⟨rfl, rfl⟩ := sendPipe_accepted hsend
      obtain ⟨hsends, hmore⟩ := sendPipe_sendsTo hsend
      cases h
      exact ⟨hreceived, hsends, hquiet.append hmore⟩

structure BuiltinDone (s : Server) (o : Outcome) : Prop where
  userPipe : o.server.userPipe = s.userPipe
  sends : SendsOnly o.effects

theorem BuiltinTables.userPipe {b : Builtin} (h : BuiltinTables s fd cmd b s') :
    s'.userPipe = s.userPipe := by
  cases h <;> rfl

theorem runBuiltin_done {b : Builtin} {o : Outcome} (h : runBuiltin s fd cmd b = .ok o) :
    BuiltinDone s o :=
  ⟨(runBuiltin_cases h).1.userPipe, (runBuiltin_cases h).2⟩

end NetworkProgramming.Single
