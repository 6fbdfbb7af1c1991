import NetworkProgramming.Single.Accesses
import NetworkProgramming.Single.Slots

/-! Runs that stay inside the tables, whatever the number of clients: which logins and
lines keep all indices in range. -/
namespace NetworkProgramming.Single
open Library.CString Library.Run Library.SlotTable CommandLine

def AllInRange (accesses : List Access) : Prop := ∀ a ∈ accesses, a.InRange

/-- A client in slot `i` of a table that was never wider than the ids. -/
structure Known (m : ClientMap) (fd : Int) (i : Nat) : Prop where
  size : m.size ≤ 30
  own : m.indexOf fd = some i

variable {m : ClientMap} {fd : Int} {i bound : Nat} {accesses more : List Access}
  {uses : Nat → List Access} {names : List Int} {s s' : Server} {cmd line : Text}

@[simp] theorem inRange_clientsFdSet {i : Int} :
    (Access.clientsFdSet i).InRange ↔ 0 ≤ i ∧ i < 60 := Iff.rfl

@[simp] theorem inRange_nickname {i : Int} : (Access.nickname i).InRange ↔ 0 ≤ i ∧ i < 60 := Iff.rfl

@[simp] theorem inRange_env {i : Int} : (Access.env i).InRange ↔ 0 ≤ i ∧ i < 60 := Iff.rfl

@[simp] theorem inRange_userPipe {sendid recvid : Int} : (Access.userPipe sendid recvid).InRange ↔
    (0 ≤ sendid ∧ sendid ≤ 30) ∧ 0 ≤ recvid ∧ recvid ≤ 30 := Iff.rfl

@[simp] theorem allInRange_nil : AllInRange [] := by simp [AllInRange]

@[simp] theorem allInRange_cons {a : Access} :
    AllInRange (a :: accesses) ↔ a.InRange ∧ AllInRange accesses := by
  simp [AllInRange]

@[simp] theorem allInRange_append :
    AllInRange (accesses ++ more) ↔ AllInRange accesses ∧ AllInRange more := by
  simp [AllInRange, or_imp, forall_and]

theorem allInRange_flatMap {f : Nat → List Access} (h : ∀ i < bound, AllInRange (f i)) :
    AllInRange ((List.range bound).flatMap f) := by
  intro a ha
  obtain ⟨i, hi, hmem⟩ := List.mem_flatMap.mp ha
  exact h i (List.mem_range.mp hi) a hmem

theorem loopAccesses_inRange (h : bound ≤ 60) : AllInRange (loopAccesses bound) := by
  intro a ha
  obtain ⟨i, hi, rfl⟩ := List.mem_map.mp ha
  rw [List.mem_range] at hi
  rw [inRange_clientsFdSet]
  omega

theorem searchAccesses_inRange (h : bound ≤ 60) : AllInRange (searchAccesses m bound fd) := by
  apply loopAccesses_inRange
  cases hfind : (List.range bound).find? fun i => m.clientsFdSet i == fd with
  | none => exact h
  | some i =>
    have hi := List.mem_range.mp (List.mem_of_find?_eq_some hfind)
    rw [Option.elim_some]
    omega

theorem announceAccesses_inRange (hsize : m.size ≤ 60) (hnames : ∀ n ∈ names, 0 ≤ n ∧ n < 60) :
    AllInRange (announceAccesses m names) := by
  apply allInRange_flatMap
  intro i hi
  rw [allInRange_cons, inRange_clientsFdSet]
  refine ⟨by omega, ?_⟩
  split
  next => exact allInRange_nil
  next =>
    intro a ha
    obtain ⟨n, hn, rfl⟩ := List.mem_map.mp ha
    exact hnames n hn

theorem presentAccesses_inRange (id : Int) : AllInRange (presentAccesses id) := by
  unfold presentAccesses
  split
  next => simp; omega
  next => exact allInRange_nil

theorem broadcastLogoutAccesses_inRange (hsize : m.size ≤ 60) {cid : Nat} (hlow : 1 ≤ cid)
    (hhigh : cid ≤ 30) : AllInRange (broadcastLogoutAccesses m cid) := by
  unfold broadcastLogoutAccesses
  rw [allInRange_append]
  constructor
  · apply allInRange_flatMap
    intro i hi
    simp
    omega
  · apply allInRange_flatMap
    intro i hi
    split
    next => exact allInRange_nil
    next =>
      rw [allInRange_cons, inRange_clientsFdSet]
      refine ⟨by omega, ?_⟩
      split
      next => exact allInRange_nil
      next => simp; omega

/-- An exit of a client with an id above 30 does not stay inside `user_pipe`. -/
theorem broadcastLogoutAccesses_iff (hsize : m.size ≤ 60) {cid : Nat} (hlow : 1 ≤ cid) :
    AllInRange (broadcastLogoutAccesses m cid) ↔ cid ≤ 30 := by
  constructor
  · intro h
    have hmem : Access.userPipe cid (1 : Nat) ∈ broadcastLogoutAccesses m cid := by
      apply List.mem_append_left
      rw [List.mem_flatMap]
      exact ⟨0, List.mem_range.mpr (by decide), List.mem_cons_self⟩
    have hpair := h _ hmem
    rw [inRange_userPipe] at hpair
    omega
  · exact broadcastLogoutAccesses_inRange hsize hlow

namespace Known

theorem lt (h : Known m fd i) : i < 30 := by
  obtain ⟨hlt, -, -⟩ := ClientMap.indexOf_eq_some h.own
  have hsize := h.size
  omega

theorem ownAccesses (h : Known m fd i) : ownAccesses m fd uses = uses i := by
  rw [Single.ownAccesses, h.own]
  rfl

theorem search (h : Known m fd i) {target : Int} :
    AllInRange (searchAccesses m m.size target) := by
  have hsize := h.size
  exact searchAccesses_inRange (by omega)

theorem announce (h : Known m fd i) (hnames : ∀ n ∈ names, 0 ≤ n ∧ n < 60) :
    AllInRange (announceAccesses m names) := by
  have hsize := h.size
  exact announceAccesses_inRange (by omega) hnames

theorem doPrintenv (h : Known m fd i) : AllInRange (doPrintenvAccesses m fd) := by
  have hi := h.lt
  rw [doPrintenvAccesses, allInRange_append, h.ownAccesses]
  refine ⟨h.search, ?_⟩
  simp
  omega

theorem loadEnv (h : Known m fd i) (envStr : Text) : AllInRange (loadEnvAccesses m fd envStr) := by
  have hi := h.lt
  unfold loadEnvAccesses
  rw [h.own]
  dsimp only [Option.elim_some]
  rw [allInRange_append, allInRange_cons, inRange_env]
  refine ⟨h.search, by omega, ?_⟩
  split
  next => exact allInRange_nil
  next => simp; omega

theorem who (h : Known m fd i) : AllInRange (whoAccesses m) := by
  have hsize := h.size
  apply allInRange_flatMap
  intro j hj
  rw [allInRange_cons, inRange_clientsFdSet]
  refine ⟨by omega, ?_⟩
  split
  next => exact allInRange_nil
  next => simp; omega

theorem yell (h : Known m fd i) (operand : List Text) :
    AllInRange (yellAccesses m fd operand) := by
  have hi := h.lt
  unfold yellAccesses
  split
  next => exact allInRange_nil
  next =>
    rw [allInRange_append, h.ownAccesses]
    refine ⟨h.search, h.announce ?_⟩
    simp
    omega

theorem name (h : Known m fd i) (operand : List Text) :
    AllInRange (nameAccesses m fd operand) := by
  have hi := h.lt
  have hsize := h.size
  unfold nameAccesses
  split
  next => exact allInRange_nil
  next name _ =>
    dsimp only
    generalize htaken : (List.range m.size).find? (fun i =>
      (m.clientsFdSet i != fd && m.clientsFdSet i != 0) && m.nickname i == name) = taken
    have hbound : taken.elim m.size (· + 1) ≤ 30 := by
      cases taken with
      | none => exact hsize
      | some j =>
        have hj := List.mem_range.mp (List.mem_of_find?_eq_some htaken)
        rw [Option.elim_some]
        omega
    rw [allInRange_append]
    constructor
    · apply allInRange_flatMap
      intro j hj
      rw [allInRange_cons, inRange_clientsFdSet]
      refine ⟨by omega, ?_⟩
      split
      next => simp; omega
      next => exact allInRange_nil
    · split
      next => exact allInRange_nil
      next =>
        rw [h.ownAccesses, allInRange_cons, inRange_nickname]
        exact ⟨by omega, h.announce (by simp)⟩

end Known

def TellFits (operand : List Text) : Prop :=
  ∀ word, operand[1]? = some word → 1 ≤ atoi word ∧ atoi word ≤ maxUserNum

instance (operand : List Text) : Decidable (TellFits operand) :=
  inferInstanceAs (Decidable (∀ word ∈ operand[1]?, 1 ≤ atoi word ∧ atoi word ≤ maxUserNum))

theorem Known.tell_iff (h : Known m fd i) (operand : List Text) :
    AllInRange (tellAccesses m fd operand) ↔ TellFits operand := by
  have hi := h.lt
  unfold tellAccesses TellFits
  cases hword : operand[1]? with
  | none => simp
  | some word =>
    dsimp only
    have hmax : (maxUserNum : Int) = 60 := rfl
    have hrest : AllInRange (if m.clientsFdSet (atoi word - 1).toNat = 0 then []
        else searchAccesses m m.size fd ++
          if operand.length ≤ 2 then [] else Single.ownAccesses m fd fun i => [.nickname i]) := by
      split
      next => exact allInRange_nil
      next =>
        rw [allInRange_append, h.ownAccesses]
        refine ⟨h.search, ?_⟩
        split
        next => exact allInRange_nil
        next => simp; omega
    rw [allInRange_cons, inRange_clientsFdSet]
    constructor
    · rintro ⟨hword, -⟩ other heq
      cases heq
      omega
    · intro hfits
      have hfit := hfits word rfl
      exact ⟨by omega, hrest⟩

theorem Known.logout (h : Known m fd i) : AllInRange (logoutAccesses m fd) := by
  have hsize := h.size
  unfold logoutAccesses
  rw [allInRange_append]
  refine ⟨searchAccesses_inRange (by omega), ?_⟩
  cases hfind : (List.range (m.size + 1)).find? fun i => m.clientsFdSet i == fd with
  | none => exact allInRange_nil
  | some j =>
    obtain ⟨hlt, hown, hbefore⟩ := ClientMap.indexOf_eq_some h.own
    rw [List.find?_range_eq_some] at hfind
    obtain ⟨hj, -, hfirst⟩ := hfind
    have hji : j ≤ i := by
      by_contra hgt
      have hmiss := hfirst i (by omega)
      simp [hown] at hmiss
    rw [Option.elim_some, allInRange_cons, inRange_clientsFdSet]
    refine ⟨by omega, ?_⟩
    rw [broadcastLogoutAccesses_iff]
    · omega
    · dsimp only
      omega
    · omega

theorem Known.same (h : Known s.clientsMap fd i) (hsame : SameSlots s s') :
    Known s'.clientsMap fd i := by
  constructor
  · rw [hsame.size]
    exact h.size
  · rw [hsame.indexOf]
    exact h.own

theorem Known.ownId (h : Known s.clientsMap fd i) : s.ownId fd = .ok (i + 1) := by
  have hi := h.lt
  rw [Server.ownId, h.own]
  exact if_pos hi

theorem Known.tested (h : Known s.clientsMap fd i) (id : Int)
    (huses : 0 < id → id ≤ 30 → AllInRange (uses i)) :
    AllInRange (searchAccesses s.clientsMap s.clientsMap.size fd ++ presentAccesses id ++
      if s.present id then Single.ownAccesses s.clientsMap fd uses else []) := by
  rw [allInRange_append, allInRange_append]
  refine ⟨⟨h.search, presentAccesses_inRange id⟩, ?_⟩
  split
  next hpresent =>
    obtain ⟨hlow, hhigh, -⟩ := Server.present_iff.mp hpresent
    rw [h.ownAccesses]
    exact huses hlow hhigh
  next => exact allInRange_nil

theorem Known.cell (h : Known m fd i) {id : Int} {cell : Access} {taken : Prop}
    [Decidable taken] (hlow : 0 < id) (hhigh : id ≤ 30) (hcell : cell.InRange) :
    AllInRange (cell :: if taken then [] else announceAccesses m [i, id - 1]) := by
  have hi := h.lt
  rw [allInRange_cons]
  refine ⟨hcell, ?_⟩
  split
  next => exact allInRange_nil
  next => exact h.announce (by simp; omega)

theorem Known.receive (h : Known s.clientsMap fd i) (line : Text) :
    AllInRange (receiveAccesses s line fd) := by
  have hi := h.lt
  unfold receiveAccesses
  split
  next =>
    cases userId '<' line with
    | none => exact allInRange_nil
    | some sendid =>
      apply h.tested
      intro hlow hhigh
      exact h.cell hlow hhigh (by rw [inRange_userPipe]; omega)
  next => exact allInRange_nil

theorem Known.send (h : Known s.clientsMap fd i) (line : Text) :
    AllInRange (sendAccesses s line fd) := by
  have hi := h.lt
  unfold sendAccesses
  split
  next =>
    cases userId '>' line with
    | none => exact allInRange_nil
    | some recvid =>
      apply h.tested
      intro hlow hhigh
      exact h.cell hlow hhigh (by rw [inRange_userPipe]; omega)
  next => exact allInRange_nil

theorem Known.check (h : Known s.clientsMap fd i) (line : Text) :
    AllInRange (checkAccesses s line fd) := by
  unfold checkAccesses
  rw [allInRange_append]
  refine ⟨h.receive line, ?_⟩
  split
  next hreceive => exact (h.same (receivePipe_moves hreceive).sameSlots).send line
  next => exact allInRange_nil

/-- The cell that `parser` prints is one of the table. -/
def TokenFits (cmd : Text) : Prop :=
  pipesOut cmd = true → ∀ recvid, userId '>' cmd = some recvid → 0 ≤ recvid ∧ recvid ≤ 30

instance (cmd : Text) : Decidable (TokenFits cmd) :=
  inferInstanceAs (Decidable (pipesOut cmd = true →
    ∀ recvid ∈ userId '>' cmd, 0 ≤ recvid ∧ recvid ≤ 30))

/-- A word stands behind each token, else `parser` does not return. -/
structure Readable (cmd : Text) : Prop where
  send : pipesOut cmd = true → userId '>' cmd ≠ none
  receive : '<' ∈ cmd → userId '<' cmd ≠ none

instance (cmd : Text) : Decidable (Readable cmd) :=
  decidable_of_iff ((pipesOut cmd = true → userId '>' cmd ≠ none) ∧
      ('<' ∈ cmd → userId '<' cmd ≠ none))
    ⟨fun h => ⟨h.1, h.2⟩, fun h => ⟨h.send, h.receive⟩⟩

/-- The tokens of all commands that are run. -/
def CommandsFit : List Text → Prop
  | [] => True
  | cmd :: cmds => TokenFits cmd ∧ (Readable cmd → CommandsFit cmds)

instance decidableCommandsFit : (cmds : List Text) → Decidable (CommandsFit cmds)
  | [] => instDecidableTrue
  | cmd :: cmds =>
    have := decidableCommandsFit cmds
    inferInstanceAs (Decidable (TokenFits cmd ∧ (Readable cmd → CommandsFit cmds)))

theorem Known.parserSends_iff (h : Known m fd i) :
    AllInRange (parserSendsAccesses m cmd fd) ↔ TokenFits cmd := by
  have hi := h.lt
  unfold parserSendsAccesses TokenFits
  split
  next hout =>
    cases userId '>' cmd with
    | none => simp
    | some recvid =>
      dsimp only
      rw [allInRange_append, allInRange_append, h.ownAccesses, allInRange_cons, inRange_userPipe]
      constructor
      · rintro ⟨-, ⟨-, hrange⟩, -⟩ - other heq
        cases heq
        exact hrange
      · intro hfits
        have hrange := hfits hout recvid rfl
        exact ⟨⟨h.search, presentAccesses_inRange recvid⟩, ⟨by omega, hrange⟩, allInRange_nil⟩
  next hout => simp [hout]

theorem Known.receives (h : Known s.clientsMap fd i) :
    AllInRange (parserReceivesAccesses s cmd fd) := by
  have hi := h.lt
  unfold parserReceivesAccesses
  split
  next =>
    cases userId '<' cmd with
    | none => exact allInRange_nil
    | some sendid =>
      apply h.tested
      intro hlow hhigh
      rw [allInRange_cons, inRange_userPipe]
      exact ⟨by omega, allInRange_nil⟩
  next => exact allInRange_nil

theorem Known.parser_iff (h : Known s.clientsMap fd i) :
    AllInRange (parserAccesses s cmd fd) ↔ TokenFits cmd := by
  unfold parserAccesses
  rw [allInRange_append, allInRange_append, h.parserSends_iff]
  constructor
  · intro hall
    exact hall.1.2
  · intro hfits
    refine ⟨⟨h.doPrintenv, hfits⟩, ?_⟩
    split
    next => exact allInRange_nil
    next => exact h.receives

theorem Known.parserSends_ok (h : Known s.clientsMap fd i) (hfits : TokenFits cmd)
    (hread : pipesOut cmd = true → userId '>' cmd ≠ none) (pipeIn : Int) :
    ∃ s', parserSends s cmd fd pipeIn = .ok s' := by
  unfold parserSends
  split
  next hout =>
    obtain ⟨recvid, hid⟩ := Option.ne_none_iff_exists'.mp (hread hout)
    rw [hid, h.ownId]
    dsimp only
    split
    next => exact ⟨_, rfl⟩
    next =>
      rw [if_pos (hfits hout recvid hid)]
      exact ⟨_, rfl⟩
  next => exact ⟨_, rfl⟩

theorem Known.parserReceives_ok (h : Known s.clientsMap fd i)
    (hread : '<' ∈ cmd → userId '<' cmd ≠ none) :
    ∃ s' closes, parserReceives s cmd fd = .ok (s', closes) := by
  unfold parserReceives
  split
  next hmem =>
    obtain ⟨sendid, hid⟩ := Option.ne_none_iff_exists'.mp (hread hmem)
    rw [hid]
    dsimp only
    split
    next =>
      rw [h.ownId]
      dsimp only
      split <;> exact ⟨_, _, rfl⟩
    next => exact ⟨_, _, rfl⟩
  next => exact ⟨_, _, rfl⟩

theorem parser_readable {args : ParserArgs} {result : Server × List Effect}
    (h : parser s args = .ok result) : Readable args.cmd := by
  unfold parser at h
  split at h
  next => contradiction
  next hsends =>
    split at h
    next => contradiction
    next hreceives =>
      constructor
      · intro hout hnone
        unfold parserSends at hsends
        rw [if_pos hout, hnone] at hsends
        contradiction
      · intro hmem hnone
        unfold parserReceives at hreceives
        rw [if_pos hmem, hnone] at hreceives
        contradiction

theorem runCommand_readable {ln : Line} {first last : Bool} {call : ParserCall} {r r' : Round}
    (h : runCommand ln first last cmd call r = .ok r') : Readable cmd := by
  unfold runCommand at h
  dsimp only at h
  split at h
  next => contradiction
  next =>
    split at h
    next => contradiction
    next hparser => exact parser_readable hparser

theorem Known.runCommand_ok {ln : Line} {first last : Bool} {call : ParserCall} {r : Round}
    (h : Known r.server.clientsMap ln.sockfd i) (hfits : TokenFits cmd) (hread : Readable cmd) :
    ∃ r', runCommand ln first last cmd call r = .ok r' := by
  have htaken : Known (takeDue r.server ln.sockfd first).1.clientsMap ln.sockfd i :=
    h.same (takeDue_moves first).sameSlots
  unfold runCommand
  dsimp only
  rw [Single.doPrintenv, htaken.own]
  dsimp only
  obtain ⟨s', hsends⟩ := htaken.parserSends_ok hfits hread.send call.pipeFd.1
  obtain ⟨s₂, closes, hreceives⟩ :=
    (htaken.same (parserSends_moves hsends).sameSlots).parserReceives_ok hread.receive
  unfold parser
  dsimp only
  rw [hsends]
  dsimp only
  rw [hreceives]
  exact ⟨_, rfl⟩

theorem Known.rounds_iff {ln : Line} {calls : Nat → ParserCall} {cmds : List Text} {j : Nat}
    {r : Round} (h : Known r.server.clientsMap ln.sockfd i) :
    AllInRange (roundsAccesses ln calls j cmds r) ↔ CommandsFit cmds := by
  induction cmds generalizing j r with
  | nil => simp [roundsAccesses, CommandsFit]
  | cons cmd cmds ih =>
    rw [roundsAccesses, allInRange_append, h.parser_iff, CommandsFit]
    apply and_congr_right
    intro hfits
    cases hrun : runCommand ln (j = 0) cmds.isEmpty cmd (calls j) r with
    | error fault =>
      have hstops : ¬ Readable cmd := by
        intro hread
        obtain ⟨r', hok⟩ := h.runCommand_ok hfits hread
        rw [hrun] at hok
        contradiction
      simp [hstops]
    | ok r' =>
      dsimp only
      rw [ih (h.same (runCommand_moves hrun).sameSlots)]
      simp [runCommand_readable hrun]

def BuiltinFits (cmd : Text) : Builtin → Prop
  | .tell => TellFits (splitSpace cmd)
  | _ => True

instance (cmd : Text) : (b : Builtin) → Decidable (BuiltinFits cmd b)
  | .tell => inferInstanceAs (Decidable (TellFits (splitSpace cmd)))
  | .printenv | .setenv | .exit | .who | .yell | .name => inferInstanceAs (Decidable True)

theorem Known.builtin_iff (h : Known m fd i) (b : Builtin) :
    AllInRange (builtinAccesses m fd cmd b) ↔ BuiltinFits cmd b := by
  cases b with
  | printenv =>
    simp only [builtinAccesses, BuiltinFits, iff_true]
    split
    next => exact allInRange_nil
    next => exact h.doPrintenv
  | setenv =>
    simp only [builtinAccesses, BuiltinFits, iff_true]
    split
    next => exact h.loadEnv _
    next => exact allInRange_nil
  | exit => simp [builtinAccesses, BuiltinFits]
  | who => simpa [builtinAccesses, BuiltinFits] using h.who
  | tell => exact h.tell_iff _
  | yell => simpa [builtinAccesses, BuiltinFits] using h.yell _
  | name => simpa [builtinAccesses, BuiltinFits] using h.name _

/-- Of a line that the checks of `do_exec` accept. -/
def LineFits (s : Server) (line : Text) (sockfd : Int) : Prop :=
  match readLine line with
  | none => True
  | some reading =>
    match checkUserPipes (claimEntry s sockfd reading.pipeNumber).1 line sockfd with
    | .ok (_, _, .ok _) =>
      match builtin reading.commands with
      | some b => BuiltinFits (reading.commands.headD []) b
      | none => CommandsFit reading.commands
    | _ => True

instance (s : Server) (line : Text) (sockfd : Int) : Decidable (LineFits s line sockfd) := by
  unfold LineFits
  split
  · infer_instance
  · split
    · split <;> infer_instance
    · infer_instance

theorem Known.doExec_iff (h : Known s.clientsMap fd i) {calls : Nat → ParserCall} :
    AllInRange (doExecAccesses s line fd calls) ↔ LineFits s line fd := by
  unfold doExecAccesses LineFits
  cases readLine line with
  | none => simp
  | some reading =>
    dsimp only
    have hclaimed : Known (claimEntry s fd reading.pipeNumber).1.clientsMap fd i :=
      h.same (claimEntry_moves reading.pipeNumber).sameSlots
    have hcheck := hclaimed.check line
    rw [allInRange_append]
    rcases hresult : checkUserPipes (claimEntry s fd reading.pipeNumber).1 line fd with
      fault | ⟨s₂, effects, message | input⟩
    · simp [hcheck]
    · simp [hcheck]
    · have hchecked := hclaimed.same (checkUserPipes_moves hresult).sameSlots
      dsimp only
      cases builtin reading.commands with
      | some b => simp [hcheck, hchecked.builtin_iff]
      | none => exact (and_iff_right hcheck).trans (Known.rounds_iff hchecked)

/-- A login finds a free slot whose number is an id; the ids in a line are ids. -/
def Fits (s : Server) : Event → Prop
  | .login _ _ => ∃ i, i + 1 ≤ 30 ∧ s.clientsMap.clientsFdSet i = 0
  | .line fd chunk _ => LineFits s (lineOf chunk) fd

instance (s : Server) : DecidablePred (Fits s)
  | .login _ _ => inferInstanceAs (Decidable (∃ i, i < 30 ∧ s.clientsMap.clientsFdSet i = 0))
  | .line fd chunk _ => inferInstanceAs (Decidable (LineFits s (lineOf chunk) fd))

/-- A client that is greeted gets such a slot. -/
def Served (s : Server) : Event → Prop
  | .login ssock fsin => .send ssock .welcome ∈ greet s ssock fsin →
    ∃ i m, i + 1 ≤ 30 ∧ s.clientsMap.clientsFdSet i = 0 ∧
      takeSlot s.clientsMap ssock fsin = .ok m ∧ m.clientsFdSet i = ssock
  | .line _ _ _ => True

structure Bounded (s : Server) (e : Event) : Prop where
  inRange : AllInRange (stepAccesses s e)
  served : Served s e

/-- The table has never been wider than the ids. -/
structure Narrow (s : Server) : Prop where
  wellformed : s.table.Wellformed 0
  size : s.clientsMap.size ≤ 30

theorem Narrow.known (h : Narrow s) (hfd : fd ∈ s.allset) : ∃ i, Known s.clientsMap fd i := by
  obtain ⟨hzero, i, hi⟩ := (h.wellformed.mem_used fd).mp hfd
  exact ⟨i, h.size, indexOf_slot h.wellformed hi hzero⟩

theorem exists_indexOf (hi : m.clientsFdSet i = fd) (hlt : i < m.size) :
    ∃ j, m.indexOf fd = some j := by
  rw [← Option.isSome_iff_exists, ClientMap.indexOf, List.find?_isSome]
  exact ⟨i, List.mem_range.mpr hlt, by simp [hi]⟩

theorem Narrow.takeSlot (h : Narrow s) {ssock : Int} (fsin : SockaddrIn) {j : Nat} (hj : j + 1 ≤ 30)
    (hfree : s.clientsMap.clientsFdSet j = 0) : ∃ i m k, i + 1 ≤ 30 ∧
      ((List.range (s.clientsMap.size + 1)).find? fun i => s.clientsMap.clientsFdSet i == 0) =
        some i ∧
      s.clientsMap.clientsFdSet i = 0 ∧ takeSlot s.clientsMap ssock fsin = .ok m ∧
      m.clientsFdSet i = ssock ∧ Known m ssock k := by
  obtain ⟨i, hfind, hlow⟩ := h.wellformed.find_lowest
  have hsize := h.size
  have hwithin : i ≤ s.clientsMap.size := hlow.within
  have hi : i + 1 ≤ 30 := by
    by_contra hgt
    exact hlow.below j (by omega) hfree
  obtain ⟨m, htake, hslot, hlt, hnarrow⟩ : ∃ m, Single.takeSlot s.clientsMap ssock fsin = .ok m ∧
      m.clientsFdSet i = ssock ∧ i < m.size ∧ m.size ≤ 30 := by
    dsimp only [Server.table] at hfind
    rw [Single.takeSlot, hfind]
    refine ⟨_, if_pos (lt_of_lt_of_le hi (by decide)), Function.update_self _ _ _, ?_, ?_⟩
    · dsimp only
      split <;> omega
    · dsimp only
      split <;> omega
  obtain ⟨k, hown⟩ := exists_indexOf hslot hlt
  exact ⟨i, m, k, hi, hfind, hlow.isFree, htake, hslot, hnarrow, hown⟩

theorem Narrow.login_iff (h : Narrow s) {ssock : Int} {fsin : SockaddrIn} :
    Bounded s (.login ssock fsin) ↔ Fits s (.login ssock fsin) := by
  have hsize := h.size
  constructor
  · intro hbounded
    obtain ⟨i, m, hi, hfree, -⟩ := hbounded.served (by simp [greet])
    exact ⟨i, hi, hfree⟩
  · rintro ⟨j, hj, hfree⟩
    obtain ⟨i, m, k, hi, hfind, hzero, htake, hslot, hknown⟩ := h.takeSlot fsin hj hfree
    refine ⟨?_, fun _ => ⟨i, m, hi, hzero, htake, hslot⟩⟩
    unfold stepAccesses loginAccesses
    dsimp only
    rw [htake, hfind]
    dsimp only [Option.elim_some]
    rw [allInRange_append, allInRange_append, allInRange_append]
    refine ⟨⟨⟨?_, ?_⟩, ?_⟩, ?_⟩
    · exact loopAccesses_inRange (by omega)
    · exact searchAccesses_inRange (by omega)
    · simp
      omega
    · exact hknown.loadEnv _

theorem Narrow.line_iff (h : Narrow s) (hfd : fd ∈ s.allset) {chunk : Text}
    {calls : Nat → ParserCall} :
    Bounded s (.line fd chunk calls) ↔ Fits s (.line fd chunk calls) := by
  obtain ⟨i, hknown⟩ := h.known hfd
  constructor
  · intro hbounded
    have hall := hbounded.inRange
    unfold stepAccesses at hall
    rw [allInRange_append] at hall
    exact hknown.doExec_iff.mp hall.1
  · intro hfits
    refine ⟨?_, trivial⟩
    unfold stepAccesses
    rw [allInRange_append]
    refine ⟨hknown.doExec_iff.mpr hfits, ?_⟩
    cases hexec : doExec s (lineOf chunk) fd calls with
    | error fault => exact allInRange_nil
    | ok o =>
      dsimp only
      split
      next => exact (hknown.same (doExec_sameSlots hexec)).logout
      next => exact allInRange_nil

theorem Narrow.bounded_iff (h : Narrow s) {limit : Nat} {e : Event} (hadm : Admissible limit s e) :
    Bounded s e ↔ Fits s e := by
  cases e with
  | login ssock fsin => exact h.login_iff
  | line fd chunk calls => exact h.line_iff hadm

theorem Narrow.initial : Narrow Server.initial := ⟨Table.Wellformed.empty 0, Nat.zero_le 30⟩

theorem Narrow.next {limit : Nat} {e : Event} (h : Narrow s) (hfits : Fits s e)
    (hnext : Single.next limit s e = some s') : Narrow s' := by
  refine ⟨wellformed_step h.wellformed hnext, ?_⟩
  have hsize := h.size
  obtain ⟨-, effects, hstep⟩ := next_eq_some hnext
  cases e with
  | login ssock fsin =>
    obtain ⟨j, hj, hfree⟩ := hfits
    obtain ⟨i, hlow, htable, -⟩ := login_takes h.wellformed hstep
    have hi : i ≤ j := by
      by_contra hgt
      exact hlow.below j (by omega) hfree
    have hnew : s'.clientsMap.size =
        if i = s.clientsMap.size then s.clientsMap.size + 1 else s.clientsMap.size :=
      congrArg Table.size htable
    rw [hnew]
    split <;> omega
  | line fd chunk calls =>
    obtain ⟨o, hexec, ⟨-, more, hout⟩ | ⟨-, rfl⟩⟩ := step_line_cases hstep
    · obtain ⟨slots, userPipe, told, name, rfl, -⟩ := logout_eq hout
      dsimp only
      rw [(doExec_sameSlots hexec).size]
      exact hsize
    · rw [(doExec_sameSlots hexec).size]
      exact hsize

theorem narrow_run {limit : Nat} (es : List Event) (s : Server)
    (hfits : Meets (next limit) Server.initial (fun _ s e => Fits s e) es)
    (hrun : exec (next limit) Server.initial es = some s) : Narrow s := by
  apply invariant (I := fun _ => Narrow) Narrow.initial _ es hfits s hrun
  intro _ s e s' _ hnarrow hfits hnext
  exact hnarrow.next hfits hnext

/-- For any number of clients: a run whose steps fit uses no index outside the tables and
gives every client an id, and of the events that may follow exactly those do that fit. -/
theorem indices_in_range_iff (limit : Nat) (es : List Event) (s : Server)
    (hfits : Meets (next limit) Server.initial (fun _ s e => Fits s e) es)
    (hrun : exec (next limit) Server.initial es = some s) :
    Meets (next limit) Server.initial (fun _ s e => Bounded s e) es ∧
      ∀ e, Admissible limit s e → (Bounded s e ↔ Fits s e) := by
  constructor
  · intro before e after t heq ht
    have hbefore : Narrow t := by
      rw [heq] at hfits
      exact narrow_run before t hfits.left ht
    rw [heq, exec_append, ht, Option.bind_some, exec] at hrun
    obtain ⟨t', hnext, -⟩ := Option.bind_eq_some_iff.mp hrun
    exact (hbefore.bounded_iff (next_eq_some hnext).1).mpr (hfits before e after t heq ht)
  · intro e hadm
    exact (narrow_run es s hfits hrun).bounded_iff hadm

def logins (count : Nat) : List Event :=
  (List.range count).map fun k => .login (k + 4 : Nat) ⟨[127, 0, 0, 1], k + 4000⟩

/-- Two clients: the first one tells the second something and writes it a user pipe, which
the second one reads. -/
def userPipeUsed : List Event := logins 2 ++
  [.line 4 "tell 2 hello\n".toList fun _ => ⟨(6, 7), 0⟩, .line 4 "ls >2\n".toList fun _ => ⟨(6, 7), 0⟩,
    .line 5 "cat <1\n".toList fun _ => ⟨(8, 9), 0⟩]

theorem indices_in_range_iff_userPipeUsed :
    ∃ s, exec (next 31) Server.initial userPipeUsed = some s ∧
      Meets (next 31) Server.initial (fun _ s e => Bounded s e) userPipeUsed ∧
      ∀ e, Admissible 31 s e → (Bounded s e ↔ Fits s e) := by
  have hsome : (exec (next 31) Server.initial userPipeUsed).isSome = true := by decide +kernel
  obtain ⟨s, hs⟩ := Option.isSome_iff_exists.mp hsome
  have hfits : Meets (next 31) Server.initial (fun _ s e => Fits s e) userPipeUsed := by
    decide +kernel
  obtain ⟨hbounded, hiff⟩ := indices_in_range_iff 31 userPipeUsed s hfits hs
  exact ⟨s, hs, hbounded, hiff⟩

/-- The exit of the thirty-first client, whose id `user_pipe` does not have. -/
def lastExit : Event := .line 34 "exit\n".toList fun _ => ⟨(35, 36), 0⟩

theorem exit_outside_user_pipe : ∃ s, exec (next 31) Server.initial (logins 31) = some s ∧
    Admissible 31 s lastExit ∧ ¬ AllInRange (stepAccesses s lastExit) := by
  have hsome : (exec (next 31) Server.initial (logins 31)).isSome = true := by decide +kernel
  obtain ⟨s, hs⟩ := Option.isSome_iff_exists.mp hsome
  have hstate : (exec (next 31) Server.initial (logins 31)).all (fun s =>
      decide (Admissible 31 s lastExit) &&
        (stepAccesses s lastExit).contains (.userPipe 31 1)) = true := by decide +kernel
  rw [hs, Option.all_some, Bool.and_eq_true, decide_eq_true_iff, List.contains_iff_mem] at hstate
  refine ⟨s, hs, hstate.1, fun hall => ?_⟩
  have hpair := hall _ hstate.2
  rw [inRange_userPipe] at hpair
  omega

end NetworkProgramming.Single
