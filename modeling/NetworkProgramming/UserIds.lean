import NetworkProgramming.Multi.Steps
import NetworkProgramming.Single.Server

/-! The ids that users type behind `tell` and `<`, as indices of the tables. -/
namespace NetworkProgramming.Single
open Library.CString CommandLine

/-- `execute_tell` stays inside `clients_fd_set` whatever the state and the message,
and answers an id outside the table. -/
def TellChecked (k : Text) : Prop :=
  ∀ (s : Server) (fd : Int) (name m : Text) (words : List Text),
    executeTell s fd (name :: k :: m :: words) ≠ .error .outOfRange ∧
      (¬ (1 ≤ atoi k ∧ atoi k ≤ maxUserNum) →
        executeTell s fd (name :: k :: m :: words) = .ok ⟨s, [.send fd (.noUser (atoi k))], 0⟩)

theorem executeTell_outside {k m : Text} (h : ¬ (1 ≤ atoi k ∧ atoi k ≤ maxUserNum)) (s : Server)
    (fd : Int) (name : Text) (words : List Text) :
    executeTell s fd (name :: k :: m :: words) = .error .outOfRange := by
  unfold executeTell
  dsimp only [List.getElem?_cons_succ, List.getElem?_cons_zero]
  rw [if_neg]
  omega

theorem executeTell_inside {k m : Text} (hlow : 1 ≤ atoi k) (hhigh : atoi k ≤ maxUserNum)
    (s : Server) (fd : Int) (name : Text) (words : List Text) :
    executeTell s fd (name :: k :: m :: words) ≠ .error .outOfRange := by
  unfold executeTell
  dsimp only [List.getElem?_cons_succ, List.getElem?_cons_zero]
  rw [if_pos (by omega)]
  split
  next => simp
  next => split <;> simp

theorem tellChecked_iff (k : Text) : TellChecked k ↔ 1 ≤ atoi k ∧ atoi k ≤ maxUserNum := by
  constructor
  · intro h
    by_contra hout
    exact (h Server.initial 0 [] [] []).1 (executeTell_outside hout _ _ _ _)
  · intro h s fd name m words
    exact ⟨executeTell_inside h.1 h.2 s fd name words, fun hout => absurd h hout⟩

end NetworkProgramming.Single

namespace NetworkProgramming.Multi
open Library.CString Library.Mailbox Library.Run CommandLine

/-- The same of `clients` in the other `execute_tell`, and of its write to a mailbox. -/
def TellChecked (k : Text) : Prop :=
  ∀ (s : System) (i : Nat) (name m : Text) (words : List Text),
    let t := setOperand s i (name :: k :: m :: words)
    executeTell t i ≠ .error .outOfRange ∧
      (∀ r message prints, tellMessage t i = .ok (some (r, message), prints) → r < maxUsers) ∧
      (¬ (1 ≤ atoi k ∧ atoi k ≤ maxUsers) → executeTell t i = .ok ⟨t, [], [.noUser (atoi k)]⟩)

def Action.sendid : Action → Option Nat
  | .sendPipe _ _ sendid => sendid
  | .openFifo _ _ _ sendid => sendid
  | .runCommands _ sendid => sendid
  | .release sendid => some sendid
  | _ => none

def Action.Inside (a : Action) : Prop := ∀ n ∈ a.sendid, 1 ≤ n ∧ n ≤ maxUsers

/-- What a line leads to, whatever other processes do in between. -/
inductive Behind (cmd : Text) : Action → Prop
  | start : Behind cmd (.doExec cmd)
  | step {s : System} {i : Nat} {result : Int} {a b : Action} {o : Outcome} (before : Behind cmd a)
      (run : act s i result a = .ok o) (mem : b ∈ o.next) : Behind cmd b

/-- A line with a `<n` that `do_exec` gets as far as to read. -/
structure ReceiveLine where
  text : Text
  commands : List Text
  id : Int
  read : readLine text = .ok (some commands)
  token : '<' ∈ text
  reads : userId '<' text = some id

/-- The same of `clients` and `fifo` for the `<n` of a line. -/
def ReceiveChecked (l : ReceiveLine) : Prop :=
  (∀ s i, doExec s i l.text ≠ .error .outOfRange ∧
    (¬ (1 ≤ l.id ∧ l.id ≤ maxUsers) → doExec s i l.text = .ok ⟨s, [], [.noUser l.id]⟩)) ∧
    ∀ a, Behind l.text a → a.Inside

variable {s : System} {i : Nat} {o : Outcome} {a : Action} {cmd k m name : Text}
  {words : List Text}

theorem tellMessage_setOperand :
    tellMessage (setOperand s i (name :: k :: m :: words)) i =
      if 0 < atoi k then
        if 30 < atoi k then .error .outOfRange
        else if (s.clients ((atoi k).toNat - 1)).id ≠ 0 then
          .ok (some ((atoi k).toNat - 1,
            .told (s.clients i).nickname (Multi.words (m :: words))), [])
        else .ok (none, [.noUser (atoi k)])
      else .ok (none, [.noUser (atoi k)]) := by
  unfold tellMessage setOperand
  simp

theorem tellChecked_iff (k : Text) : TellChecked k ↔ atoi k ≤ maxUsers := by
  have hmax : (maxUsers : Int) = 30 := rfl
  constructor
  · intro h
    by_contra hout
    refine (h System.initial 0 [] [] []).1 ?_
    unfold executeTell
    rw [tellMessage_setOperand, if_pos (by omega), if_pos (by omega)]
  · intro h s i name m words
    dsimp only
    unfold executeTell
    rw [tellMessage_setOperand, if_neg (show ¬ 30 < atoi k by omega)]
    by_cases hpos : 0 < atoi k
    · rw [if_pos hpos]
      split_ifs with hid
      · refine ⟨by simp, ?_, fun hout => absurd ⟨by omega, h⟩ hout⟩
        intro r message prints hr
        simp only [Except.ok.injEq, Prod.mk.injEq, Option.some.injEq] at hr
        omega
      · exact ⟨by simp, by simp, by simp⟩
    · rw [if_neg hpos]
      exact ⟨by simp, by simp, by simp⟩

theorem inside_of_sendid_none (h : a.sendid = none) : a.Inside := by
  intro n hn
  rw [h] at hn
  contradiction

theorem broadcast_sendid {message : Message} (h : a ∈ broadcast message) : a.sendid = none := by
  obtain ⟨r, _, rfl⟩ := List.mem_map.mp h
  rfl

theorem finish_sendid {sendid : Option Nat} (h : a ∈ sendid.toList.map Action.release) :
    a.sendid = sendid := by
  obtain ⟨n, hn, rfl⟩ := List.mem_map.mp h
  rw [Option.mem_toList] at hn
  exact hn.symm

theorem executeName_sendid (h : executeName s i = .ok o) (hmem : a ∈ o.next) :
    a.sendid = none := by
  unfold executeName at h
  split at h
  next => contradiction
  next =>
    split_ifs at h <;> cases h
    · contradiction
    · exact broadcast_sendid hmem

theorem executeYell_sendid (h : executeYell s i = .ok o) (hmem : a ∈ o.next) :
    a.sendid = none := by
  unfold executeYell at h
  split at h
  next => contradiction
  next =>
    cases h
    exact broadcast_sendid hmem

theorem map_sendid {sendid : Option Nat} {x : Except Fault Outcome}
    (hx : ∀ o, x = .ok o → ∀ a ∈ o.next, a.sendid = none)
    (h : (x.map fun o => { o with next := o.next ++ sendid.toList.map .release }) = .ok o)
    (hmem : a ∈ o.next) : a.sendid = none ∨ a.sendid = sendid := by
  cases x with
  | error fault => contradiction
  | ok before =>
    cases h
    rw [List.mem_append] at hmem
    exact hmem.imp (hx before rfl a) finish_sendid

theorem runCommands_sendid {commands : List Text} {sendid : Option Nat}
    (h : runCommands s i commands sendid = .ok o) (hmem : a ∈ o.next) :
    a.sendid = none ∨ a.sendid = sendid := by
  unfold runCommands at h
  dsimp only at h
  cases hbuiltin : builtin commands with
  | none =>
    rw [hbuiltin] at h
    cases h
    exact .inr (finish_sendid hmem)
  | some b =>
    rw [hbuiltin] at h
    cases b with
    | printenv =>
      dsimp only at h
      split_ifs at h
      cases h
      exact .inr (finish_sendid hmem)
    | setenv =>
      dsimp only at h
      split_ifs at h
      cases h
      exact .inr (finish_sendid hmem)
    | exit =>
      cases h
      rw [rmUser, List.mem_append, List.mem_singleton] at hmem
      cases hmem with
      | inl hmem => exact .inl (broadcast_sendid hmem)
      | inr heq => exact .inl (heq ▸ rfl)
    | who =>
      cases h
      exact .inr (finish_sendid hmem)
    | nickname => exact map_sendid (fun _ ho _ => executeName_sendid ho) h hmem
    | yell => exact map_sendid (fun _ ho _ => executeYell_sendid ho) h hmem
    | tell =>
      cases h
      cases hmem with
      | head => exact .inl rfl
      | tail _ hmem => exact .inr (finish_sendid hmem)

theorem sendPipe_sendid {result : Int} {line : Text} {commands : List Text} {sendid : Option Nat}
    (h : sendPipe s i result line commands sendid = .ok o) (hmem : a ∈ o.next) :
    a.sendid = sendid := by
  unfold sendPipe at h
  by_cases hpipes : pipesOut line = true
  · rw [if_pos hpipes] at h
    split at h
    next => contradiction
    next =>
      dsimp only at h
      split_ifs at h <;> cases h
      · contradiction
      · contradiction
      · contradiction
      · rw [List.mem_singleton] at hmem
        exact hmem ▸ rfl
  · rw [if_neg hpipes] at h
    cases h
    rw [List.mem_singleton] at hmem
    exact hmem ▸ rfl

theorem executeTell_next (h : executeTell s i = .ok o) : o.next = [] := by
  unfold executeTell at h
  split at h <;> cases h <;> rfl

theorem doExec_inside (h : doExec s i cmd = .ok o) (hmem : a ∈ o.next) : a.Inside := by
  unfold doExec at h
  split at h
  next => contradiction
  next =>
    cases h
    contradiction
  next commands _ =>
    split_ifs at h with htoken
    · split at h
      next => contradiction
      next sendid _ =>
        dsimp only at h
        split_ifs at h with hrange hzero hid hfd <;> cases h
        · contradiction
        · contradiction
        · contradiction
        · rw [List.mem_append, List.mem_singleton] at hmem
          cases hmem with
          | inl hmem => exact inside_of_sendid_none (broadcast_sendid hmem)
          | inr heq =>
            subst heq
            intro n hn
            cases hn
            have hmax : maxUsers = 30 := rfl
            omega
    · cases h
      rw [List.mem_singleton] at hmem
      subst hmem
      exact inside_of_sendid_none rfl

/-- Behind `do_exec` an id is handed on as it is, or not at all. -/
theorem act_inside {result : Int} {b : Action} (ha : a.Inside) (h : act s i result a = .ok o)
    (hmem : b ∈ o.next) : b.Inside := by
  have hkeep (hsendid : b.sendid = none ∨ b.sendid = a.sendid) : b.Inside := by
    cases hsendid with
    | inl hnone => exact inside_of_sendid_none hnone
    | inr hsame =>
      intro n hn
      rw [hsame] at hn
      exact ha n hn
  cases a with
  | put r message =>
    cases h
    contradiction
  | doExec line => exact doExec_inside h hmem
  | sendPipe line commands sendid => exact hkeep (.inr (sendPipe_sendid h hmem))
  | openFifo line recvid commands sendid =>
    cases h
    unfold openFifo at hmem
    rw [List.mem_append, List.mem_singleton] at hmem
    cases hmem with
    | inl hmem => exact hkeep (.inl (broadcast_sendid hmem))
    | inr heq => exact hkeep (.inr (heq ▸ rfl))
  | runCommands commands sendid => exact hkeep (runCommands_sendid h hmem)
  | tell =>
    rw [executeTell_next h] at hmem
    contradiction
  | release sendid =>
    cases h
    contradiction
  | leave =>
    cases h
    contradiction

theorem Behind.inside (h : Behind cmd a) : a.Inside := by
  induction h with
  | start => exact inside_of_sendid_none rfl
  | step _ hrun hmem ih => exact act_inside ih hrun hmem

theorem doExec_receive (l : ReceiveLine) (s : System) (i : Nat) :
    doExec s i l.text =
      if l.id < 0 ∨ 30 < l.id then .ok ⟨s, [], [.noUser l.id]⟩
      else if l.id = 0 then .error .outOfRange
      else
        let own := s.clients i
        let sender := s.clients (l.id.toNat - 1)
        if sender.id = 0 then .ok ⟨s, [], [.noUser l.id]⟩
        else if (own.fifo (l.id.toNat - 1)).fd = 0 then .ok ⟨s, [], [.noPipe l.id own.id]⟩
        else
          .ok ⟨s, broadcast (.justReceived own.nickname own.id sender.nickname sender.id l.text) ++
            [.sendPipe l.text l.commands (some l.id.toNat)], []⟩ := by
  unfold doExec
  rw [l.read]
  dsimp only
  rw [if_pos l.token, l.reads]

theorem receiveChecked_iff (l : ReceiveLine) : ReceiveChecked l ↔ l.id ≠ 0 := by
  have hmax : (maxUsers : Int) = 30 := rfl
  constructor
  · intro h hzero
    refine (h.1 System.initial 0).1 ?_
    rw [doExec_receive, if_neg (by omega), if_pos hzero]
  · intro hid
    refine ⟨fun s i => ?_, fun a ha => ha.inside⟩
    rw [doExec_receive]
    by_cases hrange : l.id < 0 ∨ 30 < l.id
    · rw [if_pos hrange]
      exact ⟨by simp, fun _ => rfl⟩
    · rw [if_neg hrange, if_neg hid]
      refine ⟨?_, fun hout => absurd ⟨by omega, by omega⟩ hout⟩
      dsimp only
      split_ifs <;> simp

/-- Which ids typed behind `tell` and `<` are checked before the tables are read. -/
theorem ids_checked_iff (k : Text) (l : ReceiveLine) :
    (Single.TellChecked k ↔ 1 ≤ atoi k ∧ atoi k ≤ Single.maxUserNum) ∧
      (TellChecked k ↔ atoi k ≤ maxUsers) ∧ (ReceiveChecked l ↔ l.id ≠ 0) :=
  ⟨Single.tellChecked_iff k, tellChecked_iff k, receiveChecked_iff l⟩

def catFromZero : ReceiveLine where
  text := "cat <0".toList
  commands := ["cat <0".toList]
  id := 0
  read := by decide
  token := by decide
  reads := by decide

def firstTypes (line : Text) (pieces : Nat) : List Event :=
  .login 100 "127.0.0.1".toList 4000 :: List.replicate 30 (.act 0 0) ++
    .line 0 line :: List.replicate pieces (.act 0 0)

/-- An id that the tables do not have is used, by each server's first client. -/
theorem ids_outside_read :
    (exec (Single.next 30) Single.Server.initial [.login 4 ⟨[127, 0, 0, 1], 4000⟩]).any (fun s =>
        Single.doExec s "tell 61 hi".toList 4 (fun _ => ⟨(5, 6), 0⟩) matches
          .error .outOfRange) = true ∧
      (exec next System.initial (firstTypes "tell 31 hi".toList 3)).any (fun s =>
        (s.process 0).todo = [.tell] && executeTell s 0 matches .error .outOfRange) = true ∧
      (exec next System.initial (firstTypes catFromZero.text 0)).any (fun s =>
        (s.process 0).todo = [.doExec catFromZero.text] &&
          doExec s 0 catFromZero.text matches .error .outOfRange) = true := by
  refine ⟨?_, ?_, ?_⟩ <;> decide +kernel

end NetworkProgramming.Multi
