import NetworkProgramming.Multi.Mailboxes

/-! No message of `np_multi_proc` is slept over: whatever is in a slot, its receiver has
the signal pending, or its handler has not come to the slot yet. -/
namespace NetworkProgramming.Multi
open Library.CString Library.Mailbox Library.Run CommandLine

/-- The handler of SIGUSR1 is on its way and has the slot still ahead of it. -/
def Ahead (p : Process) (sender b : Nat) : Prop :=
  ∃ a k, p.mail = some (a, k) ∧ (a < sender ∨ a = sender ∧ k ≤ b)

/-- A message in a slot is one of a client that will come by. -/
def Noted (s : System) : Prop :=
  ∀ r sender b, sender < maxUsers → b < maxMsgNum → (s.clients r).msg sender b ≠ none →
    (s.clients r).id ≠ 0 ∧ ((s.process r).usr1 = true ∨ Ahead (s.process r) sender b)

/-- The client is there, without a signal, and not in its handler. -/
structure Quiet (s : System) (r : Nat) : Prop where
  usr1 : (s.process r).usr1 = false
  mail : (s.process r).mail = none

def Woken (s s' : System) : Prop :=
  ∀ r, (s'.clients r).id ≠ 0 ∧ (s'.process r).usr1 = true ∨
    (s'.clients r).msg = (s.clients r).msg ∧ (s'.process r).usr1 = (s.process r).usr1

variable {s s' middle : System} {e : Event} {i r sender b : Nat} {a : Action} {o : Outcome}
  {result : Int} {effects : List Effect}

section Woken

theorem Woken.refl (s : System) : Woken s s := fun _ => .inr ⟨rfl, rfl⟩

theorem Woken.same (hmsg : ∀ r, (s'.clients r).msg = (s.clients r).msg)
    (husr1 : ∀ r, (s'.process r).usr1 = (s.process r).usr1) : Woken s s' :=
  fun r => .inr ⟨hmsg r, husr1 r⟩

theorem setClient_msg {c : Client} (h : c.msg = (s.clients i).msg) (r : Nat) :
    ((s.setClient i c).clients r).msg = (s.clients r).msg := by
  rw [System.setClient_clients]
  split
  next hr => rw [h, hr]
  next => rfl

theorem setProcess_usr1 {p : Process} (h : p.usr1 = (s.process i).usr1) (r : Nat) :
    ((s.setProcess i p).process r).usr1 = (s.process r).usr1 := by
  rw [System.setProcess_process]
  split
  next hr => rw [h, hr]
  next => rfl

theorem post_woken (hid : (s.clients r).id ≠ 0) (m : Message) : Woken s (post s i r m) := by
  intro j
  unfold post
  split
  next => exact .inr ⟨rfl, rfl⟩
  next =>
    by_cases hj : j = r
    · left
      rw [System.setProcess_clients, System.setClient_clients, if_pos hj, Client.setMsg_id,
        System.setProcess_process, if_pos hj]
      exact ⟨hid, rfl⟩
    · right
      rw [System.setProcess_clients, System.setClient_clients, if_neg hj,
        System.setProcess_process, if_neg hj]
      exact ⟨rfl, rfl⟩

theorem setOperand_woken (s : System) (i : Nat) (operand : List Text) :
    Woken s (setOperand s i operand) :=
  .same (fun _ => rfl) (setProcess_usr1 rfl)

theorem executeName_woken (h : executeName s i = .ok o) : Woken s o.system := by
  obtain hsame | ⟨name, hnamed⟩ := executeName_system h
  · rw [hsame]
    exact .refl s
  · rw [hnamed]
    exact .same (setClient_msg rfl) fun _ => rfl

theorem runCommands_woken {commands : List Text} {sendid : Option Nat}
    (h : runCommands s i commands sendid = .ok o) : Woken s o.system := by
  unfold runCommands at h
  dsimp only at h
  split at h
  next =>
    split at h
    next =>
      cases h
      exact setOperand_woken s i _
    next => contradiction
  next =>
    split at h
    next =>
      cases h
      exact setOperand_woken s i _
    next => contradiction
  next =>
    cases h
    exact .refl s
  next =>
    cases h
    exact .refl s
  next =>
    cases hname : executeName s i with
    | error fault => simp [hname, Except.map] at h
    | ok named =>
      simp only [hname, Except.map, Except.ok.injEq] at h
      rw [← h]
      have hwoken := executeName_woken hname
      exact hwoken
  next =>
    generalize splitSpace (commands.getLastD []) = operand at h
    cases hyell : executeYell (setOperand s i operand) i with
    | error fault => simp [hyell, Except.map] at h
    | ok yelled =>
      simp only [hyell, Except.map, Except.ok.injEq] at h
      rw [← h]
      dsimp only
      rw [executeYell_system hyell]
      exact setOperand_woken s i operand
  next =>
    cases h
    exact setOperand_woken s i _
  next =>
    cases h
    exact setOperand_woken s i _

theorem act_woken (h : act s i result a = .ok o) (hleave : a ≠ .leave) : Woken s o.system := by
  cases a with
  | leave => contradiction
  | put r m =>
    cases h
    dsimp only
    unfold broadcastRound
    split
    next hid => exact post_woken (by omega) m
    next => exact .refl s
  | doExec line =>
    rw [doExec_system h]
    exact .refl s
  | sendPipe line commands sendid =>
    obtain hsame | ⟨r, filename, -, -, hrecord⟩ := sendPipe_system h
    · rw [hsame]
      exact .refl s
    · rw [hrecord]
      exact .same (setClient_msg rfl) (setProcess_usr1 rfl)
  | openFifo line recvid commands sendid =>
    cases h
    exact .refl s
  | runCommands commands sendid => exact runCommands_woken h
  | tell =>
    have h : executeTell s i = .ok o := h
    unfold executeTell at h
    split at h
    next => contradiction
    next =>
      cases h
      exact .refl s
    next r m prints htell =>
      cases h
      have hmessage : message s i .tell = some (r, m) := by rw [message, htell]
      exact post_woken (message_id hmessage) m
  | release sendid =>
    cases h
    dsimp only
    unfold release
    split
    next => exact .same (setClient_msg rfl) fun _ => rfl
    next => exact .refl s

end Woken

section Noted

theorem Noted.woken (h : Noted s) (hwoken : Woken s s')
    (hid : ∀ r, (s'.clients r).id = (s.clients r).id)
    (hmail : ∀ r, (s'.process r).mail = (s.process r).mail) : Noted s' := by
  intro r sender b hsender hb hslot
  obtain hnew | ⟨hmsg, husr1⟩ := hwoken r
  · exact ⟨hnew.1, .inl hnew.2⟩
  · rw [hmsg] at hslot
    obtain ⟨hpresent, hnoted⟩ := h r sender b hsender hb hslot
    rw [hid, husr1, Ahead, hmail]
    exact ⟨hpresent, hnoted⟩

theorem setTodo_usr1 (s : System) (i : Nat) (todo : List Action) (r : Nat) :
    ((s.setTodo i todo).process r).usr1 = (s.process r).usr1 := by
  rw [setTodo_process]
  split
  next hr => rw [hr]
  next => rfl

theorem step_act_woken (h : step s (.act i result) = some (s', effects))
    (hleaving : leaving s (.act i result) = none) : Woken s s' := by
  simp only [step] at h
  split at h
  next => contradiction
  next a rest htodo =>
    split at h
    next => contradiction
    next o hact =>
      rw [Option.some.injEq, Prod.mk.injEq] at h
      have hleave : a ≠ .leave := by
        rintro rfl
        rw [leaving_act htodo, if_pos rfl] at hleaving
        contradiction
      intro r
      have hwoken := act_woken hact hleave r
      rw [setTodo_usr1] at hwoken
      rw [← h.1, setTodo_usr1]
      exact hwoken

theorem Noted.same (h : Noted s) (hmsg : ∀ r, (s'.clients r).msg = (s.clients r).msg)
    (hid : ∀ r, (s'.clients r).id = (s.clients r).id)
    (husr1 : ∀ r, (s'.process r).usr1 = (s.process r).usr1)
    (hmail : ∀ r, (s'.process r).mail = (s.process r).mail) : Noted s' :=
  h.woken (.same hmsg husr1) hid hmail

theorem Noted.process (h : Noted s) {p : Process}
    (hi : ∀ sender b, sender < maxUsers → b < maxMsgNum → (s.clients i).msg sender b ≠ none →
      (s.clients i).id ≠ 0 → (s.process i).usr1 = true ∨ Ahead (s.process i) sender b →
        p.usr1 = true ∨ Ahead p sender b) : Noted (s.setProcess i p) := by
  intro r sender b hsender hb hslot
  obtain ⟨hid, hnoted⟩ := h r sender b hsender hb hslot
  refine ⟨hid, ?_⟩
  rw [System.setProcess_process]
  split
  next hr =>
    subst hr
    exact hi sender b hsender hb hslot hid hnoted
  next => exact hnoted

theorem Noted.scanned (h : Noted s) (hscanned : Scanned s i s' effects) : Noted s' := by
  cases hscanned with
  | done k hmail =>
    apply h.process
    rintro sender b hsender - - - (husr1 | ⟨a, k', hat, hahead⟩)
    · exact .inl husr1
    · rw [hmail, Option.some.injEq, Prod.mk.injEq] at hat
      omega
  | row a hmail ha =>
    apply h.process
    rintro sender b hsender hb - - (husr1 | ⟨a', k, hat, hahead⟩)
    · exact .inl husr1
    · rw [hmail, Option.some.injEq, Prod.mk.injEq] at hat
      exact .inr ⟨a + 1, 0, rfl, by omega⟩
  | slot a k hmail ha hk =>
    intro r sender b hsender hb hslot
    rw [System.setProcess_clients, System.setClient_clients] at hslot ⊢
    rw [System.setProcess_process]
    by_cases hr : r = i
    · subst hr
      rw [if_pos rfl] at hslot ⊢
      rw [if_pos rfl]
      have hother : ¬ (sender = a ∧ b = k) := by
        rintro ⟨rfl, rfl⟩
        apply hslot
        rw [Client.setMsg_msg, if_pos rfl]
        exact Function.update_self _ _ _
      have hold : (s.clients r).msg sender b ≠ none := by
        rw [Client.setMsg_msg] at hslot
        split at hslot
        next hsame =>
          subst hsame
          rwa [take, Function.update_of_ne fun heq => hother ⟨rfl, heq⟩] at hslot
        next => exact hslot
      obtain ⟨hid, husr1 | ⟨a', k', hat, hahead⟩⟩ := h r sender b hsender hb hold
      · exact ⟨hid, .inl husr1⟩
      · rw [hmail, Option.some.injEq, Prod.mk.injEq] at hat
        exact ⟨hid, .inr ⟨a, k + 1, rfl, by omega⟩⟩
    · rw [if_neg hr] at hslot ⊢
      rw [if_neg hr]
      exact h r sender b hsender hb hslot

theorem Noted.opened (h : Noted s) (hopened : Opened s i result s') : Noted s' := by
  cases hopened with
  | done => exact h.same (fun _ => rfl) (fun _ => rfl) (setProcess_usr1 rfl) (setProcess_mail rfl)
  | skipped => exact h.same (fun _ => rfl) (fun _ => rfl) (setProcess_usr1 rfl) (setProcess_mail rfl)
  | entry k =>
    refine h.same ?_ ?_ (setProcess_usr1 rfl) (setProcess_mail rfl)
    · exact setClient_msg (s := s.setProcess i _) rfl
    · exact setClient_id (s := s.setProcess i _) rfl

theorem Noted.login (h : Noted s) (pid : Int) (ip : Text) (port : Nat) :
    Noted (addClient s pid ip port) := by
  obtain hsame | ⟨j, p, -, hfree, -, hnew⟩ := addClient_cases s pid ip port
  · rw [hsame]
    exact h
  · rw [hnew]
    intro r sender b hsender hb hslot
    rw [System.setProcess_clients, System.setClient_clients] at hslot ⊢
    rw [System.setProcess_process]
    by_cases hr : r = j
    · rw [if_pos hr] at hslot
      exact absurd hfree (h j sender b hsender hb hslot).1
    · rw [if_neg hr] at hslot ⊢
      rw [if_neg hr]
      exact h r sender b hsender hb hslot

theorem Noted.leave (h : Noted s) (i : Nat) : Noted (Multi.leave s i) := by
  intro r sender b hsender hb hslot
  rw [Multi.leave, System.setProcess_clients, System.setClient_clients] at hslot ⊢
  rw [System.setProcess_process]
  by_cases hr : r = i
  · rw [if_pos hr] at hslot
    exact absurd rfl hslot
  · rw [if_neg hr] at hslot ⊢
    rw [if_neg hr]
    exact h r sender b hsender hb hslot

theorem Noted.step (h : Noted s) (hstep : step s e = some (s', effects)) : Noted s' := by
  cases step_stepped hstep with
  | login pid ip port => exact h.login pid ip port
  | line i text =>
    exact h.same (fun _ => rfl) (fun _ => rfl) (setProcess_usr1 rfl) (setProcess_mail rfl)
  | left i result rest htodo => exact h.leave i
  | act i result a rest s' prints htodo hleave hwritten hflow =>
    refine h.woken (step_act_woken hstep ?_) hwritten.id hflow.mail
    rw [leaving_act htodo, if_neg hleave]
  | usr1 i husr1 hmail =>
    apply h.process
    intro sender b _ _ _ _ _
    exact .inr ⟨0, 0, rfl, by omega⟩
  | scan i s' effects hscanned => exact h.scanned hscanned
  | usr2 i =>
    exact h.same (fun _ => rfl) (fun _ => rfl) (setProcess_usr1 rfl) (setProcess_mail rfl)
  | entry i result s' hopened => exact h.opened hopened
  | term i =>
    exact h.same (fun _ => rfl) (fun _ => rfl) (setProcess_usr1 rfl) (setProcess_mail rfl)

theorem noted_run (es : List Event) (s : System) (hrun : exec next System.initial es = some s) :
    Noted s := by
  apply invariant_always (I := fun _ s => Noted s) _ _ es s hrun
  · intro r sender b _ _ hslot
    exact absurd rfl hslot
  · intro es s e s' _ hnoted hstep
    obtain ⟨p, hp, rfl⟩ := Option.map_eq_some_iff.mp hstep
    exact hnoted.step hp

theorem Noted.empty (h : Noted s) (hquiet : Quiet s r) (hsender : sender < maxUsers) :
    inFlight s sender r = [] := by
  have hnone : ∀ b < maxMsgNum, (s.clients r).msg sender b = none := by
    intro b hb
    by_contra hslot
    obtain ⟨-, husr1 | ⟨a, k, hmail, -⟩⟩ := h r sender b hsender hb hslot
    · rw [hquiet.usr1] at husr1
      contradiction
    · rw [hquiet.mail] at hmail
      contradiction
  have hstart : reading (s.process r) sender = 0 := by rw [reading, hquiet.mail]
  rw [inFlight, hstart, waiting, held_eq_nil fun b _ hb => hnone b hb, held_self]
  rfl

end Noted

section Pass

variable {w w' : World}

def Placed (s : System) : Prop :=
  ∀ r a b, (s.process r).mail = some (a, b) →
    a ≤ maxUsers ∧ b ≤ maxMsgNum ∧ (a = maxUsers → b = 0)

theorem Placed.same (h : Placed s) (hmail : ∀ r, (s'.process r).mail = (s.process r).mail) :
    Placed s' := by
  intro r a b hat
  rw [hmail] at hat
  exact h r a b hat

theorem Placed.process (h : Placed s) {p : Process} (hp : ∀ a b, p.mail = some (a, b) →
    a ≤ maxUsers ∧ b ≤ maxMsgNum ∧ (a = maxUsers → b = 0)) : Placed (s.setProcess i p) := by
  intro r a b hat
  rw [System.setProcess_process] at hat
  split at hat
  next => exact hp a b hat
  next => exact h r a b hat

theorem Placed.idle (h : Placed s) {p : Process} (hp : p.mail = none) :
    Placed (s.setProcess i p) := by
  apply h.process
  intro a b hat
  rw [hp] at hat
  contradiction

theorem Placed.scanned (h : Placed s) (hscanned : Scanned s i s' effects) : Placed s' := by
  cases hscanned with
  | done k hmail => exact h.idle rfl
  | row a hmail ha =>
    have hat := h i a maxMsgNum hmail
    apply h.process
    intro a' b' hnext
    rw [Option.some.injEq, Prod.mk.injEq] at hnext
    omega
  | slot a k hmail ha hk =>
    have hat := h i a k hmail
    apply Placed.process (s := s.setClient i _) h
    intro a' b' hnext
    rw [Option.some.injEq, Prod.mk.injEq] at hnext
    omega

theorem Placed.step (h : Placed s) (hstep : step s e = some (s', effects)) : Placed s' := by
  cases step_stepped hstep with
  | login pid ip port =>
    obtain hsame | ⟨j, p, -, -, hmail, hnew⟩ := addClient_cases s pid ip port
    · rw [hsame]
      exact h
    · rw [hnew]
      exact Placed.idle (s := s.setClient j _) h hmail
  | line i text => exact h.same (setProcess_mail rfl)
  | left i => exact Placed.idle (s := s.setClient i _) h rfl
  | act i result a rest s' prints htodo hleave hwritten hflow => exact h.same hflow.mail
  | usr1 i husr1 hmail =>
    apply h.process
    intro a b hat
    rw [Option.some.injEq, Prod.mk.injEq] at hat
    omega
  | scan i s' effects hscanned => exact h.scanned hscanned
  | usr2 i => exact h.same (setProcess_mail rfl)
  | entry i result s' hopened =>
    cases hopened with
    | done => exact h.same (setProcess_mail rfl)
    | skipped => exact h.same (setProcess_mail rfl)
    | entry k => exact h.same (setProcess_mail rfl)
  | term i => exact h.same (setProcess_mail rfl)

theorem placed_run (es : List Event) (s : System) (hrun : exec next System.initial es = some s) :
    Placed s := by
  apply invariant_always (I := fun _ s => Placed s) _ _ es s hrun
  · intro r a b hat
    simp [System.initial, Process.initial] at hat
  · intro es s e s' _ hplaced hstep
    obtain ⟨p, hp, rfl⟩ := Option.map_eq_some_iff.mp hstep
    exact hplaced.step hp

/-- The rounds that the handler has still to make: eleven for each sender, and the last. -/
def rounds (p : Process) : Nat :=
  match p.mail with
  | some (a, b) => (maxUsers - a) * 11 + 1 - b
  | none => 0

theorem scan_round (hplaced : Placed s) {a b : Nat} (hmail : (s.process r).mail = some (a, b)) :
    ∃ s' effects, step s (.scan r) = some (s', effects) ∧
      rounds (s'.process r) + 1 = rounds (s.process r) ∧
      (s'.process r).usr1 = (s.process r).usr1 := by
  have hat := hplaced r a b hmail
  have hrounds : rounds (s.process r) = (maxUsers - a) * 11 + 1 - b := by rw [rounds, hmail]
  have hsize : maxUsers = 30 ∧ maxMsgNum = 10 := ⟨rfl, rfl⟩
  simp only [step, scan, hmail]
  by_cases ha : a = maxUsers
  · rw [if_pos ha]
    refine ⟨_, _, rfl, ?_, ?_⟩
    · rw [System.setProcess_process, if_pos rfl, hrounds]
      simp only [rounds]
      omega
    · rw [System.setProcess_process, if_pos rfl]
  · rw [if_neg ha]
    by_cases hb : b = maxMsgNum
    · rw [if_pos hb]
      refine ⟨_, _, rfl, ?_, ?_⟩
      · rw [System.setProcess_process, if_pos rfl, hrounds]
        simp only [rounds]
        omega
      · rw [System.setProcess_process, if_pos rfl]
    · rw [if_neg hb]
      refine ⟨_, _, rfl, ?_, ?_⟩
      · rw [System.setProcess_process, if_pos rfl, hrounds]
        simp only [rounds]
        omega
      · rw [System.setProcess_process, if_pos rfl]

theorem advance_handler {effects : List Effect} (he : e = .usr1 r ∨ e = .scan r)
    (hstep : step w.system e = some (s', effects)) :
    ∃ w', advance w e = some w' ∧ w'.system = s' ∧ w'.sent = w.sent := by
  refine ⟨_, by rw [advance, hstep]; rfl, rfl, ?_⟩
  obtain rfl | rfl := he
  · funext sender j
    simp [leaving, sentNow, posting]
  · funext sender j
    simp [leaving, sentNow, posting]

theorem pass (n : Nat) (w : World) (hplaced : Placed w.system)
    (hn : rounds (w.system.process r) = n) :
    ∃ w', exec advance w (List.replicate n (.scan r)) = some w' ∧
      (w'.system.process r).mail = none ∧
      (w'.system.process r).usr1 = (w.system.process r).usr1 ∧ w'.sent = w.sent := by
  induction n generalizing w with
  | zero =>
    refine ⟨w, rfl, ?_, rfl, rfl⟩
    cases hmail : (w.system.process r).mail with
    | none => rfl
    | some place =>
      obtain ⟨a, b⟩ := place
      have hat := hplaced r a b hmail
      have hsize : maxUsers = 30 ∧ maxMsgNum = 10 := ⟨rfl, rfl⟩
      rw [rounds, hmail] at hn
      dsimp only at hn
      omega
  | succ n ih =>
    cases hmail : (w.system.process r).mail with
    | none =>
      rw [rounds, hmail] at hn
      contradiction
    | some place =>
      obtain ⟨a, b⟩ := place
      obtain ⟨s', effects, hstep, hrounds, husr1⟩ := scan_round hplaced hmail
      obtain ⟨w₁, hadvance, hsystem, hsent⟩ := advance_handler (.inr rfl) hstep
      obtain ⟨w', hrun, hnone, hkept, hsame⟩ :=
        ih w₁ (hsystem ▸ hplaced.step hstep) (by rw [hsystem]; omega)
      refine ⟨w', ?_, hnone, ?_, hsame.trans hsent⟩
      · rw [List.replicate_succ, exec, hadvance]
        exact hrun
      · rw [hkept, hsystem, husr1]

theorem rounds_le (p : Process) : rounds p ≤ 331 := by
  rw [rounds]
  split
  next a b _ =>
    have hsize : maxUsers = 30 := rfl
    omega
  next => omega

/-- At most two passes, and the client is quiet. -/
theorem becomes_quiet (w : World) (hplaced : Placed w.system) (r : Nat) :
    ∃ more w', (∀ e ∈ more, e = .usr1 r ∨ e = .scan r) ∧ more.length ≤ 663 ∧
      exec advance w more = some w' ∧ Quiet w'.system r ∧ w'.sent = w.sent := by
  have hle := rounds_le (w.system.process r)
  obtain ⟨w₁, hrun, hnone, husr1, hsent⟩ := pass _ w hplaced rfl
  cases hpending : (w₁.system.process r).usr1 with
  | false =>
    refine ⟨_, w₁, ?_, ?_, hrun, ⟨hpending, hnone⟩, hsent⟩
    · exact fun e he => .inr (List.eq_of_mem_replicate he)
    · rw [List.length_replicate]
      omega
  | true =>
    have hstep : step w₁.system (.usr1 r) = some (w₁.system.setProcess r
        { w₁.system.process r with usr1 := false, mail := some (0, 0) }, []) :=
      if_pos ⟨hpending, hnone⟩
    obtain ⟨w₂, hadvance, hsystem, hkept⟩ := advance_handler (.inl rfl) hstep
    have hplaced₁ : Placed w₁.system := by
      refine invariant_always (I := fun _ w => Placed w.system) hplaced ?_ _ w₁ hrun
      intro es v e v' _ hv hv'
      obtain ⟨effects, heffects, -⟩ := advance_eq_some hv'
      exact hv.step heffects
    have hcleared : (w₂.system.process r).usr1 = false := by
      rw [hsystem, System.setProcess_process, if_pos rfl]
    obtain ⟨w₃, hrun', hnone', husr1', hsent'⟩ :=
      pass _ w₂ (hsystem ▸ hplaced₁.step hstep) rfl
    have hle' := rounds_le (w₂.system.process r)
    refine ⟨List.replicate (rounds (w.system.process r)) (.scan r) ++ .usr1 r ::
      List.replicate (rounds (w₂.system.process r)) (.scan r), w₃, ?_, ?_, ?_,
      ⟨husr1'.trans hcleared, hnone'⟩, hsent'.trans (hkept.trans hsent)⟩
    · intro e he
      rcases List.mem_append.mp he with hfirst | hrest
      · exact .inr (List.eq_of_mem_replicate hfirst)
      · rcases List.mem_cons.mp hrest with husr1 | hsecond
        · exact .inl husr1
        · exact .inr (List.eq_of_mem_replicate hsecond)
    · rw [List.length_append, List.length_cons, List.length_replicate, List.length_replicate]
      omega
    · rw [exec_append, hrun, Option.bind_some, exec, hadvance]
      exact hrun'

/-- A handler needs no room. -/
theorem roomy_append {es more : List Event}
    (hmeets : Meets advance World.initial (fun _ w e => Roomy w.system e) es)
    (hmore : ∀ e ∈ more, e = .usr1 r ∨ e = .scan r) :
    Meets advance World.initial (fun _ w e => Roomy w.system e) (es ++ more) := by
  induction more using List.reverseRecOn with
  | nil =>
    rw [List.append_nil]
    exact hmeets
  | append_singleton more e ih =>
    rw [← List.append_assoc]
    refine (ih fun e he => hmore e (List.mem_append_left _ he)).concat fun w _ => ?_
    intro p hp
    obtain rfl | rfl := hmore e (List.mem_append_right _ List.mem_cons_self) <;> contradiction

theorem quiet_printed {es : List Event}
    (hmeets : Meets advance World.initial (fun _ w e => Roomy w.system e) es)
    (hrun : exec advance World.initial es = some w) (hquiet : Quiet w.system r)
    (hsender : sender < maxUsers) : w.printed sender r = w.sent sender r := by
  have hflow := ((inOrder_run es w hmeets hrun).rows sender r).flow
  have hempty := (noted_run es w.system (exec_system es w hrun)).empty hquiet hsender
  rw [inFlight] at hempty
  rw [hempty, List.append_nil] at hflow
  exact hflow

end Pass

/-- In every run a client that is quiet has read its mailbox; and when each message has
found room, it has printed what each sender has sent to it, in order, and nothing else. -/
theorem quiet_all_printed (es : List Event) (w : World)
    (hrun : exec advance World.initial es = some w) (r : Nat) (hquiet : Quiet w.system r)
    (sender : Nat) (hsender : sender < maxUsers) :
    inFlight w.system sender r = [] ∧
      (Meets advance World.initial (fun _ w e => Roomy w.system e) es →
        w.printed sender r = w.sent sender r) :=
  ⟨(noted_run es w.system (exec_system es w hrun)).empty hquiet hsender,
    fun hmeets => quiet_printed hmeets hrun hquiet hsender⟩

/-- From every state that is reached, steps of the receiver's own handler alone, no more
than 663 of them, bring it to where it has printed all that was sent to it. -/
theorem delivered_soon (es : List Event) (w : World)
    (hmeets : Meets advance World.initial (fun _ w e => Roomy w.system e) es)
    (hrun : exec advance World.initial es = some w) (r : Nat) :
    ∃ more w', (∀ e ∈ more, e = .usr1 r ∨ e = .scan r) ∧ more.length ≤ 663 ∧
      exec advance w more = some w' ∧
        ∀ sender < maxUsers, w'.printed sender r = w.sent sender r := by
  obtain ⟨more, w', hhandler, hlength, hmore, hquiet, hsent⟩ :=
    becomes_quiet w (placed_run es w.system (exec_system es w hrun)) r
  refine ⟨more, w', hhandler, hlength, hmore, fun sender hsender => ?_⟩
  have hwhole : exec advance World.initial (es ++ more) = some w' := by
    rw [exec_append, hrun]
    exact hmore
  rw [← hsent]
  exact quiet_printed (roomy_append hmeets hhandler) hwhole hquiet hsender

def readLogin : List Event :=
  [.login 100 "127.0.0.1".toList 4000, .act 0 0, .login 101 "127.0.0.1".toList 4001, .act 1 0,
    .usr1 0] ++ List.replicate 331 (.scan 0)

theorem readLogin_printed : ∃ w, exec advance World.initial readLogin = some w ∧
    Quiet w.system 0 ∧ inFlight w.system 1 0 = [] ∧
      (Meets advance World.initial (fun _ w e => Roomy w.system e) readLogin →
        w.printed 1 0 = w.sent 1 0) := by
  have hquiet : (exec advance World.initial readLogin).any fun w =>
      !(w.system.process 0).usr1 && (w.system.process 0).mail.isNone := by decide +kernel
  cases hrun : exec advance World.initial readLogin with
  | none =>
    rw [hrun] at hquiet
    contradiction
  | some w =>
    rw [hrun, Option.any_some, Bool.and_eq_true, Bool.not_eq_true', Option.isNone_iff_eq_none]
      at hquiet
    have hq : Quiet w.system 0 := ⟨hquiet.1, hquiet.2⟩
    exact ⟨w, rfl, hq, quiet_all_printed readLogin w hrun 0 hq 1 (by decide)⟩

theorem handlerUnderway_delivered : ∃ w, exec advance World.initial handlerUnderway = some w ∧
    ∃ more w', (∀ e ∈ more, e = .usr1 0 ∨ e = .scan 0) ∧ more.length ≤ 663 ∧
      exec advance w more = some w' ∧ ∀ sender < maxUsers, w'.printed sender 0 = w.sent sender 0 := by
  have hsome : (exec advance World.initial handlerUnderway).isSome = true := by decide +kernel
  have hmeets : Meets advance World.initial (fun _ w e => Roomy w.system e) handlerUnderway := by
    decide +kernel
  obtain ⟨w, hw⟩ := Option.isSome_iff_exists.mp hsome
  exact ⟨w, hw, delivered_soon handlerUnderway w hmeets hw 0⟩

end NetworkProgramming.Multi
