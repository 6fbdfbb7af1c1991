import NetworkProgramming.Multi.Process
import NetworkProgramming.Library.Run

/-! The steps of all processes of `np_multi_proc` in any order, and what each can
do to the shared table. -/
namespace NetworkProgramming.Multi
open Library.CString Library.Mailbox Library.Run CommandLine

def System.setTodo (s : System) (i : Nat) (todo : List Action) : System :=
  s.setProcess i { s.process i with todo }

/-- The SIGUSR1 part of `sig_handler`, slot by slot. -/
def scan (s : System) (i : Nat) : Option (System × List Effect) :=
  let p := s.process i
  match p.mail with
  | none => none
  | some (a, b) =>
    if a = maxUsers then some (s.setProcess i { p with mail := none }, [])
    else if b = maxMsgNum then some (s.setProcess i { p with mail := some (a + 1, 0) }, [])
    else
      let c := s.clients i
      some ((s.setClient i (c.setMsg a (take (c.msg a) b))).setProcess i
        { p with mail := some (a, b + 1) }, (c.msg a b).toList.map (.deliver i a))

/-- The SIGUSR2 part of `sig_handler`, entry by entry; `result` is what `open` returns. -/
def openEntry (s : System) (i : Nat) (result : Int) : Option System :=
  let p := s.process i
  match p.pipes with
  | none => none
  | some k =>
    if k = maxUsers then some (s.setProcess i { p with pipes := none })
    else
      let c := s.clients i
      let opened := s.setProcess i { p with pipes := some (k + 1) }
      if (c.fifo k).fd = 0 ∧ (c.fifo k).filename ≠ [] then
        some (opened.setClient i (c.setFifo k { c.fifo k with fd := result }))
      else some opened

/-- A line reaches `do_exec` whole and alone; a handler that runs holds its own
signal back; SIGTERM and its like give up what the process was at. -/
def step (s : System) : Event → Option (System × List Effect)
  | .login pid ip port => some (addClient s pid ip port, [])
  | .line i text =>
    if (s.clients i).id ≠ 0 ∧ (s.process i).todo = [] then some (s.setTodo i [.doExec text], [])
    else none
  | .act i result =>
    match (s.process i).todo with
    | [] => none
    | action :: rest =>
      match act (s.setTodo i rest) i result action with
      | .error _ => none
      | .ok o =>
        some (o.system.setTodo i (o.next ++ (o.system.process i).todo), o.prints.map (.print i))
  | .usr1 i =>
    let p := s.process i
    if p.usr1 ∧ p.mail = none then
      some (s.setProcess i { p with usr1 := false, mail := some (0, 0) }, [])
    else none
  | .scan i => scan s i
  | .usr2 i =>
    let p := s.process i
    if p.usr2 ∧ p.pipes = none then
      some (s.setProcess i { p with usr2 := false, pipes := some 0 }, [])
    else none
  | .entry i result => (openEntry s i result).map fun s' => (s', [])
  | .term i => if (s.clients i).id ≠ 0 then some (s.setTodo i (rmUser s i), []) else none

def next (s : System) (e : Event) : Option System := (step s e).map Prod.fst

def leaving (s : System) : Event → Option Nat
  | .act i _ => if (s.process i).todo.head? = some .leave then some i else none
  | _ => none

/-- The message that a piece of a main flow sends, and to whom. -/
def message (s : System) (i : Nat) : Action → Option (Nat × Message)
  | .put r m => if 0 < (s.clients r).id then some (r, m) else none
  | .tell =>
    match tellMessage s i with
    | .ok (target, _) => target
    | .error _ => none
  | _ => none

/-- What a piece of a main flow, `leave` apart, does to the table. -/
inductive Written (s : System) (i : Nat) (a : Action) : (Nat → Client) → Prop
  | nothing (h : message s i a = none) : Written s i a s.clients
  | posted (r : Nat) (m : Message) (h : message s i a = some (r, m)) :
      Written s i a (Function.update s.clients r
        ((s.clients r).setMsg i (put ((s.clients r).msg i) maxMsgNum m)))
  | recorded (r : Nat) (filename : Text) (h : message s i a = none)
      (hentry : ((s.clients r).fifo i).fd = 0) :
      Written s i a (Function.update s.clients r
        ((s.clients r).setFifo i { (s.clients r).fifo i with filename }))
  | renamed (name : Text) (h : message s i a = none) :
      Written s i a (Function.update s.clients i { s.clients i with nickname := name })
  | released (k : Nat) (h : message s i a = none) :
      Written s i a (Function.update s.clients i ((s.clients i).setFifo k .zero))

/-- The same for the processes: `i` gets new operands, and logged-in clients signals. -/
structure SameFlow (s s' : System) : Prop where
  todo : ∀ j, (s'.process j).todo = (s.process j).todo
  mail : ∀ j, (s'.process j).mail = (s.process j).mail
  pipes : ∀ j, (s'.process j).pipes = (s.process j).pipes
  usr1 : ∀ j, (s'.process j).usr1 = (s.process j).usr1 ∨ (s.clients j).id ≠ 0
  usr2 : ∀ j, (s'.process j).usr2 = (s.process j).usr2 ∨ (s.clients j).id ≠ 0

variable {s s' : System} {i r : Nat} {a : Action} {o : Outcome} {result : Int} {e : Event}
  {effects : List Effect}

theorem SameFlow.same (h : s'.process = s.process) : SameFlow s s' := by
  constructor <;> intro j <;> rw [h]
  · exact .inl rfl
  · exact .inl rfl

theorem SameFlow.update {p : Process} {j : Nat} (h : s'.process = Function.update s.process j p)
    (hsame : p.todo = (s.process j).todo ∧ p.mail = (s.process j).mail ∧
      p.pipes = (s.process j).pipes)
    (hflags : p.usr1 = (s.process j).usr1 ∧ p.usr2 = (s.process j).usr2 ∨ (s.clients j).id ≠ 0) :
    SameFlow s s' := by
  have hcases : ∀ k, s'.process k = if k = j then p else s.process k := by
    intro k
    rw [h, Function.update_apply]
  constructor <;> intro k <;> rw [hcases k] <;> split
  next hk => rw [hk, hsame.1]
  next => rfl
  next hk => rw [hk, hsame.2.1]
  next => rfl
  next hk => rw [hk, hsame.2.2]
  next => rfl
  next hk =>
    rw [hk]
    exact hflags.imp_left And.left
  next => exact .inl rfl
  next hk =>
    rw [hk]
    exact hflags.imp_left And.right
  next => exact .inl rfl

theorem setOperand_flow (s : System) (i : Nat) (operand : List Text) :
    SameFlow s (setOperand s i operand) := SameFlow.update rfl ⟨rfl, rfl, rfl⟩ (.inl ⟨rfl, rfl⟩)

theorem message_id {m : Message} (h : message s i a = some (r, m)) : (s.clients r).id ≠ 0 := by
  unfold message at h
  split at h
  next =>
    split at h
    next hid =>
      cases h
      omega
    next => contradiction
  next =>
    split at h
    next htell =>
      subst h
      unfold tellMessage at htell
      split at htell
      next =>
        dsimp only at htell
        split at htell
        next =>
          split at htell
          next => contradiction
          next =>
            split at htell
            next hid =>
              cases htell
              exact hid
            next => simp at htell
        next => simp at htell
      next => contradiction
    next => contradiction
  next => contradiction

theorem post_clients (s : System) (i r : Nat) (m : Message) :
    (post s i r m).clients = Function.update s.clients r
      ((s.clients r).setMsg i (put ((s.clients r).msg i) maxMsgNum m)) := by
  unfold post
  split
  next hfull =>
    have hslots : put ((s.clients r).msg i) maxMsgNum m = (s.clients r).msg i := by
      rw [put, hfull]
    have hclient : (s.clients r).setMsg i ((s.clients r).msg i) = s.clients r := by
      rw [Client.setMsg, Function.update_eq_self]
    rw [hslots, hclient, Function.update_eq_self]
  next => rfl

theorem post_flow (hid : (s.clients r).id ≠ 0) (m : Message) : SameFlow s (post s i r m) := by
  unfold post
  split
  next => exact .same rfl
  next => exact SameFlow.update rfl ⟨rfl, rfl, rfl⟩ (.inr hid)

theorem record_flow (hid : (s.clients r).id ≠ 0) (filename : Text) :
    SameFlow s (record s i r filename) := SameFlow.update rfl ⟨rfl, rfl, rfl⟩ (.inr hid)

theorem doExec_system {line : Text} (h : doExec s i line = .ok o) : o.system = s := by
  unfold doExec at h
  split at h
  next => contradiction
  next =>
    cases h
    rfl
  next =>
    split at h
    next =>
      split at h
      next => contradiction
      next =>
        split at h
        next =>
          cases h
          rfl
        next =>
          split at h
          next => contradiction
          next =>
            dsimp only at h
            split at h
            next =>
              cases h
              rfl
            next =>
              split at h <;> cases h <;> rfl
    next =>
      cases h
      rfl

/-- The part for `>n` writes at most one record, where none was open. -/
theorem sendPipe_system {line : Text} {commands : List Text} {sendid : Option Nat}
    (h : sendPipe s i result line commands sendid = .ok o) :
    o.system = s ∨ ∃ r filename, (s.clients r).id ≠ 0 ∧ ((s.clients r).fifo i).fd = 0 ∧
      o.system = record s i r filename := by
  unfold sendPipe at h
  split at h
  next =>
    split at h
    next => contradiction
    next recvid _ =>
      dsimp only at h
      split at h
      next =>
        cases h
        exact .inl rfl
      next hknown =>
        split at h
        next =>
          cases h
          exact .inl rfl
        next hfree =>
          split at h
          next =>
            cases h
            exact .inl rfl
          next =>
            cases h
            have hid : (s.clients (recvid.toNat - 1)).id ≠ 0 :=
              fun hzero => hknown (.inr (.inr hzero))
            exact .inr ⟨_, _, hid, not_not.mp hfree, rfl⟩
  next =>
    cases h
    exact .inl rfl

theorem executeName_system (h : executeName s i = .ok o) :
    o.system = s ∨ ∃ name, o.system = s.setClient i { s.clients i with nickname := name } := by
  unfold executeName at h
  split at h
  next => contradiction
  next name _ =>
    split at h
    next =>
      cases h
      exact .inl rfl
    next =>
      cases h
      exact .inr ⟨name, rfl⟩

theorem executeYell_system (h : executeYell s i = .ok o) : o.system = s := by
  unfold executeYell at h
  split at h
  next => contradiction
  next =>
    cases h
    rfl

theorem runCommands_system {commands : List Text} {sendid : Option Nat}
    (h : runCommands s i commands sendid = .ok o) :
    SameFlow s o.system ∧ (o.system.clients = s.clients ∨
      ∃ name, o.system.clients =
        Function.update s.clients i { s.clients i with nickname := name }) := by
  unfold runCommands at h
  dsimp only at h
  split at h
  next =>
    split at h
    next =>
      cases h
      exact ⟨setOperand_flow s i _, .inl rfl⟩
    next => contradiction
  next =>
    split at h
    next =>
      cases h
      exact ⟨setOperand_flow s i _, .inl rfl⟩
    next => contradiction
  next =>
    cases h
    exact ⟨.same rfl, .inl rfl⟩
  next =>
    cases h
    exact ⟨.same rfl, .inl rfl⟩
  next =>
    cases hname : executeName s i with
    | error fault => simp [hname, Except.map] at h
    | ok named =>
      simp only [hname, Except.map, Except.ok.injEq] at h
      rw [← h]
      obtain hsame | ⟨name, hnamed⟩ := executeName_system hname
      · dsimp only
        rw [hsame]
        exact ⟨.same rfl, .inl rfl⟩
      · dsimp only
        rw [hnamed]
        exact ⟨.same rfl, .inr ⟨name, rfl⟩⟩
  next =>
    generalize splitSpace (commands.getLastD []) = operand at h
    cases hyell : executeYell (setOperand s i operand) i with
    | error fault => simp [hyell, Except.map] at h
    | ok yelled =>
      simp only [hyell, Except.map, Except.ok.injEq] at h
      rw [← h]
      dsimp only
      rw [executeYell_system hyell]
      exact ⟨setOperand_flow s i operand, .inl rfl⟩
  next =>
    cases h
    exact ⟨setOperand_flow s i _, .inl rfl⟩
  next =>
    cases h
    exact ⟨setOperand_flow s i _, .inl rfl⟩

theorem act_cases (h : act s i result a = .ok o) :
    (a = .leave ∧ o = ⟨leave s i, [], []⟩) ∨
      a ≠ .leave ∧ SameFlow s o.system ∧ Written s i a o.system.clients := by
  cases a with
  | put r m =>
    cases h
    right
    refine ⟨by simp, ?_⟩
    by_cases hid : 0 < (s.clients r).id
    · have hround : broadcastRound s i r m = post s i r m := if_pos hid
      have hmessage : message s i (.put r m) = some (r, m) := if_pos hid
      rw [hround, post_clients]
      exact ⟨post_flow (message_id hmessage) m, .posted r m hmessage⟩
    · have hround : broadcastRound s i r m = s := if_neg hid
      rw [hround]
      exact ⟨.same rfl, .nothing (if_neg hid)⟩
  | doExec line =>
    right
    rw [doExec_system h]
    exact ⟨by simp, .same rfl, .nothing rfl⟩
  | sendPipe line commands sendid =>
    right
    refine ⟨by simp, ?_⟩
    obtain hsame | ⟨r, filename, hid, hentry, hrecord⟩ := sendPipe_system h
    · rw [hsame]
      exact ⟨.same rfl, .nothing rfl⟩
    · rw [hrecord]
      exact ⟨record_flow hid filename, .recorded r filename rfl hentry⟩
  | openFifo line recvid commands sendid =>
    cases h
    exact .inr ⟨by simp, .same rfl, .nothing rfl⟩
  | runCommands commands sendid =>
    right
    refine ⟨by simp, ?_⟩
    obtain ⟨hflow, hsame | ⟨name, hnamed⟩⟩ := runCommands_system h
    · rw [hsame]
      exact ⟨hflow, .nothing rfl⟩
    · rw [hnamed]
      exact ⟨hflow, .renamed name rfl⟩
  | tell =>
    right
    refine ⟨by simp, ?_⟩
    have h : executeTell s i = .ok o := h
    unfold executeTell at h
    split at h
    next => contradiction
    next prints htell =>
      cases h
      exact ⟨.same rfl, .nothing (by rw [message, htell])⟩
    next r m prints htell =>
      cases h
      have hmessage : message s i .tell = some (r, m) := by
        rw [message, htell]
      rw [post_clients]
      exact ⟨post_flow (message_id hmessage) m, .posted r m hmessage⟩
  | release sendid =>
    cases h
    right
    refine ⟨by simp, ?_⟩
    dsimp only
    unfold release
    split
    next => exact ⟨.same rfl, .released _ rfl⟩
    next => exact ⟨.same rfl, .nothing rfl⟩
  | leave =>
    cases h
    exact .inl ⟨rfl, rfl⟩

theorem setTodo_process (s : System) (i j : Nat) (todo : List Action) :
    (s.setTodo i todo).process j = if j = i then { s.process i with todo } else s.process j :=
  System.setProcess_process s i _ j

theorem setTodo_message (s : System) (i : Nat) (todo : List Action) (a : Action) :
    message (s.setTodo i todo) i a = message s i a := by
  have hoperand : ((s.setTodo i todo).process i).operand = (s.process i).operand := by
    rw [setTodo_process, if_pos rfl]
  cases a <;> try rfl
  simp only [message, tellMessage, hoperand]
  rfl

theorem Written.setTodo {todo : List Action} {clients : Nat → Client}
    (h : Written (s.setTodo i todo) i a clients) : Written s i a clients := by
  have hsame := setTodo_message s i todo a
  cases h with
  | nothing h => exact .nothing (hsame ▸ h)
  | posted r m h => exact .posted r m (hsame ▸ h)
  | recorded r filename h hentry => exact .recorded r filename (hsame ▸ h) hentry
  | renamed name h => exact .renamed name (hsame ▸ h)
  | released k h => exact .released k (hsame ▸ h)

/-- The processes after a piece of the main flow of `i` that is not its last. -/
structure Flow (s s' : System) (i : Nat) : Prop where
  todo : ∀ j, j ≠ i → (s'.process j).todo = (s.process j).todo
  mail : ∀ j, (s'.process j).mail = (s.process j).mail
  pipes : ∀ j, (s'.process j).pipes = (s.process j).pipes
  usr1 : ∀ j, (s'.process j).usr1 = (s.process j).usr1 ∨ (s.clients j).id ≠ 0
  usr2 : ∀ j, (s'.process j).usr2 = (s.process j).usr2 ∨ (s.clients j).id ≠ 0

theorem setTodo_flow (s : System) (i : Nat) (todo : List Action) : Flow s (s.setTodo i todo) i := by
  have hcases := setTodo_process s i
  constructor <;> intro j
  · intro hj
    rw [hcases, if_neg hj]
  · rw [hcases]
    split
    next hj => rw [hj]
    next => rfl
  · rw [hcases]
    split
    next hj => rw [hj]
    next => rfl
  · left
    rw [hcases]
    split
    next hj => rw [hj]
    next => rfl
  · left
    rw [hcases]
    split
    next hj => rw [hj]
    next => rfl

theorem Flow.trans {middle : System} (h : Flow s middle i) (hmore : Flow middle s' i)
    (hid : ∀ j, (middle.clients j).id ≠ 0 → (s.clients j).id ≠ 0) : Flow s s' i where
  todo := fun j hj => (hmore.todo j hj).trans (h.todo j hj)
  mail := fun j => (hmore.mail j).trans (h.mail j)
  pipes := fun j => (hmore.pipes j).trans (h.pipes j)
  usr1 := by
    intro j
    obtain hsame | hlogged := hmore.usr1 j
    · rw [hsame]
      exact h.usr1 j
    · exact .inr (hid j hlogged)
  usr2 := by
    intro j
    obtain hsame | hlogged := hmore.usr2 j
    · rw [hsame]
      exact h.usr2 j
    · exact .inr (hid j hlogged)

theorem SameFlow.flow (h : SameFlow s s') : Flow s s' i :=
  ⟨fun j _ => h.todo j, h.mail, h.pipes, h.usr1, h.usr2⟩

theorem Written.id {clients : Nat → Client} (h : Written s i a clients) (j : Nat) :
    (clients j).id = (s.clients j).id := by
  cases h with
  | nothing => rfl
  | posted r m =>
    rw [Function.update_apply]
    split
    next hj => rw [hj, Client.setMsg_id]
    next => rfl
  | recorded r filename =>
    rw [Function.update_apply]
    split
    next hj => rw [hj, Client.setFifo_id]
    next => rfl
  | renamed name =>
    rw [Function.update_apply]
    split
    next hj => rw [hj]
    next => rfl
  | released k =>
    rw [Function.update_apply]
    split
    next hj => rw [hj, Client.setFifo_id]
    next => rfl

theorem step_act (h : step s (.act i result) = some (s', effects)) :
    ∃ a rest, (s.process i).todo = a :: rest ∧
      (a = .leave ∧ s' = leave s i ∧ effects = [] ∨
        a ≠ .leave ∧ Written s i a s'.clients ∧ Flow s s' i ∧
          ∃ o, act (s.setTodo i rest) i result a = .ok o ∧ effects = o.prints.map (.print i)) := by
  simp only [step] at h
  split at h
  next => contradiction
  next a rest htodo =>
    split at h
    next => contradiction
    next o hact =>
      rw [Option.some.injEq, Prod.mk.injEq] at h
      refine ⟨a, rest, htodo, ?_⟩
      obtain ⟨hleave, rfl⟩ | ⟨hleave, hflow, hwritten⟩ := act_cases hact
      · left
        refine ⟨hleave, ?_, h.2.symm⟩
        rw [← h.1]
        simp only [leave, System.setTodo, System.setProcess, System.setClient, List.nil_append,
          Function.update_idem, Function.update_self]
      · right
        rw [← h.1]
        have hid := fun j => (hwritten.id j).symm
        refine ⟨hleave, hwritten.setTodo, ?_, o, hact, h.2.symm⟩
        apply (setTodo_flow s i rest).trans
        · apply hflow.flow.trans (setTodo_flow _ _ _)
          intro j hj
          rw [hid j]
          exact hj
        · exact fun j hj => hj

/-- One round of the SIGUSR1 part of `sig_handler`. -/
inductive Scanned (s : System) (i : Nat) : System → List Effect → Prop
  | done (b : Nat) (h : (s.process i).mail = some (maxUsers, b)) :
      Scanned s i (s.setProcess i { s.process i with mail := none }) []
  | row (a : Nat) (h : (s.process i).mail = some (a, maxMsgNum)) (ha : a ≠ maxUsers) :
      Scanned s i (s.setProcess i { s.process i with mail := some (a + 1, 0) }) []
  | slot (a b : Nat) (h : (s.process i).mail = some (a, b)) (ha : a ≠ maxUsers)
      (hb : b ≠ maxMsgNum) :
      Scanned s i ((s.setClient i ((s.clients i).setMsg a (take ((s.clients i).msg a) b))).setProcess
        i { s.process i with mail := some (a, b + 1) })
        (((s.clients i).msg a b).toList.map (.deliver i a))

theorem scan_scanned (h : scan s i = some (s', effects)) : Scanned s i s' effects := by
  unfold scan at h
  dsimp only at h
  split at h
  next => contradiction
  next a b hmail =>
    split at h
    next ha =>
      cases h
      subst ha
      exact .done b hmail
    next ha =>
      split at h
      next hb =>
        cases h
        subst hb
        exact .row a hmail ha
      next hb =>
        cases h
        exact .slot a b hmail ha hb

inductive Opened (s : System) (i : Nat) (result : Int) : System → Prop
  | done (h : (s.process i).pipes = some maxUsers) :
      Opened s i result (s.setProcess i { s.process i with pipes := none })
  | skipped (k : Nat) (h : (s.process i).pipes = some k) :
      Opened s i result (s.setProcess i { s.process i with pipes := some (k + 1) })
  | entry (k : Nat) (h : (s.process i).pipes = some k)
      (hfilename : ((s.clients i).fifo k).filename ≠ []) :
      Opened s i result ((s.setProcess i { s.process i with pipes := some (k + 1) }).setClient i
        ((s.clients i).setFifo k { (s.clients i).fifo k with fd := result }))

theorem openEntry_opened (h : openEntry s i result = some s') : Opened s i result s' := by
  unfold openEntry at h
  dsimp only at h
  split at h
  next => contradiction
  next k hpipes =>
    split at h
    next hk =>
      cases h
      subst hk
      exact .done hpipes
    next =>
      split at h
      next hentry =>
        cases h
        exact .entry k hpipes hentry.2
      next =>
        cases h
        exact .skipped k hpipes

theorem addClient_cases (s : System) (pid : Int) (ip : Text) (port : Nat) :
    addClient s pid ip port = s ∨ ∃ j p, j < maxUsers ∧ (s.clients j).id = 0 ∧
      p.mail = none ∧ addClient s pid ip port =
        (s.setClient j { s.clients j with
          id := j + 1, pid, nickname := "(no name)".toList, ip, port }).setProcess j p := by
  unfold addClient
  split
  next => exact .inl rfl
  next j hfind =>
    right
    rw [List.find?_range_eq_some] at hfind
    refine ⟨j, _, List.mem_range.mp hfind.2.1, ?_, ?_, rfl⟩
    · simpa using hfind.1
    · rfl

inductive Stepped (s : System) : Event → System → List Effect → Prop
  | login (pid : Int) (ip : Text) (port : Nat) :
      Stepped s (.login pid ip port) (addClient s pid ip port) []
  | line (i : Nat) (text : Text) (hid : (s.clients i).id ≠ 0) :
      Stepped s (.line i text) (s.setTodo i [.doExec text]) []
  | left (i : Nat) (result : Int) (rest : List Action)
      (htodo : (s.process i).todo = .leave :: rest) : Stepped s (.act i result) (leave s i) []
  | act (i : Nat) (result : Int) (a : Action) (rest : List Action) (s' : System)
      (prints : List Notice) (htodo : (s.process i).todo = a :: rest) (hleave : a ≠ .leave)
      (hwritten : Written s i a s'.clients) (hflow : Flow s s' i) :
      Stepped s (.act i result) s' (prints.map (.print i))
  | usr1 (i : Nat) (husr1 : (s.process i).usr1 = true) (hmail : (s.process i).mail = none) :
      Stepped s (.usr1 i)
        (s.setProcess i { s.process i with usr1 := false, mail := some (0, 0) }) []
  | scan (i : Nat) (s' : System) (effects : List Effect) (h : Scanned s i s' effects) :
      Stepped s (.scan i) s' effects
  | usr2 (i : Nat) (husr2 : (s.process i).usr2 = true) :
      Stepped s (.usr2 i) (s.setProcess i { s.process i with usr2 := false, pipes := some 0 }) []
  | entry (i : Nat) (result : Int) (s' : System) (h : Opened s i result s') :
      Stepped s (.entry i result) s' []
  | term (i : Nat) (hid : (s.clients i).id ≠ 0) :
      Stepped s (.term i) (s.setTodo i (rmUser s i)) []

theorem step_stepped (h : step s e = some (s', effects)) : Stepped s e s' effects := by
  cases e with
  | login pid ip port =>
    cases h
    exact .login pid ip port
  | line i text =>
    simp only [step] at h
    split at h
    next hready =>
      cases h
      exact .line i text hready.1
    next => contradiction
  | act i result =>
    obtain ⟨a, rest, htodo, ⟨rfl, rfl, rfl⟩ | ⟨hleave, hwritten, hflow, o, -, rfl⟩⟩ := step_act h
    · exact .left i result rest htodo
    · exact .act i result a rest s' o.prints htodo hleave hwritten hflow
  | usr1 i =>
    simp only [step] at h
    split at h
    next hpending =>
      cases h
      exact .usr1 i hpending.1 hpending.2
    next => contradiction
  | scan i => exact .scan i s' effects (scan_scanned h)
  | usr2 i =>
    simp only [step] at h
    split at h
    next hpending =>
      cases h
      exact .usr2 i hpending.1
    next => contradiction
  | entry i result =>
    obtain ⟨opened, hopen, heq⟩ := Option.map_eq_some_iff.mp h
    cases heq
    exact .entry i result _ (openEntry_opened hopen)
  | term i =>
    simp only [step] at h
    split at h
    next hid =>
      cases h
      exact .term i hid
    next => contradiction

theorem leaving_act {rest : List Action} (htodo : (s.process i).todo = a :: rest) :
    leaving s (.act i result) = if a = .leave then some i else none := by
  rw [leaving, htodo]
  simp

/-- A slot of the table that is free has no process. -/
structure Process.Gone (p : Process) : Prop where
  todo : p.todo = []
  mail : p.mail = none
  pipes : p.pipes = none
  usr1 : p.usr1 = false
  usr2 : p.usr2 = false

def Vacant (s : System) : Prop := ∀ j, (s.clients j).id = 0 → (s.process j).Gone

theorem Process.gone_initial : Process.initial.Gone := ⟨rfl, rfl, rfl, rfl, rfl⟩

theorem Vacant.initial : Vacant System.initial := fun _ _ => Process.gone_initial

theorem Vacant.logged (hvacant : Vacant s) (h : ¬ (s.process i).Gone) : (s.clients i).id ≠ 0 :=
  fun hzero => h (hvacant i hzero)

theorem Vacant.own (hvacant : Vacant s) (hi : (s.clients i).id ≠ 0)
    (hid : ∀ j, (s'.clients j).id = (s.clients j).id)
    (hother : ∀ j, j ≠ i → s'.process j = s.process j) : Vacant s' := by
  intro j hj
  rw [hid j] at hj
  have hne : j ≠ i := by
    rintro rfl
    exact hi hj
  rw [hother j hne]
  exact hvacant j hj

theorem setProcess_other {p : Process} {j : Nat} (h : j ≠ i) :
    (s.setProcess i p).process j = s.process j := by
  rw [System.setProcess_process, if_neg h]

theorem setClient_id {c : Client} (h : c.id = (s.clients i).id) (j : Nat) :
    ((s.setClient i c).clients j).id = (s.clients j).id := by
  rw [System.setClient_clients]
  split
  next hj => rw [hj, h]
  next => rfl

theorem Vacant.process (hvacant : Vacant s) (hi : (s.clients i).id ≠ 0) (p : Process) :
    Vacant (s.setProcess i p) :=
  hvacant.own hi (fun _ => rfl) fun _ hj => setProcess_other hj

theorem Vacant.login (hvacant : Vacant s) (pid : Int) (ip : Text) (port : Nat) :
    Vacant (addClient s pid ip port) := by
  obtain hsame | ⟨j, p, -, -, -, hnew⟩ := addClient_cases s pid ip port
  · rw [hsame]
    exact hvacant
  · rw [hnew]
    intro k hk
    rw [System.setProcess_clients, System.setClient_clients] at hk
    split at hk
    next =>
      dsimp only at hk
      omega
    next hkj =>
      rw [setProcess_other hkj]
      exact hvacant k hk

theorem Vacant.leave (hvacant : Vacant s) (i : Nat) : Vacant (Multi.leave s i) := by
  intro j hj
  rw [Multi.leave, System.setProcess_process]
  split
  next => exact Process.gone_initial
  next hne =>
    rw [Multi.leave, System.setProcess_clients, System.setClient_clients, if_neg hne] at hj
    exact hvacant j hj

theorem Vacant.flow (hvacant : Vacant s) (hi : (s.clients i).id ≠ 0)
    (hid : ∀ j, (s'.clients j).id = (s.clients j).id) (hflow : Flow s s' i) : Vacant s' := by
  intro j hj
  rw [hid j] at hj
  have hgone := hvacant j hj
  have hne : j ≠ i := by
    rintro rfl
    exact hi hj
  constructor
  · rw [hflow.todo j hne, hgone.todo]
  · rw [hflow.mail j, hgone.mail]
  · rw [hflow.pipes j, hgone.pipes]
  · rw [(hflow.usr1 j).resolve_right (not_not.mpr hj), hgone.usr1]
  · rw [(hflow.usr2 j).resolve_right (not_not.mpr hj), hgone.usr2]

theorem Vacant.scan (hvacant : Vacant s) (h : Scanned s i s' effects) : Vacant s' := by
  have hi : ∀ a b, (s.process i).mail = some (a, b) → (s.clients i).id ≠ 0 := by
    intro a b hmail
    apply hvacant.logged
    intro hgone
    rw [hgone.mail] at hmail
    contradiction
  cases h with
  | done b hmail => exact hvacant.process (hi _ _ hmail) _
  | row a hmail => exact hvacant.process (hi _ _ hmail) _
  | slot a b hmail =>
    exact hvacant.own (hi _ _ hmail) (setClient_id rfl) fun _ hj => setProcess_other hj

theorem Vacant.opened (hvacant : Vacant s) (h : Opened s i result s') : Vacant s' := by
  have hi : ∀ k, (s.process i).pipes = some k → (s.clients i).id ≠ 0 := by
    intro k hpipes
    apply hvacant.logged
    intro hgone
    rw [hgone.pipes] at hpipes
    contradiction
  cases h with
  | done hpipes => exact hvacant.process (hi _ hpipes) _
  | skipped k hpipes => exact hvacant.process (hi _ hpipes) _
  | entry k hpipes =>
    refine hvacant.own (hi _ hpipes) ?_ fun _ hj => setProcess_other hj
    exact setClient_id (s := s.setProcess i _) rfl

theorem Vacant.step (hvacant : Vacant s) (h : step s e = some (s', effects)) : Vacant s' := by
  cases step_stepped h with
  | login pid ip port => exact hvacant.login pid ip port
  | line i text hid => exact hvacant.process hid _
  | left i => exact hvacant.leave i
  | act i result a rest s' prints htodo _ hwritten hflow =>
    refine hvacant.flow ?_ hwritten.id hflow
    apply hvacant.logged
    intro hgone
    rw [hgone.todo] at htodo
    contradiction
  | usr1 i husr1 =>
    refine hvacant.process ?_ _
    apply hvacant.logged
    intro hgone
    rw [hgone.usr1] at husr1
    contradiction
  | scan i s' effects hscanned => exact hvacant.scan hscanned
  | usr2 i husr2 =>
    refine hvacant.process ?_ _
    apply hvacant.logged
    intro hgone
    rw [hgone.usr2] at husr2
    contradiction
  | entry i result s' hopened => exact hvacant.opened hopened
  | term i hid => exact hvacant.process hid _

/-- How a step may change the record of client `r`. -/
inductive Touched (s : System) (e : Event) (r : Nat) : Client → Prop
  | same : Touched s e r (s.clients r)
  | login (pid : Int) (ip : Text) (port : Nat) (hfree : (s.clients r).id = 0) :
      Touched s e r { s.clients r with
        id := r + 1, pid, nickname := "(no name)".toList, ip, port }
  | mail (a : Nat) (slots : Nat → Option Message) : Touched s e r ((s.clients r).setMsg a slots)
  | recorded (i : Nat) (result : Int) (filename : Text) (h : e = .act i result)
      (hleaving : leaving s e = none) (htodo : (s.process i).todo ≠ []) :
      Touched s e r ((s.clients r).setFifo i { (s.clients r).fifo i with filename })
  | renamed (name : Text) : Touched s e r { s.clients r with nickname := name }
  | released (k : Nat) : Touched s e r ((s.clients r).setFifo k .zero)
  | opened (k : Nat) (result : Int) (hfilename : ((s.clients r).fifo k).filename ≠ []) :
      Touched s e r ((s.clients r).setFifo k { (s.clients r).fifo k with fd := result })
  | left (h : leaving s e = some r) : Touched s e r .zero

theorem touched_update {c : Client} (h : Touched s e i c) (j : Nat) :
    Touched s e j (Function.update s.clients i c j) := by
  rw [Function.update_apply]
  split
  next hj =>
    rw [hj]
    exact h
  next => exact .same

theorem Written.touched {clients : Nat → Client} {rest : List Action}
    (h : Written s i a clients) (htodo : (s.process i).todo = a :: rest) (hleave : a ≠ .leave)
    (j : Nat) : Touched s (.act i result) j (clients j) := by
  cases h with
  | nothing => exact .same
  | posted r m => exact touched_update (.mail _ _) j
  | recorded r filename =>
    apply touched_update _ j
    apply Touched.recorded i result filename rfl
    · rw [leaving_act htodo, if_neg hleave]
    · rw [htodo]
      simp
  | renamed name => exact touched_update (.renamed name) j
  | released k => exact touched_update (.released k) j

theorem step_touched (h : step s e = some (s', effects)) (j : Nat) :
    Touched s e j (s'.clients j) := by
  cases step_stepped h with
  | login pid ip port =>
    obtain hsame | ⟨k, p, -, hfree, -, hnew⟩ := addClient_cases s pid ip port
    · rw [hsame]
      exact .same
    · rw [hnew]
      exact touched_update (.login pid ip port hfree) j
  | left i result rest htodo =>
    apply touched_update (.left _) j
    rw [leaving_act htodo, if_pos rfl]
  | act i result a rest s' prints htodo hleave hwritten => exact hwritten.touched htodo hleave j
  | scan i s' effects hscanned =>
    cases hscanned with
    | done => exact .same
    | row => exact .same
    | slot a b => exact touched_update (.mail _ _) j
  | entry i result s' hopened =>
    cases hopened with
    | done => exact .same
    | skipped => exact .same
    | entry k _ hfilename => exact touched_update (.opened k result hfilename) j
  | _ => exact .same

end NetworkProgramming.Multi
