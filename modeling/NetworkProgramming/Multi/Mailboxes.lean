import NetworkProgramming.Multi.Steps

/-! The mailboxes of `np_multi_proc` as a message protocol: ten slots from each
sender to each receiver, filled by the sender's loop and emptied by the
receiver's signal handler in any order of their steps. -/
namespace NetworkProgramming.Multi
open Library.CString Library.Mailbox Library.Run CommandLine

def reading (p : Process) (sender : Nat) : Nat :=
  match p.mail with
  | some (a, b) => if a = sender then b else 0
  | none => 0

def posting (s : System) : Event → Option (Nat × Nat × Message)
  | .act i _ => ((s.process i).todo.head?.bind (message s i)).map fun p => (i, p.1, p.2)
  | _ => none

/-- The processes, and what each present receiver was sent and has printed, by sender. -/
structure World where
  system : System
  sent : Nat → Nat → List Message
  printed : Nat → Nat → List Message

def World.initial : World := ⟨System.initial, fun _ _ => [], fun _ _ => []⟩

def sentNow (s : System) (e : Event) (sender r : Nat) : List Message :=
  match posting s e with
  | some (i, target, m) => if i = sender ∧ target = r then [m] else []
  | none => []

def printedNow (effects : List Effect) (sender r : Nat) : List Message :=
  effects.filterMap fun effect =>
    match effect with
    | .deliver i a m => if i = r ∧ a = sender then some m else none
    | .print _ _ => none

def advance (w : World) (e : Event) : Option World :=
  (step w.system e).map fun p =>
    { system := p.1
      sent := fun sender r =>
        if leaving w.system e = some r then [] else w.sent sender r ++ sentNow w.system e sender r
      printed := fun sender r =>
        if leaving w.system e = some r then [] else w.printed sender r ++ printedNow p.2 sender r }

/-- The messages in the slots, in the order in which the receiver comes by. -/
def inFlight (s : System) (sender r : Nat) : List Message :=
  waiting ((s.clients r).msg sender) maxMsgNum (reading (s.process r) sender)

/-- A message that is sent finds a free slot; while the receiver's handler is on its way
through the row, one that it has passed. -/
def Roomy (s : System) (e : Event) : Prop :=
  ∀ p ∈ posting s e,
    Room ((s.clients p.2.1).msg p.1) maxMsgNum (reading (s.process p.2.1) p.1)

instance (s : System) (e : Event) : Decidable (Roomy s e) :=
  inferInstanceAs (Decidable (∀ p ∈ posting s e, _))

/-- One row: what was printed and then what is in flight is what was sent. -/
def Row (w : World) (sender r : Nat) : Prop :=
  Conserves ((w.system.clients r).msg sender) maxMsgNum (reading (w.system.process r) sender)
    (w.printed sender r) (w.sent sender r)

structure InOrder (w : World) : Prop where
  rows : ∀ sender r, Row w sender r
  ended : ∀ r b, (w.system.process r).mail = some (maxUsers, b) → b = 0
  vacant : Vacant w.system

variable {w w' : World} {s s' : System} {e : Event} {i r sender : Nat} {effects : List Effect}

theorem InOrder.initial : InOrder World.initial where
  rows := fun _ _ => Conserves.empty fun _ => rfl
  ended := by
    intro r b h
    simp [World.initial, System.initial, Process.initial] at h
  vacant := Vacant.initial

theorem reading_congr {p p' : Process} (h : p'.mail = p.mail) : reading p' sender = reading p sender := by
  rw [reading, reading, h]

theorem printedNow_print (prints : List Notice) :
    printedNow (prints.map (.print i)) sender r = [] := by
  induction prints with
  | nil => rfl
  | cons notice prints ih => exact ih

theorem printedNow_deliver (m : Option Message) (a : Nat) :
    printedNow (m.toList.map (.deliver i a)) sender r =
      if i = r ∧ a = sender then m.toList else [] := by
  cases m with
  | none => simp [printedNow]
  | some m =>
    by_cases h : i = r ∧ a = sender
    · simp [printedNow, h]
    · simp [printedNow, h]

theorem sentNow_of_none (h : posting s e = none) : sentNow s e sender r = [] := by
  rw [sentNow, h]

theorem advance_eq_some (h : advance w e = some w') :
    ∃ effects, step w.system e = some (w'.system, effects) ∧
      (∀ sender r, w'.sent sender r =
        if leaving w.system e = some r then []
        else w.sent sender r ++ sentNow w.system e sender r) ∧
      ∀ sender r, w'.printed sender r =
        if leaving w.system e = some r then []
        else w.printed sender r ++ printedNow effects sender r := by
  obtain ⟨p, hp, rfl⟩ := Option.map_eq_some_iff.mp h
  exact ⟨p.2, hp, fun _ _ => rfl, fun _ _ => rfl⟩

theorem exec_system (es : List Event) (w : World)
    (hrun : exec advance World.initial es = some w) :
    exec next System.initial es = some w.system := by
  apply invariant_always
    (I := fun es w => exec next System.initial es = some w.system) _ _ es w hrun
  · rfl
  · intro es w e w' _ hsystem hstep
    obtain ⟨effects, hstep, -⟩ := advance_eq_some hstep
    rw [exec_concat, hsystem, Option.bind_some, next, hstep]
    rfl

section Rows

variable {clients : Nat → Client}

theorem Row.quiet (h : Row w sender r)
    (hmsg : (w'.system.clients r).msg sender = (w.system.clients r).msg sender)
    (hreading : reading (w'.system.process r) sender = reading (w.system.process r) sender)
    (hsent : w'.sent sender r = w.sent sender r)
    (hprinted : w'.printed sender r = w.printed sender r) : Row w' sender r := by
  unfold Row
  rw [hmsg, hreading, hsent, hprinted]
  exact h

theorem Written.row {a : Action} (h : Written s i a clients) (sender r : Nat) :
    (clients r).msg sender =
      match message s i a with
      | some (target, m) =>
        if i = sender ∧ target = r then put ((s.clients r).msg sender) maxMsgNum m
        else (s.clients r).msg sender
      | none => (s.clients r).msg sender := by
  cases h with
  | nothing h => rw [h]
  | posted target m h =>
    rw [h, Function.update_apply]
    dsimp only
    by_cases hr : r = target
    · rw [if_pos hr, Client.setMsg_msg]
      by_cases hs : sender = i
      · rw [if_pos hs, if_pos ⟨hs.symm, hr.symm⟩, hr, hs]
      · rw [if_neg hs, if_neg fun h => hs h.1.symm, hr]
    · rw [if_neg hr, if_neg fun h => hr h.2.symm]
  | recorded target filename h =>
    rw [h, Function.update_apply]
    dsimp only
    split
    next hr => rw [hr, Client.setFifo_msg]
    next => rfl
  | renamed name h =>
    rw [h, Function.update_apply]
    dsimp only
    split
    next hr => rw [hr]
    next => rfl
  | released k h =>
    rw [h, Function.update_apply]
    dsimp only
    split
    next hr => rw [hr, Client.setFifo_msg]
    next => rfl

end Rows

section Steps

variable {a : Action} {rest : List Action} {result : Int}

theorem posting_act (htodo : (s.process i).todo = a :: rest) :
    posting s (.act i result) = (message s i a).map fun p => (i, p.1, p.2) := by
  rw [posting, htodo]
  rfl

theorem sentNow_act (htodo : (s.process i).todo = a :: rest) :
    sentNow s (.act i result) sender r =
      match message s i a with
      | some (target, m) => if i = sender ∧ target = r then [m] else []
      | none => [] := by
  rw [sentNow, posting_act htodo]
  cases message s i a <;> rfl

theorem Row.act (h : Row w sender r) (htodo : (w.system.process i).todo = a :: rest)
    (hleave : a ≠ .leave) (hwritten : Written w.system i a w'.system.clients)
    (hmail : (w'.system.process r).mail = (w.system.process r).mail)
    (hroomy : Roomy w.system (.act i result))
    (hsent : w'.sent sender r = if leaving w.system (.act i result) = some r then []
      else w.sent sender r ++ sentNow w.system (.act i result) sender r)
    (hprinted : w'.printed sender r = if leaving w.system (.act i result) = some r then []
      else w.printed sender r) : Row w' sender r := by
  rw [leaving_act htodo, if_neg hleave, if_neg (by simp), sentNow_act htodo] at hsent
  rw [leaving_act htodo, if_neg hleave, if_neg (by simp)] at hprinted
  have hslots := hwritten.row sender r
  have hreading : reading (w'.system.process r) sender = reading (w.system.process r) sender :=
    reading_congr hmail
  cases hmessage : message w.system i a with
  | none =>
    rw [hmessage] at hsent hslots
    exact h.quiet hslots hreading (hsent.trans (List.append_nil _)) hprinted
  | some p =>
    rw [hmessage] at hsent hslots
    dsimp only at hsent hslots
    by_cases hrow : i = sender ∧ p.1 = r
    · rw [if_pos hrow] at hsent hslots
      have hroom := hroomy (i, p.1, p.2) (by rw [posting_act htodo, hmessage]; rfl)
      dsimp only at hroom
      rw [hrow.1, hrow.2] at hroom
      unfold Row
      rw [hslots, hreading, hsent, hprinted]
      exact Conserves.put h hroom
    · rw [if_neg hrow] at hsent hslots
      exact h.quiet hslots hreading (hsent.trans (List.append_nil _)) hprinted

theorem Row.endRow {a : Nat} (h : Row w sender r)
    (hmail : (w.system.process i).mail = some (a, maxMsgNum))
    (hsystem : w'.system =
      w.system.setProcess i { w.system.process i with mail := some (a + 1, 0) })
    (hsent : w'.sent sender r = w.sent sender r)
    (hprinted : w'.printed sender r = w.printed sender r) : Row w' sender r := by
  by_cases hr : r = i
  · subst hr
    by_cases hsender : a = sender
    · -- the end of the row of `sender`
      have hlast : reading (w.system.process r) sender = maxMsgNum := by
        rw [reading, hmail]
        exact if_pos hsender
      have hnext : reading (w'.system.process r) sender = 0 := by
        rw [hsystem, System.setProcess_process, if_pos rfl, reading]
        exact if_neg (by omega)
      unfold Row at h
      unfold Row
      rw [hlast] at h
      rw [hnext, hsent, hprinted, hsystem, System.setProcess_clients]
      exact h.wrap
    · apply h.quiet
      · rw [hsystem, System.setProcess_clients]
      · rw [hsystem, System.setProcess_process, if_pos rfl, reading, reading, hmail]
        dsimp only
        rw [if_neg hsender, ite_self]
      · exact hsent
      · exact hprinted
  · apply h.quiet
    · rw [hsystem, System.setProcess_clients]
    · rw [hsystem, System.setProcess_process, if_neg hr]
    · exact hsent
    · exact hprinted

/-- The handler of `i` takes the message at `b`, if there is one. -/
theorem Row.takeSlot {a b : Nat} (h : Row w sender r)
    (hmail : (w.system.process i).mail = some (a, b)) (hb : b ≠ maxMsgNum)
    (hsystem : w'.system =
      (w.system.setClient i
        ((w.system.clients i).setMsg a (take ((w.system.clients i).msg a) b))).setProcess i
          { w.system.process i with mail := some (a, b + 1) })
    (hsent : w'.sent sender r = w.sent sender r)
    (hprinted : w'.printed sender r = w.printed sender r ++
      if i = r ∧ a = sender then ((w.system.clients i).msg a b).toList else []) :
    Row w' sender r := by
  by_cases hrow : i = r ∧ a = sender
  · obtain ⟨rfl, rfl⟩ := hrow
    rw [if_pos ⟨rfl, rfl⟩] at hprinted
    have hnow : reading (w.system.process i) a = b := by
      rw [reading, hmail]
      exact if_pos rfl
    have hnext : reading (w'.system.process i) a = b + 1 := by
      rw [hsystem, System.setProcess_process, if_pos rfl, reading]
      exact if_pos rfl
    have hslots : (w'.system.clients i).msg a = take ((w.system.clients i).msg a) b := by
      rw [hsystem, System.setProcess_clients, System.setClient_clients, if_pos rfl,
        Client.setMsg_msg, if_pos rfl]
    unfold Row at h
    unfold Row
    rw [hnow] at h
    rw [hnext, hslots, hsent, hprinted]
    have hwithin := h.within
    exact h.take (by omega)
  · rw [if_neg hrow, List.append_nil] at hprinted
    apply h.quiet
    · rw [hsystem, System.setProcess_clients, System.setClient_clients]
      split
      next hr =>
        have hsender : sender ≠ a := fun h => hrow ⟨hr.symm, h.symm⟩
        rw [Client.setMsg_msg, if_neg hsender, hr]
      next => rfl
    · rw [hsystem, System.setProcess_process]
      split
      next hr =>
        have hsender : a ≠ sender := fun h => hrow ⟨hr.symm, h⟩
        rw [hr, reading, reading, hmail]
        dsimp only
        rw [if_neg hsender, if_neg hsender]
      next => rfl
    · exact hsent
    · exact hprinted

theorem Row.scan (h : Row w sender r)
    (hended : ∀ r b, (w.system.process r).mail = some (maxUsers, b) → b = 0)
    (hscanned : Scanned w.system i w'.system effects) (hsent : w'.sent sender r = w.sent sender r)
    (hprinted : w'.printed sender r = w.printed sender r ++ printedNow effects sender r) :
    Row w' sender r := by
  generalize hsystem : w'.system = s' at hscanned
  cases hscanned with
  | done b hmail =>
    apply h.quiet
    · rw [hsystem, System.setProcess_clients]
    · rw [hsystem, System.setProcess_process]
      split
      next hr =>
        subst hr
        rw [reading, reading, hmail, hended r b hmail]
        simp
      next => rfl
    · exact hsent
    · rw [hprinted]
      exact List.append_nil _
  | row a hmail ha => exact h.endRow hmail hsystem hsent (hprinted.trans (List.append_nil _))
  | slot a b hmail ha hb =>
    rw [printedNow_deliver] at hprinted
    exact h.takeSlot hmail hb hsystem hsent hprinted

theorem InOrder.quiet (hinv : InOrder w) (hvacant : Vacant w'.system)
    (hmsg : ∀ r, (w'.system.clients r).msg = (w.system.clients r).msg)
    (hmail : ∀ r, (w'.system.process r).mail = (w.system.process r).mail)
    (hsent : w'.sent = w.sent) (hprinted : w'.printed = w.printed) : InOrder w' where
  rows := by
    intro sender r
    apply (hinv.rows sender r).quiet
    · rw [hmsg]
    · exact reading_congr (hmail r)
    · rw [hsent]
    · rw [hprinted]
  ended := by
    intro r b h
    rw [hmail] at h
    exact hinv.ended r b h
  vacant := hvacant

theorem setProcess_mail {p : Process} (h : p.mail = (s.process i).mail) (r : Nat) :
    ((s.setProcess i p).process r).mail = (s.process r).mail := by
  rw [System.setProcess_process]
  split
  next hr => rw [h, hr]
  next => rfl

theorem InOrder.login {pid : Int} {ip : Text} {port : Nat} (hinv : InOrder w)
    (hvacant : Vacant w'.system) (hsystem : w'.system = addClient w.system pid ip port)
    (hsent : w'.sent = w.sent) (hprinted : w'.printed = w.printed) : InOrder w' := by
  obtain hsame | ⟨j, p, -, hfree, hmail, hnew⟩ := addClient_cases w.system pid ip port
  · apply hinv.quiet hvacant _ _ hsent hprinted
    · rw [hsystem, hsame]
      exact fun _ => rfl
    · rw [hsystem, hsame]
      exact fun _ => rfl
  · apply hinv.quiet hvacant _ _ hsent hprinted
    · intro r
      rw [hsystem, hnew, System.setProcess_clients, System.setClient_clients]
      split
      next hr => rw [hr]
      next => rfl
    · intro r
      rw [hsystem, hnew]
      apply setProcess_mail
      rw [hmail]
      exact (hinv.vacant j hfree).mail.symm

theorem InOrder.leave (hinv : InOrder w) (hvacant : Vacant w'.system)
    (hsystem : w'.system = Multi.leave w.system i)
    (hsent : ∀ sender r, w'.sent sender r = if i = r then [] else w.sent sender r)
    (hprinted : ∀ sender r, w'.printed sender r = if i = r then [] else w.printed sender r) :
    InOrder w' where
  rows := by
    intro sender r
    by_cases hr : i = r
    · subst hr
      have hsent := hsent sender i
      have hprinted := hprinted sender i
      rw [if_pos rfl] at hsent hprinted
      unfold Row
      rw [hsent, hprinted, hsystem, Multi.leave, System.setProcess_clients,
        System.setClient_clients, if_pos rfl, System.setProcess_process, if_pos rfl]
      exact Conserves.empty fun _ => rfl
    · have hne : r ≠ i := fun h => hr h.symm
      apply (hinv.rows sender r).quiet
      · rw [hsystem, Multi.leave, System.setProcess_clients, System.setClient_clients, if_neg hne]
      · rw [hsystem, Multi.leave, System.setProcess_process, if_neg hne]
        rfl
      · rw [hsent, if_neg hr]
      · rw [hprinted, if_neg hr]
  ended := by
    intro r b h
    rw [hsystem, Multi.leave, System.setProcess_process] at h
    split at h
    next => simp [Process.initial] at h
    next => exact hinv.ended r b h
  vacant := hvacant

theorem InOrder.scan (hinv : InOrder w) (hvacant : Vacant w'.system)
    (hscanned : Scanned w.system i w'.system effects) (hsent : w'.sent = w.sent)
    (hprinted : ∀ sender r,
      w'.printed sender r = w.printed sender r ++ printedNow effects sender r) : InOrder w' where
  rows := by
    intro sender r
    exact (hinv.rows sender r).scan hinv.ended hscanned (by rw [hsent]) (hprinted sender r)
  ended := by
    intro r b h
    generalize w'.system = s' at hscanned h
    cases hscanned with
    | done b' hmail =>
      rw [System.setProcess_process] at h
      split at h
      next => simp at h
      next => exact hinv.ended r b h
    | row a hmail ha =>
      rw [System.setProcess_process] at h
      split at h
      next =>
        simp only [Option.some.injEq, Prod.mk.injEq] at h
        exact h.2.symm
      next => exact hinv.ended r b h
    | slot a b' hmail ha hb =>
      rw [System.setProcess_process] at h
      split at h
      next =>
        simp only [Option.some.injEq, Prod.mk.injEq] at h
        exact absurd h.1 ha
      next => exact hinv.ended r b h
  vacant := hvacant

theorem InOrder.process {p : Process} (hinv : InOrder w) (hvacant : Vacant w'.system)
    (hsystem : w'.system = w.system.setProcess i p) (hmail : p.mail = (w.system.process i).mail)
    (hsent : w'.sent = w.sent) (hprinted : w'.printed = w.printed) : InOrder w' := by
  apply hinv.quiet hvacant _ _ hsent hprinted
  · rw [hsystem]
    exact fun _ => rfl
  · rw [hsystem]
    exact setProcess_mail hmail

theorem InOrder.usr1 (hinv : InOrder w) (hvacant : Vacant w'.system)
    (hidle : (w.system.process i).mail = none)
    (hsystem : w'.system = w.system.setProcess i
      { w.system.process i with usr1 := false, mail := some (0, 0) })
    (hsent : w'.sent = w.sent) (hprinted : w'.printed = w.printed) : InOrder w' where
  rows := by
    intro sender r
    apply (hinv.rows sender r).quiet
    · rw [hsystem, System.setProcess_clients]
    · rw [hsystem, System.setProcess_process]
      split
      next hr =>
        rw [hr, reading, reading, hidle]
        exact ite_self 0
      next => rfl
    · rw [hsent]
    · rw [hprinted]
  ended := by
    intro r b hmail
    rw [hsystem, System.setProcess_process] at hmail
    split at hmail
    next => simp [maxUsers] at hmail
    next => exact hinv.ended r b hmail
  vacant := hvacant

theorem InOrder.opened {result : Int} (hinv : InOrder w) (hvacant : Vacant w'.system)
    (hopened : Opened w.system i result w'.system)
    (hsent : w'.sent = w.sent) (hprinted : w'.printed = w.printed) : InOrder w' := by
  generalize hsystem : w'.system = s' at hopened
  cases hopened with
  | done => exact hinv.process hvacant hsystem rfl hsent hprinted
  | skipped => exact hinv.process hvacant hsystem rfl hsent hprinted
  | entry k =>
    apply hinv.quiet hvacant _ _ hsent hprinted
    · intro r
      rw [hsystem, System.setClient_clients]
      split
      next hr => rw [hr, Client.setFifo_msg]
      next => rfl
    · intro r
      rw [hsystem, System.setClient_process]
      apply setProcess_mail
      rfl

/-- Every step of a process or a handler keeps the rows in order. -/
theorem InOrder.step (hinv : InOrder w) (hroomy : Roomy w.system e) (h : advance w e = some w') :
    InOrder w' := by
  obtain ⟨effects, hstep, hsent, hprinted⟩ := advance_eq_some h
  have hvacant := hinv.vacant.step hstep
  have hquiet : leaving w.system e = none → posting w.system e = none → w'.sent = w.sent := by
    intro hleaving hposting
    funext sender r
    rw [hsent, hleaving, if_neg (by simp), sentNow_of_none hposting, List.append_nil]
  have hsilent : leaving w.system e = none → effects = [] → w'.printed = w.printed := by
    intro hleaving heffects
    funext sender r
    rw [hprinted, hleaving, if_neg (by simp), heffects]
    exact List.append_nil _
  have hstepped := step_stepped hstep
  generalize hsystem : w'.system = s' at hstepped
  cases hstepped with
  | login pid ip port => exact hinv.login hvacant hsystem (hquiet rfl rfl) (hsilent rfl rfl)
  | line i text => exact hinv.process hvacant hsystem rfl (hquiet rfl rfl) (hsilent rfl rfl)
  | left i result rest htodo =>
    apply hinv.leave (i := i) hvacant hsystem
    · intro sender r
      rw [hsent, leaving_act htodo, if_pos rfl, sentNow_act htodo]
      simp [message]
    · intro sender r
      rw [hprinted, leaving_act htodo, if_pos rfl]
      simp [printedNow]
  | act i result a rest s' prints htodo hleave hwritten hflow =>
    subst hsystem
    constructor
    · intro sender r
      have hprinted := hprinted sender r
      rw [printedNow_print, List.append_nil] at hprinted
      exact (hinv.rows sender r).act htodo hleave hwritten (hflow.mail r) hroomy (hsent sender r)
        hprinted
    · intro r b hmail
      rw [hflow.mail] at hmail
      exact hinv.ended r b hmail
    · exact hvacant
  | usr1 i _ hidle => exact hinv.usr1 hvacant hidle hsystem (hquiet rfl rfl) (hsilent rfl rfl)
  | scan i s' effects hscanned =>
    subst hsystem
    apply hinv.scan hvacant hscanned (hquiet rfl rfl)
    intro sender r
    exact hprinted sender r
  | usr2 i => exact hinv.process hvacant hsystem rfl (hquiet rfl rfl) (hsilent rfl rfl)
  | entry i result s' hopened =>
    subst hsystem
    exact hinv.opened hvacant hopened (hquiet rfl rfl) (hsilent rfl rfl)
  | term i => exact hinv.process hvacant hsystem rfl (hquiet rfl rfl) (hsilent rfl rfl)

theorem inOrder_run (es : List Event) (w : World)
    (hmeets : Meets advance World.initial (fun _ w e => Roomy w.system e) es)
    (hrun : exec advance World.initial es = some w) : InOrder w := by
  apply invariant (I := fun _ w => InOrder w) _ _ es hmeets w hrun
  · exact .initial
  · intro es w e w' _ hinv hroomy hstep
    exact hinv.step hroomy hstep

/-- Over every run in which each message finds room: what a receiver has printed from a
sender, followed by what is in flight, is what the sender has sent to it. -/
theorem messages_in_order (es : List Event) (w : World)
    (hmeets : Meets advance World.initial (fun _ w e => Roomy w.system e) es)
    (hrun : exec advance World.initial es = some w) (sender r : Nat) :
    w.printed sender r ++ inFlight w.system sender r = w.sent sender r :=
  ((inOrder_run es w hmeets hrun).rows sender r).flow

end Steps

def handlerUnderway : List Event :=
  [.login 100 "127.0.0.1".toList 4000, .act 0 0, .login 101 "127.0.0.1".toList 4001, .act 1 0,
    .usr1 0] ++ List.replicate 12 (.scan 0) ++ [.term 1, .act 1 0]

theorem messages_in_order_handlerUnderway :
    ∃ w, exec advance World.initial handlerUnderway = some w ∧
      w.printed 1 0 ++ inFlight w.system 1 0 = w.sent 1 0 := by
  have hsome : (exec advance World.initial handlerUnderway).isSome = true := by decide +kernel
  have hmeets : Meets advance World.initial (fun _ w e => Roomy w.system e) handlerUnderway := by
    decide +kernel
  obtain ⟨w, hw⟩ := Option.isSome_iff_exists.mp hsome
  exact ⟨w, hw, messages_in_order handlerUnderway w hmeets hw 1 0⟩

def overtaken : List Event :=
  handlerUnderway ++ List.replicate 30 (.act 1 0) ++
    [.login 102 "127.0.0.1".toList 4002, .act 1 0, .scan 0]

theorem messages_overtake :
    ∃ w, exec advance World.initial overtaken = some w ∧
      w.sent 1 0 = [.entered "(no name)".toList "127.0.0.1".toList 4001, .left "(no name)".toList,
        .entered "(no name)".toList "127.0.0.1".toList 4002] ∧
      w.printed 1 0 = [.entered "(no name)".toList "127.0.0.1".toList 4001,
        .entered "(no name)".toList "127.0.0.1".toList 4002] ∧
      inFlight w.system 1 0 = [.left "(no name)".toList] ∧
      w.printed 1 0 ++ inFlight w.system 1 0 ≠ w.sent 1 0 := by
  have hsome : (exec advance World.initial overtaken).isSome = true := by decide +kernel
  obtain ⟨w, hw⟩ := Option.isSome_iff_exists.mp hsome
  have hlogs : (exec advance World.initial overtaken).all (fun w => decide (
      w.sent 1 0 = [.entered "(no name)".toList "127.0.0.1".toList 4001, .left "(no name)".toList,
        .entered "(no name)".toList "127.0.0.1".toList 4002] ∧
      w.printed 1 0 = [.entered "(no name)".toList "127.0.0.1".toList 4001,
        .entered "(no name)".toList "127.0.0.1".toList 4002] ∧
      inFlight w.system 1 0 = [.left "(no name)".toList])) = true := by decide +kernel
  rw [hw, Option.all_some, decide_eq_true_iff] at hlogs
  obtain ⟨hsent, hprinted, hflight⟩ := hlogs
  refine ⟨w, hw, hsent, hprinted, hflight, ?_⟩
  rw [hsent, hprinted, hflight]
  decide

end NetworkProgramming.Multi
