import NetworkProgramming.Multi.Steps

/-! User pipes of `np_multi_proc` across logouts: whose pipe an entry of the
receiver's record is, in any order of the steps of all processes. -/
namespace NetworkProgramming.Multi
open Library.CString Library.Mailbox Library.Run CommandLine

/-- A client that leaves has no pipe in the record of another. -/
def LeavesNothing (s : System) (e : Event) : Prop :=
  ∀ i ∈ leaving s e, ∀ r < maxUsers, r ≠ i → (s.clients r).fifo i = .zero

instance (s : System) (e : Event) : Decidable (LeavesNothing s e) :=
  inferInstanceAs (Decidable (∀ i ∈ leaving s e, _))

structure Held (s : System) : Prop where
  vacant : Vacant s
  sender : ∀ r < maxUsers, ∀ c, (s.clients r).fifo c ≠ .zero → (s.clients c).id ≠ 0

/-- The process of index `c` made the pipe that `r` has recorded, and has been the same
client from then on. -/
def MadeSince (es : List Event) (s : System) (c r : Nat) : Prop :=
  ∃ before result after t, es = before ++ .act c result :: after ∧
    exec next System.initial before = some t ∧ (t.clients r).fifo c = .zero ∧
    ∀ middle rest v, after = middle ++ rest →
      exec next System.initial (before ++ .act c result :: middle) = some v →
      (v.clients r).fifo c ≠ .zero ∧ (v.clients c).id ≠ 0 ∧ (v.clients c).pid = (s.clients c).pid

def Receives (s : System) (i : Nat) (line : Text) (q : Nat) : Prop :=
  ∃ o commands, doExec s i line = .ok o ∧ .sendPipe line commands (some q) ∈ o.next

def RefusesExisting (s : System) (i r : Nat) : Prop :=
  ∃ result line commands sendid o, sendPipe s i result line commands sendid = .ok o ∧
    .pipeExists (s.clients i).id (r + 1) ∈ o.prints

structure PipesEndWithSender (es : List Event) (s : System) : Prop where
  clean : ∀ c, (s.clients c).id = 0 → ∀ r < maxUsers, (s.clients r).fifo c = .zero
  refused : ∀ i, ∀ r < maxUsers, RefusesExisting s i r → MadeSince es s i r
  received : ∀ i < maxUsers, ∀ line q, Receives s i line q → MadeSince es s (q - 1) i
  logout : ∀ i result s' effects, leaving s (.act i result) = some i →
    step s (.act i result) = some (s', effects) →
    ((∀ r < maxUsers, (s'.clients r).fifo i = .zero) ↔ LeavesNothing s (.act i result))

variable {s s' : System} {e : Event} {i r c : Nat} {a : Action} {effects : List Effect}
  {result : Int}

theorem fifo_made (h : step s e = some (s', effects)) (hentry : (s'.clients r).fifo c ≠ .zero) :
    (s.clients r).fifo c ≠ .zero ∨ leaving s e = none ∧ (∃ result, e = .act c result) ∧
      (s.process c).todo ≠ [] := by
  have htouched := step_touched h r
  generalize s'.clients r = client at htouched hentry
  cases htouched with
  | same => exact .inl hentry
  | login => exact .inl hentry
  | mail => exact .inl hentry
  | recorded i result filename heq hleaving htodo =>
    rw [Client.setFifo_fifo] at hentry
    split at hentry
    next hc =>
      subst hc
      exact .inr ⟨hleaving, ⟨result, heq⟩, htodo⟩
    next => exact .inl hentry
  | renamed => exact .inl hentry
  | released k =>
    rw [Client.setFifo_fifo] at hentry
    split at hentry
    next => exact absurd rfl hentry
    next => exact .inl hentry
  | opened k result hfilename =>
    rw [Client.setFifo_fifo] at hentry
    left
    split at hentry
    next hc =>
      intro hzero
      rw [← hc, hzero] at hfilename
      exact hfilename rfl
    next => exact hentry
  | left => exact absurd rfl hentry

theorem leaving_leave (h : step s e = some (s', effects)) (hleaving : leaving s e = some i) :
    s' = leave s i := by
  cases step_stepped h with
  | left j result rest htodo =>
    rw [leaving_act htodo, if_pos rfl, Option.some.injEq] at hleaving
    rw [hleaving]
  | act j result a rest s' prints htodo hleave =>
    rw [leaving_act htodo, if_neg hleave] at hleaving
    contradiction
  | _ => simp [leaving] at hleaving

theorem holder_step (h : step s e = some (s', effects)) (j : Nat) :
    ((s'.clients j).id = (s.clients j).id ∧ (s'.clients j).pid = (s.clients j).pid) ∨
      (s.clients j).id = 0 ∨ leaving s e = some j := by
  have htouched := step_touched h j
  generalize s'.clients j = client at htouched
  cases htouched with
  | login pid ip port hfree => exact .inr (.inl hfree)
  | left hleaving => exact .inr (.inr hleaving)
  | _ => exact .inl ⟨rfl, rfl⟩

theorem Held.initial : Held System.initial where
  vacant := Vacant.initial
  sender := by
    intro r _ c h
    exact absurd rfl h

theorem Held.step (hheld : Held s) (hnothing : LeavesNothing s e)
    (h : step s e = some (s', effects)) : Held s' where
  vacant := hheld.vacant.step h
  sender := by
    intro r hr c hentry
    obtain hold | ⟨hleaving, -, htodo⟩ := fifo_made h hentry
    · have hid := hheld.sender r hr c hold
      obtain ⟨hsame, -⟩ | hzero | hleaving := holder_step h c
      · rw [hsame]
        exact hid
      · exact absurd hzero hid
      · exfalso
        by_cases hself : r = c
        · rw [leaving_leave h hleaving, leave, System.setProcess_clients,
            System.setClient_clients, if_pos hself] at hentry
          exact hentry rfl
        · exact hold (hnothing c hleaving r hr hself)
    · have hid := hheld.vacant.logged fun hgone => htodo hgone.todo
      obtain ⟨hsame, -⟩ | hzero | hother := holder_step h c
      · rw [hsame]
        exact hid
      · exact absurd hzero hid
      · rw [hleaving] at hother
        contradiction

theorem held_run (es : List Event) (s : System)
    (hmeets : Meets next System.initial (fun _ s e => LeavesNothing s e) es)
    (hrun : exec next System.initial es = some s) : Held s := by
  apply invariant (I := fun _ s => Held s) _ _ es hmeets s hrun
  · exact .initial
  · intro es s e s' _ hheld hnothing hstep
    obtain ⟨p, hp, rfl⟩ := Option.map_eq_some_iff.mp hstep
    exact hheld.step hnothing hp

theorem madeSince_run {es : List Event}
    (hmeets : Meets next System.initial (fun _ s e => LeavesNothing s e) es)
    (hrun : exec next System.initial es = some s) (hr : r < maxUsers)
    (hentry : (s.clients r).fifo c ≠ .zero) : MadeSince es s c r := by
  have hkeep : ∀ es s e s', Meets next System.initial (fun _ s e => LeavesNothing s e) (es ++ [e]) →
      exec next System.initial es = some s → next s e = some s' →
      (s.clients r).fifo c ≠ .zero → (s'.clients r).fifo c ≠ .zero →
      (s'.clients c).pid = (s.clients c).pid := by
    intro es s e s' hmeets hs hnext hentry hentry'
    have hheld := held_run es s hmeets.before hs
    obtain ⟨p, hp, rfl⟩ := Option.map_eq_some_iff.mp hnext
    have hheld' := hheld.step (hmeets.last hs) hp
    obtain ⟨-, hsame⟩ | hzero | hleaving := holder_step hp c
    · exact hsame
    · exact absurd hzero (hheld.sender r hr c hentry)
    · -- behind its logout the id is free
      exfalso
      apply hheld'.sender r hr c hentry'
      rw [leaving_leave hp hleaving, leave, System.setProcess_clients, System.setClient_clients,
        if_pos rfl]
      rfl
  have hstart : ¬ (System.initial.clients r).fifo c ≠ .zero := fun h => h rfl
  obtain ⟨before, e, after, t, rfl, ht, hfree, hsince⟩ :=
    exec_since_meets (p := fun v : System => (v.clients r).fifo c ≠ .zero)
      (f := fun v => (v.clients c).pid) hstart hkeep es hmeets s hrun hentry
  have hzero : (t.clients r).fifo c = .zero := not_not.mp hfree
  obtain ⟨s', hs'⟩ : ∃ s', exec next System.initial (before ++ [e]) = some s' := by
    rw [List.append_cons, exec_append] at hrun
    obtain ⟨s', hs', -⟩ := Option.bind_eq_some_iff.mp hrun
    exact ⟨s', hs'⟩
  have hmade := (hsince [] after s' rfl hs').1
  rw [exec_concat, ht] at hs'
  obtain ⟨p, hp, rfl⟩ := Option.map_eq_some_iff.mp hs'
  obtain hold | ⟨-, ⟨result, rfl⟩, -⟩ := fifo_made hp hmade
  · exact absurd hzero hold
  · refine ⟨before, result, after, t, rfl, ht, hzero, ?_⟩
    intro middle rest v heq hv
    obtain ⟨hentryV, hpid⟩ := hsince middle rest v heq hv
    have hmeetsV : Meets next System.initial (fun _ s e => LeavesNothing s e)
        (before ++ .act c result :: middle) := by
      rw [heq, ← List.cons_append, ← List.append_assoc] at hmeets
      exact hmeets.left
    exact ⟨hentryV, (held_run _ v hmeetsV hv).sender r hr c hentryV, hpid⟩

theorem RefusesExisting.entry (h : RefusesExisting s i r) :
    (s.clients r).fifo i ≠ .zero := by
  obtain ⟨result, line, commands, sendid, o, hsend, hprint⟩ := h
  unfold sendPipe at hsend
  split at hsend
  next =>
    split at hsend
    next => contradiction
    next recvid _ =>
      dsimp only at hsend
      split at hsend
      next =>
        cases hsend
        simp at hprint
      next hknown =>
        split at hsend
        next hused =>
          cases hsend
          have hrecv : (r : Int) + 1 = recvid := by simpa using hprint
          have hindex : recvid.toNat - 1 = r := by omega
          intro hzero
          rw [hindex, hzero] at hused
          exact hused rfl
        next =>
          split at hsend <;> cases hsend <;> simp at hprint
  next =>
    cases hsend
    simp at hprint

theorem not_mem_broadcast {message : Message} {line : Text} {commands : List Text}
    {sendid : Option Nat} : .sendPipe line commands sendid ∉ broadcast message := by
  simp [broadcast]

theorem Receives.entry {line : Text} {q : Nat} (h : Receives s i line q) :
    (s.clients i).fifo (q - 1) ≠ .zero := by
  obtain ⟨o, commands, hexec, hnext⟩ := h
  unfold doExec at hexec
  split at hexec
  next => contradiction
  next =>
    cases hexec
    simp at hnext
  next =>
    split at hexec
    next =>
      split at hexec
      next => contradiction
      next sendid _ =>
        split at hexec
        next =>
          cases hexec
          simp at hnext
        next =>
          split at hexec
          next => contradiction
          next =>
            dsimp only at hexec
            split at hexec
            next =>
              cases hexec
              simp at hnext
            next =>
              split at hexec
              next =>
                cases hexec
                simp at hnext
              next hopen =>
                cases hexec
                rw [List.mem_append] at hnext
                obtain hloop | hlast := hnext
                · exact absurd hloop not_mem_broadcast
                · have hq : q = sendid.toNat := by
                    simp only [List.mem_singleton, Action.sendPipe.injEq, Option.some.injEq] at hlast
                    exact hlast.2.2
                  subst hq
                  intro hzero
                  rw [hzero] at hopen
                  exact hopen rfl
    next =>
      cases hexec
      simp at hnext

theorem logout_clean_iff (h : step s (.act i result) = some (s', effects))
    (hleaving : leaving s (.act i result) = some i) :
    (∀ r < maxUsers, (s'.clients r).fifo i = .zero) ↔ LeavesNothing s (.act i result) := by
  have hother : ∀ r, r ≠ i → s'.clients r = s.clients r := by
    intro r hr
    rw [leaving_leave h hleaving, leave, System.setProcess_clients, System.setClient_clients,
      if_neg hr]
  have hown : s'.clients i = .zero := by
    rw [leaving_leave h hleaving, leave, System.setProcess_clients, System.setClient_clients,
      if_pos rfl]
  constructor
  · intro hclean j hj r hr hne
    rw [hleaving, Option.mem_some_iff] at hj
    subst hj
    rw [← hother r hne]
    exact hclean r hr
  · intro hnothing r hr
    by_cases hri : r = i
    · rw [hri, hown]
      rfl
    · rw [hother r hri]
      exact hnothing i hleaving r hr hri

/-- Over every run of processes and handlers in which no client leaves while a pipe of its
waits with another: a free id has no pipes, and whoever is refused for a pipe, or reads
one, meets a pipe of the client that has the id now. -/
theorem user_pipes_end_with_sender (es : List Event) (s : System)
    (hmeets : Meets next System.initial (fun _ s e => LeavesNothing s e) es)
    (hrun : exec next System.initial es = some s) : PipesEndWithSender es s := by
  have hheld := held_run es s hmeets hrun
  constructor
  · intro c hfree r hr
    by_contra hentry
    exact hheld.sender r hr c hentry hfree
  · intro i r hr hrefuses
    exact madeSince_run hmeets hrun hr hrefuses.entry
  · intro i hi line q hreceives
    exact madeSince_run hmeets hrun hi hreceives.entry
  · intro i result s' effects hleaving hstep
    exact logout_clean_iff hstep hleaving

def piped : List Event :=
  [.login 100 "127.0.0.1".toList 4000, .login 101 "127.0.0.1".toList 4001] ++
    List.replicate 30 (.act 0 0) ++ List.replicate 30 (.act 1 0) ++
    [.line 0 "ls >2".toList, .act 0 0, .act 0 0, .usr2 1, .entry 1 7]

def pipedAndRead : List Event :=
  piped ++ .line 1 "cat <1".toList :: List.replicate 34 (.act 1 0) ++
    .term 0 :: List.replicate 31 (.act 0 0)

theorem user_pipes_end_with_sender_pipedAndRead :
    ∃ s, exec next System.initial pipedAndRead = some s ∧ (s.clients 0).id = 0 ∧
      PipesEndWithSender pipedAndRead s := by
  have hmeets : checks next LeavesNothing System.initial pipedAndRead = true := by decide +kernel
  have hsome : (exec next System.initial pipedAndRead).isSome = true := by decide +kernel
  obtain ⟨s, hs⟩ := Option.isSome_iff_exists.mp hsome
  have hfree : (exec next System.initial pipedAndRead).all
      (fun s => decide ((s.clients 0).id = 0)) = true := by decide +kernel
  rw [hs, Option.all_some, decide_eq_true_iff] at hfree
  exact ⟨s, hs, hfree, user_pipes_end_with_sender pipedAndRead s (meets_of_checks hmeets) hs⟩

def pipedAndLeft : List Event := piped ++ .term 0 :: List.replicate 31 (.act 0 0)

def thirdPipes : List Event :=
  .login 102 "127.0.0.1".toList 4002 :: List.replicate 30 (.act 0 0) ++
    [.line 0 "ls >2".toList, .act 0 0]

theorem next_holder_refused :
    ∃ s t p, exec next System.initial pipedAndLeft = some s ∧ (s.clients 0).id = 0 ∧
      (s.clients 1).fifo 0 = ⟨7, "/net/gcs/110/310555007/user_fifo/1->2".toList⟩ ∧
      exec next s thirdPipes = some t ∧ (t.clients 0).pid = 102 ∧
      step t (.act 0 0) = some p ∧ p.2 = [.print 0 (.pipeExists 1 2)] := by
  have hsome : (exec next System.initial pipedAndLeft).isSome = true := by decide +kernel
  obtain ⟨s, hs⟩ := Option.isSome_iff_exists.mp hsome
  have hleft : (exec next System.initial pipedAndLeft).all (fun s => decide ((s.clients 0).id = 0 ∧
      (s.clients 1).fifo 0 = ⟨7, "/net/gcs/110/310555007/user_fifo/1->2".toList⟩) &&
      (exec next s thirdPipes).isSome) = true := by decide +kernel
  rw [hs, Option.all_some, Bool.and_eq_true, decide_eq_true_iff] at hleft
  obtain ⟨t, ht⟩ := Option.isSome_iff_exists.mp hleft.2
  have hrefused : ((exec next System.initial pipedAndLeft).bind fun s => exec next s thirdPipes).all
      (fun t => decide ((t.clients 0).pid = 102) && (step t (.act 0 0)).isSome &&
        (step t (.act 0 0)).all fun p => decide (p.2 = [.print 0 (.pipeExists 1 2)])) = true := by
    decide +kernel
  rw [hs, Option.bind_some, ht, Option.all_some, Bool.and_eq_true, Bool.and_eq_true,
    decide_eq_true_iff] at hrefused
  obtain ⟨p, hp⟩ := Option.isSome_iff_exists.mp hrefused.1.2
  have hprint := hrefused.2
  rw [hp, Option.all_some, decide_eq_true_iff] at hprint
  exact ⟨s, t, p, hs, hleft.1.1, hleft.1.2, ht, hrefused.1.1, hp, hprint⟩

end NetworkProgramming.Multi
