import NetworkProgramming.Library.SlotTable
import NetworkProgramming.Single.Moves

/-! The slots of `clients_map`: logins take the lowest free one, and the slots
follow the sockets of `allset` through every run. -/
namespace NetworkProgramming.Single
open Library.CString Library.Run Library.SlotTable CommandLine

/-- The slots as a table; 0 marks a free one. -/
def Server.table (s : Server) : Table Int :=
  ⟨s.clientsMap.clientsFdSet, s.clientsMap.size, s.allset⟩

structure SameSlots (s s' : Server) : Prop where
  table : s'.table = s.table
  addrIn : s'.clientsMap.clientsAddrIn = s.clientsMap.clientsAddrIn

variable {s s' : Server} {sockfd : Int}

theorem SameSlots.refl (s : Server) : SameSlots s s := ⟨rfl, rfl⟩

theorem SameSlots.trans {a b c : Server} (hab : SameSlots a b) (hbc : SameSlots b c) :
    SameSlots a c :=
  ⟨hbc.table.trans hab.table, hbc.addrIn.trans hab.addrIn⟩

theorem SameSlots.slot (h : SameSlots s s') :
    s'.clientsMap.clientsFdSet = s.clientsMap.clientsFdSet := congrArg Table.slot h.table

theorem SameSlots.size (h : SameSlots s s') : s'.clientsMap.size = s.clientsMap.size :=
  congrArg Table.size h.table

theorem SameSlots.allset (h : SameSlots s s') : s'.allset = s.allset :=
  congrArg Table.used h.table

theorem SameSlots.wellformed (h : SameSlots s s') (hwell : s.table.Wellformed 0) :
    s'.table.Wellformed 0 := by
  rw [h.table]
  exact hwell

theorem SameSlots.indexOf (h : SameSlots s s') (fd : Int) :
    s'.clientsMap.indexOf fd = s.clientsMap.indexOf fd := by
  simp only [ClientMap.indexOf, h.size, h.slot]

theorem Move.sameSlots (h : Move sockfd s s') : SameSlots s s' := by
  cases h with
  | claim => exact ⟨rfl, rfl⟩
  | receive => exact ⟨rfl, rfl⟩
  | send => exact ⟨rfl, rfl⟩
  | countDown => exact ⟨rfl, rfl⟩
  | complete => exact ⟨rfl, rfl⟩
  | setenv i key val m hown hput =>
    obtain ⟨env, rfl⟩ := ClientMap.putEnv_eq hput
    exact ⟨rfl, rfl⟩
  | name => exact ⟨rfl, rfl⟩

theorem Moves.sameSlots (h : Moves sockfd s s') : SameSlots s s' :=
  h.lift SameSlots.refl SameSlots.trans Move.sameSlots

theorem doExec_sameSlots {cmd : Text} {calls : Nat → ParserCall} {o : Outcome}
    (h : doExec s cmd sockfd calls = .ok o) : SameSlots s o.server := (doExec_moves h).sameSlots

/-- The table with the new client in slot `i`. -/
def ClientMap.occupied (m : ClientMap) (i : Nat) (ssock : Int) (fsin : SockaddrIn) : ClientMap :=
  { m with
    clientsFdSet := Function.update m.clientsFdSet i ssock
    clientsAddrIn := Function.update m.clientsAddrIn i fsin
    nickname := Function.update m.nickname i "(no name)".toList
    size := if i = m.size then m.size + 1 else m.size }

theorem takeSlot_eq {m : ClientMap} {used : Finset Int} (ssock : Int) (fsin : SockaddrIn)
    (h : (Table.mk m.clientsFdSet m.size used).Wellformed 0) (hsize : m.size < maxUserNum) :
    ∃ i, (Table.mk m.clientsFdSet m.size used).Lowest 0 i ∧
      takeSlot m ssock fsin = .ok (m.occupied i ssock fsin) := by
  obtain ⟨i, hfind, hlow⟩ := h.find_lowest
  have hwithin : i ≤ m.size := hlow.within
  refine ⟨i, hlow, ?_⟩
  dsimp only at hfind
  simp only [takeSlot, hfind]
  rw [if_pos (by omega)]
  rfl

theorem indexOf_slot (hwell : s.table.Wellformed 0) {fd : Int} {i : Nat}
    (hi : s.clientsMap.clientsFdSet i = fd) (hfd : fd ≠ 0) :
    s.clientsMap.indexOf fd = some i := by
  subst hi
  have hlt : i < s.clientsMap.size := hwell.lt_size hfd
  rw [ClientMap.indexOf, List.find?_range_eq_some]
  refine ⟨by simp, List.mem_range.mpr hlt, ?_⟩
  intro j hj
  have hne : s.clientsMap.clientsFdSet j ≠ s.clientsMap.clientsFdSet i := by
    intro heq
    have hij := hwell.distinct i j hfd heq.symm
    omega
  simpa using hne

/-- A login fills the lowest free slot, and `load_env` the variables of the slot that its
search finds then. -/
theorem login_loaded {ssock : Int} {fsin : SockaddrIn} {effects : List Effect}
    (hwell : s.table.Wellformed 0) (h : login s ssock fsin = .ok (s', effects)) :
    ∃ i k m, s.table.Lowest 0 i ∧ (s.clientsMap.occupied i ssock fsin).indexOf ssock = some k ∧
      (s.clientsMap.occupied i ssock fsin).putEnv k "PATH".toList "bin:.".toList = .ok m ∧
      s' = { s with clientsMap := m, allset := insert ssock s.allset } := by
  obtain ⟨i, hfind, hlow⟩ := hwell.find_lowest
  dsimp only [Server.table] at hfind
  simp only [login, takeSlot, hfind] at h
  split at h
  next => contradiction
  next m htake =>
    split at htake
    next =>
      cases htake
      split at h
      next => contradiction
      next hload =>
        simp only [Except.ok.injEq, Prod.mk.injEq] at h
        obtain ⟨k, key, val, rest, m, htok, hown, hput, rfl⟩ := loadEnv_eq hload
        have hwords : strtok '=' "PATH=bin:.".toList = ["PATH".toList, "bin:.".toList] := by decide
        rw [hwords] at htok
        obtain ⟨rfl, rfl, -⟩ : "PATH".toList = key ∧ "bin:.".toList = val ∧ [] = rest := by
          simpa using htok
        exact ⟨i, k, m, hlow, hown, hput, h.1.symm⟩
    next => contradiction

theorem login_eq {ssock : Int} {fsin : SockaddrIn} {effects : List Effect}
    (hwell : s.table.Wellformed 0) (h : login s ssock fsin = .ok (s', effects)) :
    ∃ i env, s.table.Lowest 0 i ∧
      s' = { s with
        clientsMap :=
          { clientsFdSet := Function.update s.clientsMap.clientsFdSet i ssock
            clientsAddrIn := Function.update s.clientsMap.clientsAddrIn i fsin
            nickname := Function.update s.clientsMap.nickname i "(no name)".toList
            size := if i = s.clientsMap.size then s.clientsMap.size + 1 else s.clientsMap.size
            env := env }
        allset := insert ssock s.allset } := by
  obtain ⟨i, k, m, hlow, -, hput, rfl⟩ := login_loaded hwell h
  obtain ⟨env, rfl⟩ := ClientMap.putEnv_eq hput
  exact ⟨i, _, hlow, rfl⟩

theorem login_takes {ssock : Int} {fsin : SockaddrIn} {effects : List Effect}
    (hwell : s.table.Wellformed 0) (h : login s ssock fsin = .ok (s', effects)) :
    ∃ i, s.table.Lowest 0 i ∧ s'.table = s.table.take i ssock ∧
      ∀ j, j ≠ i → s'.clientsMap.nickname j = s.clientsMap.nickname j ∧
        s'.clientsMap.clientsAddrIn j = s.clientsMap.clientsAddrIn j := by
  obtain ⟨i, env, hlow, rfl⟩ := login_eq hwell h
  refine ⟨i, hlow, rfl, fun j hj => ⟨?_, ?_⟩⟩
  · exact Function.update_of_ne hj _ _
  · exact Function.update_of_ne hj _ _

structure SameNumberedPipes (s s' : Server) : Prop where
  clientPipe : s'.clientPipe = s.clientPipe
  pos : s'.pos = s.pos

structure LoginFrame (s s' : Server) : Prop extends SameNumberedPipes s s' where
  userPipe : s'.userPipe = s.userPipe

theorem login_frame {ssock : Int} {fsin : SockaddrIn} {effects : List Effect}
    (h : login s ssock fsin = .ok (s', effects)) : LoginFrame s s' := by
  unfold login at h
  split at h
  next => contradiction
  next =>
    split at h
    next => contradiction
    next hload =>
      simp only [Except.ok.injEq, Prod.mk.injEq] at h
      obtain ⟨i, key, val, rest, m, -, -, -, rfl⟩ := loadEnv_eq hload
      rw [← h.1]
      exact ⟨⟨rfl, rfl⟩, rfl⟩

/-- A logout changes the sockets of the slots and the user pipes only, closes the
connection and tells the others. -/
theorem logout_eq {fd : Int} {effects : List Effect} (h : logout s fd = .ok (s', effects)) :
    ∃ slots userPipe told name, s' = { s with
        clientsMap :=
          { clientsFdSet := slots
            clientsAddrIn := s.clientsMap.clientsAddrIn
            nickname := s.clientsMap.nickname
            size := s.clientsMap.size
            env := s.clientsMap.env }
        userPipe := userPipe
        allset := s.allset.erase fd } ∧
      effects = .close fd :: List.map (fun i => .send (slots i) (.left name)) told := by
  unfold logout at h
  dsimp only at h
  split at h
  next =>
    simp only [Except.ok.injEq, Prod.mk.injEq] at h
    exact ⟨_, _, [], [], h.1.symm, h.2.symm⟩
  next i _ =>
    unfold broadcastLogout at h
    split at h
    next =>
      simp only [Except.map, Except.ok.injEq, Prod.mk.injEq] at h
      exact ⟨_, _, _, s.clientsMap.nickname i, h.1.symm, h.2.symm⟩
    next => simp [Except.map] at h

structure LogoutFrame (s s' : Server) : Prop extends SameNumberedPipes s s' where
  env : s'.clientsMap.env = s.clientsMap.env

theorem logout_frame {fd : Int} {effects : List Effect} (h : logout s fd = .ok (s', effects)) :
    LogoutFrame s s' := by
  obtain ⟨slots, userPipe, told, name, rfl, -⟩ := logout_eq h
  exact ⟨⟨rfl, rfl⟩, rfl⟩

theorem logout_releases {fd : Int} {effects : List Effect} (hwell : s.table.Wellformed 0)
    (hfd : fd ∈ s.allset) (h : logout s fd = .ok (s', effects)) :
    ∃ i, s.clientsMap.clientsFdSet i = fd ∧ s'.table = s.table.release 0 i fd ∧
      ∀ a b, s'.userPipe a b =
        if (a = i + 1 ∧ 1 ≤ b ∧ b ≤ 30) ∨ (b = i + 1 ∧ 1 ≤ a ∧ a ≤ 30) then
          { s.userPipe a b with flag := 0 }
        else s.userPipe a b := by
  obtain ⟨hzero, k, hk⟩ := (hwell.mem_used fd).mp hfd
  have hsize : k < s.clientsMap.size := hwell.lt_size (by rwa [hk])
  unfold logout at h
  dsimp only at h
  split at h
  next hnone =>
    rw [List.find?_eq_none] at hnone
    have hmiss := hnone k (by
      rw [List.mem_range]
      omega)
    simp only [beq_iff_eq] at hmiss
    exact absurd hk hmiss
  next i hfind =>
    rw [List.find?_range_eq_some] at hfind
    have hi : s.clientsMap.clientsFdSet i = fd := by simpa using hfind.1
    refine ⟨i, hi, ?_⟩
    unfold broadcastLogout at h
    split at h
    next =>
      simp only [Except.map, Except.ok.injEq, Prod.mk.injEq] at h
      rw [← h.1]
      exact ⟨rfl, fun a b => rfl⟩
    next => simp [Except.map] at h

theorem logout_ok {fd : Int} (hwell : s.table.Wellformed 0) (hsize : s.clientsMap.size ≤ 30)
    (hfd : fd ∈ s.allset) : ∃ s' effects, logout s fd = .ok (s', effects) := by
  have hzero : fd ≠ 0 := ((hwell.mem_used fd).mp hfd).1
  unfold logout
  dsimp only
  split
  next => exact ⟨_, _, rfl⟩
  next i hfind =>
    rw [List.find?_range_eq_some] at hfind
    have hi : s.clientsMap.clientsFdSet i = fd := by simpa using hfind.1
    have hne : s.clientsMap.clientsFdSet i ≠ 0 := hi ▸ hzero
    have hlt : i < s.clientsMap.size := hwell.lt_size hne
    rw [broadcastLogout, if_pos (by omega)]
    exact ⟨_, _, rfl⟩

/-- The clients behind one more event: a login brings one, and a line on which `do_exec`
returns 1 takes its own off. -/
def clientsAfter (s : Server) (clients : Finset Int) : Event → Finset Int
  | .login ssock _ => insert ssock clients
  | .line fd chunk calls =>
    match doExec s (lineOf chunk) fd calls with
    | .ok o => if o.ret = 1 then clients.erase fd else clients
    | .error _ => clients

def loggedInFrom (limit : Nat) (s : Server) (clients : Finset Int) : List Event → Finset Int
  | [] => clients
  | e :: es =>
    match next limit s e with
    | some s' => loggedInFrom limit s' (clientsAfter s clients e) es
    | none => clients

/-- The sockets that are logged in, from the events alone. -/
def loggedIn (limit : Nat) (es : List Event) : Finset Int :=
  loggedInFrom limit Server.initial ∅ es

theorem loggedIn_concat {limit : Nat} {es : List Event} {e : Event}
    (hrun : exec (next limit) Server.initial es = some s) (h : next limit s e = some s') :
    loggedIn limit (es ++ [e]) = clientsAfter s (loggedIn limit es) e := by
  unfold loggedIn
  generalize Server.initial = start at hrun
  generalize (∅ : Finset Int) = clients
  induction es generalizing start clients with
  | nil =>
    obtain rfl : start = s := Option.some.inj hrun
    simp only [List.nil_append, loggedInFrom, h]
  | cons first es ih =>
    obtain ⟨t, ht, hrest⟩ := Option.bind_eq_some_iff.mp hrun
    simp only [List.cons_append, loggedInFrom, ht]
    exact ih t hrest (clientsAfter start clients first)

/-- The largest number of clients logged in at once so far is reached after some of the
events, so a bound by it names these. -/
def SizeAtPeak (limit : Nat) (es : List Event) (s : Server) : Prop :=
  ∃ before after, es = before ++ after ∧ s.clientsMap.size ≤ (loggedIn limit before).card

theorem SizeAtPeak.concat {limit : Nat} {es : List Event} (h : SizeAtPeak limit es s)
    (e : Event) : SizeAtPeak limit (es ++ [e]) s := by
  obtain ⟨before, after, rfl, hle⟩ := h
  exact ⟨before, after ++ [e], by simp, hle⟩

theorem SizeAtPeak.mono {limit : Nat} {es : List Event} (h : SizeAtPeak limit es s)
    (hsize : s'.clientsMap.size ≤ s.clientsMap.size) : SizeAtPeak limit es s' := by
  obtain ⟨before, after, heq, hle⟩ := h
  exact ⟨before, after, heq, hsize.trans hle⟩

theorem SizeAtPeak.now {limit : Nat} {es : List Event}
    (hsize : s.clientsMap.size ≤ (loggedIn limit es).card) : SizeAtPeak limit es s :=
  ⟨es, [], by simp, hsize⟩

structure SlotInvariant (limit : Nat) (es : List Event) (s : Server) : Prop where
  wellformed : s.table.Wellformed 0
  clients : s.allset = loggedIn limit es
  within : s.allset.card ≤ limit
  peak : SizeAtPeak limit es s
  size : s.clientsMap.size ≤ limit

theorem slotInvariant_login {limit : Nat} {es : List Event} {ssock : Int} {fsin : SockaddrIn}
    {effects : List Effect} (hlimit : limit < maxUserNum) (hinv : SlotInvariant limit es s)
    (hadm : Admissible limit s (.login ssock fsin))
    (hclients : loggedIn limit (es ++ [.login ssock fsin]) = insert ssock (loggedIn limit es))
    (h : login s ssock fsin = .ok (s', effects)) :
    SlotInvariant limit (es ++ [.login ssock fsin]) s' := by
  obtain ⟨hzero, hnew, hcard⟩ := hadm
  have hsmall : s.clientsMap.size < maxUserNum := hinv.size.trans_lt hlimit
  obtain ⟨i, hlow, htable, -⟩ := login_takes hinv.wellformed h
  have hgrow := hinv.wellformed.take_size hlow hnew
  have hused : s'.allset = insert ssock s.allset := congrArg Table.used htable
  have hcard' : s'.allset.card = s.allset.card + 1 := by
    rw [hused, Finset.card_insert_of_notMem hnew]
  have hsame : s'.allset = loggedIn limit (es ++ [.login ssock fsin]) := by
    rw [hclients, hused, hinv.clients]
  have hsize : s'.clientsMap.size ≤ max s.clientsMap.size s'.allset.card := by
    rw [← htable] at hgrow
    exact hgrow
  have holdSize := hinv.size
  constructor
  · rw [htable]
    exact hinv.wellformed.take hlow hzero hnew
  · exact hsame
  · omega
  · rcases le_max_iff.mp hsize with hle | hle
    · exact (hinv.peak.mono hle).concat _
    · rw [hsame] at hle
      exact SizeAtPeak.now hle
  · omega

theorem SlotInvariant.stays {limit : Nat} {es : List Event} {e : Event}
    (hinv : SlotInvariant limit es s) (h : SameSlots s s')
    (hclients : loggedIn limit (es ++ [e]) = loggedIn limit es) :
    SlotInvariant limit (es ++ [e]) s' := by
  constructor
  · rw [h.table]
    exact hinv.wellformed
  · rw [h.allset, hclients]
    exact hinv.clients
  · rw [h.allset]
    exact hinv.within
  · exact (hinv.peak.mono (le_of_eq h.size)).concat e
  · rw [h.size]
    exact hinv.size

theorem SlotInvariant.ends {limit : Nat} {es : List Event} {e : Event} {t : Server} {fd : Int}
    {effects : List Effect} (hinv : SlotInvariant limit es s) (hline : SameSlots s t)
    (hfd : fd ∈ s.allset) (hclients : loggedIn limit (es ++ [e]) = (loggedIn limit es).erase fd)
    (h : logout t fd = .ok (s', effects)) : SlotInvariant limit (es ++ [e]) s' := by
  have hwell := hline.wellformed hinv.wellformed
  have hmem : fd ∈ t.allset := by
    rw [hline.allset]
    exact hfd
  obtain ⟨i, hi, htable, -⟩ := logout_releases hwell hmem h
  have hzero : fd ≠ 0 := ((hwell.mem_used fd).mp hmem).1
  have hused : s'.allset = s.allset.erase fd := by
    rw [← hline.allset]
    exact congrArg Table.used htable
  have hsize : s'.clientsMap.size = s.clientsMap.size :=
    (congrArg Table.size htable).trans hline.size
  constructor
  · rw [htable]
    exact hwell.release hi hzero
  · rw [hused, hclients, hinv.clients]
  · rw [hused]
    exact (Finset.card_erase_le).trans hinv.within
  · exact (hinv.peak.mono (le_of_eq hsize)).concat e
  · rw [hsize]
    exact hinv.size

theorem step_line_effects {fd : Int} {chunk : Text} {calls : Nat → ParserCall}
    {effects : List Effect} (h : step s (.line fd chunk calls) = .ok (s', effects)) :
    ∃ o, doExec s (lineOf chunk) fd calls = .ok o ∧
      ((o.ret = 1 ∧ ∃ more, logout o.server fd = .ok (s', more) ∧ effects = o.effects ++ more) ∨
        o.ret ≠ 1 ∧ s' = o.server ∧ effects = o.effects ++ [.send fd .prompt]) := by
  simp only [step, handleNewConnection] at h
  cases hexec : doExec s (lineOf chunk) fd calls with
  | error fault => simp [hexec, Except.map] at h
  | ok o =>
    refine ⟨o, rfl, ?_⟩
    simp only [hexec, Except.map] at h
    by_cases hret : o.ret = 1
    · left
      simp only [hret, if_true] at h
      cases hout : logout o.server fd with
      | error fault => simp [hout] at h
      | ok result =>
        simp only [hout, Except.ok.injEq, Prod.mk.injEq] at h
        exact ⟨hret, result.2, by rw [← h.1], h.2.symm⟩
    · right
      simp only [hret, if_false, Except.ok.injEq, Prod.mk.injEq] at h
      exact ⟨hret, h.1.symm, h.2.symm⟩

theorem step_line_cases {fd : Int} {chunk : Text} {calls : Nat → ParserCall}
    {effects : List Effect} (h : step s (.line fd chunk calls) = .ok (s', effects)) :
    ∃ o, doExec s (lineOf chunk) fd calls = .ok o ∧
      ((o.ret = 1 ∧ ∃ more, logout o.server fd = .ok (s', more)) ∨
        o.ret ≠ 1 ∧ s' = o.server) := by
  obtain ⟨o, hexec, ⟨hret, more, hout, -⟩ | ⟨hret, hserver, -⟩⟩ := step_line_effects h
  · exact ⟨o, hexec, .inl ⟨hret, more, hout⟩⟩
  · exact ⟨o, hexec, .inr ⟨hret, hserver⟩⟩

theorem wellformed_step {limit : Nat} {e : Event} (hwell : s.table.Wellformed 0)
    (h : next limit s e = some s') : s'.table.Wellformed 0 := by
  obtain ⟨hadm, effects, hstep⟩ := next_eq_some h
  cases e with
  | login ssock fsin =>
    obtain ⟨i, hlow, htable, -⟩ := login_takes hwell hstep
    rw [htable]
    exact hwell.take hlow hadm.1 hadm.2.1
  | line fd chunk calls =>
    obtain ⟨o, hexec, hend⟩ := step_line_cases hstep
    have hsame := doExec_sameSlots hexec
    have hline := hsame.wellformed hwell
    rcases hend with ⟨-, more, hout⟩ | ⟨-, rfl⟩
    · have hfd : fd ∈ o.server.allset := by
        rw [hsame.allset]
        exact hadm
      obtain ⟨i, hi, htable, -⟩ := logout_releases hline hfd hout
      rw [htable]
      exact hline.release hi ((hline.mem_used fd).mp hfd).1
    · exact hline

theorem wellformed_run {limit : Nat} (es : List Event) (s : Server)
    (hrun : exec (next limit) Server.initial es = some s) : s.table.Wellformed 0 := by
  apply invariant_always (I := fun _ s => s.table.Wellformed 0) _ _ es s hrun
  · exact Table.Wellformed.empty 0
  · intro es s e s' _ hwell hstep
    exact wellformed_step hwell hstep

theorem slotInvariant_step {limit : Nat} (hlimit : limit < maxUserNum) (es : List Event)
    (s : Server) (e : Event) (s' : Server)
    (hrun : exec (next limit) Server.initial es = some s) (hinv : SlotInvariant limit es s)
    (h : next limit s e = some s') : SlotInvariant limit (es ++ [e]) s' := by
  have hclients := loggedIn_concat hrun h
  obtain ⟨hadm, effects, hstep⟩ := next_eq_some h
  cases e with
  | login ssock fsin => exact slotInvariant_login hlimit hinv hadm hclients hstep
  | line fd chunk calls =>
    obtain ⟨o, hexec, hend⟩ := step_line_cases hstep
    have hsame := doExec_sameSlots hexec
    simp only [clientsAfter, hexec] at hclients
    rcases hend with ⟨hone, more, hout⟩ | ⟨hother, rfl⟩
    · rw [if_pos hone] at hclients
      exact hinv.ends hsame hadm hclients hout
    · rw [if_neg hother] at hclients
      exact hinv.stays hsame hclients

theorem slotInvariant_run {limit : Nat} (hlimit : limit < maxUserNum) (es : List Event)
    (s : Server) (hrun : exec (next limit) Server.initial es = some s) :
    SlotInvariant limit es s := by
  refine invariant_always ?_ (slotInvariant_step hlimit) es s hrun
  exact ⟨Table.Wellformed.empty 0, rfl, Nat.zero_le _, SizeAtPeak.now (Nat.zero_le _),
    Nat.zero_le _⟩

/-- The ids that `execute_who` lists, less one each. -/
def heldSlots (m : ClientMap) : List Nat :=
  (List.range (m.size + 1)).filter fun i => m.clientsFdSet i ≠ 0

def whoRow (m : ClientMap) (fd : Int) (i : Nat) : Message :=
  .whoRow (i + 1) (m.nickname i) (m.clientsAddrIn i) (m.clientsFdSet i = fd)

theorem whoRows_eq (m : ClientMap) (fd : Int) :
    whoRows m fd = (heldSlots m).map (whoRow m fd) := by
  unfold whoRows heldSlots
  induction List.range (m.size + 1) with
  | nil => rfl
  | cons i is ih =>
    by_cases hzero : m.clientsFdSet i = 0
    · simp [hzero, ih]
    · simp [hzero, ih, whoRow]

theorem heldSlots_increasing (m : ClientMap) : (heldSlots m).Pairwise (· < ·) :=
  List.pairwise_lt_range.filter _

theorem mem_heldSlots (hwell : s.table.Wellformed 0) {i : Nat} :
    i ∈ heldSlots s.clientsMap ↔ s.clientsMap.clientsFdSet i ≠ 0 := by
  simp only [heldSlots, List.mem_filter, List.mem_range, decide_eq_true_eq, and_iff_right_iff_imp]
  intro hi
  have hsize : i < s.clientsMap.size := hwell.lt_size hi
  omega

theorem existsUnique_heldSlot (hwell : s.table.Wellformed 0) {fd : Int} (hfd : fd ∈ s.allset) :
    ∃! i, i ∈ heldSlots s.clientsMap ∧ s.clientsMap.clientsFdSet i = fd := by
  obtain ⟨hzero, i, hi⟩ := (hwell.mem_used fd).mp hfd
  have hslot : s.clientsMap.clientsFdSet i = fd := hi
  refine ⟨i, ⟨(mem_heldSlots hwell).mpr (by rwa [hslot]), hslot⟩, ?_⟩
  intro j ⟨hj, hjfd⟩
  exact hwell.distinct j i ((mem_heldSlots hwell).mp hj) (hjfd.trans hslot.symm)

/-- Where a login puts its client, and what it leaves as it was. -/
def TakesLowestSlot (s : Server) (ssock : Int) (fsin : SockaddrIn) : Prop :=
  ∃ i, i + 1 ≤ 30 ∧ s.clientsMap.clientsFdSet i = 0 ∧
    (∀ j < i, s.clientsMap.clientsFdSet j ≠ 0) ∧
    (∃ m, takeSlot s.clientsMap ssock fsin = .ok m ∧ m.clientsFdSet i = ssock) ∧
    ∀ s' effects, step s (.login ssock fsin) = .ok (s', effects) →
      s'.clientsMap.clientsFdSet i = ssock ∧
        ∀ j, j ≠ i → s'.clientsMap.clientsFdSet j = s.clientsMap.clientsFdSet j ∧
          s'.clientsMap.nickname j = s.clientsMap.nickname j ∧
          s'.clientsMap.clientsAddrIn j = s.clientsMap.clientsAddrIn j

/-- Behind a line that ends its client: socket and slot are free, and every other slot is as
it was. -/
def FreesSlot (s : Server) (fd : Int) (e : Event) : Prop :=
  ∃ i s' effects, step s e = .ok (s', effects) ∧ fd ∉ s'.allset ∧
    s.clientsMap.clientsFdSet i = fd ∧ s'.clientsMap.clientsFdSet i = 0 ∧
    ∀ j, j ≠ i → s'.clientsMap.clientsFdSet j = s.clientsMap.clientsFdSet j ∧
      s'.clientsMap.clientsAddrIn j = s.clientsMap.clientsAddrIn j

/-- The header, then one row for each client, in the order of the ids; the row
of the caller is the marked one. -/
def WhoListsClients (s : Server) (clients : Finset Int) (fd : Int) : Prop :=
  ∃ slots : List Nat,
    executeWho s fd =
      .ok ⟨s, (.whoHeader :: slots.map (whoRow s.clientsMap fd)).map (.send fd), 0⟩ ∧
    slots.Pairwise (· < ·) ∧ (∀ i ∈ slots, s.clientsMap.clientsFdSet i ∈ clients) ∧
    (∀ client ∈ clients, ∃! i, i ∈ slots ∧ s.clientsMap.clientsFdSet i = client) ∧
    ∃! i, i ∈ slots ∧ ∃ name addr, whoRow s.clientsMap fd i = .whoRow (i + 1) name addr true

structure SlotsFollowClients (es : List Event) (s : Server) : Prop where
  distinct : ∀ i j, s.clientsMap.clientsFdSet i ≠ 0 →
    s.clientsMap.clientsFdSet i = s.clientsMap.clientsFdSet j → i = j
  loggedIn : ∀ fd, fd ∈ loggedIn 30 es ↔ fd ≠ 0 ∧ ∃ i, s.clientsMap.clientsFdSet i = fd
  watched : s.allset = Single.loggedIn 30 es
  beyond : ∀ i, s.clientsMap.size ≤ i → s.clientsMap.clientsFdSet i = 0
  peak : SizeAtPeak 30 es s
  ids : ∀ i, s.clientsMap.clientsFdSet i ≠ 0 → i + 1 ≤ 30
  logins : ∀ ssock fsin, Admissible 30 s (.login ssock fsin) → TakesLowestSlot s ssock fsin
  exits : ∀ fd ∈ Single.loggedIn 30 es, ∀ chunk calls o,
    doExec s (lineOf chunk) fd calls = .ok o → o.ret = 1 → FreesSlot s fd (.line fd chunk calls)
  who : ∀ fd ∈ Single.loggedIn 30 es, WhoListsClients s (Single.loggedIn 30 es) fd

theorem SlotInvariant.takesLowestSlot {es : List Event} (hinv : SlotInvariant 30 es s)
    {ssock : Int} {fsin : SockaddrIn} (hadm : Admissible 30 s (.login ssock fsin)) :
    TakesLowestSlot s ssock fsin := by
  have hsize := hinv.size
  have hsmall : s.clientsMap.size < maxUserNum := hsize.trans_lt (by decide)
  obtain ⟨i, hlow, htake⟩ := takeSlot_eq ssock fsin hinv.wellformed hsmall
  have hcard := hinv.wellformed.le_card hlow.below
  have hroom : s.allset.card < 30 := hadm.2.2
  have hid : i ≤ s.allset.card := hcard
  refine ⟨i, by omega, hlow.isFree, hlow.below, ⟨_, htake, Function.update_self _ _ _⟩, ?_⟩
  intro s' effects hstep
  obtain ⟨k, hlow', htable, hframe⟩ := login_takes hinv.wellformed hstep
  have hki : k = i := by
    rcases Nat.lt_trichotomy k i with hlt | heq | hgt
    · exact absurd hlow'.isFree (hlow.below k hlt)
    · exact heq
    · exact absurd hlow.isFree (hlow'.below i hgt)
  subst hki
  have hslot : s'.clientsMap.clientsFdSet = Function.update s.clientsMap.clientsFdSet k ssock :=
    congrArg Table.slot htable
  rw [hslot]
  refine ⟨Function.update_self _ _ _, fun j hj => ⟨Function.update_of_ne hj _ _, ?_⟩⟩
  exact hframe j hj

theorem SlotInvariant.freesSlot {es : List Event} (hinv : SlotInvariant 30 es s) {fd : Int}
    (hfd : fd ∈ s.allset) {chunk : Text} {calls : Nat → ParserCall} {o : Outcome}
    (hexec : doExec s (lineOf chunk) fd calls = .ok o) (hret : o.ret = 1) :
    FreesSlot s fd (.line fd chunk calls) := by
  have hsame := doExec_sameSlots hexec
  have hwell := hsame.wellformed hinv.wellformed
  have hmem : fd ∈ o.server.allset := by
    rw [hsame.allset]
    exact hfd
  obtain ⟨s', more, hout⟩ := logout_ok hwell (hsame.size.trans_le hinv.size) hmem
  obtain ⟨i, hi, htable, -⟩ := logout_releases hwell hmem hout
  have hslot : s'.clientsMap.clientsFdSet =
      Function.update o.server.clientsMap.clientsFdSet i 0 := congrArg Table.slot htable
  have hused : s'.allset = o.server.allset.erase fd := congrArg Table.used htable
  have haddr : s'.clientsMap.clientsAddrIn = s.clientsMap.clientsAddrIn := by
    obtain ⟨slots, userPipe, told, name, rfl, -⟩ := logout_eq hout
    exact hsame.addrIn
  refine ⟨i, s', o.effects ++ more, ?_, ?_, ?_, ?_, fun j hj => ⟨?_, ?_⟩⟩
  · simp only [step, handleNewConnection, hexec, Except.map, hret, if_true, hout]
  · rw [hused]
    exact Finset.notMem_erase fd _
  · rw [← hsame.slot]
    exact hi
  · rw [hslot, Function.update_self]
  · rw [hslot, Function.update_of_ne hj, hsame.slot]
  · rw [haddr]

theorem SlotInvariant.whoListsClients {es : List Event} (hinv : SlotInvariant 30 es s)
    {fd : Int} (hfd : fd ∈ s.allset) : WhoListsClients s s.allset fd := by
  have hwell := hinv.wellformed
  have hsmall : s.clientsMap.size < maxUserNum := hinv.size.trans_lt (by decide)
  refine ⟨heldSlots s.clientsMap, ?_, heldSlots_increasing _, ?_, ?_, ?_⟩
  · rw [executeWho, if_pos hsmall, whoRows_eq]
  · intro i hi
    exact (hwell.mem_used _).mpr ⟨(mem_heldSlots hwell).mp hi, i, rfl⟩
  · intro client hclient
    exact existsUnique_heldSlot hwell hclient
  · have hunique := existsUnique_heldSlot hwell hfd
    simpa [whoRow] using hunique

/-- Every run: the slots are those of the logged-in clients. -/
theorem slots_follow_clients (es : List Event) (s : Server)
    (hrun : exec (next 30) Server.initial es = some s) : SlotsFollowClients es s := by
  have hinv := slotInvariant_run (by decide) es s hrun
  constructor
  · exact hinv.wellformed.distinct
  · rw [← hinv.clients]
    exact hinv.wellformed.mem_used
  · exact hinv.clients
  · exact hinv.wellformed.beyond
  · exact hinv.peak
  · intro i hi
    have hlt : i < s.clientsMap.size := hinv.wellformed.lt_size hi
    have hsize := hinv.size
    omega
  · intro ssock fsin hadm
    exact hinv.takesLowestSlot hadm
  · rw [← hinv.clients]
    intro fd hfd chunk calls o hexec hret
    exact hinv.freesSlot hfd hexec hret
  · rw [← hinv.clients]
    intro fd hfd
    exact hinv.whoListsClients hfd

/-- The second client stays while the slot of the first is used again. -/
def firstReplaced : List Event :=
  [.login 4 ⟨[127, 0, 0, 1], 4000⟩, .login 5 ⟨[127, 0, 0, 1], 4001⟩,
    .line 4 "exit\n".toList fun _ => ⟨(6, 7), 0⟩, .login 6 ⟨[127, 0, 0, 1], 4002⟩]

theorem slots_follow_clients_firstReplaced :
    ∃ s, exec (next 30) Server.initial firstReplaced = some s ∧
      SlotsFollowClients firstReplaced s := by
  have hsome : (exec (next 30) Server.initial firstReplaced).isSome = true := by decide
  have hrun := Option.eq_some_of_isSome hsome
  exact ⟨_, hrun, slots_follow_clients firstReplaced _ hrun⟩

end NetworkProgramming.Single
