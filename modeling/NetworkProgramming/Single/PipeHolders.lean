import NetworkProgramming.Single.Slots

/-! A user pipe belongs to two ids for as long as its flag is 1; both are held
by the same clients all that time. -/
namespace NetworkProgramming.Single
open Library.CString Library.Run Library.SlotTable CommandLine

structure FlagsHeld (s : Server) : Prop where
  zeroOrOne : ∀ a b, (s.userPipe a b).flag = 0 ∨ (s.userPipe a b).flag = 1
  sender : ∀ a b, (s.userPipe a b).flag = 1 →
    1 ≤ a ∧ a ≤ 30 ∧ s.clientsMap.clientsFdSet (a - 1) ≠ 0
  receiver : ∀ a b, (s.userPipe a b).flag = 1 →
    1 ≤ b ∧ b ≤ 30 ∧ s.clientsMap.clientsFdSet (b - 1) ≠ 0

variable {s s' : Server} {sockfd : Int}

theorem FlagsHeld.initial : FlagsHeld Server.initial := by
  constructor
  · intro a b
    exact .inl rfl
  · intro a b h
    simp [Server.initial] at h
  · intro a b h
    simp [Server.initial] at h

/-- The flags of another table may only be fewer, while the slots stay. -/
theorem FlagsHeld.of_fewer (hflags : FlagsHeld s)
    (hslot : s'.clientsMap.clientsFdSet = s.clientsMap.clientsFdSet)
    (hfewer : ∀ a b, (s'.userPipe a b).flag = (s.userPipe a b).flag ∨ (s'.userPipe a b).flag = 0) :
    FlagsHeld s' := by
  have hback : ∀ a b, (s'.userPipe a b).flag = 1 → (s.userPipe a b).flag = 1 := by
    intro a b h
    rcases hfewer a b with heq | hzero
    · rwa [← heq]
    · omega
  constructor
  · intro a b
    rcases hfewer a b with heq | hzero
    · rw [heq]
      exact hflags.zeroOrOne a b
    · exact .inl hzero
  · intro a b h
    rw [hslot]
    exact hflags.sender a b (hback a b h)
  · intro a b h
    rw [hslot]
    exact hflags.receiver a b (hback a b h)

theorem FlagsHeld.setUserPipe (hflags : FlagsHeld s) {a b : Nat} {pipeFd : Int}
    (ha : 1 ≤ a ∧ a ≤ 30 ∧ s.clientsMap.clientsFdSet (a - 1) ≠ 0)
    (hb : 1 ≤ b ∧ b ≤ 30 ∧ s.clientsMap.clientsFdSet (b - 1) ≠ 0) :
    FlagsHeld (s.setUserPipe a b ⟨pipeFd, 1⟩) := by
  constructor
  · intro x y
    rw [Server.setUserPipe_userPipe]
    split
    · exact .inr rfl
    · exact hflags.zeroOrOne x y
  · intro x y h
    rw [Server.setUserPipe_userPipe] at h
    rw [Server.setUserPipe_clientsMap]
    split at h
    next hcell =>
      rw [hcell.1]
      exact ha
    next => exact hflags.sender x y h
  · intro x y h
    rw [Server.setUserPipe_userPipe] at h
    rw [Server.setUserPipe_clientsMap]
    split at h
    next hcell =>
      rw [hcell.2]
      exact hb
    next => exact hflags.receiver x y h

theorem Move.flagsHeld (hzero : sockfd ≠ 0) (h : Move sockfd s s') (hflags : FlagsHeld s) :
    FlagsHeld s' := by
  cases h with
  | claim => exact hflags.of_fewer rfl fun a b => .inl rfl
  | receive sendid recvid hpresent hown hflag =>
    refine hflags.of_fewer ?_ ?_
    · rfl
    · intro a b
      rw [Server.setUserPipe_userPipe]
      split
      next => exact .inr rfl
      next => exact .inl rfl
  | send sendid recvid pipeIn hpresent hown hflag =>
    rw [Server.present_iff] at hpresent
    obtain ⟨hlow, hhigh, hslot⟩ := Server.ownId_eq hown
    apply hflags.setUserPipe
    · rw [hslot]
      exact ⟨hlow, hhigh, hzero⟩
    · exact ⟨by omega, by omega, hpresent.2.2⟩
  | countDown => exact hflags.of_fewer rfl fun a b => .inl rfl
  | complete => exact hflags.of_fewer rfl fun a b => .inl rfl
  | setenv i key val m hown hput =>
    obtain ⟨env, rfl⟩ := ClientMap.putEnv_eq hput
    exact hflags.of_fewer rfl fun a b => .inl rfl
  | name => exact hflags.of_fewer rfl fun a b => .inl rfl

theorem doExec_flagsHeld {cmd : Text} {calls : Nat → ParserCall} {o : Outcome}
    (hzero : sockfd ≠ 0) (h : doExec s cmd sockfd calls = .ok o) :
    FlagsHeld s → FlagsHeld o.server :=
  Moves.lift (R := fun a b => FlagsHeld a → FlagsHeld b) (fun _ => id)
    (fun hab hbc => hbc ∘ hab) (Move.flagsHeld hzero) (doExec_moves h)

theorem FlagsHeld.login {ssock : Int} {fsin : SockaddrIn} {effects : List Effect} {i : Nat}
    (hflags : FlagsHeld s) (hssock : ssock ≠ 0) (h : login s ssock fsin = .ok (s', effects))
    (htable : s'.table = s.table.take i ssock) : FlagsHeld s' := by
  have hslot : s'.clientsMap.clientsFdSet = Function.update s.clientsMap.clientsFdSet i ssock :=
    congrArg Table.slot htable
  have hheld : ∀ j, s.clientsMap.clientsFdSet j ≠ 0 → s'.clientsMap.clientsFdSet j ≠ 0 := by
    intro j hj
    rw [hslot, Function.update_apply]
    split
    · exact hssock
    · exact hj
  constructor
  · rw [(login_frame h).userPipe]
    exact hflags.zeroOrOne
  · intro a b hflag
    rw [(login_frame h).userPipe] at hflag
    obtain ⟨hlow, hhigh, hused⟩ := hflags.sender a b hflag
    exact ⟨hlow, hhigh, hheld _ hused⟩
  · intro a b hflag
    rw [(login_frame h).userPipe] at hflag
    obtain ⟨hlow, hhigh, hused⟩ := hflags.receiver a b hflag
    exact ⟨hlow, hhigh, hheld _ hused⟩

theorem logout_flag {i a b : Nat} (hflags : FlagsHeld s)
    (hpipes : ∀ a b, s'.userPipe a b =
      if (a = i + 1 ∧ 1 ≤ b ∧ b ≤ 30) ∨ (b = i + 1 ∧ 1 ≤ a ∧ a ≤ 30) then
        { s.userPipe a b with flag := 0 }
      else s.userPipe a b)
    (hflag : (s'.userPipe a b).flag = 1) :
    (s.userPipe a b).flag = 1 ∧ a ≠ i + 1 ∧ b ≠ i + 1 := by
  rw [hpipes] at hflag
  split at hflag
  next => simp at hflag
  next hother =>
    have hsender := hflags.sender a b hflag
    have hreceiver := hflags.receiver a b hflag
    refine ⟨hflag, ?_, ?_⟩
    · intro ha
      exact hother (.inl ⟨ha, hreceiver.1, hreceiver.2.1⟩)
    · intro hb
      exact hother (.inr ⟨hb, hsender.1, hsender.2.1⟩)

/-- What one step keeps: the flags stay held, and while a pipe stays flagged
its two ids stay with the same sockets. -/
structure KeepsHolders (s s' : Server) : Prop where
  flags : FlagsHeld s'
  holders : ∀ a b, (s.userPipe a b).flag = 1 → (s'.userPipe a b).flag = 1 →
    s'.clientsMap.clientsFdSet (a - 1) = s.clientsMap.clientsFdSet (a - 1) ∧
      s'.clientsMap.clientsFdSet (b - 1) = s.clientsMap.clientsFdSet (b - 1)

theorem login_keepsHolders {ssock : Int} {fsin : SockaddrIn} {effects : List Effect}
    (hwell : s.table.Wellformed 0) (hflags : FlagsHeld s) (hssock : ssock ≠ 0)
    (h : login s ssock fsin = .ok (s', effects)) : KeepsHolders s s' := by
  obtain ⟨i, hlow, htable, -⟩ := login_takes hwell h
  have hslot : s'.clientsMap.clientsFdSet = Function.update s.clientsMap.clientsFdSet i ssock :=
    congrArg Table.slot htable
  have hkeep : ∀ j, s.clientsMap.clientsFdSet j ≠ 0 →
      s'.clientsMap.clientsFdSet j = s.clientsMap.clientsFdSet j := by
    intro j hj
    rw [hslot]
    apply Function.update_of_ne
    rintro rfl
    exact hj hlow.isFree
  refine ⟨hflags.login hssock h htable, fun a b hflag _ => ⟨?_, ?_⟩⟩
  · exact hkeep _ (hflags.sender a b hflag).2.2
  · exact hkeep _ (hflags.receiver a b hflag).2.2

theorem logout_keepsHolders {fd : Int} {effects : List Effect} (hwell : s.table.Wellformed 0)
    (hfd : fd ∈ s.allset) (hflags : FlagsHeld s) (h : logout s fd = .ok (s', effects)) :
    KeepsHolders s s' := by
  obtain ⟨i, hi, htable, hpipes⟩ := logout_releases hwell hfd h
  have hslot : s'.clientsMap.clientsFdSet = Function.update s.clientsMap.clientsFdSet i 0 :=
    congrArg Table.slot htable
  have hkeep : ∀ a, 1 ≤ a → a ≠ i + 1 →
      s'.clientsMap.clientsFdSet (a - 1) = s.clientsMap.clientsFdSet (a - 1) := by
    intro a ha hne
    rw [hslot]
    exact Function.update_of_ne (by omega) _ _
  constructor
  · constructor
    · intro a b
      rw [hpipes]
      split
      · exact .inl rfl
      · exact hflags.zeroOrOne a b
    · intro a b hflag
      obtain ⟨hold, ha, -⟩ := logout_flag hflags hpipes hflag
      obtain ⟨hlow, hhigh, hused⟩ := hflags.sender a b hold
      rw [hkeep a hlow ha]
      exact ⟨hlow, hhigh, hused⟩
    · intro a b hflag
      obtain ⟨hold, -, hb⟩ := logout_flag hflags hpipes hflag
      obtain ⟨hlow, hhigh, hused⟩ := hflags.receiver a b hold
      rw [hkeep b hlow hb]
      exact ⟨hlow, hhigh, hused⟩
  · intro a b hold hflag
    obtain ⟨-, ha, hb⟩ := logout_flag hflags hpipes hflag
    exact ⟨hkeep a (hflags.sender a b hold).1 ha, hkeep b (hflags.receiver a b hold).1 hb⟩

theorem next_keepsHolders {limit : Nat} {e : Event} (hwell : s.table.Wellformed 0)
    (hflags : FlagsHeld s) (h : next limit s e = some s') : KeepsHolders s s' := by
  obtain ⟨hadm, effects, hstep⟩ := next_eq_some h
  cases e with
  | login ssock fsin =>
    exact login_keepsHolders hwell hflags hadm.1 hstep
  | line fd chunk calls =>
    obtain ⟨o, hexec, hend⟩ := step_line_cases hstep
    have hsame := doExec_sameSlots hexec
    have hfd : fd ∈ o.server.allset := by
      rw [hsame.allset]
      exact hadm
    have hzero : fd ≠ 0 := ((hwell.mem_used fd).mp hadm).1
    have hline := doExec_flagsHeld hzero hexec hflags
    rcases hend with ⟨-, more, hout⟩ | ⟨-, rfl⟩
    · have hwell := hsame.wellformed hwell
      obtain ⟨hflags', hholders⟩ := logout_keepsHolders hwell hfd hline hout
      obtain ⟨i, -, -, hpipes⟩ := logout_releases hwell hfd hout
      refine ⟨hflags', fun a b _ hflag => ?_⟩
      rw [← hsame.slot]
      exact hholders a b (logout_flag hline hpipes hflag).1 hflag
    · refine ⟨hline, fun a b _ _ => ?_⟩
      rw [hsame.slot]
      exact ⟨rfl, rfl⟩

theorem flagsHeld_run {limit : Nat} (es : List Event) (s : Server)
    (hrun : exec (next limit) Server.initial es = some s) : FlagsHeld s := by
  refine invariant_always (I := fun _ s => FlagsHeld s) FlagsHeld.initial ?_ es s hrun
  intro es s e s' hs hflags hstep
  exact (next_keepsHolders (wellformed_run es s hs) hflags hstep).flags

/-- Some event set the flag, and from then on it was 1 and the ids `a` and `b`
were with the clients that have them now. -/
def HeldSinceSet (es : List Event) (s : Server) (a b : Nat) : Prop :=
  ∃ before e after t, es = before ++ e :: after ∧
    exec (next 30) Server.initial before = some t ∧ (t.userPipe a b).flag ≠ 1 ∧
    ∀ middle rest v, after = middle ++ rest →
      exec (next 30) Server.initial (before ++ e :: middle) = some v →
      (v.userPipe a b).flag = 1 ∧
        v.clientsMap.clientsFdSet (a - 1) = s.clientsMap.clientsFdSet (a - 1) ∧
        v.clientsMap.clientsFdSet (b - 1) = s.clientsMap.clientsFdSet (b - 1)

theorem heldSinceSet_run {es : List Event} (hrun : exec (next 30) Server.initial es = some s)
    {a b : Nat} (hflag : (s.userPipe a b).flag = 1) : HeldSinceSet es s a b := by
  have hsince := exec_since (p := fun v : Server => (v.userPipe a b).flag = 1)
    (f := fun v => (v.clientsMap.clientsFdSet (a - 1), v.clientsMap.clientsFdSet (b - 1)))
    (by simp [Server.initial]) (by
      intro es v e v' hv hstep hp hp'
      have hwell := wellformed_run es v hv
      have hflags := flagsHeld_run es v hv
      have hkeeps := next_keepsHolders hwell hflags hstep
      obtain ⟨ha, hb⟩ := hkeeps.holders a b hp hp'
      simp only [ha, hb]) es s hrun hflag
  simpa [HeldSinceSet] using hsince

structure UserPipesHeld (es : List Event) (s : Server) : Prop where
  sender : ∀ a b, (s.userPipe a b).flag = 1 →
    1 ≤ a ∧ a ≤ 30 ∧ s.clientsMap.clientsFdSet (a - 1) ∈ s.allset
  receiver : ∀ a b, (s.userPipe a b).flag = 1 →
    1 ≤ b ∧ b ≤ 30 ∧ s.clientsMap.clientsFdSet (b - 1) ∈ s.allset
  since : ∀ a b, (s.userPipe a b).flag = 1 → HeldSinceSet es s a b
  freshId : ∀ ssock fsin s' effects, Admissible 30 s (.login ssock fsin) →
    step s (.login ssock fsin) = .ok (s', effects) →
    ∃ i, s'.clientsMap.clientsFdSet i = ssock ∧
      ∀ n, (s'.userPipe (i + 1) n).flag = 0 ∧ (s'.userPipe n (i + 1)).flag = 0

theorem user_pipes_held (es : List Event) (s : Server)
    (hrun : exec (next 30) Server.initial es = some s) : UserPipesHeld es s := by
  have hflags := flagsHeld_run es s hrun
  have hwell := wellformed_run es s hrun
  constructor
  · intro a b hflag
    obtain ⟨hlow, hhigh, hused⟩ := hflags.sender a b hflag
    exact ⟨hlow, hhigh, (hwell.mem_used _).mpr ⟨hused, _, rfl⟩⟩
  · intro a b hflag
    obtain ⟨hlow, hhigh, hused⟩ := hflags.receiver a b hflag
    exact ⟨hlow, hhigh, (hwell.mem_used _).mpr ⟨hused, _, rfl⟩⟩
  · intro a b hflag
    exact heldSinceSet_run hrun hflag
  · intro ssock fsin s' effects hadm hstep
    obtain ⟨i, hlow, htable, -⟩ := login_takes hwell hstep
    have hslot : s'.clientsMap.clientsFdSet = Function.update s.clientsMap.clientsFdSet i ssock :=
      congrArg Table.slot htable
    have hfree : s.clientsMap.clientsFdSet i = 0 := hlow.isFree
    refine ⟨i, by rw [hslot, Function.update_self], fun n => ?_⟩
    rw [(login_frame hstep).userPipe]
    constructor
    · rcases hflags.zeroOrOne (i + 1) n with hzero | hone
      · exact hzero
      · exact absurd hfree (hflags.sender (i + 1) n hone).2.2
    · rcases hflags.zeroOrOne n (i + 1) with hzero | hone
      · exact hzero
      · exact absurd hfree (hflags.receiver n (i + 1) hone).2.2

/-- The first client pipes to the second, who leaves; its id is given again. -/
def pipedThenReplaced : List Event :=
  [.login 4 ⟨[127, 0, 0, 1], 4000⟩, .login 5 ⟨[127, 0, 0, 1], 4001⟩,
    .line 4 "ls >2\n".toList fun _ => ⟨(6, 7), 0⟩, .line 5 "exit\n".toList fun _ => ⟨(8, 9), 0⟩,
    .login 5 ⟨[127, 0, 0, 1], 4002⟩]

theorem user_pipes_held_pipedThenReplaced :
    ∃ s, exec (next 30) Server.initial pipedThenReplaced = some s ∧
      UserPipesHeld pipedThenReplaced s := by
  have hsome : (exec (next 30) Server.initial pipedThenReplaced).isSome = true := by decide
  have hrun := Option.eq_some_of_isSome hsome
  exact ⟨_, hrun, user_pipes_held pipedThenReplaced _ hrun⟩

end NetworkProgramming.Single
