import NetworkProgramming.Single.Dispatch
import NetworkProgramming.Single.Tokens

/-! The nicknames of the clients over runs of the server: who may have which, and
when `name` is refused. -/
namespace NetworkProgramming.Single
open Library.CString Library.Run Library.SlotTable CommandLine

def noName : Text := "(no name)".toList

structure OneWord (text : Text) : Prop where
  nonempty : text ≠ []
  space : ' ' ∉ text
  pipe : '|' ∉ text
  bang : '!' ∉ text
  less : '<' ∉ text
  more : '>' ∉ text
  terminator : '\x00' ∉ text

def nameLine (name : Text) : Text := "name".toList ++ ' ' :: name

def HeldByOther (s : Server) (fd : Int) (name : Text) : Prop :=
  ∃ i, s.clientsMap.clientsFdSet i ≠ 0 ∧ s.clientsMap.clientsFdSet i ≠ fd ∧
    s.clientsMap.nickname i = name

def RefusesName (effects : List Effect) : Prop :=
  ∃ fd name, Effect.send fd (.nameExists name) ∈ effects

/-- No name that is tested for before `name` is part of it. -/
def PlainName (name : Text) : Prop := ∀ other : Builtin, other.Before .name → ¬ other.word <:+: name

structure NamesInvariant (s : Server) : Prop where
  plain : ∀ i, s.clientsMap.clientsFdSet i ≠ 0 →
    s.clientsMap.nickname i = noName ∨ PlainName (s.clientsMap.nickname i)
  unique : ∀ i j, s.clientsMap.clientsFdSet i ≠ 0 → s.clientsMap.clientsFdSet j ≠ 0 →
    s.clientsMap.nickname i = s.clientsMap.nickname j → s.clientsMap.nickname i ≠ noName → i = j

variable {s s' : Server} {fd : Int} {name cmd : Text} {calls : Nat → ParserCall} {o : Outcome}
  {effects : List Effect}

section Lines

theorem receivePipe_clientsMap {line : Text} {input : Int}
    (h : receivePipe s line fd = .ok (.accepted s' effects input)) :
    s'.clientsMap = s.clientsMap := by
  obtain ⟨-, rfl, -⟩ | ⟨_, _, -, -, -, -, -, rfl, -⟩ := receivePipe_accepted h <;> rfl

theorem checkUserPipes_clientsMap {line : Text} {result : Except Message Int}
    (h : checkUserPipes s line fd = .ok (s', effects, result)) : s'.clientsMap = s.clientsMap := by
  unfold checkUserPipes at h
  split at h
  next => contradiction
  next =>
    cases h
    rfl
  next hreceive =>
    have hsame := receivePipe_clientsMap hreceive
    split at h
    next => contradiction
    next =>
      cases h
      exact hsame
    next hsend =>
      obtain ⟨rfl, -⟩ := sendPipe_accepted hsend
      cases h
      exact hsame

/-- The parent branch for `<n` clears a flag at most, and closes. -/
theorem parserReceives_cases {closes : List Effect} (h : parserReceives s cmd fd = .ok (s', closes)) :
    s'.clientsMap = s.clientsMap ∧ ∀ client message, Effect.send client message ∉ closes := by
  unfold parserReceives at h
  split at h
  next =>
    split at h
    next => contradiction
    next =>
      split at h
      next =>
        split at h
        next => contradiction
        next =>
          dsimp only at h
          split at h
          next =>
            cases h
            exact ⟨rfl, by simp⟩
          next =>
            cases h
            exact ⟨rfl, by simp⟩
      next =>
        cases h
        exact ⟨rfl, by simp⟩
  next =>
    cases h
    exact ⟨rfl, by simp⟩

variable {line : Line} {first last : Bool} {call : ParserCall} {r r' : Round}

theorem parserSends_clientsMap {pipeIn : Int} (h : parserSends s cmd fd pipeIn = .ok s') :
    s'.clientsMap = s.clientsMap := by
  obtain rfl | ⟨_, _, -, -, -, -, rfl⟩ := parserSends_cases h <;> rfl

theorem runCommand_silent (h : runCommand line first last cmd call r = .ok r') :
    r'.server.clientsMap = r.server.clientsMap ∧
      ∀ client message, Effect.send client message ∈ r'.effects →
        Effect.send client message ∈ r.effects := by
  obtain ⟨args, sent, received, closes, hparts⟩ := runCommand_parts h
  obtain ⟨hreceived, hcloses⟩ := parserReceives_cases hparts.receives
  constructor
  · rw [hparts.server, (finishRound_sameUsers _ _ _ _).clientsMap, hreceived,
      parserSends_clientsMap hparts.sends, (takeDue_sameUsers _ _ _).clientsMap]
  · intro client message hmem
    rw [hparts.effects] at hmem
    simp only [List.mem_append, List.mem_cons, Option.mem_toList, Option.map_eq_some_iff] at hmem
    rcases hmem with (((hmem | ⟨_, -, hmem⟩) | hmem | hmem) | hmem) | hmem
    · exact hmem
    · contradiction
    · contradiction
    · exact absurd hmem (hcloses client message)
    · split at hmem <;> simp at hmem
    · unfold finishRound at hmem
      split at hmem
      · split at hmem
        · simp at hmem
        · split at hmem <;> simp at hmem
      · simp at hmem

theorem runCommands_silent {i : Nat} {cmds : List Text}
    (h : runCommands line calls i cmds r = .ok r') :
    r'.server.clientsMap = r.server.clientsMap ∧
      ∀ client message, Effect.send client message ∈ r'.effects →
        Effect.send client message ∈ r.effects := by
  induction cmds generalizing i r with
  | nil =>
    cases h
    exact ⟨rfl, fun _ _ hmem => hmem⟩
  | cons cmd cmds ih =>
    simp only [runCommands] at h
    split at h
    next => contradiction
    next middle hfirst =>
      obtain ⟨hmap, hsends⟩ := runCommand_silent hfirst
      obtain ⟨hmap', hsends'⟩ := ih h
      exact ⟨hmap'.trans hmap, fun client message hmem =>
        hsends client message (hsends' client message hmem)⟩

inductive NickChange (s : Server) (fd : Int) : (Nat → Text) → Prop
  | same : NickChange s fd s.clientsMap.nickname
  | own (i : Nat) (name : Text) (hown : s.clientsMap.indexOf fd = some i)
      (hfree : nameTaken s.clientsMap fd name = false) (hplain : PlainName name) :
      NickChange s fd (Function.update s.clientsMap.nickname i name)

theorem NickChange.congr {names : Nat → Text} (hmap : s'.clientsMap = s.clientsMap)
    (h : NickChange s' fd names) : NickChange s fd names := by
  cases h with
  | same =>
    rw [hmap]
    exact .same
  | own i name hown hfree hplain =>
    rw [hmap] at hown hfree ⊢
    exact .own i name hown hfree hplain

theorem runBuiltin_nickChange {b : Builtin} (hbuiltin : builtin [cmd] = some b)
    (h : runBuiltin s fd cmd b = .ok o) : NickChange s fd o.server.clientsMap.nickname := by
  have htables := (runBuiltin_cases h).1
  generalize o.server = after at htables
  cases htables with
  | same => exact .same
  | setenv i key val m hown hput =>
    obtain ⟨env, rfl⟩ := ClientMap.putEnv_eq hput
    exact .same
  | name i name hword hfree hown =>
    apply NickChange.own i name hown hfree
    intro other hbefore
    exact (builtin_eq_some.mp hbuiltin).2 other hbefore name (List.mem_of_getElem? hword)

theorem builtin_single {cmds : List Text} {b : Builtin} (h : builtin cmds = some b) :
    cmds = [cmds.headD []] := by
  unfold builtin at h
  split at h
  next => rfl
  next => contradiction

theorem doExec_nickChange (h : doExec s cmd fd calls = .ok o) :
    NickChange s fd o.server.clientsMap.nickname := by
  obtain ⟨-, rfl⟩ | ⟨reading, -, ⟨checked, _, _, hcheck, rfl⟩ |
    ⟨checked, _, input, o', hcheck, hline, rfl⟩⟩ := doExec_cases h
  · exact .same
  · apply NickChange.congr (claimEntry_sameUsers s fd reading.pipeNumber).clientsMap
    apply NickChange.congr (checkUserPipes_clientsMap hcheck)
    exact .same
  · apply NickChange.congr (claimEntry_sameUsers s fd reading.pipeNumber).clientsMap
    apply NickChange.congr (checkUserPipes_clientsMap hcheck)
    unfold runLine at hline
    split at hline
    next b hbuiltin =>
      apply runBuiltin_nickChange _ hline
      rwa [← builtin_single hbuiltin]
    next =>
      dsimp only at hline
      split at hline
      next => contradiction
      next r hrun =>
        cases hline
        dsimp only
        rw [(runCommands_silent hrun).1]
        exact .same

end Lines

section Invariant

theorem NamesInvariant.login {ssock : Int} {fsin : SockaddrIn} (hinv : NamesInvariant s)
    (hwell : s.table.Wellformed 0) (h : login s ssock fsin = .ok (s', effects)) :
    NamesInvariant s' := by
  obtain ⟨i, env, hlow, rfl⟩ := login_eq hwell h
  have hname : ∀ j, Function.update s.clientsMap.nickname i "(no name)".toList j ≠ noName →
      j ≠ i := by
    rintro j hj rfl
    exact hj (Function.update_self _ _ _)
  constructor
  · intro j hj
    by_cases hji : j = i
    · subst hji
      exact .inl (Function.update_self _ _ _)
    · dsimp only at hj ⊢
      rw [Function.update_of_ne hji] at hj ⊢
      exact hinv.plain j hj
  · intro j k hj hk hsame hne
    dsimp only at hj hk hsame hne
    have hji := hname j hne
    have hki := hname k (hsame ▸ hne)
    rw [Function.update_of_ne hji] at hj hsame hne
    rw [Function.update_of_ne hki] at hk hsame
    exact hinv.unique j k hj hk hsame hne

theorem NamesInvariant.fewer (hinv : NamesInvariant s)
    (hslot : ∀ i, s'.clientsMap.clientsFdSet i ≠ 0 → s.clientsMap.clientsFdSet i ≠ 0)
    (hname : s'.clientsMap.nickname = s.clientsMap.nickname) : NamesInvariant s' := by
  constructor
  · intro i hi
    rw [hname]
    exact hinv.plain i (hslot i hi)
  · intro i j hi hj
    rw [hname]
    exact hinv.unique i j (hslot i hi) (hslot j hj)

theorem nameTaken_iff (hwell : s.table.Wellformed 0) :
    nameTaken s.clientsMap fd name = true ↔ HeldByOther s fd name := by
  simp only [nameTaken, List.any_eq_true, List.mem_range, Bool.and_eq_true, bne_iff_ne, ne_eq,
    beq_iff_eq]
  constructor
  · rintro ⟨i, -, ⟨hother, hused⟩, hname⟩
    exact ⟨i, hused, hother, hname⟩
  · rintro ⟨i, hused, hother, hname⟩
    exact ⟨i, hwell.lt_size hused, ⟨hother, hused⟩, hname⟩

theorem NamesInvariant.nickChange (hinv : NamesInvariant s) (hwell : s.table.Wellformed 0)
    (hslot : s'.clientsMap.clientsFdSet = s.clientsMap.clientsFdSet)
    (h : NickChange s fd s'.clientsMap.nickname) : NamesInvariant s' := by
  generalize hnames : s'.clientsMap.nickname = names at h
  cases h with
  | same =>
    apply hinv.fewer _ hnames
    intro i hi
    rwa [← hslot]
  | own i name hown hfree hplain =>
    obtain ⟨-, hi, -⟩ := ClientMap.indexOf_eq_some hown
    have hfresh : ∀ j, j ≠ i → s.clientsMap.clientsFdSet j ≠ 0 →
        s.clientsMap.nickname j ≠ name := by
      intro j hji hj hname
      rw [← Bool.not_eq_true, nameTaken_iff hwell] at hfree
      apply hfree
      refine ⟨j, hj, ?_, hname⟩
      intro hjfd
      exact hji (hwell.distinct j i hj (hjfd.trans hi.symm))
    constructor
    · intro j hj
      rw [hslot] at hj
      rw [hnames]
      by_cases hji : j = i
      · subst hji
        rw [Function.update_self]
        exact .inr hplain
      · rw [Function.update_of_ne hji]
        exact hinv.plain j hj
    · intro j k hj hk hsame hne
      rw [hslot] at hj hk
      rw [hnames] at hsame hne
      by_cases hji : j = i
      · by_cases hki : k = i
        · rw [hji, hki]
        · rw [hji, Function.update_self, Function.update_of_ne hki] at hsame
          exact absurd hsame.symm (hfresh k hki hk)
      · rw [Function.update_of_ne hji] at hsame hne
        by_cases hki : k = i
        · rw [hki, Function.update_self] at hsame
          exact absurd hsame (hfresh j hji hj)
        · rw [Function.update_of_ne hki] at hsame
          exact hinv.unique j k hj hk hsame hne

theorem NamesInvariant.step {limit : Nat} {e : Event} (hinv : NamesInvariant s)
    (hwell : s.table.Wellformed 0) (h : next limit s e = some s') : NamesInvariant s' := by
  obtain ⟨hadm, effects, hstep⟩ := next_eq_some h
  cases e with
  | login ssock fsin => exact hinv.login hwell hstep
  | line fd chunk calls =>
    obtain ⟨o, hexec, hend⟩ := step_line_cases hstep
    have hsame := doExec_sameSlots hexec
    have hline : NamesInvariant o.server := hinv.nickChange hwell hsame.slot (doExec_nickChange hexec)
    rcases hend with ⟨-, more, hout⟩ | ⟨-, rfl⟩
    · have hwell' := hsame.wellformed hwell
      have hfd : fd ∈ o.server.allset := by
        rw [hsame.allset]
        exact hadm
      obtain ⟨i, -, htable, -⟩ := logout_releases hwell' hfd hout
      obtain ⟨slots, userPipe, _, _, rfl, -⟩ := logout_eq hout
      have hslot : slots = Function.update o.server.clientsMap.clientsFdSet i 0 :=
        congrArg Table.slot htable
      refine hline.fewer ?_ rfl
      intro j hj
      dsimp only at hj
      rw [hslot] at hj
      by_cases hji : j = i
      · rw [hji, Function.update_self] at hj
        contradiction
      · rwa [Function.update_of_ne hji] at hj
    · exact hline

theorem namesInvariant_run {limit : Nat} (es : List Event) (s : Server)
    (hrun : exec (next limit) Server.initial es = some s) : NamesInvariant s := by
  apply invariant_always (I := fun _ s => NamesInvariant s) _ _ es s hrun
  · constructor
    · intro i hi
      exact absurd rfl hi
    · intro i j hi
      exact absurd rfl hi
  · intro es s e s' hes hinv hstep
    exact hinv.step (wellformed_run es s hes) hstep

end Invariant

section Refusals

theorem OneWord.splitSpace (h : OneWord name) :
    splitSpace (nameLine name) = ["name".toList, name] := by
  rw [CommandLine.splitSpace, nameLine, strtok_word_cons (by decide) (by decide),
    strtok_word h.nonempty h.space]

theorem OneWord.singleCommand (h : OneWord name) : SingleCommand (nameLine name) := by
  have hmem : ∀ c, c ∉ "name".toList → c ≠ ' ' → c ∉ name → c ∉ nameLine name := by
    intro c hname hspace hc
    simp only [nameLine, List.mem_append, List.mem_cons, not_or]
    exact ⟨hname, hspace, hc⟩
  constructor
  · rw [h.splitSpace]
    exact List.cons_ne_nil _ _
  · exact hmem _ (by decide) (by decide) h.pipe
  · exact hmem _ (by decide) (by decide) h.bang
  · exact hmem _ (by decide) (by decide) h.less
  · exact hmem _ (by decide) (by decide) h.more

theorem OneWord.lineOf (h : OneWord name) : lineOf (nameLine name ++ ['\n']) = nameLine name := by
  apply lineOf_line
  simp only [nameLine, List.mem_append, List.mem_cons, not_or]
  exact ⟨by decide, by decide, h.terminator⟩

theorem OneWord.dispatch (h : OneWord name) (hplain : PlainName name) :
    dispatch (nameLine name) = .runs .name := by
  apply h.singleCommand.dispatch_runs.mpr
  refine ⟨by simp [nameLine], builtin_eq_some.mpr ⟨?_, ?_⟩⟩
  · rw [h.splitSpace]
    exact ⟨_, List.mem_cons_self, List.infix_refl _⟩
  · intro other hbefore word hword
    rw [h.splitSpace, List.mem_cons, List.mem_singleton] at hword
    rcases hword with rfl | rfl
    · revert hbefore
      cases other <;> decide
    · exact hplain other hbefore

theorem executeTell_quiet {operand : List Text} (h : executeTell s fd operand = .ok o) :
    ¬ RefusesName o.effects := by
  rintro ⟨client, taken, hmem⟩
  unfold executeTell at h
  split at h
  next => contradiction
  next =>
    dsimp only at h
    split at h
    next =>
      split at h
      next =>
        cases h
        simp at hmem
      next =>
        split at h
        next =>
          cases h
          simp at hmem
        next => contradiction
        next => contradiction
    next => contradiction

theorem executeYell_quiet {operand : List Text} (h : executeYell s fd operand = .ok o) :
    ¬ RefusesName o.effects := by
  rintro ⟨client, taken, hmem⟩
  unfold executeYell at h
  split at h
  next =>
    cases h
    simp [Server.announce] at hmem
  next => contradiction
  next => contradiction

theorem executeName_refuses {operand : List Text} (h : executeName s fd operand = .ok o)
    (hrefuses : RefusesName o.effects) :
    ∃ taken, operand[1]? = some taken ∧ nameTaken s.clientsMap fd taken = true := by
  obtain ⟨client, taken, hmem⟩ := hrefuses
  unfold executeName at h
  split at h
  next => contradiction
  next name hword =>
    split at h
    next htaken => exact ⟨name, hword, htaken⟩
    next =>
      split at h
      next => contradiction
      next =>
        cases h
        simp [Server.announce] at hmem

theorem runBuiltin_refuses {b : Builtin} (h : runBuiltin s fd cmd b = .ok o)
    (hrefuses : RefusesName o.effects) :
    ∃ taken, (splitSpace cmd)[1]? = some taken ∧ nameTaken s.clientsMap fd taken = true := by
  have hcase := hrefuses
  obtain ⟨client, taken, hmem⟩ := hcase
  cases b with
  | printenv =>
    simp only [runBuiltin] at h
    split at h
    next => contradiction
    next key _ =>
      cases hprint : doPrintenv s fd key with
      | error fault => simp [hprint, Except.map] at h
      | ok value =>
        simp only [hprint, Except.map, Except.ok.injEq] at h
        subst h
        simp at hmem
  | setenv =>
    simp only [runBuiltin] at h
    split at h
    next key val _ _ =>
      cases hload : loadEnv s fd (key ++ '=' :: val) with
      | error fault => simp [hload, Except.map] at h
      | ok next =>
        simp only [hload, Except.map, Except.ok.injEq] at h
        subst h
        simp at hmem
    next => contradiction
  | exit =>
    cases h
    simp at hmem
  | who =>
    simp only [runBuiltin, executeWho] at h
    split at h
    next =>
      cases h
      simp [whoRows_eq, whoRow] at hmem
    next => contradiction
  | tell => exact absurd hrefuses (executeTell_quiet h)
  | yell => exact absurd hrefuses (executeYell_quiet h)
  | name => exact executeName_refuses h hrefuses

theorem logout_refuses (h : logout s fd = .ok (s', effects)) : ¬ RefusesName effects := by
  obtain ⟨slots, userPipe, told, left, -, rfl⟩ := logout_eq h
  rintro ⟨client, taken, hmem⟩
  simp at hmem

theorem OneWord.refused (h : OneWord name) (hwell : s.table.Wellformed 0)
    (hexec : doExec s (nameLine name) fd calls = .ok o) (hrefuses : RefusesName o.effects) :
    HeldByOther s fd name := by
  rw [h.singleCommand.doExec] at hexec
  cases hchoice : Single.dispatch (nameLine name) with
  | nothing =>
    rw [hchoice] at hexec
    cases hexec
    obtain ⟨client, taken, hmem⟩ := hrefuses
    simp at hmem
  | runs b =>
    rw [hchoice] at hexec
    obtain ⟨taken, hword, htaken⟩ := runBuiltin_refuses hexec hrefuses
    rw [h.splitSpace] at hword
    obtain rfl : name = taken := by simpa using hword
    exact (nameTaken_iff hwell).mp htaken
  | program =>
    rw [hchoice, Dispatch.outcome] at hexec
    split at hexec
    next => contradiction
    next r hrun =>
      cases hexec
      obtain ⟨client, taken, hmem⟩ := hrefuses
      have hnone := (runCommands_silent hrun).2 client _ hmem
      simp at hnone

/-- The names of the clients, and what a `name` comes to. -/
structure NamesUnique (s : Server) : Prop where
  unique : ∀ i j, s.clientsMap.clientsFdSet i ≠ 0 → s.clientsMap.clientsFdSet j ≠ 0 →
    s.clientsMap.nickname i = s.clientsMap.nickname j → s.clientsMap.nickname i ≠ noName → i = j
  refused : ∀ fd ∈ s.allset, ∀ (name : Text) (calls : Nat → ParserCall), OneWord name →
    HeldByOther s fd name →
    step s (.line fd (nameLine name ++ ['\n']) calls) =
      .ok (s, [.send fd (.nameExists name), .send fd .prompt])
  refusedOnly : ∀ fd ∈ s.allset, ∀ (name : Text) (calls : Nat → ParserCall) (s' : Server)
    (effects : List Effect), OneWord name →
    step s (.line fd (nameLine name ++ ['\n']) calls) = .ok (s', effects) → RefusesName effects →
    HeldByOther s fd name

theorem NamesInvariant.refused (hinv : NamesInvariant s) (hwell : s.table.Wellformed 0)
    (hname : OneWord name) (hheld : HeldByOther s fd name) :
    Single.step s (.line fd (nameLine name ++ ['\n']) calls) =
      .ok (s, [.send fd (.nameExists name), .send fd .prompt]) := by
  have htaken := (nameTaken_iff hwell).mpr hheld
  obtain ⟨i, hi, -, rfl⟩ := hheld
  have hplain : PlainName (s.clientsMap.nickname i) := by
    rcases hinv.plain i hi with hno | hplain
    · -- the first nickname is no word
      rw [hno] at hname
      exact absurd hname.space (by decide)
    · exact hplain
  have hexec : doExec s (nameLine (s.clientsMap.nickname i)) fd calls =
      .ok ⟨s, [.send fd (.nameExists (s.clientsMap.nickname i))], 0⟩ := by
    rw [hname.singleCommand.doExec, hname.dispatch hplain, Dispatch.outcome, runBuiltin,
      hname.splitSpace, executeName]
    simp only [List.getElem?_cons_succ, List.getElem?_cons_zero, htaken, if_true]
  rw [Single.step, handleNewConnection, hname.lineOf, hexec]
  rfl

theorem NamesInvariant.refusedOnly (hwell : s.table.Wellformed 0) (hname : OneWord name)
    (h : Single.step s (.line fd (nameLine name ++ ['\n']) calls) = .ok (s', effects))
    (hrefuses : RefusesName effects) : HeldByOther s fd name := by
  obtain ⟨o, hexec, hend⟩ := step_line_effects h
  rw [hname.lineOf] at hexec
  apply hname.refused hwell hexec
  obtain ⟨client, taken, hmem⟩ := hrefuses
  rcases hend with ⟨-, more, hout, rfl⟩ | ⟨-, -, rfl⟩
  · rcases List.mem_append.mp hmem with hmem | hmem
    · exact ⟨client, taken, hmem⟩
    · exact absurd ⟨client, taken, hmem⟩ (logout_refuses hout)
  · rcases List.mem_append.mp hmem with hmem | hmem
    · exact ⟨client, taken, hmem⟩
    · simp at hmem

end Refusals

/-- Every run, with any number of clients: nicknames are unique, and `name` is
refused for those of other clients only. -/
theorem names_unique (limit : Nat) (es : List Event) (s : Server)
    (hrun : exec (next limit) Server.initial es = some s) : NamesUnique s := by
  have hinv := namesInvariant_run es s hrun
  have hwell := wellformed_run es s hrun
  constructor
  · exact hinv.unique
  · intro fd _ name calls hname hheld
    exact hinv.refused hwell hname hheld
  · intro fd _ name calls s' effects hname hstep hrefuses
    exact NamesInvariant.refusedOnly hwell hname hstep hrefuses

/-- A name is taken, left behind in a freed slot, and taken again. -/
def nameLeftBehind : List Event :=
  [.login 4 ⟨[127, 0, 0, 1], 4000⟩, .login 5 ⟨[127, 0, 0, 1], 4001⟩,
    .line 4 "name ann\n".toList fun _ => ⟨(6, 7), 0⟩,
    .line 4 "exit\n".toList fun _ => ⟨(6, 7), 0⟩,
    .line 5 "name ann\n".toList fun _ => ⟨(6, 7), 0⟩]

theorem names_unique_nameLeftBehind :
    ∃ s, exec (next 30) Server.initial nameLeftBehind = some s ∧ NamesUnique s := by
  have hsome : (exec (next 30) Server.initial nameLeftBehind).isSome = true := by decide
  have hrun := Option.eq_some_of_isSome hsome
  exact ⟨_, hrun, names_unique 30 nameLeftBehind _ hrun⟩

end NetworkProgramming.Single
