import NetworkProgramming.Single.PipeHolders

/-! The variables of the clients over runs of `setenv`, `printenv`, logins and
exits, against the settings each client made since its login. -/
namespace NetworkProgramming.Single
open Library.CString Library.Run Library.SlotTable CommandLine

inductive EnvCommand where
  | setenv (key value : Text)
  | printenv (key : Text)
  | exit
  deriving DecidableEq, Repr

def EnvCommand.line : EnvCommand → Text
  | .setenv key value => "setenv ".toList ++ (key ++ ' ' :: value)
  | .printenv key => "printenv ".toList ++ key
  | .exit => "exit".toList

def EnvCommand.builtin : EnvCommand → Builtin
  | .setenv .. => .setenv
  | .printenv .. => .printenv
  | .exit => .exit

inductive EnvEvent where
  | login (ssock : Int) (fsin : SockaddrIn)
  | sends (fd : Int) (cmd : EnvCommand) (calls : Nat → ParserCall)

def EnvEvent.event : EnvEvent → Event
  | .login ssock fsin => .login ssock fsin
  | .sends fd cmd calls => .line fd (cmd.line ++ ['\n']) calls

def nextEnv (limit : Nat) (s : Server) (e : EnvEvent) : Option Server := next limit s e.event

/-- A word without spaces or `=` that fits a field of `env_map`. -/
structure Word (text : Text) : Prop where
  nonempty : text ≠ []
  fits : text.length < 100
  space : ' ' ∉ text
  equals : '=' ∉ text
  terminator : '\x00' ∉ text

instance (text : Text) : Decidable (Word text) :=
  decidable_of_iff (text ≠ [] ∧ text.length < 100 ∧ ' ' ∉ text ∧ '=' ∉ text ∧ '\x00' ∉ text)
    ⟨fun ⟨h₁, h₂, h₃, h₄, h₅⟩ => ⟨h₁, h₂, h₃, h₄, h₅⟩,
      fun h => ⟨h.nonempty, h.fits, h.space, h.equals, h.terminator⟩⟩

def EnvCommand.Words : EnvCommand → Prop
  | .setenv key value => Word key ∧ Word value
  | .printenv key => Word key
  | .exit => True

/-- `do_exec` finds one command, no number, no user pipe, and this built-in. -/
def ReadsAs (line : Text) (b : Builtin) : Prop :=
  readLine line = some ⟨[line], none, false⟩ ∧ '<' ∉ line ∧ pipesOut line = false ∧
    builtin [line] = some b

/-- What the claim is about: the words of a command, and how its line is read. -/
def EnvEvent.ReadsAsWritten : EnvEvent → Prop
  | .login .. => True
  | .sends _ cmd _ => cmd.Words ∧ ReadsAs cmd.line cmd.builtin

/-- The settings of the client with socket `fd` since its login, the newest
first; the login itself sets PATH. -/
def record (fd : Int) (settings : List (Text × Text)) : EnvEvent → List (Text × Text)
  | .login ssock _ => if ssock = fd then [("PATH".toList, "bin:.".toList)] else settings
  | .sends fd' (.setenv key value) _ =>
    if fd' = fd then (key, value) :: settings else settings
  | .sends _ _ _ => settings

def settings (fd : Int) (es : List EnvEvent) : List (Text × Text) := es.foldl (record fd) []

theorem settings_concat (fd : Int) (es : List EnvEvent) (e : EnvEvent) :
    settings fd (es ++ [e]) = record fd (settings fd es) e := by
  rw [settings, List.foldl_append]
  rfl

variable {s s' : Server} {fd : Int}

theorem readLine_plain {line : Text} (hhead : line.head? ≠ some ' ') (hne : line ≠ [])
    (hpipe : '|' ∉ line) (hbang : '!' ∉ line) : readLine line = some ⟨[line], none, false⟩ := by
  have hsplit : splitPipe line = [line] := strtok_word hne hpipe
  have hchr : strchr line '!' = none := strchr_eq_none hbang
  simp [readLine, hsplit, blank, hhead, hchr, readNumber]

theorem checkUserPipes_plain {line : Text} (hless : '<' ∉ line) (hmore : pipesOut line = false) :
    checkUserPipes s line fd = .ok (s, [], .ok 0) := by
  simp [checkUserPipes, receivePipe, sendPipe, hless, hmore]

theorem pipesOut_plain {line : Text} (hmore : '>' ∉ line) : pipesOut line = false := by
  rw [pipesOut, strchr_eq_none hmore]

theorem readsAs_of_plain {line : Text} {b : Builtin} (hhead : line.head? ≠ some ' ')
    (hne : line ≠ []) (hpipe : '|' ∉ line) (hbang : '!' ∉ line) (hless : '<' ∉ line)
    (hmore : '>' ∉ line) (hbuiltin : builtin [line] = some b) : ReadsAs line b :=
  ⟨readLine_plain hhead hne hpipe hbang, hless, pipesOut_plain hmore, hbuiltin⟩

theorem doExec_readsAs {line : Text} {b : Builtin} {calls : Nat → ParserCall}
    (h : ReadsAs line b) : doExec s line fd calls = runBuiltin s fd line b := by
  obtain ⟨hread, hless, hmore, hbuiltin⟩ := h
  have hcheck : checkUserPipes s line fd = .ok (s, [], .ok 0) := checkUserPipes_plain hless hmore
  simp only [doExec, hread, claimEntry, hcheck, runLine, hbuiltin, List.headD_cons,
    List.nil_append]
  cases runBuiltin s fd line b <;> rfl

theorem splitSpace_setenv {key value : Text} (hkey : Word key) (hvalue : Word value) :
    splitSpace (EnvCommand.setenv key value).line = ["setenv".toList, key, value] := by
  have hname : (EnvCommand.setenv key value).line =
      "setenv".toList ++ ' ' :: (key ++ ' ' :: value) := rfl
  rw [splitSpace, hname, strtok_word_cons (by decide) (by decide),
    strtok_word_cons hkey.nonempty hkey.space, strtok_word hvalue.nonempty hvalue.space]

theorem splitSpace_printenv {key : Text} (hkey : Word key) :
    splitSpace (EnvCommand.printenv key).line = ["printenv".toList, key] := by
  have hname : (EnvCommand.printenv key).line = "printenv".toList ++ ' ' :: key := rfl
  rw [splitSpace, hname, strtok_word_cons (by decide) (by decide),
    strtok_word hkey.nonempty hkey.space]

theorem loadEnv_words {key value : Text} (hkey : Word key) (hvalue : Word value) {i : Nat}
    (hown : s.clientsMap.indexOf fd = some i) :
    loadEnv s fd (key ++ '=' :: value) =
      (s.clientsMap.putEnv i key value).map fun m => { s with clientsMap := m } := by
  rw [loadEnv, strtok_word_cons hkey.nonempty hkey.equals,
    strtok_word hvalue.nonempty hvalue.equals]
  simp only [hown]

/-- The first entry of a slot is all that `do_printenv` looks at: when its key
is one the client has set, its value is the one set last. -/
structure FirstCurrent (es : List EnvEvent) (s : Server) : Prop where
  unused : ∀ i, (s.clientsMap.env i).envNum = 0 → (s.clientsMap.env i).key 0 = []
  used : ∀ i, s.clientsMap.clientsFdSet i ≠ 0 → (s.clientsMap.env i).envNum ≠ 0
  current : ∀ i v, s.clientsMap.clientsFdSet i ≠ 0 →
    (settings (s.clientsMap.clientsFdSet i) es).lookup ((s.clientsMap.env i).key 0) = some v →
    (s.clientsMap.env i).value 0 = v

theorem putEnv_env_of_ne {m m' : ClientMap} {i j : Nat} {key val : Text}
    (h : m.putEnv i key val = .ok m') (hj : j ≠ i) : m'.env j = m.env j := by
  obtain ⟨env, rfl⟩ := ClientMap.putEnv_eq h
  exact ClientMap.setEnv_env_of_ne m hj env

theorem FirstSet.lookup {before after : EnvMap} {key val v : Text} {rest : List (Text × Text)}
    (h : FirstSet before after key val)
    (hbefore : ∀ v, rest.lookup (before.key 0) = some v → before.value 0 = v)
    (hlookup : ((key, val) :: rest).lookup (after.key 0) = some v) : after.value 0 = v := by
  by_cases hkey : after.key 0 = key
  · rw [hkey, List.lookup_cons_self, Option.some.injEq] at hlookup
    exact (h.same hkey).trans hlookup
  · obtain ⟨hsameKey, hsameValue⟩ := h.other hkey
    have hne : (after.key 0 == key) = false := by simpa using hkey
    rw [List.lookup_cons, hne, hsameKey] at hlookup
    exact hsameValue.trans (hbefore v hlookup)

theorem login_firstSet {ssock : Int} {fsin : SockaddrIn} {effects : List Effect}
    (hwell : s.table.Wellformed 0) (hssock : ssock ≠ 0) (hnew : ssock ∉ s.allset)
    (hunused : ∀ i, (s.clientsMap.env i).envNum = 0 → (s.clientsMap.env i).key 0 = [])
    (h : login s ssock fsin = .ok (s', effects)) :
    ∃ i, s'.table = s.table.take i ssock ∧
      (∀ j, j ≠ i → s'.clientsMap.env j = s.clientsMap.env j) ∧
      FirstSet (s.clientsMap.env i) (s'.clientsMap.env i) "PATH".toList "bin:.".toList := by
  obtain ⟨i, k, m, hlow, hown, hput, rfl⟩ := login_loaded hwell h
  have htaken := hwell.take hlow hssock hnew
  have hk : (s.table.take i ssock).slot k = ssock := (ClientMap.indexOf_eq_some hown).2.1
  have hi : (s.table.take i ssock).slot i = ssock := Function.update_self _ _ _
  obtain rfl : k = i := htaken.distinct k i (by rwa [hk]) (hk.trans hi.symm)
  have hpath : "PATH".toList ≠ [] := by decide
  refine ⟨k, ?_, ?_, ?_⟩
  · obtain ⟨env, rfl⟩ := ClientMap.putEnv_eq hput
    rfl
  · intro j hj
    have hsame := putEnv_env_of_ne hput hj
    exact hsame
  · have hfirst := ClientMap.putEnv_first hpath (by exact hunused k) hput
    exact hfirst

theorem FirstCurrent.login {es : List EnvEvent} {ssock : Int} {fsin : SockaddrIn}
    {effects : List Effect} (hinv : FirstCurrent es s) (hwell : s.table.Wellformed 0)
    (hssock : ssock ≠ 0) (hnew : ssock ∉ s.allset)
    (h : login s ssock fsin = .ok (s', effects)) :
    FirstCurrent (es ++ [.login ssock fsin]) s' := by
  obtain ⟨i, htable, hothers, hfirst⟩ := login_firstSet hwell hssock hnew hinv.unused h
  have hslot : s'.clientsMap.clientsFdSet = Function.update s.clientsMap.clientsFdSet i ssock :=
    congrArg Table.slot htable
  have hkeep : ∀ j, j ≠ i → s'.clientsMap.clientsFdSet j = s.clientsMap.clientsFdSet j := by
    intro j hj
    rw [hslot]
    exact Function.update_of_ne hj _ _
  constructor
  · intro j hcount
    by_cases hj : j = i
    · rw [hj] at hcount
      exact absurd hcount hfirst.used
    · rw [hothers j hj] at hcount ⊢
      exact hinv.unused j hcount
  · intro j hused
    by_cases hj : j = i
    · rw [hj]
      exact hfirst.used
    · rw [hkeep j hj] at hused
      rw [hothers j hj]
      exact hinv.used j hused
  · intro j v hused hlookup
    rw [settings_concat] at hlookup
    by_cases hj : j = i
    · have hself : s'.clientsMap.clientsFdSet i = ssock := by rw [hslot, Function.update_self]
      rw [hj, hself, record, if_pos rfl] at hlookup
      rw [hj]
      exact hfirst.lookup (by simp) hlookup
    · rw [hkeep j hj] at hused hlookup
      have hne : ssock ≠ s.clientsMap.clientsFdSet j := by
        intro heq
        exact hnew ((hwell.mem_used ssock).mpr ⟨hssock, j, heq.symm⟩)
      rw [record, if_neg hne, hothers j hj] at hlookup
      rw [hothers j hj]
      exact hinv.current j v hused hlookup

theorem FirstCurrent.setenv {es : List EnvEvent} {m : ClientMap} {i : Nat} {key val : Text}
    {calls : Nat → ParserCall} (hinv : FirstCurrent es s) (hwell : s.table.Wellformed 0)
    (hi : s.clientsMap.clientsFdSet i = fd) (hfd : fd ≠ 0) (hkey : key ≠ [])
    (hput : s.clientsMap.putEnv i key val = .ok m) :
    FirstCurrent (es ++ [.sends fd (.setenv key val) calls]) { s with clientsMap := m } := by
  have hfirst := ClientMap.putEnv_first hkey (hinv.unused i) hput
  have hslot : m.clientsFdSet = s.clientsMap.clientsFdSet := by
    obtain ⟨env, rfl⟩ := ClientMap.putEnv_eq hput
    rfl
  constructor
  · intro j hcount
    by_cases hj : j = i
    · rw [hj] at hcount
      exact absurd hcount hfirst.used
    · rw [putEnv_env_of_ne hput hj] at hcount ⊢
      exact hinv.unused j hcount
  · intro j hused
    by_cases hj : j = i
    · rw [hj]
      exact hfirst.used
    · rw [hslot] at hused
      rw [putEnv_env_of_ne hput hj]
      exact hinv.used j hused
  · intro j v hused hlookup
    rw [hslot] at hused
    rw [hslot, settings_concat] at hlookup
    by_cases hj : j = i
    · rw [hj, hi, record, if_pos rfl] at hlookup
      rw [hj]
      apply hfirst.lookup _ hlookup
      intro v' hv'
      rw [← hi] at hv'
      exact hinv.current i v' (by rwa [hi]) hv'
    · have hne : fd ≠ s.clientsMap.clientsFdSet j := by
        intro heq
        exact hj (hwell.distinct j i hused (heq.symm.trans hi.symm))
      rw [record, if_neg hne, putEnv_env_of_ne hput hj] at hlookup
      rw [putEnv_env_of_ne hput hj]
      exact hinv.current j v hused hlookup

theorem FirstCurrent.quiet {es : List EnvEvent} {e : EnvEvent} (hinv : FirstCurrent es s)
    (henv : s'.clientsMap.env = s.clientsMap.env)
    (hslot : ∀ j, s'.clientsMap.clientsFdSet j ≠ 0 →
      s'.clientsMap.clientsFdSet j = s.clientsMap.clientsFdSet j)
    (hrecord : ∀ fd, record fd (settings fd es) e = settings fd es) :
    FirstCurrent (es ++ [e]) s' := by
  constructor
  · intro j
    rw [henv]
    exact hinv.unused j
  · intro j hused
    have hsame := hslot j hused
    rw [hsame] at hused
    rw [henv]
    exact hinv.used j hused
  · intro j v hused hlookup
    have hsame := hslot j hused
    rw [settings_concat, hrecord, hsame, henv] at hlookup
    rw [hsame] at hused
    rw [henv]
    exact hinv.current j v hused hlookup

theorem lineOf_line {line : Text} (h : '\x00' ∉ line) : lineOf (line ++ ['\n']) = line := by
  have hall : '\x00' ∉ line ++ ['\n'] := by
    simp only [List.mem_append, List.mem_singleton, not_or]
    exact ⟨h, by decide⟩
  rw [lineOf, takeWhile_without_delim hall, List.dropLast_concat]

theorem EnvCommand.no_terminator {cmd : EnvCommand} (h : cmd.Words) : '\x00' ∉ cmd.line := by
  have hnames : '\x00' ∉ "setenv ".toList ∧ '\x00' ∉ "printenv ".toList ∧
      '\x00' ∉ "exit".toList := by decide
  cases cmd with
  | setenv key value =>
    have hparts : '\x00' ∉ "setenv ".toList ++ (key ++ ' ' :: value) := by
      simp only [List.mem_append, List.mem_cons, not_or]
      exact ⟨hnames.1, h.1.terminator, by decide, h.2.terminator⟩
    exact hparts
  | printenv key =>
    have hparts : '\x00' ∉ "printenv ".toList ++ key := by
      simp only [List.mem_append, not_or]
      exact ⟨hnames.2.1, h.terminator⟩
    exact hparts
  | exit => exact hnames.2.2

theorem FirstCurrent.sends {es : List EnvEvent} {cmd : EnvCommand} {calls : Nat → ParserCall}
    {effects : List Effect} (hinv : FirstCurrent es s) (hwell : s.table.Wellformed 0)
    (hfd : fd ∈ s.allset) (hwords : cmd.Words) (hreads : ReadsAs cmd.line cmd.builtin)
    (h : step s (.line fd (cmd.line ++ ['\n']) calls) = .ok (s', effects)) :
    FirstCurrent (es ++ [.sends fd cmd calls]) s' := by
  obtain ⟨hzero, i, hi⟩ := (hwell.mem_used fd).mp hfd
  obtain ⟨o, hexec, hend⟩ := step_line_cases h
  rw [lineOf_line (EnvCommand.no_terminator hwords), doExec_readsAs hreads] at hexec
  cases cmd with
  | setenv key value =>
    obtain ⟨hkey, hvalue⟩ := hwords
    simp only [EnvCommand.builtin, runBuiltin, splitSpace_setenv hkey hvalue] at hexec
    rw [loadEnv_words hkey hvalue (indexOf_slot hwell hi hzero)] at hexec
    cases hput : s.clientsMap.putEnv i key value with
    | error fault => simp [hput, Except.map] at hexec
    | ok m =>
      simp only [hput, Except.map, Except.ok.injEq] at hexec
      subst hexec
      rcases hend with ⟨hone, -⟩ | ⟨-, rfl⟩
      · simp at hone
      · exact hinv.setenv hwell hi hzero hkey.nonempty hput
  | printenv key =>
    simp only [EnvCommand.builtin, runBuiltin, splitSpace_printenv hwords] at hexec
    simp only [List.getElem?_cons_succ, List.getElem?_cons_zero, doPrintenv,
      indexOf_slot hwell hi hzero, Except.map, Except.ok.injEq] at hexec
    subst hexec
    rcases hend with ⟨hone, -⟩ | ⟨-, rfl⟩
    · simp at hone
    · exact hinv.quiet rfl (fun _ _ => rfl) (fun _ => rfl)
  | exit =>
    simp only [EnvCommand.builtin, runBuiltin, Except.ok.injEq] at hexec
    subst hexec
    rcases hend with ⟨-, more, hout⟩ | ⟨hother, -⟩
    · obtain ⟨k, -, htable, -⟩ := logout_releases hwell hfd hout
      have hslot : s'.clientsMap.clientsFdSet = Function.update s.clientsMap.clientsFdSet k 0 :=
        congrArg Table.slot htable
      apply hinv.quiet (logout_frame hout).env
      · intro j hused
        rw [hslot] at hused ⊢
        have hj : j ≠ k := by
          rintro rfl
          rw [Function.update_self] at hused
          exact hused rfl
        exact Function.update_of_ne hj _ _
      · intro fd'
        rfl
    · exact absurd rfl hother

theorem wellformed_env {limit : Nat} {es : List EnvEvent}
    (hrun : exec (nextEnv limit) Server.initial es = some s) : s.table.Wellformed 0 := by
  apply wellformed_run (es.map EnvEvent.event) s
  rw [← exec_map]
  exact hrun

theorem firstCurrent_run {limit : Nat} (es : List EnvEvent) (s : Server)
    (hreads : ∀ e ∈ es, e.ReadsAsWritten)
    (hrun : exec (nextEnv limit) Server.initial es = some s) : FirstCurrent es s := by
  induction es using List.reverseRecOn generalizing s with
  | nil =>
    cases hrun
    constructor
    · intro i _
      rfl
    · intro i hi
      exact absurd rfl hi
    · intro i v hi
      exact absurd rfl hi
  | append_singleton es e ih =>
    obtain ⟨t, ht, hnext⟩ := exec_concat_eq_some hrun
    have hcurrent := ih t (fun e' he' => hreads e' (List.mem_append_left _ he')) ht
    have hwell := wellformed_env ht
    obtain ⟨hadm, effects, hstep⟩ := next_eq_some hnext
    have he := hreads e (List.mem_append_right _ (List.mem_singleton_self e))
    cases e with
    | login ssock fsin =>
      exact hcurrent.login hwell hadm.1 hadm.2.1 hstep
    | sends fd cmd calls => exact hcurrent.sends hwell hadm he.1 he.2 hstep

/-- The value a client should see: the newest of its own settings. -/
def expected (es : List EnvEvent) (fd : Int) (key : Text) : Option Text :=
  (settings fd es).lookup key

/-- `printenv` answers with the client's own last setting exactly when the first
entry of its slot is for that key just in case the client has set it. -/
theorem printenv_expected_iff (limit : Nat) (es : List EnvEvent) (s : Server)
    (hrun : exec (nextEnv limit) Server.initial es = some s)
    (hreads : ∀ e ∈ es, e.ReadsAsWritten) (fd : Int) (i : Nat) (hfd : fd ∈ s.allset)
    (hi : s.clientsMap.clientsFdSet i = fd) (key : Text) :
    doPrintenv s fd key = .ok (expected es fd key) ↔
      ((s.clientsMap.env i).key 0 = key ↔ ∃ value, (key, value) ∈ settings fd es) := by
  have hcurrent := firstCurrent_run es s hreads hrun
  have hwell := wellformed_env hrun
  have hzero : fd ≠ 0 := ((hwell.mem_used fd).mp hfd).1
  have hcount : (s.clientsMap.env i).envNum ≠ 0 := hcurrent.used i (by rwa [hi])
  have hset : (∃ value, (key, value) ∈ settings fd es) ↔ expected es fd key ≠ none := by
    rw [expected, ne_eq, List.lookup_eq_none_iff]
    simp only [not_forall, bne_iff_ne, ne_eq, not_not]
    constructor
    · intro ⟨value, hmem⟩
      exact ⟨(key, value), hmem, rfl⟩
    · intro ⟨(key', value), hmem, heq⟩
      simp only at heq
      rw [heq]
      exact ⟨value, hmem⟩
  rw [hset, doPrintenv, indexOf_slot hwell hi hzero]
  simp only [Except.ok.injEq, EnvMap.first, hcount, ne_eq, not_false_eq_true, true_and]
  constructor
  · intro heq
    rw [← heq]
    by_cases hkey : (s.clientsMap.env i).key 0 = key
    · simp [hkey]
    · simp [hkey]
  · intro hiff
    by_cases hkey : (s.clientsMap.env i).key 0 = key
    · cases hexpected : expected es fd key with
      | none => exact absurd hexpected (hiff.mp hkey)
      | some value =>
        rw [if_pos hkey]
        congr 1
        apply hcurrent.current i value (by rwa [hi])
        rw [hi, hkey]
        exact hexpected
    · rw [if_neg hkey]
      by_contra hne
      exact hkey (hiff.mpr (Ne.symm hne))

def oneSetting : List EnvEvent :=
  [.login 4 ⟨[127, 0, 0, 1], 4000⟩, .sends 4 (.setenv "A".toList "b".toList) fun _ => ⟨(6, 7), 0⟩]

theorem oneSetting_reads : ∀ e ∈ oneSetting, e.ReadsAsWritten := by
  intro e he
  simp only [oneSetting, List.mem_cons, List.not_mem_nil, or_false] at he
  rcases he with rfl | rfl
  · trivial
  · refine ⟨⟨by decide, by decide⟩, ?_⟩
    apply readsAs_of_plain <;> decide

theorem oneSetting_runs : (exec (nextEnv 30) Server.initial oneSetting).isSome = true := by decide

theorem printenv_expected_iff_oneSetting :
    ∃ s, exec (nextEnv 30) Server.initial oneSetting = some s ∧
      (doPrintenv s 4 "A".toList = .ok (expected oneSetting 4 "A".toList) ↔
        ((s.clientsMap.env 0).key 0 = "A".toList ↔
          ∃ value, ("A".toList, value) ∈ settings 4 oneSetting)) := by
  have hrun := Option.eq_some_of_isSome oneSetting_runs
  exact ⟨_, hrun, printenv_expected_iff 30 oneSetting _ hrun oneSetting_reads 4 0 (by decide)
    (by decide) "A".toList⟩

/-- After `setenv A b` the client's PATH is no longer found. -/
theorem setenv_hides_path :
    ∃ s, exec (nextEnv 30) Server.initial oneSetting = some s ∧ (4 : Int) ∈ s.allset ∧
      (∀ e ∈ oneSetting, e.ReadsAsWritten) ∧
      expected oneSetting 4 "PATH".toList = some "bin:.".toList ∧
      doPrintenv s 4 "PATH".toList = .ok none :=
  ⟨_, Option.eq_some_of_isSome oneSetting_runs, by decide, oneSetting_reads, by decide, rfl⟩

end NetworkProgramming.Single
