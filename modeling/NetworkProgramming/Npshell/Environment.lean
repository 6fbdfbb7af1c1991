import NetworkProgramming.Library.Environ
import NetworkProgramming.Npshell.Dropped

/-! The environment of `npshell` over its rounds: `setenv`, `printenv`, and where
`callExecs` looks for a program. -/
namespace NetworkProgramming.Npshell
open Library.CString Library.Environ Library.Run Library.Words

def pathName : Text := "PATH".toList

def inDirectory (file dir : Text) : Text := if dir = [] then file else dir ++ '/' :: file

/-- What `execvp` tries, in its order, until one of them can be executed. -/
def execvp (environ : List Text) (file : Text) : List Text :=
  if file = [] then []
  else (((getenv '=' environ pathName).getD "/bin:/usr/bin".toList).splitOn ':').map
    (inDirectory file)

/-- What a round shows of the environment: a value that `printenv` prints, or nothing
where there is none, and the paths that its child tries. -/
inductive Report where
  | value (value : Option Text)
  | tries (paths : List Text)
  | silent
  deriving DecidableEq, Repr

/-- A child has the environment of the shell. -/
def report (environ : List Text) : Outcome → Report
  | .printenv arg => .value (getenv '=' environ arg)
  | .ran child => .tries (execvp environ (child.argv.headD []))
  | _ => .silent

def settle (environ : List Text) : Outcome → List Text
  | .setenv var value => Library.Environ.setenv '=' environ var value
  | _ => environ

/-- The shell with its environment, and what its rounds have shown so far. -/
structure Station where
  session : Session
  environ : List Text
  log : List (Text × Report)

/-- The first call of `main`. -/
def Station.initial (environ : List Text) : Station :=
  ⟨Session.initial, Library.Environ.setenv '=' environ pathName "bin:.".toList, []⟩

def Station.next (st : Station) (e : Event) : Option Station :=
  (Npshell.next st.session e).map fun session =>
    match e with
    | .line _ => { st with session }
    | .round calls =>
      match executeCMD st.session.shell st.session.input calls with
      | none => { st with session }
      | some (_, o) =>
        { session
          environ := settle st.environ o
          log := st.log ++ [(st.session.input, report st.environ o)] }

/-- A line is one command: behind the characters of a command there is no symbol. -/
def Alone (text : Text) : Prop :=
  text.takeWhile isWordChar ≠ [] ∧ ∀ c ∈ (text.dropWhile isWordChar).head?, isSymbol c = false

theorem alone_iff {text : Text} : (!(text.takeWhile isWordChar).isEmpty &&
    (text.dropWhile isWordChar).head?.all fun c => !isSymbol c) = true ↔ Alone text := by
  cases hhead : (text.dropWhile isWordChar).head? <;> simp [Alone, hhead]

instance (text : Text) : Decidable (Alone text) :=
  decidable_of_iff ((!(text.takeWhile isWordChar).isEmpty &&
    (text.dropWhile isWordChar).head?.all fun c => !isSymbol c) = true) alone_iff

def firstWord (text : Text) : Text := (strtok ' ' (text.takeWhile isWordChar)).headD []

/-- The name and the value in a line `setenv name value`. -/
def setting (text : Text) : Option (Text × Text) :=
  let words := strtok ' ' (text.takeWhile isWordChar)
  if Alone text ∧ firstWord text = "setenv".toList then
    some (words[1]?.getD [], words[2]?.getD [])
  else none

/-- All that is behind the word of a line `printenv name`. -/
def queried (text : Text) : Option Text :=
  if Alone text ∧ firstWord text = "printenv".toList then
    let body := (text.takeWhile isWordChar).dropWhile (· == ' ')
    some ((body.drop (firstWord text).length).dropWhile (· == ' '))
  else none

def current (environ : List Text) (settings : List (Text × Text)) (name : Text) : Option Text :=
  if name = [] then none
  else (latest settings name).or
    (if name = pathName then some "bin:.".toList else getenv '=' environ name)

def searchPath (settings : List (Text × Text)) : Text :=
  (latest settings pathName).getD "bin:.".toList

def settings (log : List (Text × Report)) : List (Text × Text) :=
  log.filterMap fun round => setting round.1

/-- What a round shows is what the lines before it have set. -/
structure Shows (environ : List Text) (before : List (Text × Report)) (text : Text) (r : Report) :
    Prop where
  value : ∀ name, queried text = some name → r = .value (current environ (settings before) name)
  tries : ∀ paths, r = .tries paths → paths =
    if firstWord text = [] then []
    else ((searchPath (settings before)).splitOn ':').map (inDirectory (firstWord text))

/-- The environment is the one that the lines so far have made, and each round has shown the
one of its time. -/
structure Settled (environ : List Text) (st : Station) : Prop where
  kept : st.environ = setAll '=' (Station.initial environ).environ (settings st.log)
  shown : ∀ i text r, st.log[i]? = some (text, r) → Shows environ (st.log.take i) text r

variable {text command arg : Text} {environ : List Text} {s s' : Shell} {calls : Calls}
  {o : Outcome} {st st' : Station} {es : List Event} {e : Event}

section Words

theorem not_alone {symbols rest : Text} (hcommand : Longest isWordChar command (symbols ++ rest))
    (hne : symbols ≠ []) (hsymbols : ∀ c ∈ symbols, isSymbol c = true) :
    ¬ Alone (command ++ (symbols ++ rest)) := by
  rintro ⟨-, hnone⟩
  rw [hcommand.dropWhile] at hnone
  obtain ⟨c, tail, rfl⟩ := List.exists_cons_of_ne_nil hne
  have hsymbol := hsymbols c List.mem_cons_self
  rw [hnone c rfl] at hsymbol
  contradiction

theorem readCommand_alone : (readCommand text).n = 1 ↔ Alone text := by
  have hscanned := readCommand_scanned text
  generalize readCommand text = r at hscanned
  cases hscanned with
  | nothing => exact iff_of_false (by decide) fun h => h.1 rfl
  | unread c rest hc =>
    refine iff_of_false (by decide) fun h => h.1 ?_
    rw [List.takeWhile_cons_of_neg (by simp [hc])]
  | alone command rest hcommand hrest =>
    refine iff_of_true rfl ⟨?_, ?_⟩
    · rw [hcommand.takeWhile]
      exact hcommand.ne_nil
    · rw [hcommand.dropWhile]
      exact hrest
  | bare command symbols rest hcommand hsymbols =>
    exact iff_of_false (by simp) (not_alone hcommand hsymbols.ne_nil hsymbols.chars)
  | number command symbols rest n hcommand hsymbols =>
    refine iff_of_false (by simp) (not_alone hcommand hsymbols.ne_nil fun c hc => ?_)
    rw [isSymbol, hsymbols.chars c hc, Bool.true_or]
  | ordinary command symbols rest body more hcommand hsymbols =>
    exact iff_of_false (by simp) (not_alone hcommand hsymbols.ne_nil hsymbols.chars)

theorem front_chars (text : Text) : ∀ c ∈ text.takeWhile isWordChar, isWordChar c = true :=
  fun _ hc => List.mem_takeWhile_imp hc

theorem headD_strtok (hchars : ∀ c ∈ command, isWordChar c = true) :
    (strtok ' ' command).headD [] = (scanWord command).1 := by
  by_cases hword : (scanWord command).1 = []
  · rw [strtok_eq_nil hchars hword, hword]
    rfl
  · rw [strtok_eq_cons hchars hword]
    rfl

theorem firstWord_eq (text : Text) :
    firstWord text = (scanOperation (text.takeWhile isWordChar)).1 := by
  rw [firstWord, headD_strtok (front_chars text), (scanOperation_split (front_chars text)).1]

theorem strtok_argument (hchars : ∀ c ∈ command, isWordChar c = true)
    (hop : (scanOperation command).1 ≠ []) :
    strtok ' ' command = (scanOperation command).1 :: strtok ' ' (scanOperation command).2 := by
  rw [← argv_eq_strtok hchars hop, argv]

theorem argument_chars (hchars : ∀ c ∈ command, isWordChar c = true) :
    ∀ c ∈ (scanOperation command).2, isWordChar c = true := by
  intro c hc
  rw [(scanOperation_split hchars).2] at hc
  exact hchars c (scanWord_mem (.inr ((List.dropWhile_sublist _).mem hc)))

theorem scanSetting_eq (hchars : ∀ c ∈ arg, isWordChar c = true) : scanSetting arg =
    ((strtok ' ' arg)[0]?.getD [], (strtok ' ' arg)[1]?.getD []) := by
  have hrest : ∀ c ∈ (scanWord arg).2, isWordChar c = true :=
    fun c hc => hchars c (scanWord_mem (.inr hc))
  have hsecond := headD_strtok hrest
  rw [List.headD_eq_head?_getD, List.head?_eq_getElem?] at hsecond
  unfold scanSetting
  dsimp only
  by_cases hvar : (scanWord arg).1 = []
  · rw [strtok_eq_nil hchars hvar, hvar, (scanWord_split arg).2.2.2 hvar]
    rfl
  · rw [strtok_eq_cons hchars hvar, ← hsecond]
    rfl

theorem setting_eq (text : Text) : setting text =
    if Alone text ∧ (scanOperation (text.takeWhile isWordChar)).1 = "setenv".toList then
      some (scanSetting (scanOperation (text.takeWhile isWordChar)).2)
    else none := by
  unfold setting
  dsimp only
  rw [firstWord_eq]
  split
  next h =>
    have hchars := front_chars text
    have hop : (scanOperation (text.takeWhile isWordChar)).1 ≠ [] := by
      rw [h.2]
      decide
    rw [scanSetting_eq (argument_chars hchars), strtok_argument hchars hop]
    rfl
  next => rfl

theorem queried_eq (text : Text) : queried text =
    if Alone text ∧ (scanOperation (text.takeWhile isWordChar)).1 = "printenv".toList then
      some (scanOperation (text.takeWhile isWordChar)).2
    else none := by
  unfold queried
  dsimp only
  rw [firstWord_eq]
  split
  next =>
    have hchars := front_chars text
    have hrest : ∀ c ∈ (scanWord (text.takeWhile isWordChar)).2, isWordChar c = true :=
      fun c hc => hchars c (scanWord_mem (.inr hc))
    rw [(scanOperation_split hchars).1, (scanOperation_split hchars).2, ← dropWhile_isspace hchars,
      (scanWord_split _).1, List.drop_left, dropWhile_isspace hrest]
  next => rfl

end Words

section Rounds

theorem executeCMD_alone (halone : Alone text) (h : executeCMD s text calls = some (s', o)) :
    (IsBuiltin (scanOperation (text.takeWhile isWordChar)).1 ∧
      o = builtinOutcome (text.takeWhile isWordChar)) ∨
    (¬ IsBuiltin (scanOperation (text.takeWhile isWordChar)).1 ∧
      ∃ c, o = .ran c ∧ c.argv = argv (text.takeWhile isWordChar)) := by
  have hone := readCommand_alone.mpr halone
  have hinstruction : (stored s text).instruction = text.takeWhile isWordChar :=
    stored_instruction (.inl hone)
  cases executeCMD_turn h with
  | builtin o hn hop ho herror hnotice =>
    rw [hinstruction] at hop hnotice
    exact .inl ⟨hop, hnotice⟩
  | last c hn hop hc =>
    rw [hinstruction] at hop hc
    exact .inr ⟨hop, c, rfl, hc⟩
  | nothing hn => omega
  | misread hn => omega
  | numbered s' pipe c o hn => omega
  | ordinary s' pipe c hn => omega
  | redirected c o hn => omega
  | refused hn => omega

theorem executeCMD_joined (hjoined : ¬ Alone text) (h : executeCMD s text calls = some (s', o)) :
    (∃ c, o = .ran c ∧ c.argv = argv (text.takeWhile isWordChar)) ∨
      o = .nothing ∨ o = .error ∨ o = .unforked ∨ o = .returned := by
  have hone : (readCommand text).n ≠ 1 := mt readCommand_alone.mp hjoined
  have hinstruction (hn : (readCommand text).n = 3) :
      (stored s text).instruction = text.takeWhile isWordChar := stored_instruction (.inr hn)
  cases executeCMD_turn h with
  | builtin o hn => exact absurd hn hone
  | last c hn => exact absurd hn hone
  | nothing => simp
  | misread => simp
  | refused => simp
  | ordinary s' pipe c hn hnumber hsymbol hpipe hc => exact .inl ⟨c, rfl, hinstruction hn ▸ hc⟩
  | numbered s' pipe c o hn hnumber hpipe hc ho =>
    rw [ho]
    split
    next => exact .inl ⟨c, rfl, hinstruction hn ▸ hc⟩
    next => simp
  | redirected c o hn hnumber hsymbol hc hfile ho =>
    rw [ho]
    split
    next => exact .inl ⟨c, rfl, hinstruction hn ▸ hc⟩
    next => simp

theorem executeCMD_builtin (hbuiltin : Alone text ∧
    IsBuiltin (scanOperation (text.takeWhile isWordChar)).1)
    (h : executeCMD s text calls = some (s', o)) :
    o = builtinOutcome (text.takeWhile isWordChar) := by
  obtain ⟨halone, hop⟩ := hbuiltin
  obtain ⟨-, ho⟩ | ⟨hnot, -⟩ := executeCMD_alone halone h
  · exact ho
  · exact absurd hop hnot

theorem executeCMD_program (hprogram : ¬ (Alone text ∧
    IsBuiltin (scanOperation (text.takeWhile isWordChar)).1))
    (h : executeCMD s text calls = some (s', o)) :
    (∃ c, o = .ran c ∧ c.argv = argv (text.takeWhile isWordChar)) ∨
      o = .nothing ∨ o = .error ∨ o = .unforked ∨ o = .returned := by
  by_cases halone : Alone text
  · obtain ⟨hop, -⟩ | ⟨-, hran⟩ := executeCMD_alone halone h
    · exact absurd ⟨halone, hop⟩ hprogram
    · exact .inl hran
  · exact executeCMD_joined halone h

theorem setenv_iff (h : executeCMD s text calls = some (s', o)) (name value : Text) :
    o = .setenv name value ↔ setting text = some (name, value) := by
  rw [setting_eq]
  by_cases hbuiltin : Alone text ∧ IsBuiltin (scanOperation (text.takeWhile isWordChar)).1
  · rw [executeCMD_builtin hbuiltin h, builtinOutcome]
    simp only [hbuiltin.1, true_and]
    split_ifs with hsetenv hprintenv
    · simp [Prod.ext_iff]
    · simp
    · simp
  · rw [if_neg fun hboth => hbuiltin ⟨hboth.1, .inl hboth.2⟩]
    obtain ⟨c, rfl, -⟩ | rfl | rfl | rfl | rfl := executeCMD_program hbuiltin h
    all_goals simp

theorem printenv_iff (h : executeCMD s text calls = some (s', o)) (name : Text) :
    o = .printenv name ↔ queried text = some name := by
  rw [queried_eq]
  by_cases hbuiltin : Alone text ∧ IsBuiltin (scanOperation (text.takeWhile isWordChar)).1
  · rw [executeCMD_builtin hbuiltin h, builtinOutcome]
    simp only [hbuiltin.1, true_and]
    split_ifs with hsetenv hprintenv hprintenv
    · exact absurd (hsetenv.symm.trans hprintenv) (by decide)
    · simp
    · simp
    · simp
  · rw [if_neg fun hboth => hbuiltin ⟨hboth.1, .inr (.inl hboth.2)⟩]
    obtain ⟨c, rfl, -⟩ | rfl | rfl | rfl | rfl := executeCMD_program hbuiltin h
    all_goals simp

theorem ran_firstWord (h : executeCMD s text calls = some (s', o)) {c : Child} (ho : o = .ran c) :
    c.argv.headD [] = firstWord text := by
  have hargv : c.argv = argv (text.takeWhile isWordChar) := by
    by_cases hbuiltin : Alone text ∧ IsBuiltin (scanOperation (text.takeWhile isWordChar)).1
    · have hnone : (builtinOutcome (text.takeWhile isWordChar)).child = none := by
        unfold builtinOutcome
        dsimp only
        split_ifs <;> rfl
      rw [← executeCMD_builtin hbuiltin h, ho] at hnone
      contradiction
    · obtain ⟨d, hd, hargv⟩ | hother := executeCMD_program hbuiltin h
      · rw [hd, Outcome.ran.injEq] at ho
        rw [← ho, hargv]
      · rw [ho] at hother
        simp at hother
  rw [firstWord_eq, hargv]
  rfl

end Rounds

section Run

theorem equals_not_mem {name : Text} (h : queried text = some name) : '=' ∉ name := by
  rw [queried_eq] at h
  split at h
  next =>
    rw [← Option.some.inj h]
    intro hmem
    exact absurd (argument_chars (front_chars text) _ hmem) (by decide)
  next => contradiction

theorem Settled.lookup (h : Settled environ st) {name : Text} (hname : '=' ∉ name) :
    getenv '=' st.environ name = current environ (settings st.log) name := by
  unfold current
  by_cases hnil : name = []
  · rw [if_pos hnil, hnil]
    rfl
  · rw [if_neg hnil, h.kept, getenv_setAll hname hnil, Station.initial, getenv_setenv hname]
    congr 1
    by_cases hpath : name = pathName
    · rw [hpath, if_pos ⟨rfl, by decide⟩, if_pos rfl]
    · rw [if_neg hpath, if_neg]
      exact fun hboth => hpath hboth.1.symm

theorem Settled.tried (h : Settled environ st) (file : Text) : execvp st.environ file =
    if file = [] then []
    else ((searchPath (settings st.log)).splitOn ':').map (inDirectory file) := by
  have hpath : getenv '=' st.environ pathName = some (searchPath (settings st.log)) := by
    rw [h.lookup (by decide), current, if_neg (by decide), if_pos rfl, searchPath]
    cases latest (settings st.log) pathName <;> rfl
  rw [Npshell.execvp, hpath, Option.getD_some]

theorem settle_eq (h : executeCMD s text calls = some (s', o)) (environ : List Text) :
    settle environ o = setAll '=' environ (setting text).toList := by
  cases hsetting : setting text with
  | none =>
    have hother : ∀ name value, o ≠ .setenv name value := by
      intro name value ho
      rw [(setenv_iff h name value).mp ho] at hsetting
      contradiction
    cases o with
    | setenv name value => exact absurd rfl (hother name value)
    | _ => rfl
  | some pair =>
    rw [(setenv_iff h pair.1 pair.2).mpr hsetting]
    rfl

theorem Settled.shows (h : Settled environ st)
    (hround : executeCMD s text calls = some (s', o)) :
    Shows environ st.log text (report st.environ o) := by
  constructor
  · intro name hname
    rw [(printenv_iff hround name).mpr hname, report, h.lookup (equals_not_mem hname)]
  · intro paths hpaths
    cases o with
    | ran c =>
      rw [report, Report.tries.injEq, ran_firstWord hround rfl, h.tried] at hpaths
      exact hpaths.symm
    | _ => simp [report] at hpaths

theorem settings_concat (log : List (Text × Report)) (round : Text × Report) :
    settings (log ++ [round]) = settings log ++ (setting round.1).toList := by
  rw [settings, List.filterMap_append, ← settings]
  cases hsetting : setting round.1 <;> simp [hsetting]

theorem Settled.round (h : Settled environ st) (hround : executeCMD s text calls = some (s', o))
    (session : Session) : Settled environ
      ⟨session, settle st.environ o, st.log ++ [(text, report st.environ o)]⟩ := by
  constructor
  · dsimp only
    rw [settle_eq hround, settings_concat, setAll_append, ← h.kept]
  · intro i text' r hr
    obtain ⟨hi, hold⟩ | ⟨rfl, heq⟩ := getElem?_concat_eq_some hr
    · rw [List.take_append_of_le_length (Nat.le_of_lt hi)]
      exact h.shown i text' r hold
    · rw [Prod.mk.injEq] at heq
      obtain ⟨rfl, rfl⟩ := heq
      rw [List.take_left]
      exact h.shows hround

theorem Settled.next (h : Settled environ st) (hstep : st.next e = some st') :
    Settled environ st' := by
  obtain ⟨session, hsession, rfl⟩ := Option.map_eq_some_iff.mp hstep
  cases e with
  | line text => exact ⟨h.kept, h.shown⟩
  | round calls =>
    obtain ⟨s', o, hround, -, -⟩ := next_round hsession
    dsimp only
    rw [hround]
    exact h.round hround session

end Run

end NetworkProgramming.Npshell
