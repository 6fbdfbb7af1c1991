import NetworkProgramming.Library.Words
import NetworkProgramming.Multi.Steps

/-! A `nickname` line of `np_multi_proc`, run to its end: whose name becomes what, and
who is told. The entries of `operand` are taken as they read while the line runs,
whichever command has set them. -/
namespace NetworkProgramming.Multi
open Library.CString Library.Mailbox Library.Words Library.Run CommandLine

def nicknameLine (name : Text) : Text := "nickname".toList ++ ' ' :: name

/-- The built-ins that `do_exec` looks for beside `nickname`. -/
def otherBuiltins : List Text :=
  ["printenv".toList, "setenv".toList, "exit".toList, "who".toList, "yell".toList, "tell".toList]

/-- One word: none of the signs that divide a line or stand before the number of a user,
and no name of another built-in. -/
structure NameWord (name : Text) : Prop where
  ne_nil : name ≠ []
  length_le : name.length ≤ 20
  plain : ∀ c ∈ name, c ∉ [' ', '|', '!', '<', '>']
  other : ∀ needle ∈ otherBuiltins, ¬ needle <:+: name

/-- The main flow of process `i` goes on to its end; no other process comes in between. -/
inductive Finishes (i : Nat) : System → System → List Effect → Prop
  | done (s : System) (htodo : (s.process i).todo = []) : Finishes i s s []
  | act (s s' t : System) (result : Int) (effects more : List Effect)
      (hstep : step s (.act i result) = some (s', effects)) (hrest : Finishes i s' t more) :
      Finishes i s t (effects ++ more)

def Taken (s : System) (i : Nat) (name : Text) : Prop :=
  ∃ j < maxUsers, j ≠ i ∧ 0 < (s.clients j).id ∧ (s.clients j).nickname = name

def HasRoom (s : System) (i r : Nat) : Prop := ∃ b < maxMsgNum, (s.clients r).msg i b = none

/-- From `s` to `t` client `r` gets a message of `i`, and the signal for it. -/
structure Told (s t : System) (i r : Nat) (message : Message) : Prop where
  slot : ∃ b < maxMsgNum, (s.clients r).msg i b = none ∧ (t.clients r).msg i b = some message
  usr1 : (t.process r).usr1 = true

structure Renamed (s t : System) (i : Nat) (name : Text) (effects : List Effect) : Prop where
  nickname : (t.clients i).nickname = name
  told : ∀ r < maxUsers, 0 < (s.clients r).id →
    Told s t i r (.named (s.clients i).ip (s.clients i).port name)
  quiet : effects = []

structure Refused (s t : System) (i : Nat) (name : Text) (effects : List Effect) : Prop where
  same : t = s
  told : effects = [.print i (.nameExists name)]

/-- What the line is for: the command returns, and the caller has the name, and all know
it, if it was no other client's. -/
def Renames (s : System) (i : Nat) (name : Text) : Prop :=
  ∃ t effects, Finishes i (s.setTodo i [.doExec (nicknameLine name)]) t effects ∧
    (Taken s i name → Refused s t i name effects) ∧
    (¬ Taken s i name → Renamed s t i name effects)

def posts (s : System) (i : Nat) (message : Message) (rs : List Nat) : System :=
  rs.foldl (fun s r => broadcastRound s i r message) s

variable {s s' t : System} {i r : Nat} {name : Text} {a : Action} {first rest : List Action}
  {prints : List Notice} {effects : List Effect} {m : Message} {rs : List Nat}

theorem setTodo_idle (hidle : (s.process i).todo = []) : s.setTodo i [] = s := by
  have hprocess : { s.process i with todo := [] } = s.process i := by rw [← hidle]
  rw [System.setTodo, hprocess, System.setProcess, Function.update_eq_self]

theorem setTodo_twice (s : System) (i : Nat) (todo todo' : List Action) :
    (s.setTodo i todo).setTodo i todo' = s.setTodo i todo' := by
  simp only [System.setTodo, System.setProcess, Function.update_idem, Function.update_self]

theorem setTodo_todo (s : System) (i : Nat) (todo : List Action) :
    ((s.setTodo i todo).process i).todo = todo := by
  rw [setTodo_process, if_pos rfl]

theorem finishes_act
    (hact : ∀ result, act (s.setTodo i rest) i result a = .ok ⟨s'.setTodo i rest, first, prints⟩) :
    Finishes i (s.setTodo i (a :: rest)) t effects ↔
      ∃ more, effects = prints.map (.print i) ++ more ∧
        Finishes i (s'.setTodo i (first ++ rest)) t more := by
  have hstep : ∀ result, step (s.setTodo i (a :: rest)) (.act i result) =
      some (s'.setTodo i (first ++ rest), prints.map (.print i)) := by
    intro result
    simp only [step, setTodo_todo, setTodo_twice, hact]
  constructor
  · intro h
    generalize hs : s.setTodo i (a :: rest) = start at h hstep
    cases h with
    | done _ htodo =>
      rw [← hs, setTodo_todo] at htodo
      contradiction
    | act _ s'' _ result printed more hfirst hmore =>
      rw [hstep result, Option.some.injEq, Prod.mk.injEq] at hfirst
      rw [← hfirst.1] at hmore
      rw [← hfirst.2]
      exact ⟨more, rfl, hmore⟩
  · rintro ⟨more, rfl, hmore⟩
    exact .act _ _ _ 0 _ more (hstep 0) hmore

theorem not_finishes {fault : Fault}
    (hact : ∀ result, act (s.setTodo i rest) i result a = .error fault) :
    ¬ Finishes i (s.setTodo i (a :: rest)) t effects := by
  intro h
  generalize hs : s.setTodo i (a :: rest) = start at h
  cases h with
  | done _ htodo =>
    rw [← hs, setTodo_todo] at htodo
    contradiction
  | act _ s'' _ result printed more hfirst =>
    rw [← hs] at hfirst
    simp only [step, setTodo_todo, setTodo_twice, hact] at hfirst
    contradiction

theorem finishes_done (hidle : (s.process i).todo = []) :
    Finishes i s t effects ↔ t = s ∧ effects = [] := by
  constructor
  · intro h
    cases h with
    | done => exact ⟨rfl, rfl⟩
    | act _ s' _ result printed more hfirst =>
      simp only [step, hidle] at hfirst
      contradiction
  · rintro ⟨rfl, rfl⟩
    exact .done _ hidle

theorem NameWord.not_mem (h : NameWord name) {c : Char} (hc : c ∈ [' ', '|', '!', '<', '>']) :
    c ∉ name := fun hmem => h.plain c hmem hc

theorem NameWord.not_mem_line (h : NameWord name) {c : Char} (hc : c ∈ ['|', '!', '<', '>']) :
    c ∉ nicknameLine name := by
  have hcommand : c ∉ "nickname".toList ∧ c ≠ ' ' := by
    revert c
    simp
  intro hmem
  obtain hmem | hmem := List.mem_append.mp hmem
  · exact hcommand.1 hmem
  · obtain heq | hmem := List.mem_cons.mp hmem
    · exact hcommand.2 heq
    · exact h.not_mem (List.mem_cons_of_mem _ hc) hmem

theorem nicknameLine_words (h : NameWord name) :
    strtok ' ' (nicknameLine name) = ["nickname".toList, name] := by
  have hname : ' ' ∉ name := h.not_mem List.mem_cons_self
  have hcut : strtok ' ' ("nickname".toList ++ ' ' :: name) =
      "nickname".toList :: strtok ' ' name := strtok_word_cons (by decide) (by decide)
  exact hcut.trans (congrArg _ (strtok_word h.ne_nil hname))

theorem nicknameLine_find (h : NameWord name) {needle : Text} (hne : needle ≠ [])
    (hneedle : ' ' ∉ needle) : strstr (nicknameLine name) needle = true ↔
      needle <:+: "nickname".toList ∨ needle <:+: name := by
  rw [strstr_iff_piece hne hneedle, nicknameLine_words h]
  simp only [List.mem_cons, List.not_mem_nil, or_false, exists_eq_or_imp, exists_eq_left]

theorem nicknameLine_builtin (h : NameWord name) :
    builtin [nicknameLine name] = some .nickname := by
  have hother : ∀ needle ∈ otherBuiltins, strstr (nicknameLine name) needle = false := by
    intro needle hneedle
    have hword : needle ≠ [] ∧ ' ' ∉ needle ∧ ¬ needle <:+: "nickname".toList := by
      revert needle
      decide +kernel
    rw [Bool.eq_false_iff, ne_eq, nicknameLine_find h hword.1 hword.2.1, not_or]
    exact ⟨hword.2.2, h.other needle hneedle⟩
  have hown : strstr (nicknameLine name) "nickname".toList = true := by
    rw [nicknameLine_find h (by decide) (by decide)]
    exact .inl List.infix_rfl
  have hprintenv := hother "printenv".toList (by decide)
  have hsetenv := hother "setenv".toList (by decide)
  have hexit := hother "exit".toList (by decide)
  have hwho := hother "who".toList (by decide)
  simp only [builtin, hprintenv, hsetenv, hexit, hwho, hown, Bool.false_eq_true, if_false, if_true]

theorem readLine_nickname (h : NameWord name) :
    readLine (nicknameLine name) = .ok (some [nicknameLine name]) := by
  have hne : nicknameLine name ≠ [] := List.cons_ne_nil _ _
  have hsplit : splitPipe (nicknameLine name) = [nicknameLine name] :=
    strtok_word hne (h.not_mem_line (by decide))
  have herror : splitsError (nicknameLine name) = false := by
    rw [splitsError, strchr_eq_none (h.not_mem_line (by decide))]
  have hfirst : (nicknameLine name).head? = some 'n' := rfl
  have hnumber : readNumber [nicknameLine name] false = ⟨[nicknameLine name], none, false⟩ := by
    simp [readNumber]
  simp [readLine, hne, hsplit, herror, hfirst, hnumber]

theorem doExec_nickname (s : System) (i : Nat) (h : NameWord name) :
    doExec s i (nicknameLine name) =
      .ok ⟨s, [.sendPipe (nicknameLine name) [nicknameLine name] none], []⟩ := by
  have hreceive : '<' ∉ nicknameLine name := h.not_mem_line (by decide)
  simp [doExec, readLine_nickname h, hreceive]

theorem sendPipe_nickname (s : System) (i : Nat) (result : Int) (h : NameWord name)
    (commands : List Text) :
    sendPipe s i result (nicknameLine name) commands none =
      .ok ⟨s, [.runCommands commands none], []⟩ := by
  have hsend : pipesOut (nicknameLine name) = false := by
    rw [pipesOut, strchr_eq_none (h.not_mem_line (by decide))]
  simp [sendPipe, hsend]

theorem runCommands_nickname (s : System) (i : Nat) (h : NameWord name) :
    runCommands s i [nicknameLine name] none = executeName s i := by
  unfold runCommands
  dsimp only
  rw [nicknameLine_builtin h]
  cases hexecute : executeName s i with
  | error fault => simp [Except.map]
  | ok o => simp [Except.map]

theorem finishes_nickname (hname : NameWord name) :
    Finishes i (s.setTodo i [.doExec (nicknameLine name)]) t effects ↔
      Finishes i (s.setTodo i [.runCommands [nicknameLine name] none]) t effects := by
  have hexec : ∀ result, act (s.setTodo i []) i result (.doExec (nicknameLine name)) =
      .ok ⟨s.setTodo i [], [.sendPipe (nicknameLine name) [nicknameLine name] none], []⟩ :=
    fun _ => doExec_nickname _ i hname
  have hsend : ∀ result, act (s.setTodo i []) i result
      (.sendPipe (nicknameLine name) [nicknameLine name] none) =
      .ok ⟨s.setTodo i [], [.runCommands [nicknameLine name] none], []⟩ :=
    fun result => sendPipe_nickname _ i result hname _
  rw [finishes_act hexec]
  simp only [List.append_nil, finishes_act hsend, List.map_nil, List.nil_append, exists_eq_left']

theorem broadcastRound_clients (s : System) (i r : Nat) (m : Message) (j : Nat) :
    (broadcastRound s i r m).clients j = if j = r ∧ 0 < (s.clients r).id then
      (s.clients r).setMsg i (put ((s.clients r).msg i) maxMsgNum m) else s.clients j := by
  by_cases hid : 0 < (s.clients r).id
  · rw [broadcastRound, if_pos hid, post_clients, Function.update_apply]
    simp only [hid, and_true]
  · rw [broadcastRound, if_neg hid, if_neg (fun h => hid h.2)]

theorem broadcastRound_todo (s : System) (i r : Nat) (m : Message) (j : Nat) :
    ((broadcastRound s i r m).process j).todo = (s.process j).todo := by
  by_cases hid : 0 < (s.clients r).id
  · rw [broadcastRound, if_pos hid]
    exact (post_flow (by omega) m).todo j
  · rw [broadcastRound, if_neg hid]

theorem broadcastRound_setTodo (s : System) (i r : Nat) (m : Message) (todo : List Action) :
    broadcastRound (s.setTodo i todo) i r m = (broadcastRound s i r m).setTodo i todo := by
  have hclients : (s.setTodo i todo).clients = s.clients := rfl
  by_cases hid : 0 < (s.clients r).id
  · rw [broadcastRound, broadcastRound, hclients, if_pos hid, if_pos hid]
    unfold post
    rw [hclients]
    cases hfree : firstFree ((s.clients r).msg i) maxMsgNum with
    | none => rfl
    | some j =>
      by_cases hr : r = i
      · subst hr
        simp [System.setTodo, System.setProcess, System.setClient]
      · simp [System.setTodo, System.setProcess, System.setClient, hr, Ne.symm hr,
          Function.update_comm hr]
  · rw [broadcastRound, broadcastRound, hclients, if_neg hid, if_neg hid]

theorem finishes_broadcast (hidle : (s.process i).todo = []) :
    Finishes i (s.setTodo i (rs.map fun r => .put r m)) t effects ↔
      t = posts s i m rs ∧ effects = [] := by
  induction rs generalizing s effects with
  | nil =>
    rw [List.map_nil, setTodo_idle hidle]
    exact finishes_done hidle
  | cons r rs ih =>
    have hact : ∀ result, act (s.setTodo i (rs.map fun r => .put r m)) i result (.put r m) =
        .ok ⟨(broadcastRound s i r m).setTodo i (rs.map fun r => .put r m), [], []⟩ := by
      intro result
      rw [act, broadcastRound_setTodo]
    have hidle : ((broadcastRound s i r m).process i).todo = [] := by
      rw [broadcastRound_todo, hidle]
    rw [List.map_cons, finishes_act hact]
    simp only [List.map_nil, List.nil_append, exists_eq_left']
    exact ih hidle

theorem posts_clients (hnodup : rs.Nodup) (s : System) (i : Nat) (m : Message) (r : Nat) :
    (posts s i m rs).clients r = if r ∈ rs ∧ 0 < (s.clients r).id then
      (s.clients r).setMsg i (put ((s.clients r).msg i) maxMsgNum m) else s.clients r := by
  induction rs generalizing s with
  | nil => simp [posts]
  | cons first rs ih =>
    obtain ⟨hfirst, hnodup⟩ := List.nodup_cons.mp hnodup
    have hrest := ih hnodup (broadcastRound s i first m)
    rw [broadcastRound_clients] at hrest
    by_cases hr : r = first
    · subst hr
      simp only [hfirst, false_and, if_false, true_and] at hrest
      simpa [posts] using hrest
    · simp only [hr, false_and, if_false] at hrest
      simpa [posts, hr] using hrest

theorem broadcastRound_usr1 {j : Nat} (h : (s.process j).usr1 = true) :
    ((broadcastRound s i r m).process j).usr1 = true := by
  unfold broadcastRound post
  split
  next =>
    split
    next => exact h
    next =>
      rw [System.setProcess_process]
      split
      next => rfl
      next => exact h
  next => exact h

theorem posts_usr1 {j : Nat} (h : (s.process j).usr1 = true) :
    ((posts s i m rs).process j).usr1 = true := by
  induction rs generalizing s with
  | nil => exact h
  | cons r rs ih => exact ih (broadcastRound_usr1 h)

theorem broadcastRound_signals (hid : 0 < (s.clients r).id) (hroom : HasRoom s i r) (m : Message) :
    ((broadcastRound s i r m).process r).usr1 = true := by
  obtain ⟨j, -, hfree⟩ := exists_firstFree le_rfl hroom
  rw [broadcastRound, if_pos hid]
  unfold post
  rw [hfree]
  simp

theorem posts_signals (hmem : r ∈ rs) (hid : 0 < (s.clients r).id) (hroom : HasRoom s i r)
    (m : Message) : ((posts s i m rs).process r).usr1 = true := by
  induction rs generalizing s with
  | nil => contradiction
  | cons first rs ih =>
    by_cases hr : r = first
    · subst hr
      exact posts_usr1 (s := broadcastRound s i r m) (broadcastRound_signals hid hroom m)
    · have hsame : (broadcastRound s i first m).clients r = s.clients r := by
        rw [broadcastRound_clients, if_neg fun h => hr h.1]
      apply ih ((List.mem_cons.mp hmem).resolve_left hr)
      · rw [hsame]
        exact hid
      · rw [HasRoom, hsame]
        exact hroom

theorem told_posts (hnodup : rs.Nodup) (hmem : r ∈ rs) (hid : 0 < (s.clients r).id) :
    Told s (posts s i m rs) i r m ↔ HasRoom s i r := by
  constructor
  · intro h
    obtain ⟨b, hb, hfree, -⟩ := h.slot
    exact ⟨b, hb, hfree⟩
  · intro hroom
    refine ⟨?_, posts_signals hmem hid hroom m⟩
    rw [posts_clients hnodup, if_pos ⟨hmem, hid⟩, Client.setMsg_msg, if_pos rfl]
    exact exists_put hroom m

theorem posts_nickname (hnodup : rs.Nodup) (s : System) (i : Nat) (m : Message) (r : Nat) :
    ((posts s i m rs).clients r).nickname = (s.clients r).nickname := by
  rw [posts_clients hnodup]
  split
  next => rfl
  next => rfl

def Known (s : System) (name : Text) : Prop :=
  ∃ j < maxUsers, 0 < (s.clients j).id ∧ (s.clients j).nickname = name

theorem known_iff (hi : i < maxUsers) (hid : 0 < (s.clients i).id) :
    Known s name ↔ Taken s i name ∨ (s.clients i).nickname = name := by
  constructor
  · rintro ⟨j, hj, hjid, hname⟩
    by_cases hself : j = i
    · rw [hself] at hname
      exact .inr hname
    · exact .inl ⟨j, hj, hself, hjid, hname⟩
  · rintro (⟨j, hj, -, hjid, hname⟩ | hname)
    · exact ⟨j, hj, hjid, hname⟩
    · exact ⟨i, hi, hid, hname⟩

def System.rename (s : System) (i : Nat) (name : Text) : System :=
  s.setClient i { s.clients i with nickname := name }

theorem executeName_null (h : (s.process i).operand[1]? = none) :
    executeName s i = .error .nullPointer := by
  rw [executeName, h]

theorem executeName_known (h : (s.process i).operand[1]? = some name) (hknown : Known s name) :
    executeName s i = .ok ⟨s, [], [.nameExists name]⟩ := by
  obtain ⟨j, hj, hid, hname⟩ := hknown
  rw [executeName, h]
  refine if_pos (List.any_eq_true.mpr ⟨j, List.mem_range.mpr hj, ?_⟩)
  simpa using ⟨hid, hname⟩

theorem executeName_free (h : (s.process i).operand[1]? = some name) (hknown : ¬ Known s name) :
    executeName s i = .ok ⟨s.rename i name,
      broadcast (.named (s.clients i).ip (s.clients i).port name), []⟩ := by
  rw [executeName, h]
  refine if_neg fun hany => ?_
  obtain ⟨j, hj, hfound⟩ := List.any_eq_true.mp hany
  refine hknown ⟨j, List.mem_range.mp hj, ?_⟩
  simpa using hfound

theorem finishes_null (hidle : (s.process i).todo = []) (hname : NameWord name)
    (h : (s.process i).operand[1]? = none) :
    ¬ Finishes i (s.setTodo i [.doExec (nicknameLine name)]) t effects := by
  rw [finishes_nickname hname]
  have hact : ∀ result, act (s.setTodo i []) i result (.runCommands [nicknameLine name] none) =
      .error .nullPointer := by
    intro result
    rw [act, runCommands_nickname _ i hname, setTodo_idle hidle, executeName_null h]
  exact not_finishes hact

theorem finishes_known {other : Text} (hidle : (s.process i).todo = []) (hname : NameWord name)
    (h : (s.process i).operand[1]? = some other) (hknown : Known s other) :
    Finishes i (s.setTodo i [.doExec (nicknameLine name)]) t effects ↔
      t = s ∧ effects = [.print i (.nameExists other)] := by
  have hact : ∀ result, act (s.setTodo i []) i result (.runCommands [nicknameLine name] none) =
      .ok ⟨s.setTodo i [], [], [.nameExists other]⟩ := by
    intro result
    rw [act, runCommands_nickname _ i hname, setTodo_idle hidle, executeName_known h hknown]
  rw [finishes_nickname hname, finishes_act hact, List.nil_append, setTodo_idle hidle]
  simp only [finishes_done hidle, List.map_cons, List.map_nil]
  constructor
  · rintro ⟨more, rfl, rfl, rfl⟩
    exact ⟨rfl, rfl⟩
  · rintro ⟨rfl, rfl⟩
    exact ⟨[], rfl, rfl, rfl⟩

theorem finishes_free {other : Text} (hidle : (s.process i).todo = []) (hname : NameWord name)
    (h : (s.process i).operand[1]? = some other) (hknown : ¬ Known s other) :
    Finishes i (s.setTodo i [.doExec (nicknameLine name)]) t effects ↔
      t = posts (s.rename i other) i (.named (s.clients i).ip (s.clients i).port other)
        (List.range maxUsers) ∧ effects = [] := by
  have hrename : ((s.rename i other).process i).todo = [] := hidle
  have hact : ∀ result, act (s.setTodo i []) i result (.runCommands [nicknameLine name] none) =
      .ok ⟨(s.rename i other).setTodo i [],
        broadcast (.named (s.clients i).ip (s.clients i).port other), []⟩ := by
    intro result
    rw [act, runCommands_nickname _ i hname, setTodo_idle hidle, setTodo_idle hrename,
      executeName_free h hknown]
  rw [finishes_nickname hname, finishes_act hact]
  simp only [List.append_nil, List.map_nil, List.nil_append, exists_eq_left']
  exact finishes_broadcast hrename

theorem renamed_iff : Renamed s (posts (s.rename i name) i
      (.named (s.clients i).ip (s.clients i).port name) (List.range maxUsers)) i name [] ↔
    ∀ r < maxUsers, 0 < (s.clients r).id → HasRoom s i r := by
  have hmsg : ∀ r, ((s.rename i name).clients r).msg = (s.clients r).msg := by
    intro r
    rw [System.rename, System.setClient_clients]
    split
    next hr => rw [hr]
    next => rfl
  have hid : ∀ r, ((s.rename i name).clients r).id = (s.clients r).id := setClient_id rfl
  have htold : ∀ r < maxUsers, 0 < (s.clients r).id → (Told s (posts (s.rename i name) i
      (.named (s.clients i).ip (s.clients i).port name) (List.range maxUsers)) i r
      (.named (s.clients i).ip (s.clients i).port name) ↔ HasRoom s i r) := by
    intro r hr hlogged
    have hposts := told_posts (s := s.rename i name) (i := i)
      (m := .named (s.clients i).ip (s.clients i).port name) List.nodup_range
      (List.mem_range.mpr hr) (by rwa [hid])
    rw [HasRoom, hmsg] at hposts
    rw [HasRoom, ← hposts]
    constructor
    · rintro ⟨hslot, husr1⟩
      exact ⟨by rwa [hmsg], husr1⟩
    · rintro ⟨hslot, husr1⟩
      exact ⟨by rwa [hmsg] at hslot, husr1⟩
  constructor
  · exact fun h r hr hlogged => (htold r hr hlogged).mp (h.told r hr hlogged)
  · intro hroom
    refine ⟨?_, fun r hr hlogged => (htold r hr hlogged).mpr (hroom r hr hlogged), rfl⟩
    rw [posts_nickname List.nodup_range, System.rename, System.setClient_clients, if_pos rfl]

/-- The command does what it is for when an earlier command has left its very argument
behind, and the caller does not have the name yet, and nobody's mailbox is full. -/
theorem renames_iff (s : System) (i : Nat) (name : Text) (hi : i < maxUsers)
    (hid : 0 < (s.clients i).id) (hidle : (s.process i).todo = []) (hname : NameWord name) :
    Renames s i name ↔ (s.process i).operand[1]? = some name ∧ (Taken s i name ∨
      (s.clients i).nickname ≠ name ∧
        ∀ r < maxUsers, 0 < (s.clients r).id → HasRoom s i r) := by
  constructor
  · rintro ⟨t, effects, hfinishes, htaken, hfree⟩
    cases hoperand : (s.process i).operand[1]? with
    | none => exact absurd hfinishes (finishes_null hidle hname hoperand)
    | some other =>
      by_cases hknown : Known s other
      · obtain ⟨rfl, rfl⟩ := (finishes_known hidle hname hoperand hknown).mp hfinishes
        -- a refusal is no renaming, so another client has the name that was given
        have hown : Taken t i name := by
          by_contra hnot
          exact absurd (hfree hnot).quiet (by simp)
        have hsame : other = name := by simpa using (htaken hown).told
        exact ⟨by rw [hsame], .inl hown⟩
      · obtain ⟨ht, heffects⟩ := (finishes_free hidle hname hoperand hknown).mp hfinishes
        subst heffects
        have hnot : ¬ Taken s i name := fun hown => absurd (htaken hown).told (by simp)
        have hrenamed := hfree hnot
        rw [ht] at hrenamed
        have hsame : other = name := by
          have hnickname := hrenamed.nickname
          rwa [posts_nickname List.nodup_range, System.rename, System.setClient_clients,
            if_pos rfl] at hnickname
        subst hsame
        rw [known_iff hi hid, not_or] at hknown
        exact ⟨rfl, .inr ⟨hknown.2, renamed_iff.mp hrenamed⟩⟩
  · rintro ⟨hoperand, hcase⟩
    by_cases hown : Taken s i name
    · have hknown : Known s name := (known_iff hi hid).mpr (.inl hown)
      exact ⟨s, _, (finishes_known hidle hname hoperand hknown).mpr ⟨rfl, rfl⟩,
        fun _ => ⟨rfl, rfl⟩, fun hnot => absurd hown hnot⟩
    · obtain ⟨hnickname, hroom⟩ := hcase.resolve_left hown
      have hknown : ¬ Known s name := by
        rw [known_iff hi hid, not_or]
        exact ⟨hown, hnickname⟩
      exact ⟨_, _, (finishes_free hidle hname hoperand hknown).mpr ⟨rfl, rfl⟩,
        fun htaken => absurd htaken hown, fun _ => renamed_iff.mpr hroom⟩

/-- A client alone that sends `nickname bob`. An earlier `printenv PATH` has left the places
0 and 9 of the buffer in `operand`, and these are the texts that stand there now. -/
def bobBehind : System :=
  (System.initial.setClient 0 { Client.zero with id := 1 }).setProcess 0
    { Process.initial with operand := ["nickname bob".toList, "bob".toList] }

theorem bob_nameWord : NameWord "bob".toList :=
  ⟨by decide, by decide, by simp, by decide +kernel⟩

theorem renames_iff_bobBehind : Renames bobBehind 0 "bob".toList := by
  refine (renames_iff bobBehind 0 "bob".toList (by decide) (by decide) rfl bob_nameWord).mpr
    ⟨rfl, .inr ⟨by decide, fun r hr hid => ⟨0, by decide, ?_⟩⟩⟩
  rw [bobBehind, System.setProcess_clients, System.setClient_clients]
  split
  next => rfl
  next => rfl

def justEntered : List Event := .login 1 [] 0 :: List.replicate maxUsers (.act 0 0)

/-- As the first command `nickname bob` reads a null pointer. -/
theorem first_nickname_fails : ∃ s, exec next System.initial justEntered = some s ∧
    0 < (s.clients 0).id ∧ NameWord "bob".toList ∧ ¬ Renames s 0 "bob".toList := by
  have hsome : (exec next System.initial justEntered).isSome = true := by decide +kernel
  obtain ⟨s, hrun⟩ := Option.isSome_iff_exists.mp hsome
  have hstate : (exec next System.initial justEntered).all (fun s => decide (
      0 < (s.clients 0).id ∧ (s.process 0).todo = [] ∧ (s.process 0).operand[1]? = none)) =
      true := by decide +kernel
  rw [hrun] at hstate
  obtain ⟨hid, hidle, hoperand⟩ := of_decide_eq_true hstate
  refine ⟨s, hrun, hid, bob_nameWord, ?_⟩
  rintro ⟨t, effects, hfinishes, -⟩
  exact finishes_null hidle bob_nameWord hoperand hfinishes

end NetworkProgramming.Multi
