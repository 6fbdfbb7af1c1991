import NetworkProgramming.Npshell.Purposes
import NetworkProgramming.Npshell.Session
import Mathlib.Tactic.IntervalCases

/-! Delivery of the pipes of `npshell` over whole runs: the stack holds what the
lines ahead are due. -/
namespace NetworkProgramming.Npshell
open Library.CString Library.Descriptors Library.Run CommandLine

/-- A text that pops no pipe: a built-in, or one that the patterns cannot read. -/
def Uncounted (text : Text) : Prop :=
  (readCommand text).n ≠ 3 ∧ ((readCommand text).n = 1 →
    IsBuiltin (scanOperation ((readCommand text).instruction.getD [])).1)

instance (text : Text) : Decidable (Uncounted text) := by
  unfold Uncounted
  infer_instance

/-- The line is a pipeline, with room in front of the next line's pipe if it has
several commands, or it is not counted. -/
def Readable (s : Shell) (text : Text) : Prop :=
  text = [] ∨ Uncounted text ∨ ∃ p : Pipeline, p.Plain ∧ p.text = text ∧
    (p.rest ≠ [] → s.pipeStack.tail.head?.join = none)

/-- The steps on which the pipes are handled as they are meant. -/
def Steady (st : Session) : Event → Prop
  | .line text => Readable st.shell text
  | .round calls => Uncounted st.input ∨ Clear st.shell calls

def Targeted (log : List Record) (t : Nat) : Prop :=
  ∃ (l : Nat) (r : Record) (n : Nat), log[l]? = some r ∧ endNumber r.line = some n ∧ l + n = t

/-- What the numbers ask for and the bars of a line join. -/
structure Delivered (log : List Record) (numbered : Nat → Nat) (ordinary : Nat → Nat → Nat) :
    Prop where
  spelled : ∀ r ∈ log, ∃ p : Pipeline, p.Plain ∧ p.text = r.line ∧
    r.children.map Child.argv = p.commands.map argv
  writes : ∀ (l : Nat) (r : Record) (n : Nat), log[l]? = some r → endNumber r.line = some n →
    ∃ c, r.children.getLast? = some c ∧ c.stdout = some (.writeEnd (numbered (l + n)))
  reads : ∀ (t : Nat) (r : Record), Targeted log t → log[t]? = some r →
    ∃ c, r.children.head? = some c ∧ c.stdin = some (.readEnd (numbered t))
  only : ∀ (t m : Nat) (r : Record) (i : Nat) (c : Child), Targeted log t → log[m]? = some r →
    r.children[i]? = some c → c.stdin = some (.readEnd (numbered t)) → m = t ∧ i = 0
  joins : ∀ (l : Nat) (r : Record) (i : Nat) (c d : Child), log[l]? = some r →
    r.children[i]? = some c → r.children[i + 1]? = some d →
    c.stdout = some (.writeEnd (ordinary l i)) ∧ d.stdin = some (.readEnd (ordinary l i))
  joinsOnly : ∀ (l : Nat) (r : Record) (i : Nat) (m : Nat) (r' : Record) (j : Nat) (c : Child),
    log[l]? = some r → i + 1 < r.children.length → log[m]? = some r' →
    r'.children[j]? = some c →
    (c.stdin = some (.readEnd (ordinary l i)) → m = l ∧ j = i + 1) ∧
    (c.stdout = some (.writeEnd (ordinary l i)) ∨ c.stderr = some (.writeEnd (ordinary l i)) →
      m = l ∧ j = i)
  idle : ∀ (t : Nat) (r : Record), ¬ Targeted log t → log[t]? = some r →
    ∃ c, r.children.head? = some c ∧ c.stdin = some .terminal

def countedLines (es : List Event) : List Text :=
  es.filterMap fun
    | .line text => if text = [] ∨ Uncounted text then none else some text
    | .round _ => none

/-- How many commands of the present line are running. -/
def Session.stage (st : Session) : Nat := if st.input = [] then 0 else st.outcomes.length

def Record.sink (l : Nat) (r : Record) (i : Nat) : Option Purpose :=
  if i + 1 < r.children.length then some (.join l i)
  else (endNumber r.line).map fun n => .target (l + n)

/-- A pipeline of which some commands are running, and `p` is left. -/
structure Running (purposes : List Purpose) (st : Session) (whole p : Pipeline)
    (children : List Child) : Prop where
  read : whole.Plain
  line : whole.text = st.line
  plain : p.Plain
  input : p.text = st.input
  ending : p.ending = whole.ending
  words : children.map Child.argv ++ p.commands.map argv = whole.commands.map argv
  outcomes : st.outcomes = children.map .ran
  served : ∀ i c, children[i]? = some c →
    Served purposes st.log.length i (some (.join st.log.length i)) c
  room : p.rest ≠ [] → st.shell.pipeStack.tail.head?.join = none

inductive Phase (purposes : List Purpose) (st : Session) : Prop where
  | idle (hinput : st.input = [])
  | uncounted (hinput : st.input ≠ []) (htext : Uncounted st.input) (hnone : st.outcomes = [])
  | running (whole p : Pipeline) (children : List Child)
      (h : Running purposes st whole p children)

/-- The pipes are those that the lines so far ask for. -/
structure Wired (purposes : List Purpose) (st : Session) : Prop where
  made : purposes.length = st.shell.made
  nodup : purposes.Nodup
  targets : ∀ t, Purpose.target t ∈ purposes → Targeted st.log t
  joins : ∀ l i, Purpose.join l i ∈ purposes →
    l < st.log.length ∨ l = st.log.length ∧ i < st.stage
  tidy : Tidy st.shell
  short : st.shell.recycle.length ≤ 10
  buf : st.shell.buf = []
  due : Due purposes st.log.length st.stage st.shell.pipeStack
  log : ∀ (l : Nat) (r : Record), st.log[l]? = some r →
    ∀ i c, r.children[i]? = some c → Served purposes l i (r.sink l i) c
  spelled : ∀ r ∈ st.log, ∃ p : Pipeline, p.Plain ∧ p.text = r.line ∧
    r.children.map Child.argv = p.commands.map argv
  phase : Phase purposes st

variable {purposes purposes' : List Purpose} {st st' : Session} {text : Text} {calls : Calls}
  {s' : Shell} {o : Outcome} {whole p : Pipeline} {children : List Child} {e : Event}

theorem Wired.initial : Wired [] Session.initial := by
  constructor
  · rfl
  · exact List.nodup_nil
  · intro t ht
    simp at ht
  · intro l i hi
    simp at hi
  · exact Tidy.initial
  · decide
  · rfl
  · exact Stacked.nil.due
  · intro l r hr
    simp [Session.initial] at hr
  · intro r hr
    simp [Session.initial] at hr
  · exact .idle rfl

theorem spared_of_short {s : Shell} (h : s.recycle.length ≤ 10) : Spared s :=
  fun _ _ => ⟨evicts_of_short h, evicts_of_short h⟩

theorem Wired.line (h : Wired purposes st) (htext : Readable st.shell text)
    (hstep : next st (.line text) = some st') : Wired purposes st' := by
  simp only [next] at hstep
  split at hstep
  next hinput =>
    simp only [Option.some.injEq] at hstep
    subst hstep
    have hstage : st.stage = 0 := if_pos hinput
    have hstage' : Session.stage
        { st with shell := cleanPipes st.shell, input := text, line := text, outcomes := [] } = 0 := by
      unfold Session.stage
      split <;> rfl
    have hdue := h.due
    have hjoins := h.joins
    rw [hstage] at hdue hjoins
    constructor
    · exact h.made
    · exact h.nodup
    · exact h.targets
    · rw [hstage']
      exact hjoins
    · exact h.tidy.cleanPipes (spared_of_short h.short)
    · exact cleanPipes_short _
    · exact h.buf
    · rw [hstage']
      exact hdue
    · exact h.log
    · exact h.spelled
    · by_cases hnil : text = []
      · exact .idle hnil
      · rcases htext.resolve_left hnil with huncounted | ⟨p, hplain, hp, hroom⟩
        · exact .uncounted hnil huncounted rfl
        · apply Phase.running p p []
          constructor
          · exact hplain
          · exact hp
          · exact hplain
          · exact hp
          · rfl
          · rfl
          · rfl
          · intro i c hc
            simp at hc
          · exact hroom
  next => contradiction

/-- A text without three conversions leaves `_buf` alone; one conversion is that of
the instruction. -/
theorem readCommand_short (h : (readCommand text).n ≠ 3) : (readCommand text).buf = none ∧
    ((readCommand text).n = 1 → ∃ i, (readCommand text).instruction = some i) := by
  have hunmatched : (Reading.unmatched text).n ≠ 1 := by
    unfold Reading.unmatched
    split <;> decide
  unfold readCommand at h ⊢
  dsimp only at h ⊢
  split at h
  next hn => exact absurd hn h
  next hn =>
    rw [if_neg hn]
    unfold readOrdinary at h ⊢
    split at h
    next => exact ⟨rfl, fun hone => absurd hone hunmatched⟩
    next instruction _ _ =>
      split at h
      next => exact ⟨rfl, fun _ => ⟨instruction, rfl⟩⟩
      next =>
        split at h
        next => exact ⟨rfl, fun _ => ⟨instruction, rfl⟩⟩
        next => exact absurd rfl h

theorem Uncounted.executeCMD {s : Shell} (h : Uncounted text)
    (hround : executeCMD s text calls = some (s', o)) :
    s' = { s with instruction := s'.instruction } ∧ o.child = none := by
  obtain ⟨hn, hbuiltin⟩ := h
  obtain ⟨hbuf, hone⟩ := readCommand_short hn
  unfold Npshell.executeCMD at hround
  dsimp only at hround
  rw [if_neg hn, hbuf, Option.getD_none] at hround
  split at hround
  next =>
    simp only [Option.some.injEq, Prod.mk.injEq] at hround
    obtain ⟨rfl, rfl⟩ := hround
    exact ⟨rfl, rfl⟩
  next =>
    split at hround
    next hnOne =>
      obtain ⟨instruction, hinstruction⟩ := hone hnOne
      have hop := hbuiltin hnOne
      rw [hinstruction, Option.getD_some, IsBuiltin] at hop
      rw [hinstruction, Option.getD_some] at hround
      split at hround
      next =>
        simp only [Option.some.injEq, Prod.mk.injEq] at hround
        obtain ⟨rfl, rfl⟩ := hround
        exact ⟨rfl, rfl⟩
      next hsetenv =>
        split at hround
        next =>
          simp only [Option.some.injEq, Prod.mk.injEq] at hround
          obtain ⟨rfl, rfl⟩ := hround
          exact ⟨rfl, rfl⟩
        next hprintenv =>
          rw [if_pos ((hop.resolve_left hsetenv).resolve_left hprintenv)] at hround
          simp only [Option.some.injEq, Prod.mk.injEq] at hround
          obtain ⟨rfl, rfl⟩ := hround
          exact ⟨rfl, rfl⟩
    next =>
      simp only [Option.some.injEq, Prod.mk.injEq] at hround
      obtain ⟨rfl, rfl⟩ := hround
      exact ⟨rfl, rfl⟩

theorem Wired.uncounted (h : Wired purposes st) (htext : Uncounted st.input)
    (hnone : st.outcomes = []) (hstep : next st (.round calls) = some st') :
    Wired purposes st' := by
  obtain ⟨s', o, hround, hinput, rfl⟩ := next_round hstep
  obtain ⟨hshell, hchild⟩ := htext.executeCMD hround
  have hbuf : s'.buf = [] := by rw [hshell]; exact h.buf
  have hfinish : Session.finish ⟨cleanPipes { s' with buf := [] }, s'.buf, st.line,
      st.outcomes ++ [o], st.log⟩ =
      ⟨cleanPipes { s' with buf := [] }, s'.buf, st.line, st.outcomes ++ [o], st.log⟩ := by
    unfold Session.finish
    simp only [hnone, List.nil_append, List.mapM_cons, hchild, Option.bind_eq_bind, Option.bind_none]
  rw [if_pos hbuf, hfinish, hbuf]
  have hstage : st.stage = 0 := by
    unfold Session.stage
    rw [if_neg hinput, hnone, List.length_nil]
  have hdue := h.due
  have hjoins := h.joins
  rw [hstage] at hdue hjoins
  have htidy : Tidy { s' with buf := [] } := by
    rw [hshell]
    exact ⟨h.tidy.standard, h.tidy.owned, h.tidy.recycled⟩
  have hshort : Spared { s' with buf := [] } := by
    rw [hshell]
    exact spared_of_short h.short
  constructor
  · rw [hshell]
    exact h.made
  · exact h.nodup
  · exact h.targets
  · exact hjoins
  · exact htidy.cleanPipes hshort
  · exact cleanPipes_short _
  · rfl
  · rw [hshell]
    exact hdue
  · exact h.log
  · exact h.spelled
  · exact .idle rfl

section Round

theorem mapM_child (children : List Child) :
    (children.map Outcome.ran).mapM Outcome.child = some children := by
  induction children with
  | nil => rfl
  | cons c children ih =>
    rw [List.map_cons, List.mapM_cons, ih]
    rfl

theorem finish_ran (houtcomes : st.outcomes = children.map .ran) (hne : children ≠ []) :
    st.finish = { st with log := st.log ++ [⟨st.line, children⟩] } := by
  obtain ⟨c, rest, rfl⟩ := List.exists_cons_of_ne_nil hne
  unfold Session.finish
  rw [houtcomes, mapM_child]

theorem Targeted.concat {log : List Record} {r : Record} {t : Nat} (h : Targeted log t) :
    Targeted (log ++ [r]) t := by
  obtain ⟨l, r', n, hl, hn, ht⟩ := h
  exact ⟨l, r', n, by rw [List.getElem?_append_left (List.getElem?_eq_some_iff.mp hl).1, hl], hn, ht⟩

theorem Running.stage (h : Running purposes st whole p children) :
    st.stage = children.length := by
  have hinput : st.input ≠ [] := by
    rw [← h.input]
    exact h.plain.text_ne_nil
  unfold Session.stage
  rw [if_neg hinput, h.outcomes, List.length_map]

theorem Running.number (h : Running purposes st whole p children) :
    endNumber st.line = p.ending.map Prod.snd := by
  rw [← h.line, h.read.endNumber_text, h.ending]

def lastSink (l : Nat) (p : Pipeline) : Option Purpose :=
  (p.ending.map Prod.snd).map fun n => .target (l + n)

theorem Started.nodup {l k : Nat} {sink : Option Purpose} {command : Text}
    (h : Started purposes purposes' l k sink command s' o) (hnodup : purposes.Nodup) :
    purposes'.Nodup := by
  rcases h.grown with heq | ⟨purpose, -, hfree, heq⟩
  · rw [heq]
    exact hnodup
  · rw [heq]
    exact List.nodup_append.mpr ⟨hnodup, List.nodup_singleton _, by
      intro a ha b hb
      rw [List.mem_singleton] at hb
      rintro rfl
      exact hfree (hb ▸ ha)⟩

theorem Started.kept {l k m i : Nat} {sink other : Option Purpose} {command : Text} {c : Child}
    (h : Started purposes purposes' l k sink command s' o)
    (hsink : ∀ purpose, sink = some purpose → purpose ≠ .target m)
    (hserved : Served purposes m i other c) : Served purposes' m i other c := by
  rcases h.grown with heq | ⟨purpose, hpurpose, -, heq⟩
  · rw [heq]
    exact hserved
  · rw [heq]
    exact hserved.concat (hsink purpose hpurpose)

theorem Running.lastSink_ne (h : Running purposes st whole p children) {m : Nat}
    (hm : m ≤ st.log.length) {purpose : Purpose}
    (hpurpose : lastSink st.log.length p = some purpose) : purpose ≠ .target m := by
  simp only [lastSink, Option.map_map, Option.map_eq_some_iff] at hpurpose
  obtain ⟨⟨symbol, n⟩, hending, rfl⟩ := hpurpose
  have hpos := (h.plain.ending symbol n hending).2.1
  simp only [Function.comp_apply, ne_eq, Purpose.target.injEq]
  omega

theorem Wired.finished (h : Wired purposes st) (hrun : Running purposes st whole p children)
    (hrest : p.rest = [])
    (hstarted : Started purposes purposes' st.log.length children.length
      (lastSink st.log.length p) p.first s' o)
    (hstack : Stacked purposes' (st.log.length + 1) s'.pipeStack) (hbuf : s'.buf = []) :
    Wired purposes' (Session.finish
      ⟨cleanPipes { s' with buf := [] }, s'.buf, st.line, st.outcomes ++ [o], st.log⟩) := by
  obtain ⟨c, rfl, hwords, hserved⟩ := hstarted.child
  have houtcomes : st.outcomes ++ [Outcome.ran c] = (children ++ [c]).map .ran := by
    rw [hrun.outcomes, List.map_append]
    rfl
  rw [finish_ran houtcomes (by simp), hbuf]
  have hlength : (st.log ++ [Record.mk st.line (children ++ [c])]).length = st.log.length + 1 := by
    simp
  constructor
  · exact hstarted.made
  · exact hstarted.nodup h.nodup
  · intro t ht
    rcases hstarted.grown with heq | ⟨purpose, hsink, -, heq⟩
    · rw [heq] at ht
      exact (h.targets t ht).concat
    · rw [heq, List.mem_append, List.mem_singleton] at ht
      rcases ht with ht | ht
      · exact (h.targets t ht).concat
      · rw [← ht, lastSink, ← hrun.number, Option.map_eq_some_iff] at hsink
        obtain ⟨n, hn, htarget⟩ := hsink
        rw [Purpose.target.injEq] at htarget
        exact ⟨st.log.length, _, n, List.getElem?_concat_length, hn, htarget⟩
  · intro l i hjoin
    refine .inl ?_
    rw [hlength]
    have hold : Purpose.join l i ∈ purposes := by
      rcases hstarted.grown with heq | ⟨purpose, hsink, -, heq⟩
      · rwa [heq] at hjoin
      · rw [heq, List.mem_append, List.mem_singleton] at hjoin
        apply hjoin.resolve_right
        rintro rfl
        simp [lastSink] at hsink
    rcases h.joins l i hold with hl | ⟨hl, -⟩ <;> omega
  · exact Tidy.cleanPipes ⟨hstarted.tidy.standard, hstarted.tidy.owned, hstarted.tidy.recycled⟩
      hstarted.spared
  · exact cleanPipes_short _
  · rfl
  · rw [hlength]
    exact hstack.due
  · intro l r hr i d hd
    dsimp only at hr
    obtain ⟨hl, hr⟩ | ⟨rfl, rfl⟩ := getElem?_concat_eq_some hr
    · exact hstarted.kept (fun _ => hrun.lastSink_ne (by omega)) (h.log l r hr i d hd)
    · obtain ⟨hi, hd⟩ | ⟨rfl, rfl⟩ := getElem?_concat_eq_some hd
      · rw [Record.sink, if_pos (by simp; omega)]
        exact hstarted.kept (fun _ => hrun.lastSink_ne (by omega)) (hrun.served i d hd)
      · rw [Record.sink, if_neg (by simp), hrun.number]
        exact hserved
  · intro r hr
    rw [List.mem_append, List.mem_singleton] at hr
    rcases hr with hr | rfl
    · exact h.spelled r hr
    · refine ⟨whole, hrun.read, hrun.line, ?_⟩
      rw [List.map_append, ← hrun.words, List.map_singleton, hwords, Pipeline.commands, hrest]
      rfl
  · exact .idle rfl

theorem Wired.piped (h : Wired purposes st) (hrun : Running purposes st whole p children)
    {command : Text} {rest : List Text} (hrest : p.rest = command :: rest)
    (hstarted : Started purposes (purposes ++ [.join st.log.length children.length]) st.log.length
      children.length (some (.join st.log.length children.length)) p.first s' o)
    (hbuf : s'.buf = (p.behind command rest).text)
    (hdue : Due (purposes ++ [.join st.log.length children.length]) st.log.length
      (children.length + 1) s'.pipeStack)
    (htail : s'.pipeStack.tail = st.shell.pipeStack.tail) :
    Wired (purposes ++ [.join st.log.length children.length])
      ⟨cleanPipes { s' with buf := [] }, s'.buf, st.line, st.outcomes ++ [o], st.log⟩ := by
  obtain ⟨c, rfl, hwords, hserved⟩ := hstarted.child
  have hplain := hrun.plain.behind hrest
  have hstage : Session.stage ⟨cleanPipes { s' with buf := [] }, s'.buf, st.line,
      st.outcomes ++ [.ran c], st.log⟩ = children.length + 1 := by
    unfold Session.stage
    rw [if_neg (by rw [hbuf]; exact hplain.text_ne_nil), List.length_append, hrun.outcomes,
      List.length_map, List.length_singleton]
  constructor
  · exact hstarted.made
  · exact hstarted.nodup h.nodup
  · intro t ht
    rw [List.mem_append, List.mem_singleton] at ht
    exact h.targets t (ht.resolve_right (by simp))
  · intro l i hjoin
    rw [hstage]
    rw [List.mem_append, List.mem_singleton, Purpose.join.injEq] at hjoin
    rcases hjoin with hold | ⟨rfl, rfl⟩
    · have hbefore := h.joins l i hold
      rw [hrun.stage] at hbefore
      rcases hbefore with hl | ⟨hl, hi⟩
      · exact .inl hl
      · exact .inr ⟨hl, by omega⟩
    · exact .inr ⟨rfl, by omega⟩
  · exact Tidy.cleanPipes ⟨hstarted.tidy.standard, hstarted.tidy.owned, hstarted.tidy.recycled⟩
      hstarted.spared
  · exact cleanPipes_short _
  · rfl
  · rw [hstage]
    exact hdue
  · intro l r hr i d hd
    exact (h.log l r hr i d hd).concat (by simp)
  · exact h.spelled
  · apply Phase.running whole (p.behind command rest) (children ++ [c])
    constructor
    · exact hrun.read
    · exact hrun.line
    · exact hplain
    · exact hbuf.symm
    · exact hrun.ending
    · rw [← hrun.words, List.map_append, List.append_assoc, List.map_singleton, hwords]
      simp [Pipeline.commands, Pipeline.behind, hrest, argv_dropWhile]
    · rw [hrun.outcomes, List.map_append]
      rfl
    · intro i d hd
      obtain ⟨-, hd⟩ | ⟨rfl, rfl⟩ := getElem?_concat_eq_some hd
      · exact (hrun.served i d hd).concat (by simp)
      · exact hserved
    · intro _
      change s'.pipeStack.tail.head?.join = none
      rw [htail]
      exact hrun.room (by rw [hrest]; exact List.cons_ne_nil _ _)

theorem Pipeline.Plain.counted (h : p.Plain) : ¬ Uncounted p.text := by
  rintro ⟨hn, hbuiltin⟩
  cases hrest : p.rest with
  | cons next rest =>
    rw [h.readCommand_pipe hrest] at hn
    exact hn rfl
  | nil =>
    cases hending : p.ending with
    | none =>
      rw [h.readCommand_end hrest hending] at hbuiltin
      apply h.last hending p.first
      · rw [Pipeline.commands, hrest, List.getLast?_singleton]
      · exact hbuiltin rfl
    | some pair =>
      rw [h.readCommand_number hrest hending] at hn
      exact hn rfl

def Session.lines (st : Session) : List Text :=
  st.log.map Record.line ++ if st.input = [] ∨ Uncounted st.input then [] else [st.line]

theorem lines_line (hstep : next st (.line text) = some st') :
    st'.lines = st.lines ++ countedLines [.line text] := by
  simp only [Npshell.next] at hstep
  split at hstep
  next hinput =>
    simp only [Option.some.injEq] at hstep
    subst hstep
    by_cases htext : text = [] ∨ Uncounted text <;>
      simp [Session.lines, countedLines, hinput, htext]
  next => contradiction

theorem lines_uncounted (htext : Uncounted st.input) (hnone : st.outcomes = [])
    (hbuf : st.shell.buf = []) (hstep : next st (.round calls) = some st') :
    st'.lines = st.lines := by
  obtain ⟨s', o, hround, hinput, rfl⟩ := next_round hstep
  obtain ⟨hshell, hchild⟩ := htext.executeCMD hround
  have hbuf' : s'.buf = [] := by rw [hshell]; exact hbuf
  simp [Session.lines, Session.finish, hnone, hchild, hbuf', htext]

theorem lines_finished {c : Child} (hrun : Running purposes st whole p children) :
    (Session.finish ⟨cleanPipes s', [], st.line, st.outcomes ++ [.ran c], st.log⟩).lines =
      st.lines := by
  have houtcomes : st.outcomes ++ [Outcome.ran c] = (children ++ [c]).map .ran := by
    rw [hrun.outcomes, List.map_append]
    rfl
  have hinput : ¬ (st.input = [] ∨ Uncounted st.input) := by
    rw [← hrun.input, not_or]
    exact ⟨hrun.plain.text_ne_nil, hrun.plain.counted⟩
  rw [finish_ran houtcomes (by simp), Session.lines, Session.lines, if_neg hinput]
  simp

theorem Wired.next (h : Wired purposes st) (hsteady : Steady st e)
    (hstep : next st e = some st') :
    ∃ purposes', Wired purposes' st' ∧ st'.lines = st.lines ++ countedLines [e] := by
  cases e with
  | line text => exact ⟨purposes, h.line hsteady hstep, lines_line hstep⟩
  | round calls =>
    have hinput : st.input ≠ [] := by
      obtain ⟨-, -, -, hinput, -⟩ := next_round hstep
      exact hinput
    cases h.phase with
    | idle hnil => exact absurd hnil hinput
    | uncounted _ htext hnone =>
      refine ⟨purposes, h.uncounted htext hnone hstep, ?_⟩
      rw [lines_uncounted htext hnone h.buf hstep]
      simp [countedLines]
    | running whole p children hrun =>
      have hclear : Clear st.shell calls := by
        apply hsteady.resolve_left
        rw [← hrun.input]
        exact hrun.plain.counted
      obtain ⟨s', o, hround, -, rfl⟩ := next_round hstep
      rw [← hrun.input] at hround
      have hdue := h.due
      rw [hrun.stage] at hdue
      cases hrest : p.rest with
      | cons command rest =>
        have hfree : Purpose.join st.log.length children.length ∉ purposes := by
          intro hmem
          have hbefore := h.joins _ _ hmem
          rw [hrun.stage] at hbefore
          omega
        obtain ⟨hstarted, hbuf, hdueNext, htail⟩ := hrun.plain.round_pipe hrest
          (hrun.room (by rw [hrest]; exact List.cons_ne_nil _ _)) hfree hdue h.tidy hclear h.made
          hround
        have hne : s'.buf ≠ [] := by
          rw [hbuf]
          exact (hrun.plain.behind hrest).text_ne_nil
        have hcounted : ¬ Uncounted s'.buf := by
          rw [hbuf]
          exact (hrun.plain.behind hrest).counted
        refine ⟨purposes ++ [.join st.log.length children.length], ?_, ?_⟩
        · rw [if_neg hne]
          exact h.piped hrun hrest hstarted hbuf hdueNext htail
        · have hinput' : ¬ Uncounted st.input := by
            rw [← hrun.input]
            exact hrun.plain.counted
          simp [Session.lines, countedLines, hne, hcounted, hinput, hinput']
      | nil =>
        cases hending : p.ending with
        | none =>
          obtain ⟨hstarted, hbuf, hstack⟩ := hrun.plain.round_last hrest hending hdue h.tidy hclear
            h.made hround
          rw [h.buf] at hbuf
          rw [if_pos hbuf]
          refine ⟨purposes, h.finished hrun hrest ?_ (hstack ▸ hdue.later) hbuf, ?_⟩
          · rw [lastSink, hending]
            exact hstarted
          · obtain ⟨c, rfl, -⟩ := hstarted.child
            rw [hbuf, lines_finished hrun]
            simp [countedLines]
        | some pair =>
          obtain ⟨symbol, n⟩ := pair
          obtain ⟨purposes', hstarted, hbuf, hstack⟩ := hrun.plain.round_numbered hrest hending hdue
            h.tidy hclear h.made hround
          rw [h.buf] at hbuf
          rw [if_pos hbuf]
          refine ⟨purposes', h.finished hrun hrest ?_ hstack hbuf, ?_⟩
          · rw [lastSink, hending]
            exact hstarted
          · obtain ⟨c, rfl, -⟩ := hstarted.child
            rw [hbuf, lines_finished hrun]
            simp [countedLines]

end Round

theorem wired_run (es : List Event) (st : Session)
    (hsteady : Meets next Session.initial (fun _ st e => Steady st e) es)
    (hrun : exec next Session.initial es = some st) :
    ∃ purposes, Wired purposes st ∧ st.lines = countedLines es := by
  apply invariant (I := fun es st => ∃ purposes, Wired purposes st ∧ st.lines = countedLines es)
    _ _ es hsteady st hrun
  · exact ⟨[], Wired.initial, rfl⟩
  · intro es st e st' _ hinv hsteady hstep
    obtain ⟨purposes, hwired, hlines⟩ := hinv
    obtain ⟨purposes', hwired', hlines'⟩ := hwired.next hsteady hstep
    refine ⟨purposes', hwired', ?_⟩
    rw [hlines', hlines, countedLines, countedLines, countedLines, List.filterMap_append]

section Deliver
variable {log : List Record} {r r' : Record} {l m i j n t : Nat} {c d : Child} {q : Purpose}
  {pipe : Nat}

theorem index_eq (hnodup : purposes.Nodup) (h : purposes[pipe]? = some q) :
    purposes.idxOf q = pipe := by
  obtain ⟨hlt, hget⟩ := List.getElem?_eq_some_iff.mp h
  rw [← hget]
  exact List.Nodup.idxOf_getElem hnodup pipe hlt

theorem Wired.nonempty (h : Wired purposes st) (hr : st.log[l]? = some r) :
    0 < r.children.length := by
  obtain ⟨p, -, -, hwords⟩ := h.spelled r (List.mem_of_getElem? hr)
  have hlength := congrArg List.length hwords
  rw [List.length_map, List.length_map, Pipeline.commands, List.length_cons] at hlength
  omega

theorem Wired.last (h : Wired purposes st) (hr : st.log[l]? = some r)
    (hn : endNumber r.line = some n) : ∃ c, r.children.getLast? = some c ∧
      ∃ pipe : Nat, purposes[pipe]? = some (.target (l + n)) ∧ c.stdout = some (.writeEnd pipe) := by
  have hpos := h.nonempty hr
  have hlast : r.children[r.children.length - 1]? = some r.children[r.children.length - 1] :=
    List.getElem?_eq_getElem (by omega)
  refine ⟨_, by rw [List.getLast?_eq_getElem?, hlast], ?_⟩
  apply (h.log l r hr _ _ hlast).stdout
  rw [Record.sink, if_neg (by omega), hn]
  rfl

theorem Wired.first (h : Wired purposes st) (hr : st.log[t]? = some r) :
    ∃ c, r.children.head? = some c ∧ Fed purposes t 0 c.stdin := by
  have hpos := h.nonempty hr
  have hzero : r.children[0]? = some r.children[0] := List.getElem?_eq_getElem hpos
  refine ⟨_, by rw [List.head?_eq_getElem?, hzero], ?_⟩
  exact (h.log t r hr 0 _ hzero).stdin

theorem Wired.targeted (h : Wired purposes st) (ht : Targeted st.log t) :
    ∃ pipe : Nat, purposes[pipe]? = some (.target t) := by
  obtain ⟨l, r, n, hr, hn, rfl⟩ := ht
  obtain ⟨-, -, pipe, hpipe, -⟩ := h.last hr hn
  exact ⟨pipe, hpipe⟩

theorem Wired.joined (h : Wired purposes st) (hr : st.log[l]? = some r)
    (hi : i + 1 < r.children.length) : ∃ pipe : Nat, purposes[pipe]? = some (.join l i) := by
  have hget : r.children[i]? = some r.children[i] := List.getElem?_eq_getElem (by omega)
  obtain ⟨pipe, hpipe, -⟩ := (h.log l r hr i _ hget).stdout (.join l i) (if_pos hi)
  exact ⟨pipe, hpipe⟩

theorem Fed.source_eq {stdin : Option File} (h : Fed purposes m i stdin)
    (hpipe : purposes[pipe]? = some q) (hstdin : stdin = some (.readEnd pipe)) : source m i = q := by
  rw [hstdin] at h
  rcases h with ⟨other, hother, heq⟩ | ⟨-, -, heq⟩
  · simp only [Option.some.injEq, File.readEnd.injEq] at heq
    rw [← heq, hpipe, Option.some.injEq] at hother
    exact hother.symm
  · simp at heq

theorem source_eq_target (h : source m i = .target t) : m = t ∧ i = 0 := by
  cases i with
  | zero => exact ⟨Purpose.target.inj h, rfl⟩
  | succ i => simp [source] at h

theorem source_eq_join (h : source m j = .join l i) : m = l ∧ j = i + 1 := by
  cases j with
  | zero => simp [source] at h
  | succ j =>
    simp only [source, Purpose.join.injEq] at h
    omega

theorem Served.sink_eq {sink : Option Purpose} (h : Served purposes m j sink c)
    (hpipe : purposes[pipe]? = some (.join l i))
    (hwrites : c.stdout = some (.writeEnd pipe) ∨ c.stderr = some (.writeEnd pipe)) :
    sink = some (.join l i) := by
  have hout : c.stdout = some (.writeEnd pipe) → sink = some (.join l i) := by
    intro hstdout
    cases hsink : sink with
    | none =>
      rw [h.plain hsink] at hstdout
      simp at hstdout
    | some q =>
      obtain ⟨other, hother, heq⟩ := h.stdout q hsink
      simp only [hstdout, Option.some.injEq, File.writeEnd.injEq] at heq
      rw [← heq, hpipe] at hother
      exact hother.symm
  rcases hwrites with hstdout | hstderr
  · exact hout hstdout
  · rcases h.stderr with hterminal | ⟨-, hsame⟩
    · rw [hstderr] at hterminal
      simp at hterminal
    · exact hout (hsame ▸ hstderr)

theorem Wired.delivered (h : Wired purposes st) :
    Delivered st.log (fun t => purposes.idxOf (.target t))
      (fun l i => purposes.idxOf (.join l i)) := by
  constructor
  · exact h.spelled
  · intro l r n hr hn
    obtain ⟨c, hc, pipe, hpipe, hstdout⟩ := h.last hr hn
    refine ⟨c, hc, ?_⟩
    rw [index_eq h.nodup hpipe]
    exact hstdout
  · intro t r ht hr
    obtain ⟨pipe, hpipe⟩ := h.targeted ht
    obtain ⟨c, hc, hfed⟩ := h.first hr
    refine ⟨c, hc, ?_⟩
    rcases hfed with ⟨other, hother, hstdin⟩ | ⟨-, hfree, -⟩
    · rw [hstdin, ← index_eq h.nodup hother]
      rfl
    · exact absurd (List.mem_of_getElem? hpipe) hfree
  · intro t m r i c ht hr hc hstdin
    obtain ⟨pipe, hpipe⟩ := h.targeted ht
    rw [index_eq h.nodup hpipe] at hstdin
    exact source_eq_target ((h.log m r hr i c hc).stdin.source_eq hpipe hstdin)
  · intro l r i c d hr hc hd
    have hi : i + 1 < r.children.length := (List.getElem?_eq_some_iff.mp hd).1
    obtain ⟨pipe, hpipe, hstdout⟩ := (h.log l r hr i c hc).stdout (.join l i) (if_pos hi)
    rw [index_eq h.nodup hpipe]
    refine ⟨hstdout, ?_⟩
    rcases (h.log l r hr (i + 1) d hd).stdin with ⟨other, hother, hstdin⟩ | ⟨hzero, -⟩
    · rw [hstdin, ← index_eq h.nodup hother, ← index_eq h.nodup hpipe]
      rfl
    · omega
  · intro l r i m r' j c hr hi hr' hc
    obtain ⟨pipe, hpipe⟩ := h.joined hr hi
    rw [index_eq h.nodup hpipe]
    have hserved := h.log m r' hr' j c hc
    constructor
    · intro hstdin
      exact source_eq_join (hserved.stdin.source_eq hpipe hstdin)
    · intro hwrites
      have hsink := hserved.sink_eq hpipe hwrites
      unfold Record.sink at hsink
      split at hsink
      next =>
        simp only [Option.some.injEq, Purpose.join.injEq] at hsink
        exact hsink
      next => simp at hsink
  · intro t r ht hr
    obtain ⟨c, hc, hfed⟩ := h.first hr
    refine ⟨c, hc, ?_⟩
    rcases hfed with ⟨pipe, hpipe, -⟩ | ⟨-, -, hstdin⟩
    · exact absurd (h.targets t (List.mem_of_getElem? hpipe)) ht
    · exact hstdin

end Deliver

/-- The pipes of a run whose steps are all steady lead where its lines say. -/
theorem pipelines_delivered (es : List Event) (st : Session)
    (hsteady : Meets next Session.initial (fun _ st e => Steady st e) es)
    (hrun : exec next Session.initial es = some st) :
    (st.input = [] → st.log.map Record.line = countedLines es) ∧
      ∃ numbered ordinary, Delivered st.log numbered ordinary := by
  obtain ⟨purposes, hwired, hlines⟩ := wired_run es st hsteady hrun
  refine ⟨?_, _, _, hwired.delivered⟩
  intro hinput
  rw [← hlines, Session.lines, if_pos (.inl hinput), List.append_nil]

def succeed (fd : Nat) : Calls := ⟨false, (fd, fd + 1), true, true⟩

def listedThenJoined : List Event :=
  [.line "ls |1".toList, .round (succeed 3), .line "cat | cat".toList, .round (succeed 4),
    .round (succeed 6)]

theorem steady_listedThenJoined :
    Meets next Session.initial (fun _ st e => Steady st e) listedThenJoined := by
  have hlist : Readable Shell.initial "ls |1".toList :=
    .inr (.inr ⟨⟨"ls ".toList, [], some ('|', 1)⟩, by decide +kernel, by decide, by simp⟩)
  have hroom : ∀ st ∈ exec next Session.initial (listedThenJoined.take 2),
      st.shell.pipeStack.tail.head?.join = none := by decide +kernel
  have hclear : ∀ i : Fin 5, ∀ st ∈ exec next Session.initial (listedThenJoined.take i),
      ∀ calls ∈ [succeed 3, succeed 4, succeed 6], Clear st.shell calls := by decide +kernel
  have hjoined : ∀ st ∈ exec next Session.initial (listedThenJoined.take 2),
      Readable st.shell "cat | cat".toList := fun st hst =>
    .inr (.inr ⟨⟨"cat ".toList, [" cat".toList], none⟩, by decide +kernel, by decide,
      fun _ => hroom st hst⟩)
  rw [meets_iff_take]
  rintro ⟨i, hi⟩ st hst
  have hlt : i < 5 := hi
  interval_cases i
  · cases hst
    exact hlist
  · exact .inr (hclear 1 st hst _ (by simp))
  · exact hjoined st hst
  · exact .inr (hclear 3 st hst _ (by simp))
  · exact .inr (hclear 4 st hst _ (by simp))

theorem pipelines_delivered_listedThenJoined :
    ∃ st, exec next Session.initial listedThenJoined = some st ∧
      ((st.input = [] → st.log.map Record.line = countedLines listedThenJoined) ∧
        ∃ numbered ordinary, Delivered st.log numbered ordinary) := by
  have hsome : (exec next Session.initial listedThenJoined).isSome := by decide +kernel
  have hrun := Option.eq_some_of_isSome hsome
  exact ⟨_, hrun, pipelines_delivered listedThenJoined _ steady_listedThenJoined hrun⟩

/-- The ordinary pipe of the second line is put on the pipe that waits for the third. -/
def joinedOnto : List Event :=
  [.line "ls |2".toList, .round (succeed 3), .line "ls | cat".toList, .round (succeed 5),
    .round (succeed 4), .line "cat".toList, .round (succeed 4)]

/-- The third line is the target of the first, but reads no pipe. -/
theorem joined_onto_waiting : ∃ st, exec next Session.initial joinedOnto = some st ∧
    st.input = [] ∧ ¬ ∃ numbered ordinary, Delivered st.log numbered ordinary := by
  have hlog : (exec next Session.initial joinedOnto).map (fun st => (st.input, st.log.map fun r =>
      (r.line, r.children.map Child.stdin))) = some ([],
      [("ls |2".toList, [some .terminal]), ("ls | cat".toList, [some .terminal, some (.readEnd 0)]),
        ("cat".toList, [some .terminal])]) := by decide +kernel
  obtain ⟨st, hrun, hst⟩ := Option.map_eq_some_iff.mp hlog
  rw [Prod.mk.injEq] at hst
  refine ⟨st, hrun, hst.1, ?_⟩
  rintro ⟨numbered, ordinary, hdelivered⟩
  have hplaces := hst.2
  have hlength := congrArg List.length hplaces
  rw [List.length_map] at hlength
  obtain ⟨r₁, r₂, r₃, hrecords⟩ := List.length_eq_three.mp hlength
  rw [hrecords] at hplaces hdelivered
  simp only [List.map_cons, List.map_nil, List.cons.injEq, Prod.mk.injEq, and_true] at hplaces
  have hnumber : endNumber "ls |2".toList = some 2 := by decide +kernel
  obtain ⟨c, hc, hstdin⟩ := hdelivered.reads 2 r₃
    ⟨0, r₁, 2, rfl, hplaces.1.1 ▸ hnumber, rfl⟩ rfl
  have hmap := congrArg List.head? hplaces.2.2.2
  rw [List.head?_map, hc] at hmap
  simp [hstdin] at hmap

end NetworkProgramming.Npshell
