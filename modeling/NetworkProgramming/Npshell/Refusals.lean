import NetworkProgramming.Npshell.InnerLoop

/-! What `executeCMD` has done by the time it prints `input Error~`, and what becomes of
the rest of the line. -/
namespace NetworkProgramming.Npshell
open Library.CString Library.Descriptors Library.Run

/-- The inner loop takes up no command any more: whatever the calls come to, each text
that is left is answered with the error. -/
def RunsNothing (st : Session) : Prop :=
  ∀ (rounds : List Calls) (st' : Session) (calls : Calls) (s : Shell) (o : Outcome),
    exec next st (rounds.map .round) = some st' → st'.input ≠ [] →
      executeCMD st'.shell st'.input calls = some (s, o) → o = .error

/-- The shell `s` behind a text that was refused is as it was, and the rest of the
text comes to nothing. -/
structure RefusedWhole (st : Session) (calls : Calls) (s : Shell) : Prop where
  pipeStack : s.pipeStack = st.shell.pipeStack
  recycle : s.recycle = st.shell.recycle
  files : s.files = st.shell.files
  rest : ∀ st', next st (.round calls) = some st' → RunsNothing st'

/-- A text without a command that is run: each part of it is refused, or has a negative
number, for which the padding never ends. -/
inductive Fruitless : Text → Prop
  | nil : Fruitless []
  | refused (text : Text) (h : Refuses text) (hrest : Fruitless (leftOver text)) : Fruitless text
  | endless (text : Text) (h : (readCommand text).numPipe < 0) : Fruitless text

variable {st st' : Session} {s s' : Shell} {text : Text} {calls : Calls} {o : Outcome}

theorem bounded_next {e : Event} (h : Bounded st.shell.files) (hstep : next st e = some st') :
    Bounded st'.shell.files :=
  files_next (fun _ fd h => h.close fd) (fun _ fds pipe h => h.openPipe fds pipe) h hstep

theorem bounded_run (es : List Event) (h : exec next Session.initial es = some st) :
    Bounded st.shell.files := by
  refine files_run (fun _ fd h => h.close fd) (fun _ fds pipe h => h.openPipe fds pipe) ⟨3, ?_⟩ es h
  intro fd hfd
  exact if_neg (by omega)

theorem exists_answered (h : Bounded s.files) (text : Text) : ∃ calls, Answered s text calls := by
  obtain ⟨fds, hfds⟩ := (getPipe_files (fun _ fd h => h.close fd) h : Bounded _).unused
  exact ⟨⟨false, fds, true, true⟩, fun _ => hfds⟩

theorem Fruitless.round (h : Fruitless text) (hne : text ≠ [])
    (hround : executeCMD s text calls = some (s', o)) : o = .error ∧ Fruitless (leftOver text) := by
  cases h with
  | nil => contradiction
  | refused _ hrefuses hrest => exact ⟨(executeCMD_error_iff hround).mpr hrefuses, hrest⟩
  | endless _ hneg =>
    rw [executeCMD_negative hneg] at hround
    contradiction

theorem Fruitless.runsNothing (h : Fruitless st.input) (hbuf : st.shell.buf = []) :
    RunsNothing st := by
  intro rounds st' calls s o hrounds hne hround
  rw [← exec_map] at hrounds
  have hkept := invariant_always (I := fun _ st => Fruitless st.input ∧ st.shell.buf = [])
    ⟨h, hbuf⟩ (fun _ s calls s' _ h hstep => by
      obtain ⟨_, o, hround, -, hinput, -⟩ := next_round_leftOver hstep h.2
      obtain ⟨-, -, -, hne, -⟩ := next_round hstep
      rw [hinput]
      exact ⟨(h.1.round hne hround).2, buf_next hstep h.2⟩) rounds st' hrounds
  exact (hkept.1.round hne hround).1

theorem RunsNothing.next (h : RunsNothing st) (hstep : next st (.round calls) = some st') :
    RunsNothing st' := by
  intro rounds st'' calls' s o hrounds
  apply h (calls :: rounds) st'' calls' s o
  rw [List.map_cons, exec, hstep]
  exact hrounds

theorem RunsNothing.fruitless (h : RunsNothing st) (hbuf : st.shell.buf = [])
    (hbounded : Bounded st.shell.files) : Fruitless st.input := by
  generalize hlength : st.input.length = length
  induction length using Nat.strong_induction_on generalizing st with
  | _ length ih =>
    by_cases hnil : st.input = []
    · rw [hnil]
      exact .nil
    by_cases hneg : (readCommand st.input).numPipe < 0
    · exact .endless _ hneg
    obtain ⟨calls, hanswered⟩ := exists_answered hbounded st.input
    obtain ⟨⟨s, o⟩, hround⟩ := (executeCMD_returns hanswered).mpr (by omega)
    have herror : o = .error := h [] st calls s o rfl hnil hround
    obtain ⟨st', hstep⟩ := next_returns hnil hround (by rw [herror]; simp)
    obtain ⟨_, _, -, -, hinput, -⟩ := next_round_leftOver hstep hbuf
    have hshort := leftOver_length hnil
    have hrest := ih st'.input.length (by rw [hinput]; omega) (h.next hstep) (buf_next hstep hbuf)
      (bounded_next hbounded hstep) rfl
    rw [hinput] at hrest
    exact .refused _ ((executeCMD_error_iff hround).mp herror) hrest

/-- What a refused text has cost: nothing, or what `getPipe` took. -/
theorem executeCMD_error (h : executeCMD s text calls = some (s', .error)) :
    ((readCommand text).n ≠ 3 ∧ s' = stored s text) ∨
      ((readCommand text).n = 3 ∧ s' = (getPipe (stored s text)).1) := by
  generalize ho : Outcome.error = o at h
  cases executeCMD_turn h with
  | misread hn => exact .inl ⟨by omega, rfl⟩
  | refused hn => exact .inr ⟨hn, rfl⟩
  | builtin o hn hop hchild herror => exact absurd ho.symm herror
  | numbered s' pipe c o hn hnumber hpipe hc ho' =>
    rw [← ho] at ho'
    split at ho' <;> contradiction
  | redirected c o hn hnumber hsymbol hc hfile ho' =>
    rw [← ho] at ho'
    split at ho' <;> contradiction
  | _ => contradiction

theorem getPipe_of_nil (h : s.pipeStack = []) : (getPipe s).1 = s := by
  unfold getPipe
  rw [h]

/-- A refused text changes nothing, and nothing of it is run, exactly when the patterns
do not read it to its end, or no pipe is listed and what is behind the `!` has no command. -/
theorem refused_whole_iff (es : List Event) (st : Session) (calls : Calls) (s : Shell)
    (hrun : exec next Session.initial es = some st)
    (hround : executeCMD st.shell st.input calls = some (s, .error)) :
    RefusedWhole st calls s ↔ (readCommand st.input).n ≠ 3 ∨
      (st.shell.pipeStack = [] ∧ Fruitless (leftOver st.input)) := by
  have hbuf := buf_run es hrun
  have hbounded := bounded_run es hrun
  have hnext : ∀ st', next st (.round calls) = some st' →
      st'.input = leftOver st.input ∧ st'.shell.buf = [] ∧ Bounded st'.shell.files := by
    intro st' hstep
    obtain ⟨_, _, -, -, hinput, -⟩ := next_round_leftOver hstep hbuf
    exact ⟨hinput, buf_next hstep hbuf, bounded_next hbounded hstep⟩
  constructor
  · intro h
    obtain ⟨hn, -⟩ | ⟨-, rfl⟩ := executeCMD_error hround
    · exact .inl hn
    have hstack := h.pipeStack
    rw [getPipe_stack] at hstack
    have hnil : st.shell.pipeStack = [] := by
      have hlength := congrArg List.length hstack
      rw [List.length_tail] at hlength
      have hshort : st.shell.pipeStack.length = 0 := by
        change st.shell.pipeStack.length - 1 = _ at hlength
        omega
      exact List.length_eq_zero_iff.mp hshort
    have hne : st.input ≠ [] := by
      intro hempty
      have hread := (executeCMD_error_iff hround).mp rfl
      rw [hempty] at hread
      exact absurd hread (by decide)
    obtain ⟨st', hstep⟩ := next_returns hne hround (by simp)
    obtain ⟨hinput, hbuf', hbounded'⟩ := hnext st' hstep
    have hrest := (h.rest st' hstep).fruitless hbuf' hbounded'
    rw [hinput] at hrest
    exact .inr ⟨hnil, hrest⟩
  · intro h
    have hrest : Fruitless (leftOver st.input) := by
      obtain hn | ⟨-, hrest⟩ := h
      · rw [leftOver, readCommand_buf (.inl hn), Option.getD_none, ite_self]
        exact .nil
      · exact hrest
    have hsame : s = stored st.shell st.input := by
      obtain ⟨-, rfl⟩ | ⟨hn, rfl⟩ := executeCMD_error hround
      · rfl
      · obtain hother | ⟨hnil, -⟩ := h
        · exact absurd hn hother
        · exact getPipe_of_nil hnil
    rw [hsame]
    refine ⟨rfl, rfl, rfl, fun st' hstep => ?_⟩
    obtain ⟨hinput, hbuf', -⟩ := hnext st' hstep
    apply Fruitless.runsNothing _ hbuf'
    rw [hinput]
    exact hrest

/-- `ls |1`, and then `cat !`, which is refused before the table is looked at: the pipe
that is due waits on. -/
theorem refused_whole_iff_pipeKept : ∃ st s,
    exec next Session.initial [.line "ls |1".toList, .round (lowestCalls 3),
      .line "cat !".toList] = some st ∧
    st.shell.pipeStack.length = 1 ∧
    executeCMD st.shell st.input (lowestCalls 5) = some (s, .error) ∧
    RefusedWhole st (lowestCalls 5) s := by
  have hfacts : (exec next Session.initial [.line "ls |1".toList, .round (lowestCalls 3),
      .line "cat !".toList]).map (fun st => (st.shell.pipeStack.length, (readCommand st.input).n,
        (executeCMD st.shell st.input (lowestCalls 5)).map Prod.snd)) =
      some (1, 2, some .error) := by decide +kernel
  obtain ⟨st, hrun, hst⟩ := Option.map_eq_some_iff.mp hfacts
  simp only [Prod.mk.injEq] at hst
  obtain ⟨hlength, hn, hround⟩ := hst
  obtain ⟨⟨s, o⟩, hround, rfl⟩ := Option.map_eq_some_iff.mp hround
  have hiff := refused_whole_iff _ st (lowestCalls 5) s hrun hround
  exact ⟨st, s, hrun, hlength, hround, hiff.mpr (.inl (by omega))⟩

/-- `ls |1`, and then `cat ! foo`: the pipe that is due is gone, and `foo` is run. -/
theorem refused_line_costs_pipe : ∃ st s,
    exec next Session.initial [.line "ls |1".toList, .round (lowestCalls 3),
      .line "cat ! foo".toList] = some st ∧
    executeCMD st.shell st.input (lowestCalls 5) = some (s, .error) ∧
    ¬ RefusedWhole st (lowestCalls 5) s := by
  have hfacts : (exec next Session.initial [.line "ls |1".toList, .round (lowestCalls 3),
      .line "cat ! foo".toList]).map (fun st => (st.shell.pipeStack.length,
        (executeCMD st.shell st.input (lowestCalls 5)).map fun r => (r.1.pipeStack.length, r.2))) =
      some (1, some (0, .error)) := by decide +kernel
  obtain ⟨st, hrun, hst⟩ := Option.map_eq_some_iff.mp hfacts
  rw [Prod.mk.injEq] at hst
  obtain ⟨⟨s, o⟩, hround, hs⟩ := Option.map_eq_some_iff.mp hst.2
  rw [Prod.mk.injEq] at hs
  obtain ⟨hlength, rfl⟩ := hs
  refine ⟨st, s, hrun, hround, fun h => ?_⟩
  have hsame := congrArg List.length h.pipeStack
  have hone := hst.1
  dsimp only at hlength hone
  omega

end NetworkProgramming.Npshell
