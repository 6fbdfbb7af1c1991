import NetworkProgramming.Library.Run
import NetworkProgramming.Npshell.Exec

/-! `main`: the lines that are read, and the rounds of the inner loop. -/
namespace NetworkProgramming.Npshell
open Library.CString

/-- A line whose rounds all ran a child. -/
structure Record where
  line : Text
  children : List Child
  deriving DecidableEq, Repr

/-- The process with its `inputBuffer`, the line it reads at present with what
became of its texts so far, and the lines that ran. -/
structure Session where
  shell : Shell
  input : Text
  line : Text
  outcomes : List Outcome
  log : List Record

def Session.initial : Session := ⟨Shell.initial, [], [], [], []⟩

inductive Event where
  | line (text : Text)
  | round (calls : Calls)

def Outcome.child : Outcome → Option Child
  | .ran child => some child
  | _ => none

def Session.finish (st : Session) : Session :=
  match st.outcomes.mapM Outcome.child with
  | some (c :: children) => { st with log := st.log ++ [⟨st.line, c :: children⟩] }
  | _ => st

/-- `cin.getline` when the inner loop is over, or one of its rounds: the text
left in `_buf` is the input of the next one. -/
def next (st : Session) : Event → Option Session
  | .line text =>
    if st.input = [] then
      some { st with shell := cleanPipes st.shell, input := text, line := text, outcomes := [] }
    else none
  | .round calls =>
    if st.input = [] then none
    else
      match executeCMD st.shell st.input calls with
      | none => none
      | some (_, .exit) => none
      | some (s, o) =>
        let st := { st with
          shell := cleanPipes { s with buf := [] }
          input := s.buf
          outcomes := st.outcomes ++ [o] }
        some (if st.input = [] then st.finish else st)

variable {st st' : Session} {text : Text} {calls : Calls}

theorem next_line (h : next st (.line text) = some st') : st.input = [] ∧
    st' = { st with shell := cleanPipes st.shell, input := text, line := text, outcomes := [] } := by
  simp only [next] at h
  split at h
  next hinput =>
    simp only [Option.some.injEq] at h
    exact ⟨hinput, h.symm⟩
  next => contradiction

theorem next_round (h : next st (.round calls) = some st') : ∃ s' o,
    executeCMD st.shell st.input calls = some (s', o) ∧ st.input ≠ [] ∧
      st' = if s'.buf = [] then
          Session.finish ⟨cleanPipes { s' with buf := [] }, s'.buf, st.line, st.outcomes ++ [o], st.log⟩
        else ⟨cleanPipes { s' with buf := [] }, s'.buf, st.line, st.outcomes ++ [o], st.log⟩ := by
  simp only [next] at h
  split at h
  next => contradiction
  next hinput =>
    split at h
    next => contradiction
    next => contradiction
    next s' o _ hround =>
      simp only [Option.some.injEq] at h
      exact ⟨s', o, hround, hinput, h.symm⟩

theorem finish_shell (st : Session) : st.finish.shell = st.shell ∧ st.finish.input = st.input := by
  unfold Session.finish
  split <;> exact ⟨rfl, rfl⟩

end NetworkProgramming.Npshell
