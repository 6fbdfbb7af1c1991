import NetworkProgramming.Npshell.InnerLoop

/-! The processes that run `main`: the shell, and whatever else comes back from
`executeCMD`. -/
namespace NetworkProgramming.Npshell
open Library.CString Library.Run

/-- How a process behind `fork` leaves `executeCMD`. -/
inductive Fate where
  | program (child : Child)
  | exit (status : Int)
  | returns (s : Shell)

/-- `EXEC_ERRNO` -/
def execErrno : Int := 9

/-- The end of `callExecs`: the program, or `exit` where none could be started. -/
def Child.fate (c : Child) (execs : Bool) : Fate := if execs then .program c else .exit execErrno

/-- The process that one call of `executeCMD` forks. Where the file of a `>` cannot be
opened, it returns with the name still in `_buf`. -/
def forked (s : Shell) (cmdStr : Text) (calls : Calls) (execs : Bool) : Option Fate :=
  match executeCMD s cmdStr calls with
  | some (_, .ran child) => some (child.fate execs)
  | some (_, .returned) => some (.returns (getPipe (stored s cmdStr)).1)
  | _ => none

/-- The rest of a round in `main`, behind `executeCMD`. -/
def goOn (st : Session) (s : Shell) (o : Outcome) : Session :=
  let st := { st with
    shell := cleanPipes { s with buf := [] }
    input := s.buf
    outcomes := st.outcomes ++ [o] }
  if st.input = [] then st.finish else st

inductive Action where
  | line (text : Text)
  | round (calls : Calls) (execs : Bool)

/-- The processes that run `main`, the newest first: one that forked another waits for
its end, and goes on when it calls `exit`. -/
def step : List Session → Action → Option (List Session)
  | [], _ => none
  | st :: waiting, .line text => (next st (.line text)).map (· :: waiting)
  | st :: waiting, .round calls execs =>
    match executeCMD st.shell st.input calls with
    | some (_, .exit) => some waiting
    | _ => (next st (.round calls)).map fun parent =>
      match forked st.shell st.input calls execs with
      | some (.returns s) => goOn st s .returned :: parent :: waiting
      | _ => parent :: waiting

/-- No more than one process runs `main`, and the one that is forked ends. -/
def Single (shells : List Session) : Action → Prop
  | .line _ => shells.length ≤ 1
  | .round calls execs => shells.length ≤ 1 ∧
      ∀ st ∈ shells.head?, ∀ s, forked st.shell st.input calls execs ≠ some (.returns s)

/-- The round of a `>` whose file cannot be opened. -/
def OpenFails (shells : List Session) : Action → Prop
  | .line _ => False
  | .round calls _ => calls.opens = false ∧ ∃ st ∈ shells.head?, (readCommand st.input).n = 3 ∧
      (readCommand st.input).numPipe = 0 ∧ (readCommand st.input).symbolMeth.head? = some '>'

variable {s s' : Shell} {text : Text} {calls : Calls} {execs : Bool} {st : Session} {o : Outcome}
  {shells shells' : List Session} {a : Action}

theorem fate_ne_returns (c : Child) : c.fate execs ≠ .returns s := by
  unfold Child.fate
  split <;> simp

/-- Only the child of a `>` comes back, and only without its file. -/
theorem executeCMD_returned (h : executeCMD s text calls = some (s', o)) :
    o = .returned ↔ calls.opens = false ∧ (readCommand text).n = 3 ∧
      (readCommand text).numPipe = 0 ∧ (readCommand text).symbolMeth.head? = some '>' := by
  cases executeCMD_turn h with
  | nothing hn => simp [hn]
  | misread hn =>
    refine iff_of_false (by simp) ?_
    omega
  | builtin o hn hop ho herror hnotice =>
    refine iff_of_false ?_ (by omega)
    rw [hnotice]
    unfold builtinOutcome
    dsimp only
    split_ifs
    all_goals simp
  | last c hn => simp [hn]
  | numbered s' pipe c o hn hnumber hpipe hc ho =>
    refine iff_of_false ?_ (by omega)
    rw [ho]
    split <;> simp
  | ordinary s' pipe c hn hnumber hsymbol => simp [hsymbol]
  | redirected c o hn hnumber hsymbol hc hfile ho =>
    rw [ho, hn, hnumber, hsymbol]
    cases calls.opens <;> simp
  | refused hn hmark => simp [hmark.2.2]

theorem forked_returns : (∃ s', forked s text calls execs = some (.returns s')) ↔
    ∃ s', executeCMD s text calls = some (s', .returned) := by
  unfold forked
  constructor
  · rintro ⟨s', h⟩
    split at h
    next child _ =>
      rw [Option.some.injEq] at h
      exact absurd h (fate_ne_returns child)
    next s'' hround => exact ⟨s'', hround⟩
    next => contradiction
  · rintro ⟨s', h⟩
    rw [h]
    exact ⟨_, rfl⟩

theorem openFails_of_forked {waiting : List Session}
    (h : forked st.shell st.input calls execs = some (.returns s)) :
    OpenFails (st :: waiting) (.round calls execs) := by
  obtain ⟨s', hround⟩ := forked_returns.mp ⟨s, h⟩
  obtain ⟨hopens, hn, hnumber, hsymbol⟩ := (executeCMD_returned hround).mp rfl
  exact ⟨hopens, st, rfl, hn, hnumber, hsymbol⟩

theorem step_length (h : step shells a = some shells') (hopens : ¬ OpenFails shells a) :
    shells'.length ≤ shells.length := by
  cases shells with
  | nil => contradiction
  | cons st waiting =>
    cases a with
    | line text =>
      obtain ⟨st', -, rfl⟩ := Option.map_eq_some_iff.mp h
      exact Nat.le_refl _
    | round calls execs =>
      rw [step] at h
      split at h
      next =>
        obtain rfl := Option.some.inj h
        exact Nat.le_succ _
      next =>
        obtain ⟨parent, -, rfl⟩ := Option.map_eq_some_iff.mp h
        split
        next s hforked => exact absurd (openFails_of_forked hforked) hopens
        next => exact Nat.le_refl _

theorem single_of_opens (hlength : shells.length ≤ 1) (hopens : ¬ OpenFails shells a) :
    Single shells a := by
  cases a with
  | line text => exact hlength
  | round calls execs =>
    refine ⟨hlength, fun st hst s hforked => ?_⟩
    cases shells with
    | nil => contradiction
    | cons front waiting =>
      obtain rfl : front = st := by simpa using hst
      exact hopens (openFails_of_forked hforked)

theorem forked_of_openFails (h : step shells a = some shells') (hfails : OpenFails shells a) :
    ¬ Single shells a := by
  cases a with
  | line text => contradiction
  | round calls execs =>
    obtain ⟨hopens, st, hst, hn, hnumber, hsymbol⟩ := hfails
    cases shells with
    | nil => contradiction
    | cons front waiting =>
      obtain rfl : front = st := by simpa using hst
      have hround : ∃ s o, executeCMD front.shell front.input calls = some (s, o) := by
        rw [step] at h
        split at h
        next s hround => exact ⟨s, .exit, hround⟩
        next =>
          obtain ⟨parent, hnext, -⟩ := Option.map_eq_some_iff.mp h
          obtain ⟨s, o, hround, -⟩ := next_round hnext
          exact ⟨s, o, hround⟩
      obtain ⟨s, o, hround⟩ := hround
      obtain rfl := (executeCMD_returned hround).mpr ⟨hopens, hn, hnumber, hsymbol⟩
      obtain ⟨s', hforked⟩ := forked_returns.mpr ⟨s, hround⟩
      rintro ⟨-, hends⟩
      exact hends front rfl s' hforked

/-- Over a run, one process runs `main` and each that it forks ends, exactly as long
as every file behind a `>` can be opened. -/
theorem single_shell_iff (es : List Action) (shells : List Session)
    (hrun : exec step [Session.initial] es = some shells) :
    (Meets step [Session.initial] (fun _ shells a => Single shells a) es ∧ shells.length ≤ 1) ↔
      Meets step [Session.initial] (fun _ shells a => ¬ OpenFails shells a) es := by
  constructor
  · rintro ⟨hsingle, -⟩ before a after s heq hs hfails
    have hlast := hsingle before a after s heq hs
    rw [heq, exec_append, hs, Option.bind_some, exec] at hrun
    obtain ⟨s', hstep, -⟩ := Option.bind_eq_some_iff.mp hrun
    exact forked_of_openFails hstep hfails hlast
  · intro hopens
    have hlength : ∀ es shells, Meets step [Session.initial]
        (fun _ shells a => ¬ OpenFails shells a) es →
        exec step [Session.initial] es = some shells → shells.length ≤ 1 := by
      intro es shells hmeets hrun
      refine invariant (I := fun _ shells => shells.length ≤ 1) (Nat.le_refl 1) ?_ es hmeets shells hrun
      intro _ shells a shells' _ hone hopens hstep
      exact (step_length hstep hopens).trans hone
    refine ⟨?_, hlength es shells hopens hrun⟩
    intro before a after s heq hs
    subst heq
    exact single_of_opens (hlength before s hopens.left hs) (hopens before a after s rfl hs)

/-- The events of `ls > out`, and another line. -/
theorem single_shell_iff_created : ∃ shells,
    exec step [Session.initial] [.line "ls > out".toList, .round (lowestCalls 3) true,
      .line "date".toList] = some shells ∧
    (Meets step [Session.initial] (fun _ shells a => Single shells a) [.line "ls > out".toList,
        .round (lowestCalls 3) true, .line "date".toList] ∧ shells.length ≤ 1 ↔
      Meets step [Session.initial] (fun _ shells a => ¬ OpenFails shells a) [.line "ls > out".toList,
        .round (lowestCalls 3) true, .line "date".toList]) := by
  have hsome : (exec step [Session.initial] [.line "ls > out".toList,
      .round (lowestCalls 3) true, .line "date".toList]).isSome := by decide +kernel
  have hrun := Option.eq_some_of_isSome hsome
  exact ⟨_, hrun, single_shell_iff _ _ hrun⟩

def failingOpen : Calls := ⟨false, (3, 4), true, false⟩

/-- `ls > /`: the child comes back, takes the name for a command, and reads the line
behind it while the shell waits. -/
theorem second_shell_reads : ∃ child parent,
    exec step [Session.initial] [.line "ls > /".toList, .round failingOpen true,
      .round failingOpen true, .line "date".toList] = some [child, parent] ∧
    child.line = "date".toList ∧
    ¬ Meets step [Session.initial] (fun _ shells a => Single shells a) [.line "ls > /".toList,
      .round failingOpen true, .round failingOpen true, .line "date".toList] := by
  have hfacts : (exec step [Session.initial] [.line "ls > /".toList, .round failingOpen true,
      .round failingOpen true, .line "date".toList]).map (fun shells =>
        (shells.length, shells.head?.map Session.line)) = some (2, some "date".toList) := by
    decide +kernel
  obtain ⟨shells, hrun, hshells⟩ := Option.map_eq_some_iff.mp hfacts
  rw [Prod.mk.injEq] at hshells
  obtain ⟨child, parent, rfl⟩ := List.length_eq_two.mp hshells.1
  refine ⟨child, parent, hrun, by simpa using hshells.2, fun hsingle => ?_⟩
  have htwo : (exec step [Session.initial] [.line "ls > /".toList, .round failingOpen true,
      .round failingOpen true]).map List.length = some 2 := by decide +kernel
  obtain ⟨before, hbefore, hlength⟩ := Option.map_eq_some_iff.mp htwo
  have hone : before.length ≤ 1 := hsingle [.line "ls > /".toList, .round failingOpen true,
    .round failingOpen true] (.line "date".toList) [] before rfl hbefore
  omega

end NetworkProgramming.Npshell
