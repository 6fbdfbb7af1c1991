import NetworkProgramming.Npshell.Purposes
import NetworkProgramming.Npshell.Session
import Mathlib.Data.List.Count

/-! Who owns the numbers that `getPipe` and `cleanPipes` close. -/
namespace NetworkProgramming.Npshell
open Library.CString Library.Descriptors Library.Run

/-- A call of `close`: the descriptors before it, its number, and the end of a
pipe that it is meant to close. -/
structure Closing where
  files : Table
  fd : Int
  file : File

/-- The number still belongs to the end that is meant. -/
def Closing.Own (c : Closing) : Prop := c.files c.fd = some c.file

instance (c : Closing) : Decidable c.Own := by
  unfold Closing.Own
  infer_instance

/-- The calls of `getPipe`. -/
def getPipeCloses (s : Shell) : List Closing :=
  match s.pipeStack with
  | some pipe :: _ => [⟨s.files, pipe.fds.2, .writeEnd pipe.id⟩]
  | _ => []

/-- The calls of the loop of `cleanPipes`. -/
def closeOldestCloses (files : Table) : List Pipe → List Closing
  | [] => []
  | pipe :: rest =>
    if (pipe :: rest).length > 10 then
      ⟨files, pipe.fds.1, .readEnd pipe.id⟩ ::
        ⟨close files pipe.fds.1, pipe.fds.2, .writeEnd pipe.id⟩ ::
        closeOldestCloses (close (close files pipe.fds.1) pipe.fds.2) rest
    else []

def cleanPipesCloses (s : Shell) : List Closing := closeOldestCloses s.files s.recycle

/-- `makeNewPipe` cleans up when `pipe` fails at first. -/
def makeNewPipeCloses (s : Shell) (calls : Calls) : List Closing :=
  if calls.pipeFails then cleanPipesCloses s else []

/-- The text is a command for a child, so `getPipe` is called. -/
def Pops (s : Shell) (cmdStr : Text) : Prop :=
  let reading := readCommand cmdStr
  let op := (scanOperation (reading.instruction.getD s.instruction)).1
  reading.n = 3 ∨ reading.n = 1 ∧
    ¬ (op = "setenv".toList ∨ op = "printenv".toList ∨ op = "exit".toList)

instance (s : Shell) (cmdStr : Text) : Decidable (Pops s cmdStr) := by
  unfold Pops
  infer_instance

def Makes (s : Shell) (cmdStr : Text) : Prop :=
  let reading := readCommand cmdStr
  reading.n = 3 ∧
    if reading.numPipe ≠ 0 then
      (padStack (getPipe s).1.pipeStack reading.numPipe).bind (·[toSize (reading.numPipe - 1)]?) =
        some none
    else reading.symbolMeth.head? = some '|' ∧ (getPipe s).1.pipeStack.head?.join = none

instance (s : Shell) (cmdStr : Text) : Decidable (Makes s cmdStr) := by
  unfold Makes
  infer_instance

/-- The calls of `executeCMD`. -/
def executeCloses (s : Shell) (cmdStr : Text) (calls : Calls) : List Closing :=
  (if Pops s cmdStr then getPipeCloses s else []) ++
    if Makes s cmdStr then makeNewPipeCloses (getPipe s).1 calls else []

/-- The calls of one step of `main`. -/
def closes (st : Session) : Event → List Closing
  | .line _ => cleanPipesCloses st.shell
  | .round calls =>
    executeCloses st.shell st.input calls ++
      match executeCMD st.shell st.input calls with
      | some (s, _) => cleanPipesCloses s
      | none => []

def moments (st : Session) : Event → List Shell
  | .line _ => [cleanPipes st.shell]
  | .round calls =>
    (if Pops st.shell st.input then [(getPipe st.shell).1] else []) ++
      match executeCMD st.shell st.input calls with
      | some (s, _) => [s, cleanPipes s]
      | none => []

/-- In one step, every number that is closed belongs to the pipe that is closed,
and every pipe that waits keeps both of its own. -/
structure Clean (st : Session) (e : Event) : Prop where
  closes : ∀ c ∈ closes st e, c.Own
  owned : ∀ s ∈ moments st e, ∀ pipe, some pipe ∈ s.pipeStack → Owned s.files pipe

/-- A pipe is popped while ten popped ones are kept. -/
def Overfills (st : Session) : Event → Prop
  | .line _ => False
  | .round _ => Pops st.shell st.input ∧ 10 < (getPipe st.shell).1.recycle.length

instance (st : Session) (e : Event) : Decidable (Overfills st e) := by
  unfold Overfills
  split <;> infer_instance

/-- The pipes in the stack are the same, whatever null pointers stand between. -/
def SamePipes (stack stack' : List (Option Pipe)) : Prop :=
  ∀ q : Option Pipe → Bool, q none = false → stack'.countP q = stack.countP q

def AddedPipe (stack stack' : List (Option Pipe)) (pipe : Pipe) : Prop :=
  ∀ q : Option Pipe → Bool, q none = false →
    stack'.countP q = stack.countP q + if q (some pipe) then 1 else 0

structure Untouched (s s' : Shell) : Prop where
  files : s'.files = s.files
  recycle : s'.recycle = s.recycle
  made : s'.made = s.made
  stack : SamePipes s.pipeStack s'.pipeStack

def beforePipe (s : Shell) (calls : Calls) : Shell := if calls.pipeFails then cleanPipes s else s

structure Grew (s s' : Shell) (calls : Calls) : Prop where
  unused : Unused (beforePipe s calls).files calls.pipeFd
  files : s'.files = openPipe (beforePipe s calls).files calls.pipeFd s.made
  recycle : s'.recycle = (beforePipe s calls).recycle
  made : s'.made = s.made + 1
  stack : AddedPipe s.pipeStack s'.pipeStack ⟨s.made, calls.pipeFd⟩

/-- What one call of `executeCMD` makes of the pipes. -/
inductive PipeStep (s : Shell) (cmdStr : Text) (calls : Calls) (s' : Shell) : Prop where
  | kept (hpops : ¬ Pops s cmdStr) (hmakes : ¬ Makes s cmdStr) (h : Untouched s s')
  | popped (hpops : Pops s cmdStr) (hmakes : ¬ Makes s cmdStr) (h : Untouched (getPipe s).1 s')
  | made (hpops : Pops s cmdStr) (hmakes : Makes s cmdStr) (h : Grew (getPipe s).1 s' calls)

variable {s s' : Shell} {calls : Calls} {pipe : Pipe} {stack : List (Option Pipe)} {o : Outcome}
  {cmdStr : Text}

theorem SamePipes.refl (stack : List (Option Pipe)) : SamePipes stack stack := fun _ _ => rfl

theorem samePipes_pad (stack : List (Option Pipe)) (m : Nat) :
    SamePipes stack (stack ++ List.replicate m none) := by
  intro q hq
  rw [List.countP_append, List.countP_replicate, hq]
  rfl

theorem addedPipe_set {i : Nat} (h : stack[i]? = some none) :
    AddedPipe stack (stack.set i (some pipe)) pipe := by
  intro q hq
  obtain ⟨hi, hget⟩ := List.getElem?_eq_some_iff.mp h
  rw [List.countP_set hi, hget, hq]
  simp

theorem beforePipe_files (s : Shell) (calls : Calls) : (beforePipe s calls).files =
    if calls.pipeFails then (closeOldest s.files s.recycle).1 else s.files := by
  unfold beforePipe
  split <;> rfl

theorem beforePipe_recycle (s : Shell) (calls : Calls) : (beforePipe s calls).recycle =
    if calls.pipeFails then (closeOldest s.files s.recycle).2 else s.recycle := by
  unfold beforePipe
  split <;> rfl

/-- What was stored before `pipe` was called makes no difference. -/
theorem Untouched.grew (h : Untouched s s') {s'' : Shell} (hgrew : Grew s' s'' calls) :
    Grew s s'' calls := by
  have hfiles : (beforePipe s' calls).files = (beforePipe s calls).files := by
    rw [beforePipe_files, beforePipe_files, h.files, h.recycle]
  have hrecycle : (beforePipe s' calls).recycle = (beforePipe s calls).recycle := by
    rw [beforePipe_recycle, beforePipe_recycle, h.files, h.recycle]
  constructor
  · rw [← hfiles]
    exact hgrew.unused
  · rw [← hfiles, ← h.made]
    exact hgrew.files
  · rw [← hrecycle]
    exact hgrew.recycle
  · rw [← h.made]
    exact hgrew.made
  · intro q hq
    rw [hgrew.stack q hq, h.stack q hq, h.made]

theorem makeNewPipe_stack (h : makeNewPipe s calls = some (s', pipe)) :
    s'.pipeStack = s.pipeStack := by
  have hbefore : (beforePipe s calls).pipeStack = s.pipeStack := by
    unfold beforePipe
    split <;> rfl
  unfold makeNewPipe at h
  change (if Unused (beforePipe s calls).files calls.pipeFd then _ else none) = _ at h
  split at h
  next =>
    simp only [Option.some.injEq, Prod.mk.injEq] at h
    rw [← h.1]
    exact hbefore
  next => contradiction

theorem makeNewPipe_grew (h : makeNewPipe s calls = some (s', pipe))
    (hstack : AddedPipe s'.pipeStack stack pipe) :
    Grew s { s' with pipeStack := stack } calls := by
  have hbefore : (beforePipe s calls).pipeStack = s.pipeStack ∧
      (beforePipe s calls).made = s.made := by
    unfold beforePipe
    split <;> exact ⟨rfl, rfl⟩
  unfold makeNewPipe at h
  change (if Unused (beforePipe s calls).files calls.pipeFd then _ else none) = _ at h
  split at h
  next hunused =>
    simp only [Option.some.injEq, Prod.mk.injEq] at h
    obtain ⟨rfl, rfl⟩ := h
    constructor
    · exact hunused
    · rw [← hbefore.2]
      rfl
    · rfl
    · exact congrArg (· + 1) hbefore.2
    · intro q hq
      rw [← hbefore.1, ← hbefore.2]
      exact hstack q hq
  next => contradiction

theorem numberedPipe_step {n : Int} (h : numberedPipe s n calls = some (s', pipe)) :
    if (padStack s.pipeStack n).bind (·[toSize (n - 1)]?) = some none then Grew s s' calls
    else Untouched s s' := by
  unfold numberedPipe at h
  simp only [Option.bind_eq_bind, Option.bind_eq_some_iff] at h
  obtain ⟨padded, hpad, place, hplace, h⟩ := h
  have hsame : SamePipes s.pipeStack padded := by
    unfold padStack at hpad
    split at hpad
    next =>
      simp only [Option.some.injEq] at hpad
      rw [← hpad]
      exact samePipes_pad _ _
    next => contradiction
  rw [hpad, Option.bind_some, hplace]
  cases place with
  | some found =>
    simp only [Option.some.injEq, Prod.mk.injEq] at h
    obtain ⟨rfl, rfl⟩ := h
    rw [if_neg (by simp)]
    exact ⟨rfl, rfl, rfl, hsame⟩
  | none =>
    simp only [Option.bind_eq_some_iff, Option.some.injEq, Prod.mk.injEq, Prod.exists] at h
    obtain ⟨s'', new, hnew, rfl, rfl⟩ := h
    rw [if_pos rfl]
    have huntouched : Untouched s { s with pipeStack := padded } := ⟨rfl, rfl, rfl, hsame⟩
    have hkept : s''.pipeStack = padded := makeNewPipe_stack hnew
    exact huntouched.grew (makeNewPipe_grew hnew (addedPipe_set (hkept ▸ hplace)))

theorem ordinaryPipe_step (h : ordinaryPipe s calls = some (s', pipe)) :
    if s.pipeStack.head?.join = none then Grew s s' calls else Untouched s s' := by
  unfold ordinaryPipe at h
  split at h
  next front rest hfront =>
    simp only [Option.some.injEq, Prod.mk.injEq] at h
    obtain ⟨rfl, rfl⟩ := h
    rw [hfront, if_neg (by simp)]
    exact ⟨rfl, rfl, rfl, SamePipes.refl _⟩
  next hfront =>
    simp only [Option.map_eq_some_iff, Prod.mk.injEq, Prod.exists] at h
    obtain ⟨s'', new, hnew, rfl, rfl⟩ := h
    have hnone : s.pipeStack.head?.join = none := by
      cases hstack : s.pipeStack with
      | nil => rfl
      | cons front rest =>
        cases front with
        | none => rfl
        | some front => exact absurd hstack (hfront front rest)
    rw [if_pos hnone]
    apply makeNewPipe_grew hnew
    intro q hq
    rw [List.countP_cons, makeNewPipe_stack hnew]

theorem untouched_stored (s : Shell) (instruction buf : Text) :
    Untouched s { s with instruction := instruction, buf := buf } :=
  ⟨rfl, rfl, rfl, SamePipes.refl _⟩

theorem executeCMD_counted (h : executeCMD s cmdStr calls = some (s', o))
    (hthree : (readCommand cmdStr).n = 3) : PipeStep s cmdStr calls s' := by
  unfold executeCMD at h
  dsimp only at h
  rw [getPipe_reading] at h
  generalize hreading : readCommand cmdStr = reading at h hthree
  have hpops : Pops s cmdStr := .inl (by rw [hreading]; exact hthree)
  rw [hthree] at h
  simp only [Int.reduceNeg, Int.reduceEq, ↓reduceIte] at h
  split at h
  next hnumber =>
    simp only [Option.map_eq_some_iff, Prod.exists] at h
    obtain ⟨s'', pipe, hpipe, hs⟩ := h
    have hs'' : s'' = s' := by
      split at hs
      next => exact (Prod.mk.inj hs).1
      next => exact (Prod.mk.inj hs).1
    subst hs''
    have hmakesIff : Makes s cmdStr ↔ (padStack (getPipe s).1.pipeStack reading.numPipe).bind
        (·[toSize (reading.numPipe - 1)]?) = some none := by
      simp only [Makes, hreading, hthree, true_and, if_pos hnumber]
    have hstep := numberedPipe_step hpipe
    split at hstep
    next hnull => exact .made hpops (hmakesIff.mpr hnull) ((untouched_stored _ _ _).grew hstep)
    next hnull =>
      refine .popped hpops ?_ ⟨hstep.files, hstep.recycle, hstep.made, hstep.stack⟩
      exact fun hmakes => hnull (hmakesIff.mp hmakes)
  next hnumber =>
    have hmakesIff : Makes s cmdStr ↔ reading.symbolMeth.head? = some '|' ∧
        (getPipe s).1.pipeStack.head?.join = none := by
      simp only [Makes, hreading, hthree, true_and, if_neg hnumber]
    split at h
    next hbar =>
      simp only [Option.map_eq_some_iff, Prod.exists, Prod.mk.injEq] at h
      obtain ⟨s'', pipe, hpipe, rfl, -⟩ := h
      have hstep := ordinaryPipe_step hpipe
      split at hstep
      next hnull =>
        exact .made hpops (hmakesIff.mpr ⟨hbar, hnull⟩) ((untouched_stored _ _ _).grew hstep)
      next hnull =>
        refine .popped hpops ?_ ⟨hstep.files, hstep.recycle, hstep.made, hstep.stack⟩
        exact fun hmakes => hnull (hmakesIff.mp hmakes).2
    next hbar =>
      have hmakes : ¬ Makes s cmdStr := fun hmakes => hbar (hmakesIff.mp hmakes).1
      refine .popped hpops hmakes ?_
      split at h
      next =>
        split at h
        all_goals
          simp only [Option.some.injEq, Prod.mk.injEq] at h
          rw [← h.1]
          exact ⟨rfl, rfl, rfl, SamePipes.refl _⟩
      next =>
        simp only [Option.some.injEq, Prod.mk.injEq] at h
        rw [← h.1]
        exact untouched_stored _ _ _

theorem executeCMD_single (h : executeCMD s cmdStr calls = some (s', o))
    (hone : (readCommand cmdStr).n = 1) : PipeStep s cmdStr calls s' := by
  unfold executeCMD at h
  dsimp only at h
  rw [getPipe_reading] at h
  generalize hreading : readCommand cmdStr = reading at h hone
  generalize hop : scanOperation (reading.instruction.getD s.instruction) = op at h
  have hmakes : ¬ Makes s cmdStr := by
    rintro ⟨hn, -⟩
    rw [hreading, hone] at hn
    contradiction
  rw [hone] at h
  simp only [Int.reduceNeg, Int.reduceEq, ↓reduceIte] at h
  have hpopsIff : Pops s cmdStr ↔ ¬ (op.1 = "setenv".toList ∨ op.1 = "printenv".toList ∨
      op.1 = "exit".toList) := by
    simp only [Pops, hreading, hop, hone, Int.reduceEq, false_or, true_and]
  split at h
  next hsetenv =>
    simp only [Option.some.injEq, Prod.mk.injEq] at h
    rw [← h.1]
    exact .kept (fun hpops => hpopsIff.mp hpops (.inl hsetenv)) hmakes (untouched_stored _ _ _)
  next hsetenv =>
    split at h
    next hprintenv =>
      simp only [Option.some.injEq, Prod.mk.injEq] at h
      rw [← h.1]
      exact .kept (fun hpops => hpopsIff.mp hpops (.inr (.inl hprintenv))) hmakes
        (untouched_stored _ _ _)
    next hprintenv =>
      split at h
      next hexit =>
        simp only [Option.some.injEq, Prod.mk.injEq] at h
        rw [← h.1]
        exact .kept (fun hpops => hpopsIff.mp hpops (.inr (.inr hexit))) hmakes
          (untouched_stored _ _ _)
      next hexit =>
        simp only [Option.some.injEq, Prod.mk.injEq] at h
        rw [← h.1]
        refine .popped (hpopsIff.mpr ?_) hmakes (untouched_stored _ _ _)
        rintro (hop | hop | hop)
        · exact hsetenv hop
        · exact hprintenv hop
        · exact hexit hop

theorem executeCMD_step (h : executeCMD s cmdStr calls = some (s', o)) :
    PipeStep s cmdStr calls s' := by
  by_cases hthree : (readCommand cmdStr).n = 3
  · exact executeCMD_counted h hthree
  by_cases hone : (readCommand cmdStr).n = 1
  · exact executeCMD_single h hone
  unfold executeCMD at h
  dsimp only at h
  rw [getPipe_reading] at h
  generalize hreading : readCommand cmdStr = reading at h hthree hone
  have hmakes : ¬ Makes s cmdStr := by
    rintro ⟨hn, -⟩
    rw [hreading] at hn
    exact hthree hn
  have hpops : ¬ Pops s cmdStr := by
    unfold Pops
    rw [hreading]
    rintro (hn | ⟨hn, -⟩)
    · exact hthree hn
    · exact hone hn
  rw [if_neg hthree, if_neg hone] at h
  split at h
  all_goals
    simp only [Option.some.injEq, Prod.mk.injEq] at h
    rw [← h.1]
    exact .kept hpops hmakes (untouched_stored _ _ _)

/-- The numbers of a popped pipe are no longer those of its write end. -/
structure Dead (s : Shell) : Prop where
  stacked : ∀ pipe, some pipe ∈ s.pipeStack → pipe.id < s.made
  recycled : ∀ pipe ∈ s.recycle,
    pipe.id < s.made ∧ s.files pipe.fds.2 ≠ some (.writeEnd pipe.id)

structure Sole (s : Shell) : Prop where
  short : s.recycle.length ≤ 10
  stacked : ∀ pipe, some pipe ∈ s.pipeStack → pipe.id < s.made
  owned : ∀ pipe, some pipe ∈ s.pipeStack → Owned s.files pipe
  distinct : ∀ id, s.pipeStack.countP (fun o => o.any (·.id == id)) ≤ 1

theorem SamePipes.mem {stack' : List (Option Pipe)} (h : SamePipes stack stack') :
    some pipe ∈ stack' ↔ some pipe ∈ stack := by
  have hcount := h (· == some pipe) rfl
  rw [← List.count_pos_iff, ← List.count_pos_iff, List.count_eq_countP, List.count_eq_countP,
    hcount]

theorem AddedPipe.mem {stack' : List (Option Pipe)} {other : Pipe}
    (h : AddedPipe stack stack' pipe) (hmem : some other ∈ stack') :
    some other ∈ stack ∨ other = pipe := by
  have hcount := h (· == some other) rfl
  rw [← List.count_pos_iff, List.count_eq_countP, hcount, ← List.count_eq_countP] at hmem
  by_cases heq : other = pipe
  · exact .inr heq
  · rw [if_neg (by simpa using fun h => heq h.symm)] at hmem
    exact .inl (List.count_pos_iff.mp hmem)

section Dead

theorem closeOldest_none (files : Table) (recycle : List Pipe) (fd : Int) :
    (closeOldest files recycle).1 fd = files fd ∨ (closeOldest files recycle).1 fd = none := by
  induction recycle generalizing files with
  | nil => exact .inl rfl
  | cons pipe rest ih =>
    rw [closeOldest]
    split
    next =>
      rcases ih (close (close files pipe.fds.1) pipe.fds.2) with heq | hnone
      · rw [heq]
        by_cases hwrite : fd = pipe.fds.2
        · exact .inr (by rw [hwrite, close_self])
        · rw [close_of_ne hwrite]
          by_cases hread : fd = pipe.fds.1
          · exact .inr (by rw [hread, close_self])
          · exact .inl (close_of_ne hread)
      · exact .inr hnone
    next => exact .inl rfl

theorem Dead.initial : Dead Shell.initial := by
  constructor
  · intro pipe hpipe
    simp [Shell.initial] at hpipe
  · intro pipe hpipe
    simp [Shell.initial] at hpipe

theorem Dead.cleanPipes (h : Dead s) : Dead (cleanPipes s) := by
  constructor
  · exact h.stacked
  · intro pipe hpipe
    obtain ⟨hid, hfile⟩ := h.recycled pipe (cleanPipes_recycle hpipe)
    refine ⟨hid, ?_⟩
    rcases closeOldest_none s.files s.recycle pipe.fds.2 with heq | hnone
    · change (closeOldest s.files s.recycle).1 pipe.fds.2 ≠ _
      rw [heq]
      exact hfile
    · change (closeOldest s.files s.recycle).1 pipe.fds.2 ≠ _
      rw [hnone]
      simp

theorem Dead.getPipe (h : Dead s) : Dead (getPipe s).1 := by
  unfold Npshell.getPipe
  split
  next => exact h
  next hstack =>
    refine ⟨?_, h.recycled⟩
    intro pipe hpipe
    exact h.stacked pipe (by rw [hstack]; exact List.mem_cons_of_mem _ hpipe)
  next front rest hstack =>
    constructor
    · intro pipe hpipe
      exact h.stacked pipe (by rw [hstack]; exact List.mem_cons_of_mem _ hpipe)
    · intro pipe hpipe
      rw [List.mem_append, List.mem_singleton] at hpipe
      rcases hpipe with hold | rfl
      · obtain ⟨hid, hfile⟩ := h.recycled pipe hold
        refine ⟨hid, ?_⟩
        by_cases hfd : pipe.fds.2 = front.fds.2
        · simp [hfd]
        · change close s.files front.fds.2 pipe.fds.2 ≠ _
          rw [close_of_ne hfd]
          exact hfile
      · refine ⟨h.stacked pipe (by rw [hstack]; exact List.mem_cons_self ..), ?_⟩
        simp

theorem Dead.untouched (h : Dead s) (hsame : Untouched s s') : Dead s' := by
  constructor
  · intro pipe hpipe
    rw [hsame.made]
    exact h.stacked pipe (hsame.stack.mem.mp hpipe)
  · rw [hsame.recycle, hsame.made, hsame.files]
    exact h.recycled

theorem Dead.beforePipe (h : Dead s) (calls : Calls) : Dead (beforePipe s calls) := by
  unfold Npshell.beforePipe
  split
  next => exact h.cleanPipes
  next => exact h

theorem Grew.stacked (h : Grew s s' calls)
    (hids : ∀ pipe, some pipe ∈ s.pipeStack → pipe.id < s.made) :
    ∀ pipe, some pipe ∈ s'.pipeStack → pipe.id < s'.made := by
  intro pipe hpipe
  rw [h.made]
  rcases h.stack.mem hpipe with hold | rfl
  · exact Nat.lt_succ_of_lt (hids pipe hold)
  · exact Nat.lt_succ_self _

theorem Dead.grew (h : Dead s) (hgrew : Grew s s' calls) : Dead s' := by
  have hbefore := h.beforePipe calls
  have hmade : (Npshell.beforePipe s calls).made = s.made := by
    unfold Npshell.beforePipe
    split <;> rfl
  constructor
  · exact hgrew.stacked h.stacked
  · intro pipe hpipe
    rw [hgrew.recycle] at hpipe
    obtain ⟨hid, hfile⟩ := hbefore.recycled pipe hpipe
    rw [hmade] at hid
    refine ⟨by rw [hgrew.made]; exact Nat.lt_succ_of_lt hid, ?_⟩
    rw [hgrew.files, openPipe]
    by_cases hwrite : pipe.fds.2 = calls.pipeFd.2
    · rw [hwrite, Function.update_self]
      simpa using hid.ne'
    · rw [Function.update_of_ne hwrite]
      by_cases hread : pipe.fds.2 = calls.pipeFd.1
      · rw [hread, Function.update_self]
        simp
      · rw [Function.update_of_ne hread]
        exact hfile

theorem Dead.executeCMD (h : Dead s) (hround : executeCMD s cmdStr calls = some (s', o)) :
    Dead s' := by
  cases executeCMD_step hround with
  | kept _ _ hsame => exact h.untouched hsame
  | popped _ _ hsame => exact h.getPipe.untouched hsame
  | made _ _ hgrew => exact h.getPipe.grew hgrew

/-- The eleventh popped pipe makes `cleanPipes` close a number again. -/
theorem Dead.double (h : Dead s) (hlong : 10 < s.recycle.length) :
    ∃ c ∈ cleanPipesCloses s, ¬ c.Own := by
  unfold cleanPipesCloses
  cases hrecycle : s.recycle with
  | nil =>
    rw [hrecycle] at hlong
    simp at hlong
  | cons pipe rest =>
    rw [hrecycle] at hlong
    rw [closeOldestCloses, if_pos hlong]
    refine ⟨_, List.mem_cons_of_mem _ (List.mem_cons_self ..), ?_⟩
    unfold Closing.Own
    have hfile := (h.recycled pipe (by rw [hrecycle]; exact List.mem_cons_self ..)).2
    by_cases hfd : pipe.fds.2 = pipe.fds.1
    · simp [hfd]
    · change close s.files pipe.fds.1 pipe.fds.2 ≠ _
      rw [close_of_ne hfd]
      exact hfile

end Dead

section Sole

theorem cleanPipes_eq (h : s.recycle.length ≤ 10) : cleanPipes s = s := by
  have hrecycle : closeOldest s.files s.recycle = (s.files, s.recycle) := by
    cases hs : s.recycle with
    | nil => rfl
    | cons pipe rest =>
      rw [hs] at h
      rw [closeOldest, if_neg (by omega)]
  unfold cleanPipes
  rw [hrecycle]

theorem cleanPipesCloses_eq (h : s.recycle.length ≤ 10) : cleanPipesCloses s = [] := by
  unfold cleanPipesCloses
  cases hs : s.recycle with
  | nil => rfl
  | cons pipe rest =>
    rw [hs] at h
    rw [closeOldestCloses, if_neg (by omega)]

theorem beforePipe_eq (h : s.recycle.length ≤ 10) (calls : Calls) : beforePipe s calls = s := by
  unfold beforePipe
  split
  next => exact cleanPipes_eq h
  next => rfl

theorem Sole.initial : Sole Shell.initial := by
  constructor
  · decide
  · intro pipe hpipe
    simp [Shell.initial] at hpipe
  · intro pipe hpipe
    simp [Shell.initial] at hpipe
  · intro id
    simp [Shell.initial]

theorem Sole.tail (h : Sole s) (id : Nat) :
    s.pipeStack.tail.countP (fun o => o.any (·.id == id)) ≤ 1 :=
  (List.Sublist.countP_le (List.tail_sublist _)).trans (h.distinct id)

theorem Sole.getPipe (h : Sole s) (hshort : (getPipe s).1.recycle.length ≤ 10) :
    Sole (getPipe s).1 := by
  have hrest : ∀ pipe, some pipe ∈ (Npshell.getPipe s).1.pipeStack → some pipe ∈ s.pipeStack := by
    intro pipe hpipe
    rw [getPipe_stack] at hpipe
    exact List.mem_of_mem_tail hpipe
  constructor
  · exact hshort
  · intro pipe hpipe
    rw [getPipe_made]
    exact h.stacked pipe (hrest pipe hpipe)
  · intro pipe hpipe
    have hold := h.owned pipe (hrest pipe hpipe)
    have hdistinct := h.distinct
    have howned := h.owned
    unfold Npshell.getPipe at hpipe ⊢
    split at hpipe
    next => exact hold
    next => exact hold
    next front rest hstack =>
      rw [hstack] at hdistinct howned
      have hfront := howned front (List.mem_cons_self ..)
      -- another place with the same pipe would make two of its number
      have hne : pipe.id ≠ front.id := by
        intro hid
        have hone := hdistinct front.id
        have hpos : 0 < rest.countP (fun o => o.any (·.id == front.id)) :=
          List.countP_pos_iff.mpr ⟨some pipe, hpipe, by simpa using hid⟩
        rw [List.countP_cons_of_pos (by simp)] at hone
        omega
      constructor
      · apply close_eq_some hold.1
        rw [hfront.2]
        simp
      · apply close_eq_some hold.2
        rw [hfront.2]
        simpa using hne.symm
  · intro id
    rw [getPipe_stack]
    exact h.tail id

theorem Sole.untouched (h : Sole s) (hsame : Untouched s s') : Sole s' := by
  constructor
  · rw [hsame.recycle]
    exact h.short
  · intro pipe hpipe
    rw [hsame.made]
    exact h.stacked pipe (hsame.stack.mem.mp hpipe)
  · intro pipe hpipe
    rw [hsame.files]
    exact h.owned pipe (hsame.stack.mem.mp hpipe)
  · intro id
    rw [hsame.stack _ rfl]
    exact h.distinct id

theorem Sole.grew (h : Sole s) (hgrew : Grew s s' calls) : Sole s' := by
  have hbefore := beforePipe_eq h.short calls
  have hunused := hgrew.unused
  rw [hbefore] at hunused
  have hfiles := hgrew.files
  rw [hbefore] at hfiles
  constructor
  · rw [hgrew.recycle, hbefore]
    exact h.short
  · exact hgrew.stacked h.stacked
  · intro pipe hpipe
    rw [hfiles]
    rcases hgrew.stack.mem hpipe with hold | rfl
    · exact (h.owned pipe hold).openPipe hunused
    · exact ⟨openPipe_read hunused, openPipe_write⟩
  · intro id
    rw [hgrew.stack _ rfl]
    by_cases hid : s.made = id
    · -- the number of the new pipe is that of none before it
      have hzero : s.pipeStack.countP (fun o => o.any (·.id == id)) = 0 := by
        rw [List.countP_eq_zero]
        intro o ho
        cases o with
        | none => simp
        | some pipe =>
          have hlt := h.stacked pipe ho
          simp only [Option.any_some, beq_iff_eq]
          omega
      rw [hzero]
      split <;> omega
    · rw [if_neg (by simpa using hid)]
      exact h.distinct id

theorem Sole.executeCMD (h : Sole s)
    (hshort : Pops s cmdStr → (Npshell.getPipe s).1.recycle.length ≤ 10)
    (hround : executeCMD s cmdStr calls = some (s', o)) : Sole s' := by
  cases executeCMD_step hround with
  | kept _ _ hsame => exact h.untouched hsame
  | popped hpops _ hsame => exact (h.getPipe (hshort hpops)).untouched hsame
  | made hpops _ hgrew => exact (h.getPipe (hshort hpops)).grew hgrew

theorem Sole.getPipeCloses (h : Sole s) : ∀ c ∈ getPipeCloses s, c.Own := by
  have howned := h.owned
  intro c hc
  unfold Npshell.getPipeCloses at hc
  split at hc
  next pipe rest hstack =>
    rw [List.mem_singleton] at hc
    subst hc
    exact (howned pipe (by rw [hstack]; exact List.mem_cons_self ..)).2
  next => simp at hc

variable {st st' : Session} {e : Event}

theorem Sole.clean (h : Sole st.shell) (hstep : ¬ Overfills st e) : Clean st e := by
  cases e with
  | line text =>
    constructor
    · intro c hc
      rw [closes, cleanPipesCloses_eq h.short] at hc
      simp at hc
    · intro s hs
      rw [moments, List.mem_singleton, cleanPipes_eq h.short] at hs
      rw [hs]
      exact h.owned
  | round calls =>
    have hshort : Pops st.shell st.input → (Npshell.getPipe st.shell).1.recycle.length ≤ 10 := by
      intro hpops
      by_contra hlong
      exact hstep ⟨hpops, by omega⟩
    have hbehind : ∀ s o, Npshell.executeCMD st.shell st.input calls = some (s, o) → Sole s :=
      fun s o hround => h.executeCMD hshort hround
    constructor
    · intro c hc
      rw [closes, executeCloses, List.mem_append, List.mem_append] at hc
      rcases hc with (hc | hc) | hc
      · split at hc
        next => exact h.getPipeCloses c hc
        next => simp at hc
      · split at hc
        next hmakes =>
          have hpops : Pops st.shell st.input := .inl hmakes.1
          rw [makeNewPipeCloses, cleanPipesCloses_eq (hshort hpops), ite_self] at hc
          simp at hc
        next => simp at hc
      · split at hc
        next s o hround =>
          rw [cleanPipesCloses_eq (hbehind s o hround).short] at hc
          simp at hc
        next => simp at hc
    · intro s hs
      rw [moments, List.mem_append] at hs
      rcases hs with hs | hs
      · split at hs
        next hpops =>
          rw [List.mem_singleton] at hs
          rw [hs]
          exact (h.getPipe (hshort hpops)).owned
        next => simp at hs
      · split at hs
        next s' o hround =>
          have hsole := hbehind s' o hround
          rw [cleanPipes_eq hsole.short] at hs
          simp only [List.mem_cons, List.not_mem_nil, or_false, or_self] at hs
          rw [hs]
          exact hsole.owned
        next => simp at hs

theorem round_shell (h : next st (.round calls) = some st') : ∃ s o,
    Npshell.executeCMD st.shell st.input calls = some (s, o) ∧
      st'.shell = cleanPipes { s with buf := [] } := by
  obtain ⟨s, o, hround, -, rfl⟩ := next_round h
  refine ⟨s, o, hround, ?_⟩
  split
  next => exact (finish_shell _).1
  next => rfl

theorem Sole.next (h : Sole st.shell) (hsteps : ¬ Overfills st e) (hstep : next st e = some st') :
    Sole st'.shell := by
  cases e with
  | line text =>
    obtain ⟨-, rfl⟩ := next_line hstep
    change Sole (cleanPipes st.shell)
    rw [cleanPipes_eq h.short]
    exact h
  | round calls =>
    obtain ⟨s, o, hround, hshell⟩ := round_shell hstep
    have hsole := h.executeCMD (fun hpops => by
      by_contra hlong
      exact hsteps ⟨hpops, by omega⟩) hround
    have hbuf : Sole { s with buf := [] } :=
      ⟨hsole.short, hsole.stacked, hsole.owned, hsole.distinct⟩
    rw [hshell, cleanPipes_eq hbuf.short]
    exact hbuf

theorem Dead.next (h : Dead st.shell) (hstep : next st e = some st') : Dead st'.shell := by
  cases e with
  | line text =>
    obtain ⟨-, rfl⟩ := next_line hstep
    exact h.cleanPipes
  | round calls =>
    obtain ⟨s, o, hround, hshell⟩ := round_shell hstep
    have hdead := h.executeCMD hround
    rw [hshell]
    exact Dead.cleanPipes ⟨hdead.stacked, hdead.recycled⟩

theorem Dead.unclean (h : Dead st.shell) (hover : Overfills st e)
    (hstep : Npshell.next st e = some st') : ¬ Clean st e := by
  intro hclean
  cases e with
  | line text => exact hover
  | round calls =>
    obtain ⟨hpops, hlong⟩ := hover
    obtain ⟨s, o, hround, -⟩ := round_shell hstep
    have hcleanPipes : ∀ c ∈ cleanPipesCloses s, c.Own := by
      intro c hc
      apply hclean.closes c
      rw [closes, hround]
      exact List.mem_append_right _ hc
    have hpopped : ∀ (s' : Shell), s'.files = (Npshell.getPipe st.shell).1.files →
        s'.recycle = (Npshell.getPipe st.shell).1.recycle →
        ¬ ∀ c ∈ cleanPipesCloses s', c.Own := by
      intro s' hfiles hrecycle hall
      obtain ⟨c, hc, hown⟩ := h.getPipe.double hlong
      apply hown
      apply hall
      unfold cleanPipesCloses
      rw [hfiles, hrecycle]
      exact hc
    cases executeCMD_step hround with
    | kept hnot _ _ => exact hnot hpops
    | popped _ _ hsame => exact hpopped s hsame.files hsame.recycle hcleanPipes
    | made _ hmakes hgrew =>
      cases hfails : calls.pipeFails with
      | true =>
        apply hpopped (Npshell.getPipe st.shell).1 rfl rfl
        intro c hc
        apply hclean.closes c
        rw [closes, executeCloses, if_pos hmakes, makeNewPipeCloses, hfails, if_pos rfl]
        exact List.mem_append_left _ (List.mem_append_right _ hc)
      | false =>
        have hdead := h.getPipe.grew hgrew
        have hrecycle : s.recycle = (Npshell.getPipe st.shell).1.recycle := by
          rw [hgrew.recycle, Npshell.beforePipe, hfails, if_neg (by decide)]
        obtain ⟨c, hc, hown⟩ := hdead.double (by rw [hrecycle]; exact hlong)
        exact hown (hcleanPipes c hc)

end Sole

/-- Over a run the numbers stay with their pipes exactly as long as no popped pipe
has to make room for an eleventh one. -/
theorem descriptors_owned_iff (es : List Event) (st : Session)
    (hrun : exec next Session.initial es = some st) :
    Meets next Session.initial (fun _ st e => Clean st e) es ↔
      Meets next Session.initial (fun _ st e => ¬ Overfills st e) es := by
  constructor
  · intro hclean before e after s heq hs hover
    have hdead : Dead s.shell :=
      invariant_always (I := fun _ st => Dead st.shell) Dead.initial
        (fun _ _ _ _ _ hdead hstep => hdead.next hstep) before s hs
    rw [heq, exec_append, hs, Option.bind_some, exec] at hrun
    obtain ⟨s', hstep, -⟩ := Option.bind_eq_some_iff.mp hrun
    exact hdead.unclean hover hstep (hclean before e after s heq hs)
  · intro hsteps before e after s heq hs
    subst heq
    have hleft : Meets next Session.initial (fun _ st e => ¬ Overfills st e) before :=
      Meets.left hsteps
    have hsole : Sole s.shell := by
      apply invariant (I := fun _ st => Sole st.shell) _ _ before hleft s hs
      · exact Sole.initial
      · intro _ _ _ _ _ hsole hstep hnext
        exact hsole.next hstep hnext
    exact hsole.clean (hsteps before e after s rfl hs)

/-- `pipe` gives the two lowest numbers that are free. -/
def Lowest (files : Table) (fds : Int × Int) : Prop :=
  Unused files fds ∧ fds.1 < fds.2 ∧
    ∀ fd < fds.2.toNat, (fd : Int) ≠ fds.1 → files fd ≠ none

instance (files : Table) (fds : Int × Int) : Decidable (Lowest files fds) := by
  unfold Lowest
  infer_instance

def lowestCalls (fd : Nat) : Calls := ⟨false, (fd, fd + 1), true, true⟩

theorem descriptors_owned_iff_twoStages :
    ∃ st, exec next Session.initial [.line "a|b".toList, .round (lowestCalls 3),
        .round (lowestCalls 4)] = some st ∧
      (Meets next Session.initial (fun _ st e => Clean st e)
          [.line "a|b".toList, .round (lowestCalls 3), .round (lowestCalls 4)] ↔
        Meets next Session.initial (fun _ st e => ¬ Overfills st e)
          [.line "a|b".toList, .round (lowestCalls 3), .round (lowestCalls 4)]) := by
  have hsome : (exec next Session.initial [.line "a|b".toList, .round (lowestCalls 3),
      .round (lowestCalls 4)]).isSome := by decide +kernel
  have hrun := Option.eq_some_of_isSome hsome
  exact ⟨_, hrun, descriptors_owned_iff _ _ hrun⟩

/-- One line of twelve commands: each pipe takes the number that the pipe before
it has just given up. -/
def twelveStages : List Event :=
  .line "a|a|a|a|a|a|a|a|a|a|a|a".toList ::
    (List.range 12).map fun i => .round (lowestCalls (3 + i))

/-- The twelfth round closes number 4 for the first pipe, which is the second one's. -/
theorem twelfth_stage_closes_again : ∃ st, exec next Session.initial twelveStages = some st ∧
    Meets next Session.initial (fun _ st e => ∀ calls, e = .round calls →
      Lowest (getPipe st.shell).1.files calls.pipeFd) twelveStages ∧
    ¬ Meets next Session.initial (fun _ st e => Clean st e) twelveStages := by
  have hsome : (exec next Session.initial twelveStages).isSome := by decide +kernel
  refine ⟨_, Option.eq_some_of_isSome hsome, ?_, ?_⟩
  · have hlowest : ∀ i : Fin 12, ∀ st ∈ exec next Session.initial (twelveStages.take (i + 1)),
        Lowest (getPipe st.shell).1.files (lowestCalls (3 + i)).pipeFd := by decide +kernel
    rw [meets_iff_take]
    rintro ⟨i, hi⟩ st hst calls hcalls
    have hlength : i < 13 := hi
    cases i with
    | zero => cases hcalls
    | succ i =>
      have hround : twelveStages[i + 1] = .round (lowestCalls (3 + i)) := by
        simp [twelveStages]
      have heq : calls = lowestCalls (3 + i) := by
        have hboth := hround.symm.trans hcalls
        cases hboth
        rfl
      rw [heq]
      exact hlowest ⟨i, by omega⟩ st hst
  · intro hclean
    have hdouble : ∀ st ∈ exec next Session.initial (twelveStages.take 12),
        ∃ c ∈ closes st (.round (lowestCalls 14)), ¬ c.Own := by decide +kernel
    have hprefix : (exec next Session.initial (twelveStages.take 12)).isSome := by decide +kernel
    have hrun := Option.eq_some_of_isSome hprefix
    obtain ⟨c, hc, hown⟩ := hdouble _ hrun
    exact hown ((hclean (twelveStages.take 12) (.round (lowestCalls 14)) [] _ rfl hrun).closes c hc)

end NetworkProgramming.Npshell
