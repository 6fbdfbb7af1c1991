import NetworkProgramming.Npshell.Pipeline
import NetworkProgramming.Npshell.Pipes

/-! What each pipe of `npshell` is for, and what a command makes of the stack. -/
namespace NetworkProgramming.Npshell
open Library.CString Library.Descriptors CommandLine

/-- A pipe leads to the first command of a line, or from a command of a line to
the next one. -/
inductive Purpose where
  | target (t : Nat)
  | join (l i : Nat)
  deriving DecidableEq, Repr

def source (l : Nat) : Nat → Purpose
  | 0 => .target l
  | i + 1 => .join l i

/-- The pipes of the lines from `base` on stand in their places. -/
structure Stacked (purposes : List Purpose) (base : Nat) (stack : List (Option Pipe)) : Prop where
  sound : ∀ i (pipe : Pipe), stack[i]? = some (some pipe) → purposes[pipe.id]? = some (.target (base + i))
  complete : ∀ i, Purpose.target (base + i) ∈ purposes → ∃ pipe : Pipe, stack[i]? = some (some pipe)

/-- The stack in front of a command: its own pipe, then those of the later lines. -/
structure Due (purposes : List Purpose) (l k : Nat) (stack : List (Option Pipe)) : Prop where
  sound : ∀ pipe : Pipe, stack.head?.join = some pipe → purposes[pipe.id]? = some (source l k)
  absent : stack.head?.join = none → k = 0 ∧ Purpose.target l ∉ purposes
  later : Stacked purposes (l + 1) stack.tail

def Fed (purposes : List Purpose) (l i : Nat) (stdin : Option File) : Prop :=
  (∃ pipe : Nat, purposes[pipe]? = some (source l i) ∧ stdin = some (.readEnd pipe)) ∨
    i = 0 ∧ Purpose.target l ∉ purposes ∧ stdin = some .terminal

structure Served (purposes : List Purpose) (l i : Nat) (sink : Option Purpose) (c : Child) :
    Prop where
  stdin : Fed purposes l i c.stdin
  stdout : ∀ purpose, sink = some purpose →
    ∃ pipe, purposes[pipe]? = some purpose ∧ c.stdout = some (.writeEnd pipe)
  plain : sink = none → c.stdout = some .terminal
  stderr : c.stderr = some .terminal ∨ (∃ t, sink = some (.target t)) ∧ c.stderr = c.stdout

variable {purposes : List Purpose} {purpose : Purpose} {stack : List (Option Pipe)}
  {l k n i base : Nat} {s s' : Shell} {pipe : Pipe} {calls : Calls} {sink : Option Purpose}
  {c : Child} {files : Table} {p : Pipeline} {command : Text}

theorem head?_join_eq_some : stack.head?.join = some pipe ↔ stack[0]? = some (some pipe) := by
  rw [List.head?_eq_getElem?, Option.join_eq_some_iff]

theorem Stacked.due (h : Stacked purposes l stack) : Due purposes l 0 stack := by
  constructor
  · intro pipe hpipe
    exact h.sound 0 pipe (head?_join_eq_some.mp hpipe)
  · intro hnone
    refine ⟨rfl, ?_⟩
    intro hmem
    obtain ⟨pipe, hpipe⟩ := h.complete 0 hmem
    rw [head?_join_eq_some.mpr hpipe] at hnone
    contradiction
  · constructor
    · intro i pipe hpipe
      rw [List.getElem?_tail] at hpipe
      have hplace : l + 1 + i = l + (i + 1) := by omega
      rw [hplace]
      exact h.sound (i + 1) pipe hpipe
    · intro i hmem
      have hplace : l + 1 + i = l + (i + 1) := by omega
      rw [hplace] at hmem
      rw [List.getElem?_tail]
      exact h.complete (i + 1) hmem

theorem Stacked.nil : Stacked [] base [] := by
  constructor
  · intro i pipe hpipe
    simp at hpipe
  · intro i hmem
    simp at hmem

theorem Stacked.pad (h : Stacked purposes base stack) (m : Nat) :
    Stacked purposes base (stack ++ List.replicate m none) := by
  constructor
  · intro i pipe hpipe
    rw [List.getElem?_append] at hpipe
    split at hpipe
    next => exact h.sound i pipe hpipe
    next =>
      have hmem := List.mem_of_getElem? hpipe
      rw [List.mem_replicate] at hmem
      simp at hmem
  · intro i hmem
    obtain ⟨pipe, hpipe⟩ := h.complete i hmem
    exact ⟨pipe, by rw [List.getElem?_append_left (List.getElem?_eq_some_iff.mp hpipe).1, hpipe]⟩

theorem Stacked.set (h : Stacked purposes base stack) (hid : pipe.id = purposes.length)
    (hi : i < stack.length) :
    Stacked (purposes ++ [.target (base + i)]) base (stack.set i (some pipe)) := by
  constructor
  · intro j other hother
    rw [List.getElem?_set] at hother
    split at hother
    next hij =>
      simp only [Option.some.injEq] at hother
      rw [← hother, hid, hij, List.getElem?_concat_length]
    next =>
      have hold := h.sound j other hother
      rw [List.getElem?_append_left (List.getElem?_eq_some_iff.mp hold).1, hold]
  · intro j hmem
    rw [List.mem_append, List.mem_singleton, Purpose.target.injEq] at hmem
    by_cases hij : i = j
    · exact ⟨pipe, by rw [hij, List.getElem?_set_self (hij ▸ hi)]⟩
    · rcases hmem with hmem | heq
      · obtain ⟨other, hother⟩ := h.complete j hmem
        exact ⟨other, by rw [List.getElem?_set_ne hij, hother]⟩
      · omega

theorem Stacked.join (h : Stacked purposes base stack) :
    Stacked (purposes ++ [.join l k]) base stack := by
  constructor
  · intro i pipe hpipe
    have hold := h.sound i pipe hpipe
    rw [List.getElem?_append_left (List.getElem?_eq_some_iff.mp hold).1, hold]
  · intro i hmem
    rw [List.mem_append, List.mem_singleton] at hmem
    exact h.complete i (hmem.resolve_right (by simp))

theorem Fed.concat {stdin : Option File} (h : Fed purposes l i stdin)
    (hnew : purpose ≠ .target l) : Fed (purposes ++ [purpose]) l i stdin := by
  rcases h with ⟨pipe, hpipe, hstdin⟩ | ⟨hi, hmem, hstdin⟩
  · refine .inl ⟨pipe, ?_, hstdin⟩
    rw [List.getElem?_append_left (List.getElem?_eq_some_iff.mp hpipe).1, hpipe]
  · refine .inr ⟨hi, ?_, hstdin⟩
    rw [List.mem_append, List.mem_singleton]
    rintro (hin | heq)
    · exact hmem hin
    · exact hnew heq.symm

theorem Served.concat (h : Served purposes l i sink c) (hnew : purpose ≠ .target l) :
    Served (purposes ++ [purpose]) l i sink c := by
  constructor
  · exact h.stdin.concat hnew
  · intro q hq
    obtain ⟨pipe, hpipe, hstdout⟩ := h.stdout q hq
    refine ⟨pipe, ?_, hstdout⟩
    rw [List.getElem?_append_left (List.getElem?_eq_some_iff.mp hpipe).1, hpipe]
  · exact h.plain
  · exact h.stderr

section Pop

theorem getPipe_input (s : Shell) : (getPipe s).2 = s.pipeStack.head?.join := by
  unfold getPipe
  split
  next h => rw [h]; rfl
  next h => rw [h]; rfl
  next h => rw [h]; rfl

theorem getPipe_stack (s : Shell) : (getPipe s).1.pipeStack = s.pipeStack.tail := by
  unfold getPipe
  split
  next h => rw [h]; rfl
  next h => rw [h]; rfl
  next h => rw [h]; rfl

@[simp] theorem getPipe_made (s : Shell) : (getPipe s).1.made = s.made := by
  unfold getPipe
  split <;> rfl

@[simp] theorem getPipe_buf (s : Shell) : (getPipe s).1.buf = s.buf := by
  unfold getPipe
  split <;> rfl

theorem Due.ne (h : Due purposes l k (some pipe :: stack)) {other : Pipe}
    (hother : some other ∈ stack) : pipe.id ≠ other.id := by
  intro hid
  obtain ⟨i, hi⟩ := List.mem_iff_getElem?.mp hother
  have hlater := h.later.sound i other hi
  rw [← hid, h.sound pipe rfl, Option.some.injEq] at hlater
  cases k with
  | zero =>
    simp only [source, Purpose.target.injEq] at hlater
    omega
  | succ k => simp [source] at hlater

theorem Due.getPipe_tidy (h : Due purposes l k s.pipeStack) (htidy : Tidy s) :
    Tidy (getPipe s).1 := by
  unfold getPipe
  split
  next => exact htidy
  next hstack =>
    refine ⟨htidy.standard, ?_, htidy.recycled⟩
    intro pipe hpipe
    exact htidy.owned pipe (by rw [hstack]; exact List.mem_cons_of_mem _ hpipe)
  next pipe rest hstack =>
    rw [hstack] at h
    have howned : Owned s.files pipe :=
      htidy.owned pipe (by rw [hstack]; exact List.mem_cons_self ..)
    have hnot := howned.not_standard htidy.standard
    constructor
    · intro fd hfd
      apply close_eq_some (htidy.standard fd hfd)
      rw [howned.2]
      simp
    · intro other hother
      have hold : Owned s.files other :=
        htidy.owned other (by rw [hstack]; exact List.mem_cons_of_mem _ hother)
      have hne := h.ne hother
      constructor
      · apply close_eq_some hold.1
        rw [howned.2]
        simp
      · apply close_eq_some hold.2
        rw [howned.2]
        simpa using hne
    · intro other hother
      rw [List.mem_append, List.mem_singleton] at hother
      rcases hother with hother | rfl
      · exact htidy.recycled other hother
      · exact hnot

theorem getPipe_read (htidy : Tidy s) (h : (getPipe s).2 = some pipe) :
    (getPipe s).1.files pipe.fds.1 = some (.readEnd pipe.id) := by
  unfold getPipe at h ⊢
  split at h
  next => contradiction
  next => contradiction
  next front rest hstack =>
    simp only [Option.some.injEq] at h
    subst h
    have howned : Owned s.files front :=
      htidy.owned front (by rw [hstack]; exact List.mem_cons_self ..)
    apply close_eq_some howned.1
    rw [howned.2]
    simp

end Pop

section Child

theorem inputFiles_of_ne {input : Option Pipe} {fd : Int} (h : fd ≠ 0) :
    inputFiles files input fd = files fd := by
  cases input with
  | none => rfl
  | some pipe => exact dup2_of_ne h

theorem Due.fed (h : Due purposes l k s.pipeStack) (hterminal : files 0 = some .terminal)
    (hread : ∀ p, (getPipe s).2 = some p → files p.fds.1 = some (.readEnd p.id)) :
    Fed purposes l k (inputFiles files (getPipe s).2 0) := by
  cases hinput : (getPipe s).2 with
  | none =>
    rw [getPipe_input] at hinput
    obtain ⟨hk, hmem⟩ := h.absent hinput
    exact .inr ⟨hk, hmem, hterminal⟩
  | some pipe =>
    have hfile := hread pipe hinput
    rw [getPipe_input] at hinput
    exact .inl ⟨pipe.id, h.sound pipe hinput, dup2_target hfile⟩

variable {input : Option Pipe} {op arg : Text}

theorem served_last (hfed : Fed purposes l k (inputFiles files input 0))
    (hstandard : ∀ fd, Standard fd → files fd = some .terminal) :
    Served purposes l k none (callExecs op arg (inputFiles files input)) := by
  have hout : inputFiles files input 1 = some .terminal := by
    rw [inputFiles_of_ne (by decide)]
    exact hstandard 1 (.inr (.inl rfl))
  have herr : inputFiles files input 2 = some .terminal := by
    rw [inputFiles_of_ne (by decide)]
    exact hstandard 2 (.inr (.inr rfl))
  constructor
  · exact hfed
  · intro purpose h
    contradiction
  · exact fun _ => hout
  · exact .inl herr

theorem served_output {errors : Bool} (hfed : Fed purposes l k (inputFiles files input 0))
    (hstandard : ∀ fd, Standard fd → files fd = some .terminal) (howned : Owned files pipe)
    (hpurpose : purposes[pipe.id]? = some purpose)
    (herrors : errors = true → ∃ t, purpose = .target t) :
    Served purposes l k (some purpose)
      (callExecs op arg (outputFiles (inputFiles files input) pipe errors)) := by
  have hzero : pipe.fds.2 ≠ 0 := fun h => (howned.not_standard hstandard).2 (.inl h)
  have hone : pipe.fds.2 ≠ 1 := fun h => (howned.not_standard hstandard).2 (.inr (.inl h))
  have hwrite : inputFiles files input pipe.fds.2 = some (.writeEnd pipe.id) := by
    rw [inputFiles_of_ne hzero, howned.2]
  have hfirst : dup2 (inputFiles files input) pipe.fds.2 1 pipe.fds.2 = some (.writeEnd pipe.id) := by
    rw [dup2_of_ne hone, hwrite]
  have hin : outputFiles (inputFiles files input) pipe errors 0 = inputFiles files input 0 := by
    cases errors with
    | false => exact dup2_of_ne (by decide)
    | true => exact (dup2_of_ne (by decide)).trans (dup2_of_ne (by decide))
  have hout : outputFiles (inputFiles files input) pipe errors 1 = some (.writeEnd pipe.id) := by
    cases errors with
    | false => exact dup2_target hwrite
    | true => exact (dup2_of_ne (by decide)).trans (dup2_target hwrite)
  constructor
  · change Fed purposes l k (outputFiles (inputFiles files input) pipe errors 0)
    rw [hin]
    exact hfed
  · intro q hq
    rw [Option.some.injEq] at hq
    exact ⟨pipe.id, hq ▸ hpurpose, hout⟩
  · intro h
    contradiction
  · cases errors with
    | false =>
      refine .inl ?_
      change dup2 (inputFiles files input) pipe.fds.2 1 2 = some .terminal
      rw [dup2_of_ne (by decide), inputFiles_of_ne (by decide)]
      exact hstandard 2 (.inr (.inr rfl))
    | true =>
      obtain ⟨t, rfl⟩ := herrors rfl
      refine .inr ⟨⟨t, rfl⟩, ?_⟩
      change outputFiles (inputFiles files input) pipe true 2 =
        outputFiles (inputFiles files input) pipe true 1
      rw [hout]
      exact dup2_target hfirst

end Child

structure Obtained (purposes purposes' : List Purpose) (purpose : Purpose) (input : Option Pipe)
    (s s' : Shell) (pipe : Pipe) : Prop where
  grown : purposes' = purposes ∨ purpose ∉ purposes ∧ purposes' = purposes ++ [purpose]
  made : purposes'.length = s'.made
  purpose : purposes'[pipe.id]? = some purpose
  buf : s'.buf = s.buf
  owned : Owned s'.files pipe
  tidy : Tidy s'
  spared : Spared s'
  input : ∀ p, input = some p → s.files p.fds.1 = some (.readEnd p.id) →
    s'.files p.fds.1 = some (.readEnd p.id)

section Obtain
variable {input : Option Pipe}

theorem Made.obtained (h : Made s s' input pipe) (hmade : purposes.length = s.made)
    (hfree : purpose ∉ purposes) (stack : List (Option Pipe))
    (hstack : ∀ other, some other ∈ stack → other = pipe ∨ some other ∈ s'.pipeStack) :
    Obtained purposes (purposes ++ [purpose]) purpose input s { s' with pipeStack := stack }
      pipe := by
  constructor
  · exact .inr ⟨hfree, rfl⟩
  · simp [h.made, hmade]
  · rw [h.id, ← hmade, List.getElem?_concat_length]
  · exact h.buf
  · exact h.owned
  · refine ⟨h.tidy.standard, ?_, h.tidy.recycled⟩
    intro other hother
    rcases hstack other hother with rfl | hold
    · exact h.owned
    · exact h.tidy.owned other hold
  · intro other hother
    rcases hstack other hother with rfl | hold
    · exact h.spared.2
    · exact h.spared.1 other hold
  · exact h.input

theorem padStack_eq (n : Nat) (hn : n < 2 ^ 31) :
    padStack stack n = some (stack ++ List.replicate (n - stack.length) none) := by
  have hsize : toSize n = n := by
    unfold toSize
    omega
  rw [padStack, hsize, if_pos]
  unfold maxSize
  omega

theorem mem_pad {m : Nat} (h : some pipe ∈ stack ++ List.replicate m none) :
    some pipe ∈ stack := by
  rw [List.mem_append, List.mem_replicate] at h
  simpa using h

/-- The pipe for the line `n` places ahead of the one whose front is gone. -/
theorem numberedPipe_obtained (hstack : Stacked purposes base s.pipeStack)
    (hmade : purposes.length = s.made) (htidy : Tidy s) (hspared : Spared s)
    (hcalls : CleanCalls s input calls) {m : Nat} (hm : m + 1 < 2 ^ 31)
    (h : numberedPipe s (m + 1 : Nat) calls = some (s', pipe)) :
    ∃ purposes', Obtained purposes purposes' (.target (base + m)) input s s' pipe ∧
      Stacked purposes' base s'.pipeStack := by
  have hsize : toSize ((m + 1 : Nat) - 1) = m := by
    unfold toSize
    omega
  unfold numberedPipe at h
  rw [padStack_eq _ hm, Option.bind_eq_bind, Option.bind_some, hsize] at h
  have hpadded := hstack.pad (m + 1 - s.pipeStack.length)
  have hlength : m < (s.pipeStack ++
      List.replicate (m + 1 - s.pipeStack.length) (none : Option Pipe)).length := by
    rw [List.length_append, List.length_replicate]
    omega
  have hmem : ∀ other, some other ∈ s.pipeStack ++
      List.replicate (m + 1 - s.pipeStack.length) none → some other ∈ s.pipeStack :=
    fun other hother => mem_pad hother
  generalize s.pipeStack ++ List.replicate (m + 1 - s.pipeStack.length) none = padded at *
  cases hplace : padded[m]? with
  | none => rw [List.getElem?_eq_none_iff] at hplace; omega
  | some place =>
    rw [hplace] at h
    cases place with
    | some found =>
      simp only [Option.bind_eq_bind, Option.bind_some, Option.some.injEq, Prod.mk.injEq] at h
      obtain ⟨rfl, rfl⟩ := h
      refine ⟨purposes, ?_, hpadded⟩
      have hold := hmem found (List.mem_of_getElem? hplace)
      constructor
      · exact .inl rfl
      · exact hmade
      · exact hpadded.sound m found hplace
      · rfl
      · exact htidy.owned found hold
      · exact ⟨htidy.standard, fun other hother => htidy.owned other (hmem other hother),
          htidy.recycled⟩
      · exact fun other hother => hspared other (hmem other hother)
      · exact fun _ _ hread => hread
    | none =>
      simp only [Option.bind_eq_bind, Option.bind_some, Option.bind_eq_some_iff,
        Option.some.injEq, Prod.mk.injEq, Prod.exists] at h
      obtain ⟨s'', made, hnew, rfl, rfl⟩ := h
      have hclean : CleanCalls { s with pipeStack := padded } input calls :=
        ⟨hcalls.input, hcalls.new⟩
      have htidy' : Tidy { s with pipeStack := padded } :=
        ⟨htidy.standard, fun other hother => htidy.owned other (hmem other hother),
          htidy.recycled⟩
      have hspared' : Spared { s with pipeStack := padded } :=
        fun other hother => hspared other (hmem other hother)
      have hmadePipe := makeNewPipe_made htidy' hspared' hclean hnew
      have hfree : Purpose.target (base + m) ∉ purposes := by
        intro htarget
        obtain ⟨other, hother⟩ := hpadded.complete m htarget
        rw [hplace] at hother
        simp at hother
      have hpipeStack : s''.pipeStack = padded := hmadePipe.stack
      have ho := hmadePipe.obtained hmade hfree (s''.pipeStack.set m (some made)) (by
        intro other hother
        rcases List.mem_or_eq_of_mem_set hother with hold | heq
        · exact .inr hold
        · exact .inl (by simpa using heq))
      refine ⟨_, ⟨ho.grown, ho.made, ho.purpose, ho.buf, ho.owned, ho.tidy, ho.spared, ho.input⟩, ?_⟩
      · rw [hpipeStack]
        apply hpadded.set _ hlength
        rw [hmadePipe.id]
        exact hmade.symm

theorem ordinaryPipe_obtained (hstack : Stacked purposes (l + 1) s.pipeStack)
    (hroom : s.pipeStack.head?.join = none) (hfree : .join l k ∉ purposes)
    (hmade : purposes.length = s.made) (htidy : Tidy s) (hspared : Spared s)
    (hcalls : CleanCalls s input calls) (h : ordinaryPipe s calls = some (s', pipe)) :
    Obtained purposes (purposes ++ [.join l k]) (.join l k) input s s' pipe ∧
      Due (purposes ++ [.join l k]) l (k + 1) s'.pipeStack ∧
      s'.pipeStack.tail = s.pipeStack := by
  unfold ordinaryPipe at h
  split at h
  next front rest hfront =>
    rw [hfront] at hroom
    contradiction
  next =>
    simp only [Option.map_eq_some_iff, Prod.mk.injEq, Prod.exists] at h
    obtain ⟨s'', made, hnew, rfl, rfl⟩ := h
    have hmadePipe := makeNewPipe_made htidy hspared hcalls hnew
    have hobtained := hmadePipe.obtained hmade hfree (some made :: s.pipeStack) (by
        intro other hother
        rw [List.mem_cons, Option.some.injEq, ← hmadePipe.stack] at hother
        exact hother)
    refine ⟨hobtained, ?_, rfl⟩
    constructor
    · intro other hother
      simp only [List.head?_cons, Option.join_some, Option.some.injEq] at hother
      rw [← hother]
      exact hobtained.purpose
    · intro hnone
      simp at hnone
    · exact hstack.join

end Obtain

/-- A child is forked, and the next `cleanPipes` closes no number of a pipe that
waits or is made now. -/
structure Clear (s : Shell) (calls : Calls) : Prop where
  forks : calls.forks = true
  spared : Spared (getPipe s).1
  calls : CleanCalls (getPipe s).1 (getPipe s).2 calls

instance (s : Shell) (calls : Calls) : Decidable (Clear s calls) :=
  decidable_of_iff (calls.forks = true ∧ Spared (getPipe s).1 ∧
      CleanCalls (getPipe s).1 (getPipe s).2 calls)
    ⟨fun h => ⟨h.1, h.2.1, h.2.2⟩, fun h => ⟨h.forks, h.spared, h.calls⟩⟩

/-- A command was started in its place. -/
structure Started (purposes purposes' : List Purpose) (l k : Nat) (sink : Option Purpose)
    (command : Text) (s' : Shell) (o : Outcome) : Prop where
  child : ∃ c, o = .ran c ∧ c.argv = argv command ∧ Served purposes' l k sink c
  grown : purposes' = purposes ∨
    ∃ purpose, sink = some purpose ∧ purpose ∉ purposes ∧ purposes' = purposes ++ [purpose]
  made : purposes'.length = s'.made
  tidy : Tidy s'
  spared : Spared s'

section Start
variable {instruction buf : Text} {o : Outcome}

theorem getPipe_reading (s : Shell) (instruction buf : Text) :
    getPipe { s with instruction := instruction, buf := buf } =
      ({ (getPipe s).1 with instruction := instruction, buf := buf }, (getPipe s).2) := by
  unfold getPipe
  dsimp only
  split <;> rfl

theorem Clear.reading (h : Clear s calls) (instruction buf : Text) :
    Clear { s with instruction := instruction, buf := buf } calls := by
  constructor
  · exact h.forks
  · rw [getPipe_reading]
    exact h.spared
  · rw [getPipe_reading]
    exact ⟨h.calls.input, h.calls.new⟩

theorem Tidy.reading (h : Tidy s) (instruction buf : Text) :
    Tidy { s with instruction := instruction, buf := buf } :=
  ⟨h.standard, h.owned, h.recycled⟩

theorem started_last (hdue : Due purposes l k s.pipeStack) (htidy : Tidy s)
    (hclear : Clear s calls) (hmade : purposes.length = s.made) (command : Text) :
    Started purposes purposes l k none command (getPipe s).1
      (.ran (callExecs (scanOperation command).1 (scanOperation command).2
        (inputFiles (getPipe s).1.files (getPipe s).2))) := by
  have htidy' := hdue.getPipe_tidy htidy
  have hfed := hdue.fed (htidy'.standard 0 (.inl rfl)) (fun p hp => getPipe_read htidy hp)
  constructor
  · exact ⟨_, rfl, rfl, served_last hfed htidy'.standard⟩
  · exact .inl rfl
  · rw [getPipe_made, hmade]
  · exact htidy'
  · exact hclear.spared

theorem started_output {purposes' : List Purpose} {errors : Bool}
    (hdue : Due purposes l k s.pipeStack) (htidy : Tidy s)
    (hobtained : Obtained purposes purposes' purpose (getPipe s).2 (getPipe s).1 s' pipe)
    (hpurpose : purpose ≠ .target l) (herrors : errors = true → ∃ t, purpose = .target t)
    (command : Text) :
    Started purposes purposes' l k (some purpose) command s'
      (.ran (callExecs (scanOperation command).1 (scanOperation command).2
        (outputFiles (inputFiles s'.files (getPipe s).2) pipe errors))) := by
  have hread : ∀ p, (getPipe s).2 = some p → s'.files p.fds.1 = some (.readEnd p.id) :=
    fun p hp => hobtained.input p hp (getPipe_read htidy hp)
  have hfed := hdue.fed (hobtained.tidy.standard 0 (.inl rfl)) hread
  have hfed' : Fed purposes' l k (inputFiles s'.files (getPipe s).2 0) := by
    rcases hobtained.grown with heq | ⟨-, heq⟩
    · rw [heq]
      exact hfed
    · rw [heq]
      exact hfed.concat hpurpose
  constructor
  · exact ⟨_, rfl, rfl, served_output hfed' hobtained.tidy.standard hobtained.owned
      hobtained.purpose herrors⟩
  · rcases hobtained.grown with heq | ⟨hfree, heq⟩
    · exact .inl heq
    · exact .inr ⟨purpose, rfl, hfree, heq⟩
  · exact hobtained.made
  · exact hobtained.tidy
  · exact hobtained.spared

theorem Pipeline.Plain.round_last (h : p.Plain) (hrest : p.rest = []) (hending : p.ending = none)
    (hdue : Due purposes l k s.pipeStack) (htidy : Tidy s) (hclear : Clear s calls)
    (hmade : purposes.length = s.made) (hround : executeCMD s p.text calls = some (s', o)) :
    Started purposes purposes l k none p.first s' o ∧ s'.buf = s.buf ∧
      s'.pipeStack = s.pipeStack.tail := by
  have hread := h.readCommand_end hrest hending
  have hbuiltin : ¬ IsBuiltin (scanOperation p.first).1 :=
    h.last hending p.first (by rw [Pipeline.commands, hrest, List.getLast?_singleton])
  simp only [IsBuiltin, not_or] at hbuiltin
  have hstarted := started_last (s := { s with instruction := p.first, buf := s.buf }) hdue
    (htidy.reading p.first s.buf) (hclear.reading p.first s.buf) hmade p.first
  simp only [executeCMD, hread, Option.getD_some, Option.getD_none, hbuiltin, Int.reduceNeg,
    Int.reduceEq, ↓reduceIte, Option.some.injEq, Prod.mk.injEq] at hround
  obtain ⟨rfl, rfl⟩ := hround
  refine ⟨hstarted, getPipe_buf _, getPipe_stack _⟩

theorem Pipeline.Plain.round_numbered (h : p.Plain) (hrest : p.rest = []) {symbol : Char} {n : Nat}
    (hending : p.ending = some (symbol, n))
    (hdue : Due purposes l k s.pipeStack) (htidy : Tidy s) (hclear : Clear s calls)
    (hmade : purposes.length = s.made) (hround : executeCMD s p.text calls = some (s', o)) :
    ∃ purposes', Started purposes purposes' l k (some (.target (l + n))) p.first s' o ∧
      s'.buf = s.buf ∧ Stacked purposes' (l + 1) s'.pipeStack := by
  obtain ⟨-, hpos, hlt⟩ := h.ending symbol n hending
  have hread := h.readCommand_number hrest hending
  obtain ⟨m, rfl⟩ : ∃ m, n = m + 1 := ⟨n - 1, by omega⟩
  have hnumber : ((m + 1 : Nat) : Int) ≠ 0 := by omega
  have htidy' := htidy.reading p.first s.buf
  have hclear' := hclear.reading p.first s.buf
  generalize hs : ({ s with instruction := p.first, buf := s.buf } : Shell) = s₀ at htidy' hclear'
  have hdue' : Due purposes l k s₀.pipeStack := by
    rw [← hs]
    exact hdue
  have hstacked : Stacked purposes (l + 1) (getPipe s₀).1.pipeStack := by
    rw [getPipe_stack]
    exact hdue'.later
  have hmade' : purposes.length = (getPipe s₀).1.made := by
    rw [getPipe_made, hmade, ← hs]
  simp only [executeCMD, hread, Option.getD_some, Option.getD_none, hs, hclear'.forks, hnumber,
    Int.reduceNeg, Int.reduceEq, ↓reduceIte, ne_eq, not_false_eq_true, Option.map_eq_some_iff,
    Prod.exists, Prod.mk.injEq] at hround
  obtain ⟨_, pipe, hpipe, rfl, rfl⟩ := hround
  obtain ⟨purposes', hobtained, hstack⟩ := numberedPipe_obtained hstacked hmade'
    (hdue'.getPipe_tidy htidy') hclear'.spared hclear'.calls hlt hpipe
  have hplace : l + 1 + m = l + (m + 1) := by omega
  rw [hplace] at hobtained
  refine ⟨purposes', started_output hdue' htidy' hobtained ?_ ?_ p.first, ?_, hstack⟩
  · simp
  · exact fun _ => ⟨_, rfl⟩
  · rw [hobtained.buf, getPipe_buf, ← hs]

theorem Pipeline.Plain.round_pipe (h : p.Plain) {next : Text} {rest : List Text}
    (hrest : p.rest = next :: rest) (hroom : s.pipeStack.tail.head?.join = none)
    (hfree : .join l k ∉ purposes)
    (hdue : Due purposes l k s.pipeStack) (htidy : Tidy s) (hclear : Clear s calls)
    (hmade : purposes.length = s.made) (hround : executeCMD s p.text calls = some (s', o)) :
    Started purposes (purposes ++ [.join l k]) l k (some (.join l k)) p.first s' o ∧
      s'.buf = (p.behind next rest).text ∧
      Due (purposes ++ [.join l k]) l (k + 1) s'.pipeStack ∧
      s'.pipeStack.tail = s.pipeStack.tail := by
  have hread := h.readCommand_pipe hrest
  have htidy' := htidy.reading p.first (p.behind next rest).text
  have hclear' := hclear.reading p.first (p.behind next rest).text
  generalize hs : ({ s with instruction := p.first, buf := (p.behind next rest).text } : Shell) =
    s₀ at htidy' hclear'
  have hstack : s₀.pipeStack = s.pipeStack := by rw [← hs]
  have hdue' : Due purposes l k s₀.pipeStack := by rwa [hstack]
  have hstacked : Stacked purposes (l + 1) (getPipe s₀).1.pipeStack := by
    rw [getPipe_stack]
    exact hdue'.later
  have hmade' : purposes.length = (getPipe s₀).1.made := by
    rw [getPipe_made, hmade, ← hs]
  simp only [executeCMD, hread, Option.getD_some, hs, Int.reduceNeg, Int.reduceEq, ↓reduceIte,
    ne_eq, not_true_eq_false, List.head?_cons, Option.map_eq_some_iff, Prod.exists,
    Prod.mk.injEq] at hround
  obtain ⟨_, pipe, hpipe, rfl, rfl⟩ := hround
  obtain ⟨hobtained, hdueNext, htail⟩ := ordinaryPipe_obtained hstacked
    (by rw [getPipe_stack, hstack]; exact hroom) hfree hmade' (hdue'.getPipe_tidy htidy')
    hclear'.spared hclear'.calls hpipe
  refine ⟨started_output hdue' htidy' hobtained ?_ ?_ p.first, ?_, hdueNext, ?_⟩
  · simp
  · simp
  · rw [hobtained.buf, getPipe_buf, ← hs]
  · rw [htail, getPipe_stack, hstack]

end Start

end NetworkProgramming.Npshell
