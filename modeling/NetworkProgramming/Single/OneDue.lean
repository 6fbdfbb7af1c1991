import NetworkProgramming.Single.Wiring

/-! At most one numbered pipe is due for a line, whatever lines came before it and whichever
entries they overwrote. -/
namespace NetworkProgramming.Single
open Library.CString Library.Run CommandLine

/-- No counter leaves the range of `int`: not the one that a line asks for, and none of those
that it counts down. -/
structure InRange (s : Server) (fd : Int) (line : Text) (reading : Reading) : Prop where
  claim : ∀ n, reading.pipeNumber = some n → n + 1 < 2 ^ 31
  countDown : rejection s line fd = none → builtin reading.commands = none →
    Counting (claimEntry s fd reading.pipeNumber).1 fd

def CountersInRange (s : Server) : Event → Prop
  | .login _ _ => True
  | .line fd chunk _ => ∀ reading, readLine (lineOf chunk) = some reading →
    InRange s fd (lineOf chunk) reading

instance (s : Server) : (e : Event) → Decidable (CountersInRange s e)
  | .login _ _ => .isTrue trivial
  | .line fd chunk _ =>
    decidable_of_iff
      (∀ reading ∈ readLine (lineOf chunk), (∀ n ∈ reading.pipeNumber, n + 1 < 2 ^ 31) ∧
        (rejection s (lineOf chunk) fd = none → builtin reading.commands = none →
          ∀ j < 1000, ((claimEntry s fd reading.pipeNumber).1.clientPipe j).fd = fd →
            -2 ^ 31 < ((claimEntry s fd reading.pipeNumber).1.clientPipe j).inputCount))
      ⟨fun h reading hread => ⟨(h reading hread).1, (h reading hread).2⟩,
        fun h reading hread => ⟨(h reading hread).claim, (h reading hread).countDown⟩⟩

/-- The entries at which the delivery loop assigns `input` and `output`. -/
def assigned (s : Server) (fd : Int) : List Nat :=
  (List.range 1000).filter fun j => (s.clientPipe j).waits fd 1

variable {s s' : Server} {fd : Int}

theorem Counted.claimEntry (h : Counted s) (fd : Int) (pipeNumber : Option Int) :
    Counted (claimEntry s fd pipeNumber).1 := by
  have hclaim := claimEntry_claimed s fd pipeNumber
  generalize Single.claimEntry s fd pipeNumber = claim at hclaim
  cases hclaim with
  | plain => exact h
  | shared n j hfind => exact h
  | fresh n hfind => exact h.claimNew hfind

theorem Counted.afterLine (h : Counted s) (hcounting : Counting s fd) (getInput : Nat)
    (pipe : Int × Int) : Counted (afterLine s fd getInput pipe) := by
  unfold Single.afterLine
  split
  next => exact (h.countDown hcounting).completeEntry pipe
  next => exact h.countDown hcounting

theorem Counted.lineDone (h : Counted s) {line : Text} {calls : Nat → ParserCall}
    {effects : List Effect} (hdone : LineDone s s' fd line calls effects)
    (hrange : ∀ reading, readLine line = some reading → InRange s fd line reading) :
    Counted s' := by
  cases hdone with
  | unread _ hsame => exact h.same hsame
  | stopped reading _ _ hsame => exact (h.claimEntry fd reading.pipeNumber).same hsame
  | ran reading claimed getInput outputFd hread haccept hbuiltin hclaim hsame =>
    have hcounting := (hrange reading hread).countDown haccept hbuiltin
    have hcounted := h.claimEntry fd reading.pipeNumber
    rw [hclaim] at hcounting hcounted
    exact (hcounted.afterLine hcounting getInput _).same hsame

/-- Every run whose counters stay in range. -/
theorem counted_run {limit : Nat} (es : List Event) (s : Server)
    (hrange : Meets (next limit) Server.initial (fun _ s e => CountersInRange s e) es)
    (hrun : exec (next limit) Server.initial es = some s) : Counted s := by
  apply invariant (I := fun _ => Counted) Counted.initial _ es hrange s hrun
  intro es s e s' _ hcounted hrange hnext
  obtain ⟨-, effects, hstep⟩ := next_eq_some hnext
  cases e with
  | login ssock fsin => exact hcounted.same (login_frame hstep).toSameNumberedPipes
  | line fd chunk calls => exact hcounted.lineDone (step_line_numbered hstep) hrange

theorem DueOnce.assigned_length (h : DueOnce s fd) : (assigned s fd).length ≤ 1 := by
  have hnodup : (assigned s fd).Nodup := List.nodup_range.filter _
  have hsame : ∀ i ∈ assigned s fd, ∀ j ∈ assigned s fd, i = j := by
    intro i hi j hj
    obtain ⟨hi, hwaits⟩ := List.mem_filter.mp hi
    obtain ⟨hj, hwaits'⟩ := List.mem_filter.mp hj
    exact h i j (List.mem_range.mp hi) (List.mem_range.mp hj) hwaits hwaits'
  generalize assigned s fd = places at hnodup hsame
  cases places with
  | nil => simp
  | cons i places =>
    cases places with
    | nil => simp
    | cons j places =>
      have heq := hsame i List.mem_cons_self j (List.mem_cons_of_mem _ List.mem_cons_self)
      subst heq
      exact absurd List.mem_cons_self (List.nodup_cons.mp hnodup).1

/-- In every state that is reached no two entries of one client wait for the same line, so
the delivery loop of its next line assigns at most once. -/
theorem one_pipe_due (limit : Nat) (es : List Event) (s : Server)
    (hrange : Meets (next limit) Server.initial (fun _ s e => CountersInRange s e) es)
    (hrun : exec (next limit) Server.initial es = some s) :
    (∀ fd i j, Live s fd i → Live s fd j →
        (s.clientPipe i).inputCount = (s.clientPipe j).inputCount → i = j) ∧
      ∀ fd pipeNumber, (assigned (claimEntry s fd pipeNumber).1 fd).length ≤ 1 := by
  have hcounted := counted_run es s hrange hrun
  exact ⟨hcounted.distinct,
    fun fd pipeNumber => ((hcounted.claimEntry fd pipeNumber).dueOnce fd).assigned_length⟩

/-- Both clients have a pipe that waits for the next line. -/
def bothWaiting : List Event := oneWaiting ++ [.line 5 "ls |1\n".toList fun _ => pipeEnds 8 9]

theorem one_pipe_due_bothWaiting : ∃ s, exec (next 30) Server.initial bothWaiting = some s ∧
    (∀ i j, Live s 4 i → Live s 4 j →
      (s.clientPipe i).inputCount = (s.clientPipe j).inputCount → i = j) ∧
    (assigned (claimEntry s 4 (some 1)).1 4).length ≤ 1 := by
  have hrange : Meets (next 30) Server.initial (fun _ s e => CountersInRange s e) bothWaiting := by
    decide +kernel
  have hsome : (exec (next 30) Server.initial bothWaiting).isSome = true := by decide +kernel
  obtain ⟨s, hs⟩ := Option.isSome_iff_exists.mp hsome
  obtain ⟨hdistinct, hassigned⟩ := one_pipe_due 30 bothWaiting s hrange hs
  exact ⟨s, hs, hdistinct 4, hassigned 4 (some 1)⟩

end NetworkProgramming.Single
