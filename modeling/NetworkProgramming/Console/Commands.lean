import NetworkProgramming.Socks.Session

/-! The command lines of the consoles: `do_write`, which both share, and the
project 3 session, which decides once for each read. -/
namespace NetworkProgramming.Console
open Library.CString

/-- `while(getline(fin, line)) cmd_str.push_back(line)` -/
def readLines : Nat → Text → List Text
  | 0, _ => []
  | fuel + 1, content =>
    match Socks.Session.getline content with
    | none => []
    | some (line, rest) => line :: readLines fuel rest

def testCase (content : Text) : List Text := readLines content.length content

/-- `cmd_str`, and the lines written to the shell so far. -/
structure Commands where
  cmdStr : List Text
  written : List Text
  deriving DecidableEq, Repr

def doWrite (c : Commands) : Commands where
  cmdStr := c.cmdStr.tail
  written := c.written ++ [c.cmdStr.head?.getD [] ++ ['\n']]

def answers (commands : List Text) (n : Nat) : List Text :=
  (List.range n).map fun i => commands[i]?.getD [] ++ ['\n']

/-- The project 3 session: what it shows, and what it writes. -/
structure Shown where
  shown : List Text
  commands : Commands
  deriving DecidableEq, Repr

def start (content : Text) : Shown := ⟨[], ⟨testCase content, []⟩⟩

/-- The callback of `do_read`, with the bytes that were received. -/
def onRead (s : Shown) (chunk : Text) : Shown where
  shown := s.shown ++ [chunk]
  commands := if '%' ∈ chunk then doWrite s.commands else s.commands

def prompting (chunks : List Text) : Nat := chunks.countP ('%' ∈ ·)

variable {commands : List Text} {c : Commands} {chunks : List Text} {s : Shown} {m n : Nat}

theorem answers_length (commands : List Text) (n : Nat) : (answers commands n).length = n := by
  simp [answers]

theorem answers_inj : answers commands m = answers commands n ↔ m = n := by
  constructor
  · intro h
    have hlength := congrArg List.length h
    rwa [answers_length, answers_length] at hlength
  · exact congrArg (answers commands)

/-- The commands after `n` prompts were answered. -/
structure Answered (commands : List Text) (n : Nat) (c : Commands) : Prop where
  cmdStr : c.cmdStr = commands.drop n
  written : c.written = answers commands n

theorem Answered.doWrite (h : Answered commands n c) :
    Answered commands (n + 1) (doWrite c) := by
  constructor
  · simp only [Console.doWrite, h.cmdStr, List.tail_drop]
  · simp only [Console.doWrite, h.cmdStr, h.written, answers, List.range_succ, List.map_append,
      List.map_cons, List.map_nil, List.head?_drop]

theorem Answered.read (h : Answered commands n s.commands) (chunks : List Text) :
    Answered commands (n + prompting chunks) (chunks.foldl onRead s).commands := by
  induction chunks generalizing s n with
  | nil => exact h
  | cons chunk rest ih =>
    rw [List.foldl_cons, prompting, List.countP_cons]
    by_cases hprompt : '%' ∈ chunk
    · have hnext : Answered commands (n + 1) (onRead s chunk).commands := by
        simp only [onRead, if_pos hprompt]
        exact h.doWrite
      have hread := ih hnext
      have hcount : n + 1 + prompting rest = n + (rest.countP ('%' ∈ ·) + 1) := by
        rw [prompting]
        omega
      rw [hcount] at hread
      simpa [hprompt] using hread
    · have hnext : Answered commands n (onRead s chunk).commands := by
        simp only [onRead, if_neg hprompt]
        exact h
      simpa [hprompt, prompting] using ih hnext

theorem prompting_le (chunks : List Text) : prompting chunks ≤ chunks.flatten.count '%' := by
  induction chunks with
  | nil => simp [prompting]
  | cons chunk rest ih =>
    rw [prompting, List.countP_cons, List.flatten_cons, List.count_append, ← prompting]
    by_cases hprompt : '%' ∈ chunk
    · have hpos : 0 < chunk.count '%' := List.count_pos_iff.mpr hprompt
      rw [if_pos (by simpa using hprompt)]
      omega
    · rw [if_neg (by simpa using hprompt)]
      omega

theorem prompting_eq_iff (chunks : List Text) :
    prompting chunks = chunks.flatten.count '%' ↔ ∀ chunk ∈ chunks, chunk.count '%' ≤ 1 := by
  induction chunks with
  | nil => simp [prompting]
  | cons chunk rest ih =>
    have hle := prompting_le rest
    rw [prompting, List.countP_cons, List.flatten_cons, List.count_append, ← prompting,
      List.forall_mem_cons, ← ih]
    by_cases hprompt : '%' ∈ chunk
    · have hpos : 0 < chunk.count '%' := List.count_pos_iff.mpr hprompt
      rw [if_pos (by simpa using hprompt)]
      omega
    · have hzero : chunk.count '%' = 0 := List.count_eq_zero.mpr hprompt
      rw [if_neg (by simpa using hprompt)]
      omega

/-- Every prompt of a stream is answered by one line exactly when no read brings
two of them. -/
theorem prompts_answered_iff (content : Text) (chunks : List Text) :
    (chunks.foldl onRead (start content)).commands.written =
        answers (testCase content) (chunks.flatten.count '%') ↔
      ∀ chunk ∈ chunks, chunk.count '%' ≤ 1 := by
  have hstart : Answered (testCase content) 0 (start content).commands := ⟨rfl, rfl⟩
  rw [(hstart.read chunks).written, answers_inj, Nat.zero_add, prompting_eq_iff]

/-- Two prompts that arrive together are answered once, apart twice. -/
theorem prompts_answered_together :
    (["% % ".toList].foldl onRead (start "ls\nexit\n".toList)).commands.written = ["ls\n".toList] ∧
      (["% ".toList, "% ".toList].foldl onRead (start "ls\nexit\n".toList)).commands.written =
        ["ls\n".toList, "exit\n".toList] ∧
      (["% % ".toList].foldl onRead (start "ls\nexit\n".toList)).commands.written ≠
        answers (testCase "ls\nexit\n".toList) (["% % ".toList].flatten.count '%') := by
  decide +kernel

end NetworkProgramming.Console
