import NetworkProgramming.Console.Commands
import NetworkProgramming.Library.Run

/-! The project 3 console and the shell behind it, in step: one prompt, or one line, is on
its way at a time, however the stream is cut into reads. -/
namespace NetworkProgramming.Console.Lockstep
open Library.CString Library.Run

def prompt : Text := ['%', ' ']

/-- A shell: what it prints first, what it prints for a line behind earlier ones, and the
lines on which it leaves. It prints a `%` in its prompts only. -/
structure Shell where
  greeting : Text
  reply : List Text → Text → Text
  leaves : Text → Bool
  greeting_prompt : '%' ∉ greeting
  reply_prompt : ∀ before line, '%' ∉ reply before line

def Shell.answer (sh : Shell) (before : List Text) (line : Text) : Text :=
  sh.reply before line ++ if sh.leaves line then [] else prompt

/-- A session with the bytes under way, and the lines that the shell has read. -/
structure Link where
  console : Shown
  toShell : Text
  toConsole : Text
  lines : List Text
  closed : Bool
  deriving DecidableEq, Repr

def start (sh : Shell) (content : Text) : Link :=
  ⟨Console.start content, [], sh.greeting ++ prompt, [], false⟩

/-- The shell takes a line, or the console reads some bytes. -/
inductive Event where
  | line
  | read (length : Nat)
  deriving DecidableEq, Repr

def maxLength : Nat := 4096

/-- A whole line that has come. -/
def takeLine (str : Text) : Option (Text × Text) :=
  if '\n' ∈ str then some (str.takeWhile (· != '\n'), (str.dropWhile (· != '\n')).tail) else none

def sent (before after : Shown) : Text :=
  (after.commands.written.drop before.commands.written.length).flatten

/-- A line that the console writes is taken at once: the string that `do_write` hands to
`async_write` is gone when it returns. -/
def step (sh : Shell) (s : Link) : Event → Option Link
  | .line =>
    if s.closed then none
    else (takeLine s.toShell).map fun (line, rest) => { s with
      toShell := rest
      toConsole := s.toConsole ++ sh.answer s.lines line
      lines := s.lines ++ [line]
      closed := sh.leaves line }
  | .read length =>
    if 0 < length ∧ length ≤ maxLength ∧ length ≤ s.toConsole.length then
      let console := onRead s.console (s.toConsole.take length)
      some { s with
        console
        toShell := s.toShell ++ sent s.console console
        toConsole := s.toConsole.drop length }
    else none

def scriptLine (content : Text) (i : Nat) : Text := (testCase content)[i]?.getD []

def script (content : Text) (n : Nat) : List Text := (List.range n).map (scriptLine content)

/-- All that the shell prints around the first `n` lines. -/
def transcript (sh : Shell) (content : Text) (n : Nat) : Text :=
  sh.greeting ++ prompt ++
    (List.range n).flatMap fun i => sh.answer (script content i) (scriptLine content i)

/-- Who is to move: a prompt is on its way, or a line, or the shell has left. -/
inductive Phase (content : Text) (s : Link) : Prop
  | prompted : s.closed = false → s.toShell = [] →
    Answered (testCase content) s.lines.length s.console.commands → s.toConsole.count '%' = 1 →
    Phase content s
  | asked : s.closed = false → s.toShell = scriptLine content s.lines.length ++ ['\n'] →
    Answered (testCase content) (s.lines.length + 1) s.console.commands → '%' ∉ s.toConsole →
    Phase content s
  | left : s.closed = true → s.toShell = [] →
    Answered (testCase content) s.lines.length s.console.commands → '%' ∉ s.toConsole →
    Phase content s

/-- What holds in every state of a session. -/
structure InStep (sh : Shell) (content : Text) (s : Link) : Prop where
  lines : s.lines = script content s.lines.length
  text : s.console.shown.flatten ++ s.toConsole = transcript sh content s.lines.length
  stays : ∀ i, i + 1 < s.lines.length → sh.leaves (scriptLine content i) = false
  closed : s.closed = true ↔
    ∃ last, s.lines.length = last + 1 ∧ sh.leaves (scriptLine content last) = true
  phase : Phase content s

variable {sh : Shell} {content : Text} {s s' : Link} {e : Event} {n : Nat}

section Lines

theorem newline_not_mem_readLines (fuel : Nat) (content : Text) :
    ∀ line ∈ readLines fuel content, '\n' ∉ line := by
  induction fuel generalizing content with
  | zero => simp [readLines]
  | succ fuel ih =>
    intro line hline
    rw [readLines] at hline
    cases hget : Socks.Session.getline content with
    | none =>
      rw [hget] at hline
      contradiction
    | some piece =>
      rw [hget] at hline
      rcases List.mem_cons.mp hline with rfl | hrest
      · rw [Socks.Session.getline] at hget
        split at hget
        next => contradiction
        next =>
          rw [← Option.some.inj hget]
          intro hmem
          exact absurd (List.mem_takeWhile_imp hmem) (by decide)
      · exact ih _ line hrest

theorem newline_not_mem_scriptLine (content : Text) (i : Nat) : '\n' ∉ scriptLine content i := by
  rw [scriptLine]
  cases hget : (testCase content)[i]? with
  | none => simp
  | some line => exact newline_not_mem_readLines _ _ line (List.mem_of_getElem? hget)

theorem takeLine_append {line rest : Text} (h : '\n' ∉ line) :
    takeLine (line ++ '\n' :: rest) = some (line, rest) := by
  rw [takeLine, if_pos (by simp), takeWhile_append_delim h, dropWhile_append_delim h]
  rfl

theorem script_succ (content : Text) (n : Nat) :
    script content (n + 1) = script content n ++ [scriptLine content n] := by
  rw [script, List.range_succ, List.map_append]
  rfl

theorem transcript_succ (sh : Shell) (content : Text) (n : Nat) :
    transcript sh content (n + 1) =
      transcript sh content n ++ sh.answer (script content n) (scriptLine content n) := by
  rw [transcript, List.range_succ, List.flatMap_append]
  simp [transcript]

theorem answers_eq (content : Text) (n : Nat) :
    answers (testCase content) n = (script content n).map (· ++ ['\n']) := by
  rw [answers, script, List.map_map]
  rfl

end Lines

section Step

/-- What a step can do. -/
theorem step_cases (h : step sh s e = some s') :
    (∃ line rest, e = .line ∧ s.closed = false ∧ takeLine s.toShell = some (line, rest) ∧
      s' = { s with
        toShell := rest
        toConsole := s.toConsole ++ sh.answer s.lines line
        lines := s.lines ++ [line]
        closed := sh.leaves line }) ∨
    ∃ length, e = .read length ∧ 0 < length ∧ length ≤ s.toConsole.length ∧
      s' = { s with
        console := onRead s.console (s.toConsole.take length)
        toShell := s.toShell ++ sent s.console (onRead s.console (s.toConsole.take length))
        toConsole := s.toConsole.drop length } := by
  cases e with
  | line =>
    simp only [step] at h
    split at h
    next => contradiction
    next hopen =>
      obtain ⟨⟨line, rest⟩, htake, rfl⟩ := Option.map_eq_some_iff.mp h
      exact .inl ⟨line, rest, rfl, by simpa using hopen, htake, rfl⟩
  | read length =>
    simp only [step] at h
    split at h
    next hlength =>
      obtain rfl := Option.some.inj h
      exact .inr ⟨length, rfl, hlength.1, hlength.2.2, rfl⟩
    next => contradiction

theorem count_answer (before : List Text) (line : Text) :
    (sh.answer before line).count '%' = if sh.leaves line then 0 else 1 := by
  have hreply : (sh.reply before line).count '%' = 0 :=
    List.count_eq_zero.mpr (sh.reply_prompt before line)
  rw [Shell.answer, List.count_append, hreply, Nat.zero_add]
  cases sh.leaves line <;> rfl

theorem sent_prompt {chunk : Text} (hanswered : Answered (testCase content) n s.console.commands)
    (hprompt : '%' ∈ chunk) : sent s.console (onRead s.console chunk) =
      scriptLine content n ++ ['\n'] := by
  have hcommands : (onRead s.console chunk).commands = doWrite s.console.commands :=
    if_pos hprompt
  rw [sent, hcommands, hanswered.doWrite.written, hanswered.written, answers_length, answers,
    List.range_succ, List.map_append, List.drop_left' (by simp)]
  simp [scriptLine]

theorem sent_other {before : Shown} {chunk : Text} (hprompt : '%' ∉ chunk) :
    sent before (onRead before chunk) = [] := by
  have hcommands : (onRead before chunk).commands = before.commands := if_neg hprompt
  rw [sent, hcommands, List.drop_length]
  rfl

theorem InStep.line (h : InStep sh content s) {line rest : Text} (hopen : s.closed = false)
    (htake : takeLine s.toShell = some (line, rest)) : InStep sh content { s with
      toShell := rest
      toConsole := s.toConsole ++ sh.answer s.lines line
      lines := s.lines ++ [line]
      closed := sh.leaves line } := by
  obtain ⟨hlines, htext, hstays, hclosed, hphase⟩ := h
  cases hphase with
  | prompted _ hnone =>
    rw [hnone] at htake
    contradiction
  | left hleft =>
    rw [hopen] at hleft
    contradiction
  | asked _ hsent hanswered hprompt =>
    rw [hsent, takeLine_append (newline_not_mem_scriptLine content _), Option.some.injEq,
      Prod.mk.injEq] at htake
    obtain ⟨rfl, rfl⟩ := htake
    have hlength : (s.lines ++ [scriptLine content s.lines.length]).length =
        s.lines.length + 1 := by simp
    constructor
    · dsimp only
      rw [hlength, script_succ, ← hlines]
    · dsimp only
      rw [hlength, transcript_succ, ← hlines, ← List.append_assoc, htext]
    · intro i hi
      dsimp only at hi
      rw [hlength] at hi
      by_cases hlast : i + 1 = s.lines.length
      · cases hleaves : sh.leaves (scriptLine content i) with
        | false => rfl
        | true =>
          have hleft := hclosed.mpr ⟨i, hlast.symm, hleaves⟩
          rw [hopen] at hleft
          contradiction
      · exact hstays i (by omega)
    · dsimp only
      rw [hlength]
      constructor
      · exact fun hleaves => ⟨_, rfl, hleaves⟩
      · rintro ⟨last, heq, hleaves⟩
        rw [Nat.add_right_cancel heq]
        exact hleaves
    · have hcount : (s.toConsole ++ sh.answer s.lines (scriptLine content s.lines.length)).count
          '%' = if sh.leaves (scriptLine content s.lines.length) then 0 else 1 := by
        rw [List.count_append, List.count_eq_zero.mpr hprompt, count_answer, Nat.zero_add]
      cases hcase : sh.leaves (scriptLine content s.lines.length) with
      | false =>
        rw [hcase] at hcount
        exact .prompted rfl rfl (by rw [hlength]; exact hanswered) hcount
      | true =>
        rw [hcase] at hcount
        exact .left rfl rfl (by rw [hlength]; exact hanswered) (List.count_eq_zero.mp hcount)

theorem InStep.read (h : InStep sh content s) (length : Nat) : InStep sh content { s with
      console := onRead s.console (s.toConsole.take length)
      toShell := s.toShell ++ sent s.console (onRead s.console (s.toConsole.take length))
      toConsole := s.toConsole.drop length } := by
  obtain ⟨hlines, htext, hstays, hclosed, hphase⟩ := h
  refine ⟨hlines, ?_, hstays, hclosed, ?_⟩
  · simpa [onRead] using htext
  have hcut : s.toConsole.take length ++ s.toConsole.drop length = s.toConsole :=
    List.take_append_drop length s.toConsole
  have hquiet : '%' ∉ s.toConsole → '%' ∉ s.toConsole.take length ∧
      '%' ∉ s.toConsole.drop length := by
    intro hnone
    rw [← hcut, List.mem_append, not_or] at hnone
    exact hnone
  have hsame : '%' ∉ s.toConsole.take length →
      (onRead s.console (s.toConsole.take length)).commands = s.console.commands := fun hnone =>
    if_neg hnone
  cases hphase with
  | prompted hopen hnone hanswered hcount =>
    rw [← hcut, List.count_append] at hcount
    by_cases hprompt : '%' ∈ s.toConsole.take length
    · have hpos := List.count_pos_iff.mpr hprompt
      refine .asked hopen ?_ ?_ (List.count_eq_zero.mp (by dsimp only; omega))
      · dsimp only
        rw [hnone, sent_prompt hanswered hprompt, List.nil_append]
      · have hcommands : (onRead s.console (s.toConsole.take length)).commands =
            doWrite s.console.commands := if_pos hprompt
        dsimp only
        rw [hcommands]
        exact hanswered.doWrite
    · have hzero := List.count_eq_zero.mpr hprompt
      refine .prompted hopen ?_ ?_ (by dsimp only; omega)
      · dsimp only
        rw [hnone, sent_other hprompt, List.nil_append]
      · dsimp only
        rw [hsame hprompt]
        exact hanswered
  | asked hopen hsent hanswered hnone =>
    refine .asked hopen ?_ ?_ (hquiet hnone).2
    · dsimp only
      rw [sent_other (hquiet hnone).1, List.append_nil, hsent]
    · dsimp only
      rw [hsame (hquiet hnone).1]
      exact hanswered
  | left hleft hnone hanswered hquietly =>
    refine .left hleft ?_ ?_ (hquiet hquietly).2
    · dsimp only
      rw [sent_other (hquiet hquietly).1, List.append_nil, hnone]
    · dsimp only
      rw [hsame (hquiet hquietly).1]
      exact hanswered

theorem InStep.step (h : InStep sh content s) (hstep : step sh s e = some s') :
    InStep sh content s' := by
  obtain ⟨line, rest, rfl, hopen, htake, rfl⟩ | ⟨length, rfl, -, -, rfl⟩ := step_cases hstep
  · exact h.line hopen htake
  · exact h.read length

theorem inStep_start (sh : Shell) (content : Text) : InStep sh content (start sh content) := by
  constructor
  · rfl
  · simp [start, Console.start, transcript]
  · intro i hi
    exact absurd hi (Nat.not_lt_zero _)
  · simp [start]
  · refine .prompted rfl rfl ⟨rfl, rfl⟩ ?_
    rw [start, List.count_append, List.count_eq_zero.mpr sh.greeting_prompt]
    rfl

end Step

section Progress

theorem read_enabled (sh : Shell) (h : s.toConsole ≠ []) : ∃ s', step sh s (.read 1) = some s' := by
  have hlength := List.length_pos_iff.mpr h
  rw [step, if_pos ⟨by decide, by decide, hlength⟩]
  exact ⟨_, rfl⟩

theorem InStep.progress (h : InStep sh content s) :
    s.closed = true ∧ s.toConsole = [] ∨ ∃ e s', Lockstep.step sh s e = some s' := by
  have hphase := h.phase
  cases hphase with
  | prompted _ _ _ hcount =>
    have hsome : s.toConsole ≠ [] := by
      intro hnil
      rw [hnil] at hcount
      contradiction
    obtain ⟨s', hs'⟩ := read_enabled sh hsome
    exact .inr ⟨_, s', hs'⟩
  | asked hopen hsent =>
    refine .inr ⟨.line, ?_⟩
    rw [Lockstep.step, hopen, hsent, takeLine_append (newline_not_mem_scriptLine content _)]
    exact ⟨_, rfl⟩
  | left hclosed =>
    by_cases hnil : s.toConsole = []
    · exact .inl ⟨hclosed, hnil⟩
    · obtain ⟨s', hs'⟩ := read_enabled sh hnil
      exact .inr ⟨_, s', hs'⟩

/-- The first line of the script on which the shell leaves. -/
def LeavesFirst (sh : Shell) (content : Text) (k : Nat) : Prop :=
  sh.leaves (scriptLine content k) = true ∧ ∀ i < k, sh.leaves (scriptLine content i) = false

theorem InStep.lines_le (h : InStep sh content s) {k : Nat} (hfirst : LeavesFirst sh content k) :
    s.lines.length ≤ k + 1 ∧ (s.closed = true ↔ s.lines.length = k + 1) := by
  have hbound : s.lines.length ≤ k + 1 := by
    by_contra hlong
    have hstays := h.stays k (by omega)
    rw [hfirst.1] at hstays
    contradiction
  refine ⟨hbound, ?_⟩
  rw [h.closed]
  constructor
  · rintro ⟨last, hlength, hleaves⟩
    by_contra hshort
    have hstays := hfirst.2 last (by omega)
    rw [hleaves] at hstays
    contradiction
  · exact fun hlength => ⟨k, hlength, hfirst.1⟩

end Progress

end NetworkProgramming.Console.Lockstep
