import NetworkProgramming.Console.Escape
import NetworkProgramming.Console.Lockstep
import NetworkProgramming.Library.Lines

/-! The scripts of the project 3 console: all sessions write them to one standard output, in
any order, and each can be read back as what one session has read or answered. -/
namespace NetworkProgramming.Console.Scripts
open Library.CString Library.Lines Library.Run Lockstep Socks Socks.Parser

def bytes (str : Text) : List Byte := str.map fun c => UInt8.ofNat c.toNat

def Ascii (str : Text) : Prop := ∀ c ∈ str, 0 < c.toNat ∧ c.toNat < 128

/-- `sessionId` -/
def place (i : Nat) : Text := 's' :: decimal i

/-- What the callback of `do_read` writes: the output, and the line that answers it. -/
def output (session : Text) (before : Shown) (chunk : Text) : Text :=
  outputShell session (bytes chunk) ++
    if '%' ∈ chunk then outputCommand session (bytes (sent before (onRead before chunk))) else []

/-- The sessions, and what they have written behind the page. -/
structure World where
  link : Nat → Link
  stdout : Text

def start (sh : Nat → Shell) (content : Nat → Text) : World :=
  ⟨fun i => Lockstep.start (sh i) (content i), []⟩

def written (i : Nat) (s : Link) : Lockstep.Event → Text
  | .line => []
  | .read length => output (place i) s.console (s.toConsole.take length)

def step (sh : Nat → Shell) (w : World) : Nat × Lockstep.Event → Option World
  | (i, e) => (Lockstep.step (sh i) (w.link i) e).map fun link =>
      ⟨Function.update w.link i link, w.stdout ++ written i (w.link i) e⟩

/-- A script: whose place it adds to, what it adds, and whether in bold. -/
structure Script where
  session : Nat
  bold : Bool
  text : Text
  deriving DecidableEq, Repr

def Script.line (s : Script) : Text :=
  if s.bold then outputCommand (place s.session) (bytes s.text)
  else outputShell (place s.session) (bytes s.text)

def Script.literal (s : Script) : Text :=
  if s.bold then "<b>".toList ++ (escape (bytes s.text) ++ "</b>".toList) else escape (bytes s.text)

def body (session literal : Text) : Text :=
  "<script>document.getElementById('".toList ++ (session ++
    ("').innerHTML += '".toList ++ (literal ++ "';</script>".toList)))

def Script.markup (s : Script) : Text :=
  if s.bold then "<b>".toList ++ (s.text ++ "</b>".toList) else s.text

structure Reads (s : Shown) (reads : List (Text × Text)) : Prop where
  shown : reads.map Prod.fst = s.shown
  commands : (reads.map Prod.snd).flatten = s.commands.written.flatten
  answered : ∀ r ∈ reads, r.2 ≠ [] ↔ '%' ∈ r.1

def scriptsOf (i : Nat) (r : Text × Text) : List Script :=
  ⟨i, false, r.1⟩ :: if '%' ∈ r.1 then [⟨i, true, r.2⟩] else []

def texts (bold : Bool) (scripts : List Script) : Text :=
  ((scripts.filter (·.bold == bold)).map Script.text).flatten

/-- The scripts of a session are its reads, each piece with its answer behind it: the plain
ones are the beginning of what the shell prints, and those in bold the lines of the test case
that are written. -/
structure Writes (i : Nat) (sh : Shell) (content : Text) (s : Link) (own : List Script) : Prop where
  reads : ∃ reads, Reads s.console reads ∧ own = reads.flatMap (scriptsOf i)
  plain : texts false own ++ s.toConsole = transcript sh content s.lines.length
  bold : ∃ k, s.lines.length ≤ k ∧ k ≤ s.lines.length + 1 ∧
    texts true own = (answers (testCase content) k).flatten

/-- Standard output is these scripts and can be read as no others, and no text ends the
literal that it is in. -/
structure Page (sh : Nat → Shell) (content : Nat → Text) (w : World) (scripts : List Script) :
    Prop where
  stdout : w.stdout = scripts.flatMap Script.line
  inserts : ∀ s ∈ scripts, Inserts s.line (place s.session) s.markup
  sessions : ∀ i, Writes i (sh i) (content i) (w.link i) (scripts.filter (·.session = i))
  only : ∀ others : List Script, (∀ s ∈ others, Ascii s.text) →
    w.stdout = others.flatMap Script.line → others = scripts

/-- What goes over the wire is of one byte each. -/
structure OneByte (sh : Shell) (content : Text) : Prop where
  greeting : Ascii sh.greeting
  reply : ∀ before line, Ascii line → Ascii (sh.reply before line)
  content : Ascii content

variable {sh : Nat → Shell} {content : Nat → Text} {w w' : World} {i : Nat} {str tail : Text}
  {session session' inserted inserted' : Text} {c : Char} {a b : Script} {scripts others : List Script}

section Bytes

end Bytes

section Lines

theorem output_eq (i : Nat) (before : Shown) (chunk : Text) : output (place i) before chunk =
    (scriptsOf i (chunk, sent before (onRead before chunk))).flatMap Script.line := by
  rw [output, scriptsOf]
  by_cases hprompt : '%' ∈ chunk
  · rw [if_pos hprompt, if_pos hprompt]
    simp [Script.line]
  · rw [if_neg hprompt, if_neg hprompt]
    simp [Script.line]

end Lines

section Ascii

theorem Ascii.append (h : Ascii str) (htail : Ascii tail) : Ascii (str ++ tail) := by
  intro c hc
  exact (List.mem_append.mp hc).elim (h c) (htail c)

theorem mem_of_readLines {fuel : Nat} {content line : Text} (h : line ∈ readLines fuel content)
    (hc : c ∈ line) : c ∈ content := by
  induction fuel generalizing content with
  | zero => contradiction
  | succ fuel ih =>
    rw [readLines] at h
    cases hget : Socks.Session.getline content with
    | none =>
      rw [hget] at h
      contradiction
    | some piece =>
      rw [hget] at h
      rw [Socks.Session.getline] at hget
      split at hget
      next => contradiction
      next =>
        cases hget
        obtain rfl | hrest := List.mem_cons.mp h
        · exact (List.takeWhile_sublist _).mem hc
        · exact (List.dropWhile_sublist _).mem (List.mem_of_mem_tail (ih hrest))

theorem mem_of_scriptLine {content : Text} {n : Nat} (h : c ∈ Lockstep.scriptLine content n) :
    c ∈ content := by
  rw [Lockstep.scriptLine] at h
  cases hget : (testCase content)[n]? with
  | none =>
    rw [hget] at h
    contradiction
  | some line =>
    rw [hget] at h
    exact mem_of_readLines (List.mem_of_getElem? hget) h

theorem ascii_line {content : Text} (h : Ascii content) (n : Nat) :
    Ascii (Lockstep.scriptLine content n) := fun c hc => h c (mem_of_scriptLine hc)

theorem ascii_transcript {sh : Shell} {content : Text} (h : OneByte sh content) (n : Nat) :
    Ascii (transcript sh content n) := by
  have hprompt : Ascii prompt := by simp [Ascii, prompt]
  induction n with
  | zero =>
    rw [transcript, List.range_zero, List.flatMap_nil, List.append_nil]
    exact h.greeting.append hprompt
  | succ n ih =>
    rw [transcript_succ, Shell.answer]
    refine ih.append ((h.reply _ _ (ascii_line h.content n)).append ?_)
    split
    · simp [Ascii]
    · exact hprompt

end Ascii

section Session

variable {shell : Shell} {file : Text} {s : Link} {reads : List (Text × Text)}

theorem answered_lines (h : InStep shell file s) : ∃ n, s.lines.length ≤ n ∧ n ≤ s.lines.length + 1 ∧
    Answered (testCase file) n s.console.commands := by
  cases h.phase with
  | prompted _ _ hanswered => exact ⟨_, le_refl _, Nat.le_succ _, hanswered⟩
  | asked _ _ hanswered => exact ⟨_, Nat.le_succ _, le_refl _, hanswered⟩
  | left _ _ hanswered => exact ⟨_, le_refl _, Nat.le_succ _, hanswered⟩

theorem ascii_read (h : InStep shell file s) (hbyte : OneByte shell file) (length : Nat) :
    Ascii (s.toConsole.take length) ∧
      Ascii (sent s.console (onRead s.console (s.toConsole.take length))) := by
  constructor
  · intro c hc
    have hmem : c ∈ s.console.shown.flatten ++ s.toConsole :=
      List.mem_append_right _ (List.mem_of_mem_take hc)
    rw [h.text] at hmem
    exact ascii_transcript hbyte _ c hmem
  · by_cases hprompt : '%' ∈ s.toConsole.take length
    · obtain ⟨n, -, -, hanswered⟩ := answered_lines h
      rw [sent_prompt hanswered hprompt]
      exact (ascii_line hbyte.content n).append (by simp [Ascii])
    · rw [sent_other hprompt]
      simp [Ascii]

theorem Reads.read {before : Shown} (h : Reads before reads) (chunk : Text) :
    Reads (onRead before chunk) (reads ++ [(chunk, sent before (onRead before chunk))]) := by
  have hsent : (onRead before chunk).commands.written.flatten =
      before.commands.written.flatten ++ sent before (onRead before chunk) := by
    by_cases hprompt : '%' ∈ chunk
    · have hcommands : (onRead before chunk).commands = doWrite before.commands := if_pos hprompt
      rw [sent, hcommands, doWrite, List.drop_left, List.flatten_append]
    · have hcommands : (onRead before chunk).commands = before.commands := if_neg hprompt
      rw [sent_other hprompt, hcommands, List.append_nil]
  constructor
  · rw [List.map_append, h.shown]
    rfl
  · rw [List.map_append, List.flatten_append, h.commands, hsent]
    simp
  · intro r hr
    obtain hr | hr := List.mem_append.mp hr
    · exact h.answered r hr
    · rw [List.mem_singleton.mp hr]
      dsimp only
      by_cases hprompt : '%' ∈ chunk
      · have hcommands : (onRead before chunk).commands = doWrite before.commands := if_pos hprompt
        rw [sent, hcommands, doWrite, List.drop_left]
        simp [hprompt]
      · rw [sent_other hprompt]
        simp [hprompt]

theorem ascii_scriptsOf {r : Text × Text} (hread : Ascii r.1) (hanswer : Ascii r.2) :
    ∀ s ∈ scriptsOf i r, Ascii s.text := by
  intro s hs
  obtain rfl | hs := List.mem_cons.mp hs
  · exact hread
  · split at hs
    next =>
      rw [List.mem_singleton.mp hs]
      exact hanswer
    next => contradiction

theorem texts_append (bold : Bool) (scripts more : List Script) :
    texts bold (scripts ++ more) = texts bold scripts ++ texts bold more := by
  simp [texts]

theorem texts_reads (i : Nat) (h : ∀ r ∈ reads, r.2 ≠ [] ↔ '%' ∈ r.1) :
    texts false (reads.flatMap (scriptsOf i)) = (reads.map Prod.fst).flatten ∧
      texts true (reads.flatMap (scriptsOf i)) = (reads.map Prod.snd).flatten := by
  induction reads with
  | nil => exact ⟨rfl, rfl⟩
  | cons r reads ih =>
    rw [List.forall_mem_cons] at h
    obtain ⟨hplain, hbold⟩ := ih h.2
    rw [List.flatMap_cons, texts_append, texts_append, hplain, hbold]
    by_cases hprompt : '%' ∈ r.1
    · simp [texts, scriptsOf, hprompt]
    · have hnone : r.2 = [] := by
        by_contra hne
        exact hprompt (h.1.mp hne)
      simp [texts, scriptsOf, hprompt, hnone]

theorem Reads.writes (h : Reads s.console reads) (hstep : InStep shell file s) (i : Nat) :
    Writes i shell file s (reads.flatMap (scriptsOf i)) := by
  obtain ⟨hplain, hbold⟩ := texts_reads i h.answered
  obtain ⟨k, hlow, hhigh, hanswered⟩ := answered_lines hstep
  constructor
  · exact ⟨reads, h, rfl⟩
  · rw [hplain, h.shown]
    exact hstep.text
  · refine ⟨k, hlow, hhigh, ?_⟩
    rw [hbold, h.commands, hanswered.written]

end Session

section Runs

/-- What is written are scripts, and those of each session are its reads. -/
structure Invariant (sh : Nat → Shell) (content : Nat → Text) (w : World) : Prop where
  inStep : ∀ i, InStep (sh i) (content i) (w.link i)
  scripts : ∃ scripts : List Script, (∀ s ∈ scripts, Ascii s.text) ∧
    w.stdout = scripts.flatMap Script.line ∧
    ∀ i, ∃ reads, Reads (w.link i).console reads ∧
      scripts.filter (·.session = i) = reads.flatMap (scriptsOf i)

theorem invariant_start (sh : Nat → Shell) (content : Nat → Text) :
    Invariant sh content (start sh content) := by
  refine ⟨fun i => inStep_start (sh i) (content i), [], by simp, rfl, fun i => ⟨[], ?_, rfl⟩⟩
  exact ⟨rfl, rfl, by simp⟩

theorem filter_scriptsOf (i j : Nat) (r : Text × Text) :
    (scriptsOf i r).filter (·.session = j) = if i = j then scriptsOf i r else [] := by
  unfold scriptsOf
  by_cases hsame : i = j
  · split <;> simp [hsame]
  · split <;> simp [hsame]

theorem Invariant.step (hbyte : ∀ i, OneByte (sh i) (content i)) (h : Invariant sh content w)
    {e : Nat × Lockstep.Event} (hstep : Scripts.step sh w e = some w') :
    Invariant sh content w' := by
  obtain ⟨i, e⟩ := e
  obtain ⟨link, hlink, rfl⟩ := Option.map_eq_some_iff.mp hstep
  obtain ⟨scripts, hascii, hstdout, hreads⟩ := h.scripts
  constructor
  · intro j
    dsimp only
    by_cases hj : j = i
    · subst hj
      rw [Function.update_self]
      exact (h.inStep j).step hlink
    · rw [Function.update_of_ne hj]
      exact h.inStep j
  · obtain ⟨line, rest, rfl, -, -, rfl⟩ | ⟨length, rfl, -, -, rfl⟩ := step_cases hlink
    · refine ⟨scripts, hascii, ?_, fun j => ?_⟩
      · rw [← hstdout]
        exact List.append_nil _
      · obtain ⟨reads, hread, hown⟩ := hreads j
        refine ⟨reads, ?_, hown⟩
        dsimp only
        by_cases hj : j = i
        · subst hj
          rw [Function.update_self]
          exact hread
        · rw [Function.update_of_ne hj]
          exact hread
    · obtain ⟨hchunk, hsent⟩ := ascii_read (h.inStep i) (hbyte i) length
      let r := ((w.link i).toConsole.take length,
        sent (w.link i).console (onRead (w.link i).console ((w.link i).toConsole.take length)))
      refine ⟨scripts ++ scriptsOf i r, ?_, ?_, fun j => ?_⟩
      · intro s hs
        obtain hs | hs := List.mem_append.mp hs
        · exact hascii s hs
        · exact ascii_scriptsOf hchunk hsent s hs
      · dsimp only
        rw [hstdout, written, output_eq, List.flatMap_append]
      · obtain ⟨reads, hread, hown⟩ := hreads j
        dsimp only
        rw [List.filter_append, hown, filter_scriptsOf]
        by_cases hj : j = i
        · subst hj
          rw [Function.update_self, if_pos rfl]
          refine ⟨_, hread.read _, ?_⟩
          rw [List.flatMap_append, List.flatMap_singleton]
        · rw [Function.update_of_ne hj, if_neg (Ne.symm hj), List.append_nil]
          exact ⟨reads, hread, rfl⟩

def markup : Text := "</b><script>'\n".toList

end Runs

end NetworkProgramming.Console.Scripts
