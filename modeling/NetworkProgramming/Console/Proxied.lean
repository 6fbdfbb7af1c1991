import NetworkProgramming.Console.Scripts
import NetworkProgramming.Console.Display
import NetworkProgramming.Socks.Answer
import NetworkProgramming.Socks.Transparent

/-! The project 4 console and a shell, with the bridge of `socks_server` between them. Old
bytes in `data_` may make the console write a line too early; it leaves no prompt without
one. -/
namespace NetworkProgramming.Console.Proxied
open Library.CString Library.Buffer Library.Lines Library.Run Socks Socks.Transparent
open Scripts (bytes)
open Lockstep (scriptLine script)

def newline : Byte := 10

def prompt : List Byte := [percent, 32]

/-- A shell: what it prints first, what it prints for a line behind earlier ones, and the
lines on which it leaves. It prints a `%` in its prompts only, and no NUL. -/
structure Shell where
  greeting : List Byte
  reply : List (List Byte) → List Byte → List Byte
  leaves : List Byte → Bool
  greeting_plain : percent ∉ greeting ∧ 0 ∉ greeting
  reply_plain : ∀ before line, percent ∉ reply before line ∧ 0 ∉ reply before line

def Shell.answer (sh : Shell) (before : List (List Byte)) (line : List Byte) : List Byte :=
  sh.reply before line ++ if sh.leaves line then [] else prompt

/-- The shell with the bytes that are no line yet, its lines, all that it has printed, and
the part of it that has not gone out. -/
structure Server where
  input : List Byte
  lines : List (List Byte)
  printed : List Byte
  unsent : List Byte
  closed : Bool

def Server.start (sh : Shell) : Server :=
  ⟨[], [], sh.greeting ++ prompt, sh.greeting ++ prompt, false⟩

def Server.take (sh : Shell) (s : Server) (b : Byte) : Server :=
  if s.closed ∨ b ≠ newline then { s with input := s.input ++ [b] }
  else
    { input := []
      lines := s.lines ++ [s.input]
      printed := s.printed ++ sh.answer s.lines s.input
      unsent := s.unsent ++ sh.answer s.lines s.input
      closed := sh.leaves s.input }

def goOut (unsent sent : List Byte) : Option (List Byte) :=
  if sent <+: unsent then some (unsent.drop sent.length) else none

def Server.act (sh : Shell) (s : Server) : Act → Option Server
  | .send sent => (goOut s.unsent sent).map fun unsent => { s with unsent }
  | .recv received => some (received.foldl (Server.take sh) s)

/-- The console with the number of bytes it has read, the line that its socket is to take
next, and whether no read so far went across the end of the reply. -/
structure Client where
  console : Npshell
  position : Nat
  unsent : List Byte
  apart : Bool

def Client.start (data : Vector Byte 1024) (content : Text) : Client :=
  ⟨Npshell.start data content, 0, [], true⟩

/-- A closed socket reads nothing. The string that `do_write` hands to `async_write` is gone
when it returns, so a line is to be taken whole and before the console reads again. -/
def Client.act (c : Client) : Act → Option Client
  | .send sent => if sent = c.unsent then some { c with unsent := [] } else none
  | .recv received =>
    if c.console.stage = .closed ∨ c.unsent ≠ [] then none
    else (next c.console (.read (marks c.position received))).map fun console =>
      { console
        position := c.position + received.length
        unsent := c.unsent ++
          bytes (console.commands.written.drop c.console.commands.written.length).flatten
        apart := c.apart &&
          decide (c.position + received.length ≤ 8 ∨ 8 ≤ c.position) }

inductive Program where
  | client (c : Client)
  | server (s : Server)

def program (sh : Shell) : Side → Program → Act → Option Program
  | .client, .client c, a => (c.act a).map .client
  | .server, .server s, a => (s.act sh a).map .server
  | _, _, _ => none

def programs (sh : Shell) (data : Vector Byte 1024) (content : Text) : Side → Program
  | .client => .client (Client.start data content)
  | .server => .server (Server.start sh)

def Server.received (s : Server) : List Byte := unlines newline s.lines ++ s.input

def Octets (str : Text) : Prop := ∀ c ∈ str, c.toNat < 256

structure Client.Sound (content : Text) (c : Client) : Prop where
  source : c.console.source = content
  opening : c.console.stage = .opening → c.position = 0
  reading : c.console.stage = .reading →
    Answered (testCase content) c.console.commands.written.length c.console.commands
  quiet : c.console.stage ≠ .reading → c.console.commands.written = []

structure Server.Sound (s : Server) : Prop where
  lines : ∀ line ∈ s.lines, newline ∉ line
  input : s.closed = false → newline ∉ s.input
  plain : 0 ∉ s.printed
  prompts : s.printed.count percent = s.lines.length + if s.closed then 0 else 1

/-- The two ends of one connection with the reply on it: every byte is where it is to be,
and the console has written a line for each prompt that it has read. -/
structure Linked (reply : Vector Byte 8) (content : Text) (wire : Side → List Byte) (c : Client)
    (s : Server) : Prop where
  client : c.Sound content
  server : s.Sound
  upstream : bytes c.console.commands.written.flatten =
    s.received ++ (wire .server ++ c.unsent)
  downstream : (reply.toList ++ s.printed).drop c.position = wire .client ++ s.unsent
  position : c.position ≤ 8 + s.printed.length
  heard : c.apart = true →
    (s.printed.take (c.position - 8)).count percent ≤ c.console.commands.written.length

variable {sh : Shell} {reply : Vector Byte 8} {content : Text} {wire wire' : Side → List Byte}
  {c c' : Client} {s s' : Server} {sent received rest : List Byte}

section Server

theorem count_prompt (before : List (List Byte)) (line : List Byte) :
    (sh.answer before line).count percent = if sh.leaves line then 0 else 1 := by
  have hreply := List.count_eq_zero.mpr (sh.reply_plain before line).1
  rw [Shell.answer, List.count_append, hreply, Nat.zero_add]
  cases sh.leaves line <;> rfl

theorem zero_not_mem_answer (before : List (List Byte)) (line : List Byte) :
    0 ∉ sh.answer before line := by
  rw [Shell.answer, List.mem_append, not_or]
  refine ⟨(sh.reply_plain before line).2, ?_⟩
  cases sh.leaves line <;> decide

theorem server_start (sh : Shell) : (Server.start sh).Sound := by
  obtain ⟨hpercent, hzero⟩ := sh.greeting_plain
  constructor
  · simp [Server.start]
  · simp [Server.start]
  · rw [Server.start, List.mem_append, not_or]
    exact ⟨hzero, by decide⟩
  · rw [Server.start, List.count_append, List.count_eq_zero.mpr hpercent]
    rfl

structure Grows (s s' : Server) (received : List Byte) : Prop where
  received : s'.received = s.received ++ received
  printed : ∃ more, s'.printed = s.printed ++ more ∧ s'.unsent = s.unsent ++ more

theorem take_grows (sh : Shell) (s : Server) (b : Byte) : Grows s (s.take sh b) [b] := by
  unfold Server.take
  split
  next =>
    refine ⟨?_, [], by simp, by simp⟩
    rw [Server.received, Server.received, List.append_assoc]
  next h =>
    obtain ⟨-, hb⟩ := not_or.mp h
    rw [not_not] at hb
    refine ⟨?_, _, rfl, rfl⟩
    rw [Server.received, Server.received, unlines_append, hb]
    simp

theorem Server.Sound.take (h : s.Sound) (b : Byte) : (s.take sh b).Sound := by
  unfold Server.take
  split
  next hother =>
    refine ⟨h.lines, ?_, h.plain, h.prompts⟩
    intro hopen
    dsimp only at hopen ⊢
    rw [hopen] at hother
    rw [List.mem_append, not_or, List.mem_singleton]
    refine ⟨h.input hopen, ?_⟩
    rintro rfl
    simp at hother
  next hline =>
    have hopen : s.closed = false := by
      rw [← Bool.not_eq_true]
      exact fun hclosed => hline (.inl hclosed)
    constructor
    · intro line hmem
      rw [List.mem_append, List.mem_singleton] at hmem
      obtain hmem | rfl := hmem
      · exact h.lines line hmem
      · exact h.input hopen
    · simp
    · rw [List.mem_append, not_or]
      exact ⟨h.plain, zero_not_mem_answer _ _⟩
    · have hprompts := h.prompts
      rw [hopen] at hprompts
      dsimp only
      rw [List.count_append, hprompts, count_prompt, List.length_append]
      simp

theorem foldl_grows (sh : Shell) (s : Server) (received : List Byte) :
    Grows s (received.foldl (Server.take sh) s) received := by
  induction received generalizing s with
  | nil => exact ⟨by simp, [], by simp, by simp⟩
  | cons b received ih =>
    obtain ⟨hfirst, more, hprinted, hunsent⟩ := take_grows sh s b
    obtain ⟨hrest, others, hprinted', hunsent'⟩ := ih (s.take sh b)
    refine ⟨?_, more ++ others, ?_, ?_⟩
    · rw [List.foldl_cons, hrest, hfirst, List.append_assoc, List.singleton_append]
    · rw [List.foldl_cons, hprinted', hprinted, List.append_assoc]
    · rw [List.foldl_cons, hunsent', hunsent, List.append_assoc]

theorem Server.Sound.foldl (h : s.Sound) (received : List Byte) :
    (received.foldl (Server.take sh) s).Sound := by
  induction received generalizing s with
  | nil => exact h
  | cons b received ih => exact ih (h.take b)

end Server

section Client

theorem client_start (data : Vector Byte 1024) (content : Text) :
    (Client.start data content).Sound content :=
  ⟨rfl, fun _ => rfl, fun h => absurd h (by simp [Client.start, Npshell.start]), fun _ => rfl⟩

structure Heard (c c' : Client) (received : List Byte) : Prop where
  position : c'.position = c.position + received.length
  unsent : c'.unsent = c.unsent ++
    bytes (c'.console.commands.written.drop c.console.commands.written.length).flatten
  apart : c'.apart = true → c.apart = true ∧ (c'.position ≤ 8 ∨ 8 ≤ c.position)
  console : (c.console.stage = .opening ∧ received.length ≤ 8 ∧
      c'.console = onOpened c.console (marks c.position received)) ∨
    (c.console.stage = .reading ∧ received.length ≤ 1024 ∧
      onOutput c.console (marks c.position received) = some c'.console)

theorem marks_length (start : Nat) (received : List Byte) :
    (marks start received).length = received.length := by
  simp [marks]

theorem act_heard (h : c.act (.recv received) = some c') : Heard c c' received := by
  unfold Client.act at h
  dsimp only at h
  split at h
  next => contradiction
  next hidle =>
    obtain ⟨hopen, -⟩ := not_or.mp hidle
    obtain ⟨console, hnext, rfl⟩ := Option.map_eq_some_iff.mp h
    refine ⟨rfl, rfl, ?_, ?_⟩
    · intro hapart
      rw [Bool.and_eq_true, decide_eq_true_eq] at hapart
      exact hapart
    · unfold next at hnext
      dsimp only at hnext
      cases hstage : c.console.stage with
      | opening =>
        rw [hstage] at hnext
        dsimp only at hnext
        split at hnext
        next hlength =>
          rw [marks_length] at hlength
          exact .inl ⟨rfl, hlength.2, (Option.some.inj hnext).symm⟩
        next => contradiction
      | reading =>
        rw [hstage] at hnext
        dsimp only at hnext
        split at hnext
        next hlength =>
          rw [marks_length] at hlength
          exact .inr ⟨rfl, hlength.2, hnext⟩
        next => contradiction
      | closed => exact absurd hstage hopen

theorem onOutput_commands {n n' : Npshell} {chunk : List Mark} (h : onOutput n chunk = some n') :
    n'.stage = n.stage ∧ n'.source = n.source ∧ ∃ str, cString (fill n.data chunk) = some str ∧
      n'.commands = if str.any (·.byte == percent) then doWrite n.commands else n.commands := by
  rw [onOutput] at h
  dsimp only [Option.bind_eq_bind] at h
  obtain ⟨str, hstr, hn⟩ := Option.bind_eq_some_iff.mp h
  cases hn
  exact ⟨rfl, rfl, str, hstr, rfl⟩

theorem onOpened_cases (n : Npshell) (chunk : List Mark) : (onOpened n chunk).source = n.source ∧
    ((onOpened n chunk).stage = .reading ∧ (onOpened n chunk).commands = ⟨testCase n.source, []⟩ ∨
      (onOpened n chunk).stage = .closed ∧ (onOpened n chunk).commands = n.commands) := by
  unfold onOpened
  dsimp only
  split
  next => exact ⟨rfl, .inl ⟨rfl, rfl⟩⟩
  next => exact ⟨rfl, .inr ⟨rfl, rfl⟩⟩

theorem Client.Sound.opened {chunk : List Mark} (h : c.Sound content)
    (hstage : c.console.stage = .opening) (hconsole : c'.console = onOpened c.console chunk) :
    c'.Sound content ∧ c.console.commands.written <+: c'.console.commands.written := by
  have hnone : c.console.commands.written = [] := h.quiet (by simp [hstage])
  obtain ⟨hsource, ⟨hopened, hcommands⟩ | ⟨hclosed, hcommands⟩⟩ := onOpened_cases c.console chunk
  · rw [← hconsole] at hsource hopened hcommands
    refine ⟨⟨hsource.trans h.source, fun hopening => ?_, fun _ => ?_, fun hother => ?_⟩, ?_⟩
    · rw [hopened] at hopening
      contradiction
    · rw [hcommands, h.source]
      exact ⟨rfl, rfl⟩
    · exact absurd hopened hother
    · rw [hnone]
      exact List.nil_prefix
  · rw [← hconsole] at hsource hclosed hcommands
    refine ⟨⟨hsource.trans h.source, fun hopening => ?_, fun hreading => ?_, fun _ => ?_⟩, ?_⟩
    · rw [hclosed] at hopening
      contradiction
    · rw [hclosed] at hreading
      contradiction
    · rw [hcommands, hnone]
    · rw [hcommands]

/-- Output of the shell lets `do_write` answer it, or leaves the commands alone. -/
theorem Client.Sound.output {chunk : List Mark} (h : c.Sound content)
    (hstage : c.console.stage = .reading) (houtput : onOutput c.console chunk = some c'.console) :
    c'.Sound content ∧ c.console.commands.written <+: c'.console.commands.written := by
  obtain ⟨hsame, hsource, str, -, hcommands⟩ := onOutput_commands houtput
  have hanswered := h.reading hstage
  have hreading := hsame.trans hstage
  have hgrow : Answered (testCase content) c'.console.commands.written.length
      c'.console.commands ∧ c.console.commands.written <+: c'.console.commands.written := by
    rw [hcommands]
    split
    next =>
      refine ⟨?_, List.prefix_append _ _⟩
      have hnext := hanswered.doWrite
      have hlength : (doWrite c.console.commands).written.length =
          c.console.commands.written.length + 1 := by simp [doWrite]
      rw [hlength]
      exact hnext
    next => exact ⟨hanswered, List.prefix_refl _⟩
  refine ⟨⟨hsource.trans h.source, fun hopening => ?_, fun _ => hgrow.1, fun hother => ?_⟩,
    hgrow.2⟩
  · rw [hreading] at hopening
    cases hopening
  · exact absurd hreading hother

theorem Client.Sound.heard (h : c.Sound content) (hheard : Heard c c' received) :
    c'.Sound content ∧ c.console.commands.written <+: c'.console.commands.written := by
  obtain ⟨hstage, -, hconsole⟩ | ⟨hstage, -, houtput⟩ := hheard.console
  · exact h.opened hstage hconsole
  · exact h.output hstage houtput

/-- A prompt in the bytes that a read brings behind the reply is answered, whatever old bytes
stand behind it. -/
theorem Heard.answers (h : Heard c c' received) (hreading : c.console.stage = .reading)
    (hplain : 0 ∉ received) (hprompt : percent ∈ received) :
    c'.console.commands.written.length = c.console.commands.written.length + 1 := by
  obtain ⟨hstage, -⟩ | ⟨-, hlength, houtput⟩ := h.console
  · rw [hreading] at hstage
    contradiction
  obtain ⟨-, -, str, hstr, hcommands⟩ := onOutput_commands houtput
  have hvisible : ∀ m ∈ marks c.position received, (m.byte == 0) = false := by
    intro m hm
    obtain ⟨i, hi, rfl⟩ := List.mem_mapIdx.mp hm
    rw [beq_eq_false_iff_ne]
    intro hzero
    exact hplain (hzero ▸ List.getElem_mem hi)
  have hlong : (marks c.position received).length ≤ 1024 := by rwa [marks_length]
  rw [cString, scan_fill hlong hvisible] at hstr
  obtain ⟨old, -, rfl⟩ := Option.map_eq_some_iff.mp hstr
  have hfound : (marks c.position received ++ old).any (·.byte == percent) = true := by
    obtain ⟨i, hi, hget⟩ := List.mem_iff_getElem.mp hprompt
    rw [List.any_eq_true]
    refine ⟨⟨.stream (c.position + i), received[i]⟩, ?_, by rw [hget]; rfl⟩
    exact List.mem_append_left _ (List.mem_mapIdx.mpr ⟨i, hi, rfl⟩)
  rw [hcommands, if_pos hfound]
  simp [doWrite]

end Client

section Linked

theorem Client.Sound.written (h : c.Sound content) : c.console.commands.written =
    answers (testCase content) c.console.commands.written.length := by
  by_cases hreading : c.console.stage = .reading
  · exact (h.reading hreading).written
  · rw [h.quiet hreading]
    rfl

theorem bytes_answers (content : Text) (n : Nat) :
    bytes (answers (testCase content) n).flatten =
      unlines newline ((script content n).map bytes) := by
  rw [Lockstep.answers_eq, bytes, List.map_flatten, List.map_map, unlines, List.flatMap_map,
    List.flatMap_def]
  congr 1
  apply List.map_congr_left
  intro line _
  simp [bytes, newline]

theorem newline_not_mem_line (h : Octets content) (n : Nat) :
    ∀ line ∈ (script content n).map bytes, newline ∉ line := by
  intro line hline hmem
  obtain ⟨str, hstr, rfl⟩ := List.mem_map.mp hline
  obtain ⟨i, -, rfl⟩ := List.mem_map.mp hstr
  obtain ⟨ch, hch, heq⟩ := List.mem_map.mp hmem
  have hcode := congrArg UInt8.toNat heq
  rw [UInt8.toNat_ofNat', Nat.mod_eq_of_lt (h ch (Scripts.mem_of_scriptLine hch))] at hcode
  have hnewline : ch = '\n' := Char.ext (UInt32.toNat_inj.mp hcode)
  rw [hnewline] at hch
  exact Lockstep.newline_not_mem_scriptLine content i hch

theorem Linked.lines (h : Linked reply content wire c s) (hoctets : Octets content) :
    s.lines <+: (script content c.console.commands.written.length).map bytes := by
  have hstream : unlines newline s.lines ++ (s.input ++ (wire .server ++ c.unsent)) =
      unlines newline ((script content c.console.commands.written.length).map bytes) := by
    rw [← bytes_answers, ← h.client.written, h.upstream, Server.received, List.append_assoc]
  exact prefix_of_unlines h.server.lines (newline_not_mem_line hoctets _) hstream

theorem Linked.lines_le (h : Linked reply content wire c s) (hoctets : Octets content) :
    s.lines.length ≤ c.console.commands.written.length := by
  have hlength := (h.lines hoctets).length_le
  rwa [List.length_map, script, List.length_map, List.length_range] at hlength

theorem goOut_eq_some {unsent : List Byte} (h : goOut unsent sent = some rest) :
    unsent = sent ++ rest := by
  unfold goOut at h
  split at h
  next hprefix =>
    obtain ⟨more, rfl⟩ := hprefix
    rw [List.drop_left, Option.some.injEq] at h
    rw [h]
  next => contradiction

theorem linked_start (sh : Shell) (reply : Vector Byte 8) (data : Vector Byte 1024)
    (content : Text) : Linked reply content (Bridge.preface reply) (Client.start data content)
      (Server.start sh) := by
  constructor
  · exact client_start data content
  · exact server_start sh
  · rfl
  · rfl
  · exact Nat.zero_le _
  · intro _
    exact Nat.zero_le _

theorem Linked.clientSends (h : Linked reply content wire c s) :
    Linked reply content (put wire .server c.unsent) { c with unsent := [] } s := by
  constructor
  · exact ⟨h.client.source, h.client.opening, h.client.reading, h.client.quiet⟩
  · exact h.server
  · rw [put_self, List.append_nil]
    exact h.upstream
  · rw [put_of_ne (by decide)]
    exact h.downstream
  · exact h.position
  · exact h.heard

theorem Linked.serverSends (h : Linked reply content wire c s)
    (hout : goOut s.unsent sent = some rest) :
    Linked reply content (put wire .client sent) c { s with unsent := rest } := by
  constructor
  · exact h.client
  · exact ⟨h.server.lines, h.server.input, h.server.plain, h.server.prompts⟩
  · rw [put_of_ne (by decide)]
    exact h.upstream
  · rw [put_self, List.append_assoc, ← goOut_eq_some hout]
    exact h.downstream
  · exact h.position
  · exact h.heard

theorem Linked.serverReads (h : Linked reply content wire c s)
    (htake : Transparent.take wire .server received = some wire') :
    Linked reply content wire' c (received.foldl (Server.take sh) s) := by
  obtain ⟨hnext, hothers⟩ := take_eq_some htake
  obtain ⟨hreceived, more, hprinted, hunsent⟩ := foldl_grows sh s received
  constructor
  · exact h.client
  · exact h.server.foldl received
  · rw [h.upstream, hreceived, hnext]
    simp only [List.append_assoc]
  · have hlength : c.position ≤ (reply.toList ++ s.printed).length := by
      rw [List.length_append, Vector.length_toList]
      exact h.position
    rw [hprinted, ← List.append_assoc, List.drop_append_of_le_length hlength, h.downstream,
      hothers .client (by decide), hunsent, List.append_assoc]
  · rw [hprinted, List.length_append]
    have hposition := h.position
    omega
  · intro hapart
    have hlength : c.position - 8 ≤ s.printed.length := by
      have hposition := h.position
      omega
    rw [hprinted, List.take_append_of_le_length hlength]
    exact h.heard hapart

theorem Linked.underway (h : Linked reply content wire c s) (hbehind : 8 ≤ c.position) :
    s.printed.drop (c.position - 8) = wire .client ++ s.unsent := by
  have hreply : reply.toList.drop c.position = [] :=
    List.drop_eq_nil_of_le (by rwa [Vector.length_toList])
  rw [← h.downstream, List.drop_append, hreply, List.nil_append, Vector.length_toList]

theorem Linked.clientReads (h : Linked reply content wire c s) (hoctets : Octets content)
    (htake : Transparent.take wire .client received = some wire')
    (hheard : Heard c c' received) : Linked reply content wire' c' s := by
  obtain ⟨hnext, hothers⟩ := take_eq_some htake
  obtain ⟨hclient, hgrow⟩ := h.client.heard hheard
  have hread : (reply.toList ++ s.printed).drop c.position =
      received ++ (wire' .client ++ s.unsent) := by
    rw [h.downstream, hnext, List.append_assoc]
  have hbound : c.position + received.length ≤ 8 + s.printed.length := by
    have hlength := congrArg List.length hread
    simp only [List.length_drop, List.length_append, Vector.length_toList] at hlength
    have hposition := h.position
    omega
  constructor
  · exact hclient
  · exact h.server
  · obtain ⟨more, hmore⟩ := hgrow
    rw [← hmore, hheard.unsent, ← hmore, List.drop_left, hothers .server (by decide),
      List.flatten_append, bytes, List.map_append, ← bytes, ← bytes, h.upstream]
    simp only [List.append_assoc]
  · rw [hheard.position, ← List.drop_drop, hread, List.drop_left]
  · rw [hheard.position]
    exact hbound
  · intro hapart
    obtain ⟨hbefore, hplace⟩ := hheard.apart hapart
    have hold := h.heard hbefore
    by_cases hinside : c'.position ≤ 8
    · have hnone : c'.position - 8 = 0 := by omega
      rw [hnone, List.take_zero, List.count_nil]
      exact Nat.zero_le _
    · have hbehind : 8 ≤ c.position := hplace.resolve_left hinside
      have hprinted : s.printed.drop (c.position - 8) = received ++ (wire' .client ++ s.unsent) := by
        rw [h.underway hbehind, hnext, List.append_assoc]
      have hsplit : s.printed.take (c'.position - 8) =
          s.printed.take (c.position - 8) ++ received := by
        have hsum : c'.position - 8 = c.position - 8 + received.length := by
          rw [hheard.position]
          omega
        rw [hsum, List.take_add, hprinted, List.take_left]
      by_cases hprompt : percent ∈ received
      · have hreading : c.console.stage = .reading := by
          obtain ⟨hopening, -⟩ | ⟨hreading, -⟩ := hheard.console
          · have hzero := h.client.opening hopening
            omega
          · exact hreading
        have hplain : 0 ∉ received := by
          intro hzero
          have hmem : 0 ∈ s.printed.drop (c.position - 8) := by
            rw [hprinted]
            exact List.mem_append_left _ hzero
          exact h.server.plain (List.mem_of_mem_drop hmem)
        -- at most one prompt more than the shell has lines, and these are written
        have hall : (s.printed.take (c'.position - 8)).count percent ≤ s.printed.count percent :=
          (List.take_sublist _ _).count_le _
        have hlines := h.lines_le hoctets
        have hprompts := h.server.prompts
        rw [hheard.answers hreading hplain hprompt]
        split at hprompts <;> omega
      · rw [hsplit, List.count_append, List.count_eq_zero.mpr hprompt]
        exact le_trans hold hgrow.length_le

end Linked

section Run

variable {d d' : Direct Program} {es : List (Side × Act)} {side : Side} {a : Act}

def Joined (reply : Vector Byte 8) (content : Text) (d : Direct Program) : Prop :=
  ∃ c s, d.state .client = .client c ∧ d.state .server = .server s ∧
    Linked reply content d.wire c s

theorem program_client {p : Program} (h : program sh .client (.client c) a = some p) :
    ∃ c', p = .client c' ∧ c.act a = some c' := by
  obtain ⟨c', hc', rfl⟩ := Option.map_eq_some_iff.mp h
  exact ⟨c', rfl, hc'⟩

theorem program_server {p : Program} (h : program sh .server (.server s) a = some p) :
    ∃ s', p = .server s' ∧ s.act sh a = some s' := by
  obtain ⟨s', hs', rfl⟩ := Option.map_eq_some_iff.mp h
  exact ⟨s', rfl, hs'⟩

theorem joined_client {state : Side → Program} (hs : state .server = .server s)
    (h : Linked reply content wire c s) :
    Joined reply content ⟨Function.update state .client (.client c), wire⟩ := by
  have hother : Function.update state .client (.client c) .server = .server s := by
    rwa [Function.update_of_ne (by decide)]
  exact ⟨c, s, Function.update_self .client (Program.client c) state, hother, h⟩

theorem joined_server {state : Side → Program} (hc : state .client = .client c)
    (h : Linked reply content wire c s) :
    Joined reply content ⟨Function.update state .server (.server s), wire⟩ := by
  have hother : Function.update state .server (.server s) .client = .client c := by
    rwa [Function.update_of_ne (by decide)]
  exact ⟨c, s, hother, Function.update_self .server (Program.server s) state, h⟩

theorem Joined.step (hoctets : Octets content) (h : Joined reply content d)
    (hstep : d.step (program sh) (side, a) = some d') : Joined reply content d' := by
  obtain ⟨c, s, hc, hs, hlinked⟩ := h
  cases side with
  | client =>
    cases a with
    | send sent =>
      obtain ⟨p, hp, rfl⟩ := Option.map_eq_some_iff.mp hstep
      rw [hc] at hp
      obtain ⟨c', rfl, hact⟩ := program_client hp
      unfold Client.act at hact
      dsimp only at hact
      split at hact
      next hline =>
        cases hact
        rw [hline]
        exact joined_client hs hlinked.clientSends
      next => contradiction
    | recv received =>
      obtain ⟨p, hp, hmap⟩ := Option.bind_eq_some_iff.mp hstep
      obtain ⟨wire, hwire, rfl⟩ := Option.map_eq_some_iff.mp hmap
      rw [hc] at hp
      obtain ⟨c', rfl, hact⟩ := program_client hp
      exact joined_client hs (hlinked.clientReads hoctets hwire (act_heard hact))
  | server =>
    cases a with
    | send sent =>
      obtain ⟨p, hp, rfl⟩ := Option.map_eq_some_iff.mp hstep
      rw [hs] at hp
      obtain ⟨s', rfl, hact⟩ := program_server hp
      obtain ⟨rest, hrest, rfl⟩ := Option.map_eq_some_iff.mp hact
      exact joined_server hc (hlinked.serverSends hrest)
    | recv received =>
      obtain ⟨p, hp, hmap⟩ := Option.bind_eq_some_iff.mp hstep
      obtain ⟨wire, hwire, rfl⟩ := Option.map_eq_some_iff.mp hmap
      rw [hs] at hp
      obtain ⟨s', rfl, hact⟩ := program_server hp
      obtain rfl := Option.some.inj hact
      exact joined_server hc (hlinked.serverReads hwire)

theorem joined_run (hoctets : Octets content) {data : Vector Byte 1024}
    (hrun : exec (Direct.step (program sh)) (Direct.start reply (programs sh data content)) es =
      some d) : Joined reply content d := by
  refine invariant_always (I := fun _ d => Joined reply content d) ?_ ?_ es d hrun
  · exact ⟨_, _, rfl, rfl, linked_start sh reply data content⟩
  · intro _ d e d' _ hjoined hstep
    exact hjoined.step hoctets hstep

/-- The console has read all that the shell has printed. -/
def CaughtUp (c : Client) (s : Server) : Prop := c.position = 8 + s.printed.length

/-- With the bridge between them: the shell reads the lines of the test case in their order,
each once, and when an open shell has been read up, with no read across the end of the
reply, there is a line for it that it does not have yet. -/
theorem proxied_answered (sh : Shell) (reply : Vector Byte 8) (data : Vector Byte 1024)
    (content : Text) (hoctets : Octets content) (es : List Transparent.Event) (w : Bridged Program)
    (hlast : LastShort reply es)
    (hrun : exec (Bridged.step (program sh)) (Bridged.start reply (programs sh data content)) es =
      some w) :
    ∃ c s, w.state .client = .client c ∧ w.state .server = .server s ∧
      s.lines = (script content s.lines.length).map bytes ∧
      (c.apart = true → CaughtUp c s → s.closed = false →
        s.lines.length < c.console.commands.written.length) := by
  obtain ⟨d, hd, hmirrors⟩ := mirrored hlast hrun
  obtain ⟨c, s, hc, hs, hlinked⟩ := joined_run hoctets hd
  rw [hmirrors.state] at hc hs
  refine ⟨c, s, hc, hs, ?_, ?_⟩
  · have hprefix := hlinked.lines hoctets
    have hle := hlinked.lines_le hoctets
    have htake := List.prefix_iff_eq_take.mp hprefix
    rw [script, ← List.map_take, ← List.map_take, List.take_range, Nat.min_eq_left hle] at htake
    exact htake
  · intro hapart hcaught hopen
    have hheard := hlinked.heard hapart
    have hprompts := hlinked.server.prompts
    rw [CaughtUp] at hcaught
    rw [hcaught, Nat.add_sub_cancel_left, List.take_length, hprompts, hopen] at hheard
    exact hheard

theorem silent_plain : percent ∉ ([] : List Byte) ∧ 0 ∉ ([] : List Byte) := by decide

def silent : Shell where
  greeting := []
  reply _ _ := []
  leaves line := line = bytes "exit".toList
  greeting_plain := silent_plain
  reply_plain _ _ := silent_plain

def granted : Vector Byte 8 := Answer.socksrpy 0 90 0

/-- The reply goes out first, then the prompt and the line that answers it. -/
def firstPrompt : List Transparent.Event :=
  let line := bytes "ls\n".toList
  [.bridge (.resolved true), .bridge (.connected true), .bridge (.replied (some 8)),
    .act .client (.recv granted.toList), .act .server (.send prompt),
    .bridge (.read .server (some prompt)), .bridge (.sent .client (some 2)),
    .act .client (.recv prompt), .act .client (.send line), .bridge (.read .client (some line)),
    .bridge (.sent .server (some 3)), .act .server (.recv line)]

theorem firstPrompt_answered : ∃ w,
    exec (Bridged.step (program silent))
        (Bridged.start granted (programs silent (Vector.replicate 1024 0) "ls\nexit\n".toList))
        firstPrompt = some w ∧
      ∃ c s, w.state .client = .client c ∧ w.state .server = .server s ∧
        s.lines = (script "ls\nexit\n".toList s.lines.length).map bytes ∧
        (c.apart = true → CaughtUp c s → s.closed = false →
          s.lines.length < c.console.commands.written.length) := by
  have hsome : (exec (Bridged.step (program silent))
      (Bridged.start granted (programs silent (Vector.replicate 1024 0) "ls\nexit\n".toList))
      firstPrompt).isSome = true := by decide +kernel
  have hlast : LastShort granted firstPrompt := by decide
  have hall : ("ls\nexit\n".toList.all fun c => c.toNat < 256) = true := by decide
  have hoctets : Octets "ls\nexit\n".toList := fun c hc =>
    of_decide_eq_true (List.all_eq_true.mp hall c hc)
  obtain ⟨w, hrun⟩ := Option.isSome_iff_exists.mp hsome
  exact ⟨w, hrun, proxied_answered silent granted _ _ hoctets firstPrompt w hlast hrun⟩

end Run

end NetworkProgramming.Console.Proxied
