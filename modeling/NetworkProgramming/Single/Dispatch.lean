import NetworkProgramming.Library.Words
import NetworkProgramming.Single.Variables

/-! How `do_exec` chooses between its built-ins and `parser` for a line that is a
single command, against the first word of the line. -/
namespace NetworkProgramming.Single
open Library.CString Library.Search Library.Words CommandLine

def Builtin.word : Builtin → Text
  | .printenv => "printenv".toList
  | .setenv => "setenv".toList
  | .exit => "exit".toList
  | .who => "who".toList
  | .tell => "tell".toList
  | .yell => "yell".toList
  | .name => "name".toList

/-- The built-ins in the order of their tests. -/
def Builtin.all : List Builtin := [.printenv, .setenv, .exit, .who, .tell, .yell, .name]

def Builtin.Before (b b' : Builtin) : Prop := Builtin.all.idxOf b < Builtin.all.idxOf b'

instance (b b' : Builtin) : Decidable (b.Before b') := Nat.decLt _ _

inductive Dispatch where
  | nothing
  | runs (b : Builtin)
  | program
  deriving DecidableEq, Repr

/-- Where `do_exec` takes a line that no user pipe stops. -/
def dispatch (line : Text) : Dispatch :=
  match readLine line with
  | none => .nothing
  | some reading =>
    match builtin reading.commands with
    | some b => .runs b
    | none => .program

/-- What `do_exec` does with a line that is one command, by the choice it makes. -/
def Dispatch.outcome (s : Server) (line : Text) (sockfd : Int) (calls : Nat → ParserCall) :
    Dispatch → Except Fault Outcome
  | .nothing => .ok ⟨s, [], 0⟩
  | .runs b => runBuiltin s sockfd line b
  | .program =>
    match runCommands ⟨sockfd, true, false, sockfd⟩ calls 0 [line] ⟨s, 0, 0, []⟩ with
    | .error fault => .error fault
    | .ok r => .ok ⟨r.server, r.effects, 0⟩

/-- A line with a word on it, and nothing that cuts or redirects it. -/
structure SingleCommand (line : Text) : Prop where
  words : splitSpace line ≠ []
  pipe : '|' ∉ line
  bang : '!' ∉ line
  less : '<' ∉ line
  more : '>' ∉ line

/-- A message of words is delivered, by `yell` to everyone and by `tell` to the
client of a slot in use. -/
structure DeliversMessages (line : Text) : Prop where
  yell : ∀ (s : Server) (sockfd : Int) (calls : Nat → ParserCall) (i : Nat) (word : Text)
    (words : List Text), splitSpace line = "yell".toList :: word :: words →
    s.clientsMap.indexOf sockfd = some i →
    doExec s line sockfd calls = .ok ⟨s, s.announce (.yelled (s.clientsMap.nickname i)
      (joinWords (word :: words) ++ ['\n'])), 0⟩
  tell : ∀ (s : Server) (sockfd : Int) (calls : Nat → ParserCall) (i k : Nat) (id word : Text)
    (words : List Text), splitSpace line = "tell".toList :: id :: word :: words →
    s.clientsMap.indexOf sockfd = some i → atoi id = (k : Int) + 1 → k < maxUserNum →
    s.clientsMap.clientsFdSet k ≠ 0 →
    doExec s line sockfd calls = .ok ⟨s, [.send (s.clientsMap.clientsFdSet k)
      (.told (s.clientsMap.nickname i) (joinWords (word :: words)))], 0⟩

/-- The built-in that the first word names runs, and `parser` runs any other word. -/
structure DispatchedByFirstWord (line : Text) : Prop where
  builtin : ∀ b : Builtin, dispatch line = .runs b ↔ (splitSpace line).head? = some b.word
  program : (∀ b : Builtin, (splitSpace line).head? ≠ some b.word) → dispatch line = .program
  messages : DeliversMessages line

/-- No word hides a name that is tested for before the right one. -/
structure Undisturbed (line : Text) : Prop where
  start : line.head? ≠ some ' '
  builtin : ∀ b other : Builtin, (splitSpace line).head? = some b.word → other.Before b →
    ∀ word ∈ splitSpace line, ¬ other.word <:+: word
  program : (∀ b : Builtin, (splitSpace line).head? ≠ some b.word) →
    ∀ other : Builtin, ∀ word ∈ splitSpace line, ¬ other.word <:+: word

variable {line cmd : Text} {b : Builtin} {s : Server} {fd : Int} {calls : Nat → ParserCall}

theorem Builtin.mem_all (b : Builtin) : b ∈ Builtin.all := by
  cases b <;> decide

theorem find_all (p : Builtin → Bool) :
    Builtin.all.find? p =
      if p .printenv then some .printenv
      else if p .setenv then some .setenv
      else if p .exit then some .exit
      else if p .who then some .who
      else if p .tell then some .tell
      else if p .yell then some .yell
      else if p .name then some .name
      else none := by
  rw [Builtin.all, find?_cons_ite, find?_cons_ite, find?_cons_ite, find?_cons_ite,
    find?_cons_ite, find?_cons_ite, find?_cons_ite, List.find?_nil]

theorem builtin_eq_find (cmd : Text) :
    builtin [cmd] = Builtin.all.find? fun b => strstr cmd b.word := by
  rw [find_all]
  rfl

theorem strstr_word (line : Text) (b : Builtin) :
    strstr line b.word = true ↔ ∃ word ∈ splitSpace line, b.word <:+: word := by
  apply strstr_iff_piece
  · cases b <;> decide
  · cases b <;> decide

theorem builtin_eq_some :
    builtin [cmd] = some b ↔ (∃ word ∈ splitSpace cmd, b.word <:+: word) ∧
      ∀ other : Builtin, other.Before b → ∀ word ∈ splitSpace cmd, ¬ other.word <:+: word := by
  rw [builtin_eq_find, find?_eq_some_iff_idxOf, strstr_word]
  constructor
  · rintro ⟨-, hfound, hbefore⟩
    refine ⟨hfound, ?_⟩
    intro other hother word hword hinfix
    have hfalse := hbefore other other.mem_all hother
    rw [(strstr_word cmd other).mpr ⟨word, hword, hinfix⟩] at hfalse
    contradiction
  · rintro ⟨hfound, hbefore⟩
    refine ⟨b.mem_all, hfound, ?_⟩
    intro other _ hother
    rw [← Bool.not_eq_true, strstr_word]
    rintro ⟨word, hword, hinfix⟩
    exact hbefore other hother word hword hinfix

theorem builtin_eq_none :
    builtin [cmd] = none ↔
      ∀ other : Builtin, ∀ word ∈ splitSpace cmd, ¬ other.word <:+: word := by
  rw [builtin_eq_find, List.find?_eq_none]
  constructor
  · intro h other word hword hinfix
    exact h other other.mem_all ((strstr_word cmd other).mpr ⟨word, hword, hinfix⟩)
  · intro h other _ hfound
    obtain ⟨word, hword, hinfix⟩ := (strstr_word cmd other).mp hfound
    exact h other word hword hinfix

theorem SingleCommand.ne_nil (h : SingleCommand line) : line ≠ [] := by
  rintro rfl
  exact h.words rfl

theorem SingleCommand.dispatch_space (h : SingleCommand line) (hstart : line.head? = some ' ') :
    dispatch line = .nothing := by
  have hsplit : splitPipe line = [line] := strtok_word h.ne_nil h.pipe
  have hread : readLine line = none := by
    rw [readLine, hsplit]
    exact if_pos (by simp [blank, hstart])
  rw [dispatch, hread]

theorem SingleCommand.dispatch_start (h : SingleCommand line) (hstart : line.head? ≠ some ' ') :
    dispatch line = match builtin [line] with
      | some b => .runs b
      | none => .program := by
  rw [dispatch, readLine_plain hstart h.ne_nil h.pipe h.bang]

theorem SingleCommand.dispatch_runs (h : SingleCommand line) :
    dispatch line = .runs b ↔ line.head? ≠ some ' ' ∧ builtin [line] = some b := by
  by_cases hstart : line.head? = some ' '
  · simp [h.dispatch_space hstart, hstart]
  · rw [h.dispatch_start hstart]
    cases builtin [line] <;> simp [hstart]

theorem SingleCommand.dispatch_program (h : SingleCommand line) :
    dispatch line = .program ↔ line.head? ≠ some ' ' ∧ builtin [line] = none := by
  by_cases hstart : line.head? = some ' '
  · simp [h.dispatch_space hstart, hstart]
  · rw [h.dispatch_start hstart]
    cases builtin [line] <;> simp [hstart]

/-- `do_exec` on a single command is what its choice comes to. -/
theorem SingleCommand.doExec (h : SingleCommand line) :
    Single.doExec s line fd calls = (dispatch line).outcome s line fd calls := by
  by_cases hstart : line.head? = some ' '
  · have hsplit : splitPipe line = [line] := strtok_word h.ne_nil h.pipe
    have hread : readLine line = none := by
      rw [readLine, hsplit]
      exact if_pos (by simp [blank, hstart])
    rw [h.dispatch_space hstart, Single.doExec, hread, Dispatch.outcome]
  · have hread := readLine_plain hstart h.ne_nil h.pipe h.bang
    have hcheck : checkUserPipes s line fd = .ok (s, [], .ok 0) :=
      checkUserPipes_plain h.less (pipesOut_plain h.more)
    rw [h.dispatch_start hstart]
    simp only [Single.doExec, hread, claimEntry, hcheck, runLine, List.headD_cons, List.nil_append]
    cases builtin [line] with
    | some b =>
      dsimp only [Dispatch.outcome]
      cases runBuiltin s fd line b <;> rfl
    | none =>
      dsimp only [Dispatch.outcome, Option.isNone]
      cases runCommands ⟨fd, true, false, fd⟩ calls 0 [line] ⟨s, 0, 0, []⟩ <;> rfl

theorem head_eq_some {words : List Text} {word : Text} (h : words.head? = some word) :
    word ∈ words := List.mem_of_mem_head? h

theorem SingleCommand.deliversMessages (h : SingleCommand line)
    (hruns : ∀ b : Builtin, (splitSpace line).head? = some b.word → dispatch line = .runs b) :
    DeliversMessages line := by
  constructor
  · intro s fd calls i word words hwords hown
    have hyell : dispatch line = .runs .yell := hruns .yell (by rw [hwords]; rfl)
    rw [h.doExec, hyell, Dispatch.outcome, runBuiltin, hwords, executeYell, hown]
    rfl
  · intro s fd calls i k id word words hwords hown hid hk hslot
    have htell : dispatch line = .runs .tell := hruns .tell (by rw [hwords]; rfl)
    have hreceid : atoi id - 1 = (k : Int) := by omega
    rw [h.doExec, htell, Dispatch.outcome, runBuiltin, hwords, executeTell]
    simp only [List.getElem?_cons_succ, List.getElem?_cons_zero, hreceid, Int.toNat_natCast,
      List.drop_succ_cons, List.drop_zero, hown]
    rw [if_pos ⟨by omega, by exact_mod_cast hk⟩, if_neg hslot]

/-- The choice follows the first word exactly when no other name is in the way. -/
theorem dispatched_iff (line : Text) (h : SingleCommand line) :
    (∀ s sockfd calls, doExec s line sockfd calls = (dispatch line).outcome s line sockfd calls) ∧
      (DispatchedByFirstWord line ↔ Undisturbed line) := by
  refine ⟨fun s sockfd calls => h.doExec, ?_, ?_⟩
  · intro hright
    constructor
    · intro hstart
      have hnothing := h.dispatch_space hstart
      by_cases hfirst : ∃ b : Builtin, (splitSpace line).head? = some b.word
      · obtain ⟨b, hb⟩ := hfirst
        rw [(hright.builtin b).mpr hb] at hnothing
        contradiction
      · rw [hright.program (not_exists.mp hfirst)] at hnothing
        contradiction
    · intro b other hb hbefore
      have hruns := h.dispatch_runs.mp ((hright.builtin b).mpr hb)
      exact (builtin_eq_some.mp hruns.2).2 other hbefore
    · intro hother
      have hprogram := h.dispatch_program.mp (hright.program hother)
      exact builtin_eq_none.mp hprogram.2
  · intro hclear
    have hruns : ∀ b : Builtin, (splitSpace line).head? = some b.word →
        dispatch line = .runs b := by
      intro b hb
      apply h.dispatch_runs.mpr
      refine ⟨hclear.start, builtin_eq_some.mpr ⟨?_, ?_⟩⟩
      · exact ⟨b.word, head_eq_some hb, List.infix_refl _⟩
      · exact fun other hbefore => hclear.builtin b other hb hbefore
    have hprogram : (∀ b : Builtin, (splitSpace line).head? ≠ some b.word) →
        dispatch line = .program := by
      intro hother
      exact h.dispatch_program.mpr ⟨hclear.start, builtin_eq_none.mpr (hclear.program hother)⟩
    constructor
    · intro b
      refine ⟨?_, hruns b⟩
      intro hb
      by_cases hfirst : ∃ b' : Builtin, (splitSpace line).head? = some b'.word
      · obtain ⟨b', hb'⟩ := hfirst
        rw [hruns b' hb', Dispatch.runs.injEq] at hb
        rwa [← hb]
      · rw [hprogram (not_exists.mp hfirst)] at hb
        contradiction
    · exact hprogram
    · exact h.deliversMessages hruns

theorem dispatched_iff_plainYell :
    DispatchedByFirstWord "yell hello there".toList ↔ Undisturbed "yell hello there".toList :=
  (dispatched_iff _ ⟨by decide, by decide, by decide, by decide, by decide⟩).2

/-- A message with `who` in it lists the users and is not delivered. -/
theorem message_taken_for_who :
    SingleCommand "yell who is there".toList ∧
      dispatch "yell who is there".toList = .runs .who ∧
      ¬ DispatchedByFirstWord "yell who is there".toList := by
  have hwho : dispatch "yell who is there".toList = .runs .who := by decide
  refine ⟨⟨by decide, by decide, by decide, by decide, by decide⟩, hwho, ?_⟩
  intro h
  have hfirst := (h.builtin .who).mp hwho
  exact absurd hfirst (by decide)

end NetworkProgramming.Single
