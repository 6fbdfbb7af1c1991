import NetworkProgramming.Single.OwnQueue

/-! Two runs: a client among others, and the same client alone on a server that
has just started, with names of its own for the descriptors. -/
namespace NetworkProgramming.Single
open Library.CString Library.Run Library.DelayQueue CommandLine

def ownStep (fd : Int) (own : List Event) (e : Event) : List Event :=
  match e with
  | .login ssock _ => if ssock = fd then [e] else own
  | .line sockfd _ _ => if sockfd = fd then own ++ [e] else own

/-- The last login with the number `fd`, and the lines sent over it since. -/
def ownEvents (fd : Int) (es : List Event) : List Event := es.foldl (ownStep fd) []

inductive Renamed (fd fd' : Int) : Event → Event → Prop
  | login (fsin : SockaddrIn) : Renamed fd fd' (.login fd fsin) (.login fd' fsin)
  | line (chunk : Text) (calls calls' : Nat → ParserCall) :
      Renamed fd fd' (.line fd chunk calls) (.line fd' chunk calls')

/-- The client `fd` of a run, alone on a fresh server, where its socket is `fd'`. -/
structure AloneRun (limit : Nat) (fd : Int) (es : List Event) (fd' : Int) (own : List Event)
    (a : Server) : Prop where
  renamed : List.Forall₂ (Renamed fd fd') (ownEvents fd es) own
  run : exec (next limit) Server.initial own = some a

/-- Alone, the client is told the same about its user pipes, and it has sent
fewer lines than a counter can count. -/
def Alike (limit : Nat) (before : List Event) (s : Server) : Event → Prop
  | .login _ _ => True
  | .line fd chunk _ => (ownEvents fd before).length < 2 ^ 31 ∧
    ∀ fd' own a, AloneRun limit fd before fd' own a →
      (rejection s (lineOf chunk) fd).isNone = (rejection a (lineOf chunk) fd').isNone

/-- Two names of one pipe: that of the same own line in both runs, or the
descriptors that an entry without a pipe has. -/
def SameName (own own' : List Event) (p p' : Int × Int) : Prop :=
  ∃ o, Shown own o p ∧ Shown own' o p'

inductive SameTarget (own own' : List Event) : Target → Target → Prop
  | new : SameTarget own own' .new .new
  | shared {p p' : Int × Int} (h : SameName own own' p p') :
      SameTarget own own' (.shared p.2) (.shared p'.2)

/-- Two lines read the same numbered pipe and write the same one. -/
structure SamePipes (own own' : List Event) (effects effects' : List Effect) : Prop where
  input : Option.Rel (fun fd fd' => ∃ p p', SameName own own' p p' ∧ fd = p.1 ∧ fd' = p'.1)
    (numberedInput effects) (numberedInput effects')
  output : Option.Rel (SameTarget own own') (numberedOutput effects) (numberedOutput effects')

variable {limit : Nat} {es own own' : List Event} {s s' a a' : Server} {fd fd' c c' : Int}
  {e : Event} {q : Queue Nat} {turn : Turn} {effects effects' : List Effect}

theorem ownEvents_concat : ownEvents fd (es ++ [e]) = ownStep fd (ownEvents fd es) e := by
  simp [ownEvents]

theorem samePipes_of_turn (h : TurnShown own e s s' fd turn effects) {e' : Event}
    (h' : TurnShown own' e' a a' fd' turn effects') : SamePipes own own' effects effects' := by
  constructor
  · have hinput := h.input
    have hinput' := h'.input
    generalize numberedInput effects = input at hinput ⊢
    generalize numberedInput effects' = input' at hinput' ⊢
    generalize turn.input = place at hinput hinput'
    cases hinput with
    | none =>
      cases hinput'
      exact .none
    | some hshown =>
      obtain ⟨p, hp, rfl⟩ := hshown
      cases hinput' with
      | some hshown' =>
        obtain ⟨p', hp', rfl⟩ := hshown'
        exact .some ⟨p, p', ⟨_, hp, hp'⟩, rfl, rfl⟩
  · have houtput := h.output
    have houtput' := h'.output
    generalize numberedOutput effects = output at houtput ⊢
    generalize numberedOutput effects' = output' at houtput' ⊢
    generalize turn.output = place at houtput houtput'
    cases houtput with
    | none =>
      cases houtput'
      exact .none
    | some hshown =>
      cases houtput' with
      | some hshown' =>
        cases hshown with
        | new =>
          cases hshown'
          exact .some .new
        | shared hp =>
          cases hshown' with
          | shared hp' => exact .some (.shared ⟨_, hp, hp'⟩)

/-- What holds of a server that has one client only. -/
structure Solo (c : Int) (own : List Event) (a : Server) : Prop where
  owner : ∀ j, 0 < (a.clientPipe j).inputCount → (a.clientPipe j).fd = c
  low : ∀ j, -(own.length : Int) ≤ (a.clientPipe j).inputCount

theorem Solo.initial : Solo c [] Server.initial := by
  constructor
  · intro j hj
    exact absurd hj (lt_irrefl _)
  · intro j
    exact le_refl _

theorem Solo.same (h : Solo c own a) (hsame : SameNumberedPipes a a') (more : List Event) :
    Solo c (own ++ more) a' := by
  constructor
  · rw [hsame.clientPipe]
    exact h.owner
  · intro j
    have hlow := h.low j
    rw [hsame.clientPipe, List.length_append]
    omega

theorem Solo.counting (h : Solo c own a) (hlength : own.length < 2 ^ 31) : Counting a c := by
  intro j _ _
  have hlow := h.low j
  omega

theorem Solo.claimed (h : Solo c own a) {pipeNumber : Option Int} {claimed : Server}
    {getInput : Nat} {outputFd : Int} (hkeeps : KeepsToTable a c pipeNumber)
    (hclaim : Claimed a c pipeNumber (claimed, getInput, outputFd)) : Solo c own claimed := by
  cases hclaim with
  | plain => exact h
  | shared => exact h
  | fresh n hfind =>
    have hn := hkeeps.positive n rfl
    constructor
    · intro j hj
      by_cases hpos : j = a.pos
      · rw [hpos, claimNew_pos_entry]
      · rw [claimNew_other hpos] at hj ⊢
        exact h.owner j hj
    · intro j
      by_cases hpos : j = a.pos
      · rw [hpos, claimNew_pos_entry]
        dsimp only
        omega
      · rw [claimNew_other hpos]
        exact h.low j

theorem Solo.afterLine (h : Solo c own a) (htidy : Tidy a) (hcounting : Counting a c)
    (getInput : Nat) (pipe : Int × Int) : Solo c (own ++ [e]) (afterLine a c getInput pipe) := by
  have hdown : Solo c (own ++ [e]) (countDown a c) := by
    constructor
    · intro j hj
      rw [countDown_fd]
      apply h.owner
      rw [countDown_count htidy.counted hcounting] at hj
      split at hj <;> omega
    · intro j
      have hlow := h.low j
      rw [countDown_count htidy.counted hcounting, List.length_append, List.length_singleton]
      split <;> omega
  unfold Single.afterLine
  split
  · constructor
    · intro j hj
      rw [completeEntry_count] at hj
      rw [completeEntry_fd]
      exact hdown.owner j hj
    · intro j
      rw [completeEntry_count]
      exact hdown.low j
  · exact hdown

theorem Solo.lineDone (h : Solo c own a) (htidy : Tidy a) {line : Text}
    {calls : Nat → ParserCall}
    (hkeeps : ∀ reading, readLine line = some reading → KeepsToTable a c reading.pipeNumber)
    (hdone : LineDone a a' c line calls effects) : Solo c (own ++ [e]) a' := by
  cases hdone with
  | unread _ hsame => exact h.same hsame [e]
  | stopped reading hread _ hsame =>
    have hclaim := claimEntry_claimed a c reading.pipeNumber
    exact (h.claimed (hkeeps reading hread) hclaim).same hsame [e]
  | ran reading claimed getInput outputFd hread _ _ hclaimEntry hsame =>
    have hclaim := claimEntry_claimed a c reading.pipeNumber
    rw [hclaimEntry] at hclaim
    obtain ⟨htidy', hcounting, -⟩ := htidy.claimed (hkeeps reading hread) hclaim
    have hafter := (h.claimed (hkeeps reading hread) hclaim).afterLine (e := e) htidy' hcounting
      getInput (linePipe reading calls)
    have hsolo := hafter.same hsame []
    rwa [List.append_nil] at hsolo

/-- Both runs follow one queue. -/
structure Related (own own' : List Event) (s a : Server) (fd fd' : Int) (q : Queue Nat) :
    Prop where
  among : Queued own s fd q
  alone : Queued own' a fd' q
  tidy : Tidy a
  solo : Solo fd' own' a
  pos : a.pos ≤ s.pos
  length : own'.length = own.length

/-- A line that keeps to the shared table keeps to that of the client alone. -/
theorem Related.keeps (h : Related own own' s a fd fd' q) (htidy : Tidy s)
    (hlength : own.length < 2 ^ 31) {pipeNumber : Option Int}
    (hkeeps : KeepsToTable s fd pipeNumber) : KeepsToTable a fd' pipeNumber := by
  have hpositive := hkeeps.positive
  refine ⟨hpositive, h.solo.counting (by rw [h.length]; exact hlength), ?_⟩
  intro n hnumber hfind
  have hn := hpositive n hnumber
  rw [h.alone.findTarget_none h.tidy hn, ← h.among.findTarget_none htidy hn] at hfind
  have hpos := h.pos
  obtain ⟨hroom, -⟩ := hkeeps.room n hnumber hfind
  exact ⟨by omega, h.solo.owner a.pos⟩

theorem Related.same (h : Related own own' s a fd fd' q) (hsame : SameNumberedPipes s s') :
    Related own own' s' a fd fd' q :=
  ⟨h.among.same hsame, h.alone, h.tidy, h.solo, by rw [hsame.pos]; exact h.pos, h.length⟩

theorem Related.login {fsin : SockaddrIn} (hfree : ∀ j, ¬ Live s fd j)
    (hsame : SameNumberedPipes Server.initial a) :
    Related [.login fd fsin] [.login fd' fsin] s a fd fd' .empty := by
  constructor
  · exact Queued.empty hfree
  · apply Queued.same hsame
    apply Queued.empty
    intro j hj
    exact absurd hj.2.2 (lt_irrefl _)
  · exact Tidy.initial.same hsame
  · exact Solo.initial.same hsame [.login fd' fsin]
  · rw [hsame.pos]
    exact Nat.zero_le _
  · rfl

theorem Related.otherLine (h : Related own own' s a c c' q) (htidy : Tidy s) (hc : fd ≠ c)
    {line : Text} {calls : Nat → ParserCall}
    (hkeeps : ∀ reading, readLine line = some reading → KeepsToTable s fd reading.pipeNumber)
    (hdone : LineDone s s' fd line calls effects) : Related own own' s' a c c' q := by
  refine ⟨h.among.otherLine htidy hc hkeeps hdone, h.alone, h.tidy, h.solo, ?_, h.length⟩
  exact le_trans h.pos (hdone.pos_le htidy hkeeps)

/-- A line of the client takes the same turn in both runs. -/
theorem Related.ownLine (h : Related own own' s a fd fd' q) (htidy : Tidy s)
    (hlength : own.length < 2 ^ 31) {chunk : Text} {calls calls' : Nat → ParserCall}
    (hkeeps : ∀ reading, readLine (lineOf chunk) = some reading →
      KeepsToTable s fd reading.pipeNumber)
    (haccept : (rejection s (lineOf chunk) fd).isNone = (rejection a (lineOf chunk) fd').isNone)
    (hdone : LineDone s s' fd (lineOf chunk) calls effects)
    (hdone' : LineDone a a' fd' (lineOf chunk) calls' effects') :
    ∃ turn, TurnShown own (.line fd chunk calls) s s' fd turn effects ∧
      TurnShown own' (.line fd' chunk calls') a a' fd' turn effects' ∧
      Related (own ++ [.line fd chunk calls]) (own' ++ [.line fd' chunk calls']) s' a' fd fd'
        turn.queue := by
  have hkeeps' : ∀ reading, readLine (lineOf chunk) = some reading →
      KeepsToTable a fd' reading.pipeNumber :=
    fun reading hread => h.keeps htidy hlength (hkeeps reading hread)
  have hamong := h.among.ownLine htidy hkeeps hdone
  have halone := h.alone.ownLine h.tidy hkeeps' hdone'
  rw [← haccept, h.length] at halone
  refine ⟨_, hamong, halone, hamong.queued, halone.queued, ?_, ?_, ?_, ?_⟩
  · exact h.tidy.lineDone hkeeps' hdone'
  · exact h.solo.lineDone h.tidy hkeeps' hdone'
  · have hpos := h.pos
    rw [hamong.pos, halone.pos]
    omega
  · rw [List.length_append, List.length_append, h.length]
    rfl

/-- Every client, alone with its own lines, has the queue it has among others. -/
structure Followed (limit : Nat) (es : List Event) (s : Server) : Prop where
  tidy : Tidy s
  related : ∀ fd fd' own a, AloneRun limit fd es fd' own a →
    ∃ q, Related (ownEvents fd es) own s a fd fd' q

theorem Followed.initial : Followed limit [] Server.initial := by
  refine ⟨Tidy.initial, ?_⟩
  intro fd fd' own a h
  have hrenamed := h.renamed
  have hrun := h.run
  cases hrenamed
  cases hrun
  refine ⟨.empty, ?_, ?_, Tidy.initial, Solo.initial, le_refl _, rfl⟩
  · exact Queued.empty fun j hj => absurd hj.2.2 (lt_irrefl _)
  · exact Queued.empty fun j hj => absurd hj.2.2 (lt_irrefl _)

theorem AloneRun.before_line {chunk : Text} {calls : Nat → ParserCall}
    (h : AloneRun limit fd (es ++ [.line fd chunk calls]) fd' own a) :
    ∃ before calls' b effects, own = before ++ [.line fd' chunk calls'] ∧
      AloneRun limit fd es fd' before b ∧
      step b (.line fd' chunk calls') = .ok (a, effects) := by
  have hrenamed := h.renamed
  rw [ownEvents_concat, ownStep, if_pos rfl, ← List.forall₂_reverse_iff, List.reverse_append,
    List.reverse_singleton, List.singleton_append, List.forall₂_cons_left_iff] at hrenamed
  obtain ⟨e', rest, hlast, hrest, hreverse⟩ := hrenamed
  cases hlast with
  | line _ _ calls' =>
    have hown : own = rest.reverse ++ [.line fd' chunk calls'] := by
      rw [← List.reverse_cons, ← hreverse, List.reverse_reverse]
    have hrun := h.run
    rw [hown] at hrun
    obtain ⟨b, hb, hnext⟩ := exec_concat_eq_some hrun
    obtain ⟨-, effects, hstep⟩ := next_eq_some hnext
    refine ⟨rest.reverse, calls', b, effects, hown, ⟨?_, hb⟩, hstep⟩
    rw [← List.forall₂_reverse_iff, List.reverse_reverse]
    exact hrest

theorem Followed.login {ssock : Int} {fsin : SockaddrIn} (h : Followed limit es s)
    (hapart : Apart s (.login ssock fsin)) (hsame : SameNumberedPipes s s') :
    Followed limit (es ++ [.login ssock fsin]) s' := by
  refine ⟨h.tidy.same hsame, ?_⟩
  intro fd fd' own a halone
  by_cases hfd : ssock = fd
  · subst hfd
    have hrenamed := halone.renamed
    rw [ownEvents_concat, ownStep, if_pos rfl] at hrenamed ⊢
    obtain ⟨e', rest, hlogin, hrest, rfl⟩ := List.forall₂_cons_left_iff.mp hrenamed
    cases hrest
    cases hlogin
    have hrun : exec (next limit) Server.initial ([] ++ [.login fd' fsin]) = some a := halone.run
    obtain ⟨b, hb, hnext⟩ := exec_concat_eq_some hrun
    rw [exec_nil, Option.some.injEq] at hb
    subst hb
    obtain ⟨-, effects, hstep⟩ := next_eq_some hnext
    rw [step] at hstep
    refine ⟨.empty, (Related.login ?_ (login_frame hstep).toSameNumberedPipes).same hsame⟩
    intro j hj
    exact absurd (hapart j hj.1 hj.2.1) (by have hlive := hj.2.2; omega)
  · have hother : ownEvents fd (es ++ [.login ssock fsin]) = ownEvents fd es := by
      rw [ownEvents_concat, ownStep, if_neg hfd]
    rw [hother]
    obtain ⟨q, hq⟩ := h.related fd fd' own a ⟨hother ▸ halone.renamed, halone.run⟩
    exact ⟨q, hq.same hsame⟩

theorem Followed.line {chunk : Text} {calls : Nat → ParserCall} (h : Followed limit es s)
    (hapart : Apart s (.line fd chunk calls)) (halike : Alike limit es s (.line fd chunk calls))
    (hdone : LineDone s s' fd (lineOf chunk) calls effects) :
    Followed limit (es ++ [.line fd chunk calls]) s' := by
  refine ⟨h.tidy.lineDone hapart hdone, ?_⟩
  intro c c' own a halone
  by_cases hc : fd = c
  · subst hc
    obtain ⟨before, calls', b, effects', rfl, hbefore, hstep⟩ := halone.before_line
    obtain ⟨q, hq⟩ := h.related fd c' before b hbefore
    obtain ⟨turn, -, -, hnext⟩ := hq.ownLine h.tidy halike.1 hapart (halike.2 c' before b hbefore)
      hdone (step_line_numbered hstep)
    refine ⟨turn.queue, ?_⟩
    rw [ownEvents_concat, ownStep, if_pos rfl]
    exact hnext
  · have hother : ownEvents c (es ++ [.line fd chunk calls]) = ownEvents c es := by
      rw [ownEvents_concat, ownStep, if_neg hc]
    rw [hother]
    obtain ⟨q, hq⟩ := h.related c c' own a ⟨hother ▸ halone.renamed, halone.run⟩
    exact ⟨q, hq.otherLine h.tidy hc hapart hdone⟩

theorem followed_run (es : List Event) (s : Server)
    (hapart : Meets (next limit) Server.initial (fun _ s e => Apart s e) es)
    (halike : Meets (next limit) Server.initial (Alike limit) es)
    (hrun : exec (next limit) Server.initial es = some s) : Followed limit es s := by
  have hmeets : Meets (next limit) Server.initial
      (fun before s e => Apart s e ∧ Alike limit before s e) es := by
    intro before e after s heq hs
    exact ⟨hapart before e after s heq hs, halike before e after s heq hs⟩
  apply invariant (I := Followed limit) Followed.initial _ es hmeets s hrun
  intro es s e s' _ hfollowed he hnext
  obtain ⟨-, effects, hstep⟩ := next_eq_some hnext
  cases e with
  | login ssock fsin => exact hfollowed.login he.1 (login_frame hstep).toSameNumberedPipes
  | line fd chunk calls => exact hfollowed.line he.1 he.2 (step_line_numbered hstep)

def Event.Plain : Event → Prop
  | .login _ _ => True
  | .line _ chunk _ => '<' ∉ lineOf chunk ∧ pipesOut (lineOf chunk) = false

instance : (e : Event) → Decidable e.Plain
  | .login _ _ => inferInstanceAs (Decidable True)
  | .line _ chunk _ =>
    inferInstanceAs (Decidable ('<' ∉ lineOf chunk ∧ pipesOut (lineOf chunk) = false))

theorem rejection_plain {line : Text} (hin : '<' ∉ line) (hout : pipesOut line = false) :
    rejection s line fd = none := by
  have hcheck : ∀ s : Server, checkUserPipes s line fd = .ok (s, [], .ok 0) := by
    intro s
    simp only [checkUserPipes, receivePipe, if_neg hin, sendPipe, hout, Bool.false_eq_true,
      if_false, List.append_nil]
  unfold rejection
  cases readLine line with
  | none => rfl
  | some reading =>
    rw [Option.bind_some, hcheck]

theorem ownEvents_length (fd : Int) (es : List Event) : (ownEvents fd es).length ≤ es.length := by
  induction es using List.reverseRecOn with
  | nil => exact Nat.le_refl _
  | append_singleton es e ih =>
    rw [ownEvents_concat, List.length_append, List.length_singleton]
    unfold ownStep
    split
    · split
      · simp
      · omega
    · split
      · rw [List.length_append, List.length_singleton]
        omega
      · omega

theorem alike_plain (hplain : ∀ e ∈ es, e.Plain) (hlength : es.length < 2 ^ 31) :
    Meets (next limit) Server.initial (Alike limit) es := by
  intro before e after s heq _
  cases e with
  | login => trivial
  | line fd chunk calls =>
    obtain ⟨hin, hout⟩ := hplain (.line fd chunk calls) (by simp [heq])
    have hown := ownEvents_length fd before
    constructor
    · rw [heq, List.length_append] at hlength
      omega
    · intro fd' own a _
      rw [rejection_plain hin hout, rejection_plain hin hout]

/-- In a run in which the clients do not run into each other's entries, a line
reads and writes the numbered pipes it would read and write alone. -/
theorem numbered_pipes_isolated (limit : Nat) (es : List Event) (fd : Int) (chunk : Text)
    (calls : Nat → ParserCall)
    (hapart : Meets (next limit) Server.initial (fun _ s e => Apart s e)
      (es ++ [.line fd chunk calls]))
    (halike : Meets (next limit) Server.initial (Alike limit) (es ++ [.line fd chunk calls]))
    (s s' : Server) (effects : List Effect) (hrun : exec (next limit) Server.initial es = some s)
    (hstep : step s (.line fd chunk calls) = .ok (s', effects))
    (fd' : Int) (own : List Event) (a a' : Server) (halone : AloneRun limit fd es fd' own a)
    (calls' : Nat → ParserCall) (effects' : List Effect)
    (hstep' : step a (.line fd' chunk calls') = .ok (a', effects')) :
    SamePipes (ownEvents fd es) own effects effects' := by
  have hfollowed := followed_run es s hapart.before halike.before hrun
  obtain ⟨q, hq⟩ := hfollowed.related fd fd' own a halone
  obtain ⟨hlength, haccept⟩ := halike.last hrun
  obtain ⟨turn, hamong, hsolo, -⟩ := hq.ownLine hfollowed.tidy hlength (hapart.last hrun)
    (haccept fd' own a halone) (step_line_numbered hstep) (step_line_numbered hstep')
  exact samePipes_of_turn hamong hsolo

theorem toOption_eq_some {β : Type} {r : Except Fault β} {x : β} :
    r.toOption = some x ↔ r = .ok x := by
  cases r <;> simp [Except.toOption]

def firstAddr : SockaddrIn := ⟨[127, 0, 0, 1], 4000⟩

def pair (fd : Int) : Nat → ParserCall := fun _ => ⟨(fd, fd + 1), 0⟩

/-- Two clients whose pipes wait at the same time. -/
def bothWait : List Event :=
  [.login 4 firstAddr, .login 5 ⟨[127, 0, 0, 1], 4001⟩, .line 4 "ls |1\n".toList (pair 6),
    .line 5 "ls |1\n".toList (pair 8)]

def oneWaits : List Event := [.login 7 firstAddr, .line 7 "ls |1\n".toList (pair 10)]

theorem numbered_pipes_isolated_bothWait :
    ∃ s s' effects a a' effects', exec (next 30) Server.initial bothWait = some s ∧
      step s (.line 4 "cat\n".toList (pair 12)) = .ok (s', effects) ∧
      AloneRun 30 4 bothWait 7 oneWaits a ∧
      step a (.line 7 "cat\n".toList (pair 12)) = .ok (a', effects') ∧
      SamePipes (ownEvents 4 bothWait) oneWaits effects effects' := by
  have hrun : ((exec (next 30) Server.initial bothWait).bind fun s =>
      (step s (.line 4 "cat\n".toList (pair 12))).toOption).isSome := by decide +kernel
  have hrun' : ((exec (next 30) Server.initial oneWaits).bind fun a =>
      (step a (.line 7 "cat\n".toList (pair 12))).toOption).isSome := by decide +kernel
  obtain ⟨⟨s', effects⟩, hr⟩ := Option.isSome_iff_exists.mp hrun
  obtain ⟨s, hs, hstep⟩ := Option.bind_eq_some_iff.mp hr
  obtain ⟨⟨a', effects'⟩, hr'⟩ := Option.isSome_iff_exists.mp hrun'
  obtain ⟨a, ha, hstep'⟩ := Option.bind_eq_some_iff.mp hr'
  rw [toOption_eq_some] at hstep hstep'
  have hrenamed : List.Forall₂ (Renamed 4 7) (ownEvents 4 bothWait) oneWaits :=
    .cons (.login _) (.cons (.line _ _ _) .nil)
  have halone : AloneRun 30 4 bothWait 7 oneWaits a := ⟨hrenamed, ha⟩
  have hapart : Meets (next 30) Server.initial (fun _ s e => Apart s e)
      (bothWait ++ [.line 4 "cat\n".toList (pair 12)]) := by decide +kernel
  have hplain : ∀ e ∈ bothWait ++ [.line 4 "cat\n".toList (pair 12)], e.Plain := by decide +kernel
  refine ⟨s, s', effects, a, a', effects', hs, hstep, halone, hstep', ?_⟩
  exact numbered_pipes_isolated 30 bothWait 4 "cat\n".toList (pair 12) hapart
    (alike_plain hplain (by decide)) s s' effects hs hstep 7 oneWaits a a' halone (pair 12) effects'
    hstep'

def reusedSocket : List Event :=
  [.login 4 firstAddr, .line 4 "ls |1\n".toList (pair 6), .line 4 "exit\n".toList (pair 8),
    .login 4 firstAddr]

/-- The new client's first line reads the pipe of the old one. -/
theorem reused_socket_not_isolated :
    ∃ s s' effects a a' effects', exec (next 30) Server.initial reusedSocket = some s ∧
      (4 : Int) ∈ s.allset ∧ step s (.line 4 "cat\n".toList (pair 8)) = .ok (s', effects) ∧
      AloneRun 30 4 reusedSocket 4 [.login 4 firstAddr] a ∧
      step a (.line 4 "cat\n".toList (pair 8)) = .ok (a', effects') ∧
      ¬ SamePipes (ownEvents 4 reusedSocket) [.login 4 firstAddr] effects effects' := by
  have hrun : (exec (next 30) Server.initial reusedSocket).bind (fun s =>
      if (4 : Int) ∈ s.allset then
        (step s (.line 4 "cat\n".toList (pair 8))).toOption.map fun r => numberedInput r.2
      else none) = some (some 6) := by decide +kernel
  have hrun' : (exec (next 30) Server.initial [.login 4 firstAddr]).bind (fun a =>
      (step a (.line 4 "cat\n".toList (pair 8))).toOption.map fun r => numberedInput r.2) =
        some none := by decide +kernel
  obtain ⟨s, hs, hr⟩ := Option.bind_eq_some_iff.mp hrun
  obtain ⟨a, ha, hr'⟩ := Option.bind_eq_some_iff.mp hrun'
  split at hr
  next hlogged =>
    obtain ⟨⟨s', effects⟩, hstep, hinput⟩ := Option.map_eq_some_iff.mp hr
    obtain ⟨⟨a', effects'⟩, hstep', hinput'⟩ := Option.map_eq_some_iff.mp hr'
    rw [toOption_eq_some] at hstep hstep'
    refine ⟨s, s', effects, a, a', effects', hs, hlogged, hstep, ⟨?_, ha⟩, hstep', ?_⟩
    · exact .cons (.login _) .nil
    · intro hsame
      have hrel := hsame.input
      dsimp only at hinput hinput'
      rw [hinput, hinput'] at hrel
      cases hrel
  next => simp at hr

end NetworkProgramming.Single
