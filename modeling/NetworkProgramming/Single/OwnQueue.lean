import NetworkProgramming.Library.DelayQueue
import NetworkProgramming.Single.Countdown

/-! The numbered pipes of one client, as a queue of its own lines: what the
shared table amounts to for it. -/
namespace NetworkProgramming.Single
open Library.CString Library.DelayQueue CommandLine

def Event.pipe : Event → Int × Int
  | .login .. => (0, 0)
  | .line _ chunk calls => (readLine (lineOf chunk)).elim (0, 0) fun reading => linePipe reading calls

/-- The descriptors of the pipe of own line `i`, or of an entry without a pipe. -/
def Shown (own : List Event) : Option Nat → Int × Int → Prop
  | none, p => p = (0, 0)
  | some i, p => ∃ e, own[i]? = some e ∧ p = e.pipe

/-- The live entries of client `fd` are the places of its queue; the values are
the numbers of its own lines. -/
structure Queued (own : List Event) (s : Server) (fd : Int) (q : Queue Nat) : Prop where
  claimed : ∀ k, q.claimed = some k ↔ Live s fd s.pos ∧ (s.clientPipe s.pos).inputCount = k
  sound : ∀ j, Live s fd j → j ≠ s.pos → ∃ i, q.waiting (s.clientPipe j).inputCount = some i ∧
    Shown own (some i) (s.clientPipe j).pipe
  complete : ∀ k i, 0 < k → q.waiting k = some i →
    ∃ j, Live s fd j ∧ j ≠ s.pos ∧ (s.clientPipe j).inputCount = k

variable {own : List Event} {s s' : Server} {fd c n k : Int} {q : Queue Nat} {o : Option Nat}
  {e : Event}

theorem Shown.append {p : Int × Int} (more : List Event) (h : Shown own o p) :
    Shown (own ++ more) o p := by
  cases o with
  | none => exact h
  | some i =>
    obtain ⟨e, he, hp⟩ := h
    refine ⟨e, ?_, hp⟩
    rw [List.getElem?_append_left (List.getElem?_eq_some_iff.mp he).1, he]

theorem Queued.append (more : List Event) (h : Queued own s fd q) :
    Queued (own ++ more) s fd q := by
  constructor
  · exact h.claimed
  · intro j hj hpos
    obtain ⟨i, hi, hshown⟩ := h.sound j hj hpos
    exact ⟨i, hi, hshown.append more⟩
  · exact h.complete

theorem Queued.same (hsame : SameNumberedPipes s s') (h : Queued own s fd q) :
    Queued own s' fd q := by
  constructor
  · intro k
    rw [h.claimed, Live.same hsame, hsame.pos, hsame.clientPipe]
  · intro j hj hpos
    rw [Live.same hsame] at hj
    rw [hsame.pos] at hpos
    rw [hsame.clientPipe]
    exact h.sound j hj hpos
  · intro k i hk hi
    obtain ⟨j, hj, hpos, hcount⟩ := h.complete k i hk hi
    refine ⟨j, (Live.same hsame j).mpr hj, ?_, ?_⟩
    · rw [hsame.pos]
      exact hpos
    · rw [hsame.clientPipe]
      exact hcount

theorem Queued.empty (h : ∀ j, ¬ Live s fd j) : Queued own s fd .empty := by
  constructor
  · intro k
    constructor
    · intro hk
      exact absurd hk (by simp [Queue.empty])
    · intro hlive
      exact absurd hlive.1 (h _)
  · intro j hj
    exact absurd hj (h j)
  · intro k i _ hi
    exact absurd hi (by simp [Queue.empty])

theorem Queued.look_live (h : Queued own s fd q) (htidy : Tidy s) {j : Nat} (hj : Live s fd j) :
    ∃ o, q.look (s.clientPipe j).inputCount = some o ∧ Shown own o (s.clientPipe j).pipe := by
  by_cases hpos : j = s.pos
  · subst hpos
    refine ⟨none, Queue.look_claimed ((h.claimed _).mpr ⟨hj, rfl⟩), ?_⟩
    exact htidy.unused _ (le_refl _)
  · obtain ⟨i, hi, hshown⟩ := h.sound j hj hpos
    refine ⟨some i, Queue.look_waiting ?_ hi, hshown⟩
    intro hclaimed
    obtain ⟨hlive, hcount⟩ := (h.claimed _).mp hclaimed
    exact hpos (htidy.distinct fd j s.pos hj hlive hcount.symm)

theorem Queued.look_some (h : Queued own s fd q) (hk : 0 < k) (ho : q.look k = some o) :
    ∃ j, Live s fd j ∧ (s.clientPipe j).inputCount = k := by
  rcases Queue.look_cases ho with ⟨hclaimed, -⟩ | ⟨i, hi, -⟩
  · exact ⟨s.pos, (h.claimed k).mp hclaimed⟩
  · obtain ⟨j, hj, -, hcount⟩ := h.complete k i hk hi
    exact ⟨j, hj, hcount⟩

theorem Queued.findTarget_none (h : Queued own s fd q) (htidy : Tidy s)
    (hn : 0 < int32 (n + 1)) : findTarget s fd n = none ↔ q.look (int32 (n + 1)) = none := by
  rw [Single.findTarget_none htidy hn]
  constructor
  · intro hnone
    cases ho : q.look (int32 (n + 1)) with
    | none => rfl
    | some o =>
      obtain ⟨j, hj, hcount⟩ := h.look_some hn ho
      exact absurd hcount (hnone j hj)
  · intro hnone j hj hcount
    obtain ⟨o, ho, -⟩ := h.look_live htidy hj
    rw [hcount, hnone] at ho
    contradiction

theorem Queued.dueEntry (h : Queued own s fd q) (htidy : Tidy s) :
    Option.Rel (fun o entry => Shown own o (entry : PipeInfo).pipe) (q.look 1) (dueEntry s fd) := by
  rcases dueEntry_cases s fd with ⟨hdue, hnone⟩ | ⟨j, hj, hcount, hdue⟩
  · cases ho : q.look 1 with
    | none =>
      rw [hdue]
      exact .none
    | some o =>
      obtain ⟨j, hj, hcount⟩ := h.look_some (by decide) ho
      exact absurd hcount (hnone j hj)
  · obtain ⟨o, ho, hshown⟩ := h.look_live htidy hj
    rw [hcount] at ho
    rw [ho, hdue]
    exact .some hshown

section OwnLine

theorem Queued.claimNew (h : Queued own s fd q) (hpos : s.pos < 1000) (hn : 0 < int32 (n + 1)) :
    Queued own (claimNew s fd n) fd (q.claim (int32 (n + 1))) := by
  have hpos' : (Single.claimNew s fd n).pos = s.pos := rfl
  constructor
  · intro k
    rw [hpos', claimNew_live, claimNew_pos_entry]
    constructor
    · intro hk
      exact ⟨.inr ⟨rfl, hpos, rfl, hn⟩, Option.some.inj hk⟩
    · intro hk
      exact congrArg some hk.2
  · intro j hj hne
    rw [hpos'] at hne
    rw [claimNew_live] at hj
    rcases hj with ⟨-, hj⟩ | ⟨hj, -⟩
    · rw [claimNew_other hne]
      exact h.sound j hj hne
    · exact absurd hj hne
  · intro k i hk hi
    obtain ⟨j, hj, hne, hcount⟩ := h.complete k i hk hi
    refine ⟨j, claimNew_live.mpr (.inl ⟨hne, hj⟩), hne, ?_⟩
    rw [claimNew_other hne]
    exact hcount

theorem Queued.countDown (h : Queued own s fd q) (htidy : Tidy s) (hcounting : Counting s fd) :
    Queued own (countDown s fd) fd q.shift := by
  have hpos : (Single.countDown s fd).pos = s.pos := rfl
  constructor
  · intro k
    rw [Queue.shift_claimed, h.claimed, hpos, countDown_live htidy.counted hcounting,
      countDown_count htidy.counted hcounting]
    constructor
    · intro ⟨hk, hlive, hcount⟩
      rw [if_pos ⟨hlive.1, hlive.2.1⟩]
      exact ⟨⟨hlive, by omega⟩, by omega⟩
    · intro ⟨⟨hlive, hlt⟩, hcount⟩
      rw [if_pos ⟨hlive.1, hlive.2.1⟩] at hcount
      exact ⟨by omega, hlive, by omega⟩
  · intro j hj hne
    rw [countDown_live htidy.counted hcounting] at hj
    obtain ⟨i, hi, hshown⟩ := h.sound j hj.1 hne
    refine ⟨i, ?_, ?_⟩
    · rw [countDown_count htidy.counted hcounting, if_pos ⟨hj.1.1, hj.1.2.1⟩]
      simp only [Queue.shift, Int.sub_add_cancel]
      exact hi
    · rw [countDown_pipe]
      exact hshown
  · intro k i hk hi
    obtain ⟨j, hj, hne, hcount⟩ := h.complete (k + 1) i (by omega) hi
    refine ⟨j, (countDown_live htidy.counted hcounting).mpr ⟨hj, by omega⟩, hne, ?_⟩
    rw [countDown_count htidy.counted hcounting, if_pos ⟨hj.1, hj.2.1⟩]
    omega

/-- The entry at `pos` is finished with the pipe of the present line. -/
theorem Queued.completeEntry (h : Queued own s fd q) (htidy : Tidy s) (hpos : s.pos < 1000) :
    Queued (own ++ [e]) (completeEntry s e.pipe) fd (q.complete own.length) := by
  have hnext : ∀ j, Live s fd j → j ≠ s.pos + 1 := by
    rintro j hj rfl
    have hdead := htidy.beyond (s.pos + 1) (.inl (by omega))
    have hlive := hj.2.2
    omega
  have hold : ∀ j, Live s fd j → j ≠ s.pos → ∃ i, q.waiting (s.clientPipe j).inputCount = some i ∧
      Shown (own ++ [e]) (some i) ((Single.completeEntry s e.pipe).clientPipe j).pipe := by
    intro j hj hne
    obtain ⟨i, hi, hshown⟩ := h.sound j hj hne
    refine ⟨i, hi, ?_⟩
    rw [completeEntry_other hne]
    exact hshown.append [e]
  constructor
  · intro k
    rw [Queue.complete_claimed, completeEntry_pos hpos, completeEntry_live]
    constructor
    · intro hk
      contradiction
    · intro hk
      exact absurd rfl (hnext _ hk.1)
  · intro j hj _
    rw [completeEntry_live] at hj
    rw [completeEntry_count]
    by_cases hjpos : j = s.pos
    · subst hjpos
      rw [Queue.complete_of_some ((h.claimed _).mpr ⟨hj, rfl⟩)]
      refine ⟨own.length, Function.update_self _ _ _, e, List.getElem?_concat_length, ?_⟩
      rw [completeEntry_entry]
      rfl
    · obtain ⟨i, hi, hshown⟩ := hold j hj hjpos
      refine ⟨i, ?_, hshown⟩
      cases hclaimed : q.claimed with
      | none =>
        rw [Queue.complete_of_none hclaimed]
        exact hi
      | some k =>
        obtain ⟨hlive, hcount⟩ := (h.claimed k).mp hclaimed
        rw [Queue.complete_of_some hclaimed]
        have hne : (s.clientPipe j).inputCount ≠ k := by
          intro hk
          exact hjpos (htidy.distinct fd j s.pos hj hlive (hk.trans hcount.symm))
        dsimp only
        rw [Function.update_of_ne hne]
        exact hi
  · intro k i hk hi
    have hback : q.waiting k = some i → ∃ j, Live (Single.completeEntry s e.pipe) fd j ∧
        j ≠ (Single.completeEntry s e.pipe).pos ∧
        ((Single.completeEntry s e.pipe).clientPipe j).inputCount = k := by
      intro hi
      obtain ⟨j, hj, -, hcount⟩ := h.complete k i hk hi
      refine ⟨j, completeEntry_live.mpr hj, ?_, ?_⟩
      · rw [completeEntry_pos hpos]
        exact hnext j hj
      · rw [completeEntry_count]
        exact hcount
    cases hclaimed : q.claimed with
    | none =>
      rw [Queue.complete_of_none hclaimed] at hi
      exact hback hi
    | some k' =>
      rw [Queue.complete_of_some hclaimed] at hi
      dsimp only at hi
      by_cases hk' : k = k'
      · subst hk'
        obtain ⟨hlive, hcount⟩ := (h.claimed k).mp hclaimed
        refine ⟨s.pos, completeEntry_live.mpr hlive, ?_, ?_⟩
        · rw [completeEntry_pos hpos]
          omega
        · rw [completeEntry_count]
          exact hcount
      · rw [Function.update_of_ne hk'] at hi
        exact hback hi

end OwnLine

section OtherLine

theorem Queued.of_live (h : Queued own s c q)
    (hlive : ∀ j, Live s' c j ↔ Live s c j)
    (hentry : ∀ j, Live s c j → s'.clientPipe j = s.clientPipe j)
    (hpos : ∀ j, Live s c j → (j = s'.pos ↔ j = s.pos)) : Queued own s' c q := by
  constructor
  · intro k
    rw [h.claimed]
    constructor
    · intro ⟨hj, hcount⟩
      have hsame := (hpos s.pos hj).mpr rfl
      rw [← hsame, hlive, hentry s.pos hj]
      exact ⟨hj, hcount⟩
    · intro ⟨hj, hcount⟩
      rw [hlive] at hj
      have hsame := (hpos s'.pos hj).mp rfl
      rw [hentry s'.pos hj] at hcount
      rw [← hsame]
      exact ⟨hj, hcount⟩
  · intro j hj hne
    rw [hlive] at hj
    rw [hentry j hj]
    exact h.sound j hj fun heq => hne ((hpos j hj).mpr heq)
  · intro k i hk hi
    obtain ⟨j, hj, hne, hcount⟩ := h.complete k i hk hi
    refine ⟨j, (hlive j).mpr hj, fun heq => hne ((hpos j hj).mp heq), ?_⟩
    rw [hentry j hj]
    exact hcount

theorem Queued.claimNew_other (h : Queued own s c q) (hc : fd ≠ c)
    (hroom : 0 < (s.clientPipe s.pos).inputCount → (s.clientPipe s.pos).fd = fd) :
    Queued own (Single.claimNew s fd n) c q := by
  have hne : ∀ j, Live s c j → j ≠ s.pos := by
    rintro j hj rfl
    exact hc ((hroom hj.2.2).symm.trans hj.2.1)
  apply h.of_live
  · intro j
    rw [claimNew_live]
    constructor
    · intro hj
      rcases hj with ⟨-, hj⟩ | ⟨-, -, heq, -⟩
      · exact hj
      · exact absurd heq hc
    · intro hj
      exact .inl ⟨hne j hj, hj⟩
  · intro j hj
    exact Single.claimNew_other (hne j hj)
  · intro j _
    exact Iff.rfl

theorem Queued.countDown_other (h : Queued own s c q) (hc : fd ≠ c) :
    Queued own (Single.countDown s fd) c q := by
  apply h.of_live
  · intro j
    exact countDown_live_other (Ne.symm hc)
  · intro j hj
    apply Single.countDown_other
    rw [hj.2.1]
    exact Ne.symm hc
  · intro j _
    exact Iff.rfl

theorem Queued.completeEntry_other (h : Queued own s c q) (htidy : Tidy s) (hpos : s.pos < 1000)
    (hfd : (s.clientPipe s.pos).fd ≠ c) (pipe : Int × Int) :
    Queued own (Single.completeEntry s pipe) c q := by
  have hne : ∀ j, Live s c j → j ≠ s.pos := by
    rintro j hj rfl
    exact hfd hj.2.1
  apply h.of_live
  · intro j
    exact completeEntry_live
  · intro j hj
    exact Single.completeEntry_other (hne j hj)
  · intro j hj
    rw [completeEntry_pos hpos]
    constructor
    · rintro rfl
      have hdead := htidy.beyond (s.pos + 1) (.inl (by omega))
      have hlive := hj.2.2
      omega
    · intro heq
      exact absurd heq (hne j hj)

theorem Queued.otherLine (h : Queued own s c q) (htidy : Tidy s) (hc : fd ≠ c) {line : Text}
    {calls : Nat → ParserCall} {effects : List Effect}
    (hkeeps : ∀ reading, readLine line = some reading → KeepsToTable s fd reading.pipeNumber)
    (hdone : LineDone s s' fd line calls effects) : Queued own s' c q := by
  have hclaimed : ∀ reading claimed getInput outputFd, readLine line = some reading →
      Claimed s fd reading.pipeNumber (claimed, getInput, outputFd) →
      Queued own claimed c q ∧ (getInput = 2 → (claimed.clientPipe claimed.pos).fd = fd) := by
    intro reading claimed getInput outputFd hread hclaim
    generalize hnumber : reading.pipeNumber = number at hclaim
    cases hclaim with
    | plain => exact ⟨h, by simp⟩
    | shared => exact ⟨h, by simp⟩
    | fresh n hfind =>
      obtain ⟨-, hroom⟩ := (hkeeps reading hread).room n hnumber hfind
      refine ⟨h.claimNew_other hc hroom, fun _ => ?_⟩
      exact congrArg PipeInfo.fd claimNew_pos_entry
  cases hdone with
  | unread _ hsame => exact h.same hsame
  | stopped reading hread _ hsame =>
    exact (hclaimed reading _ _ _ hread (claimEntry_claimed s fd _)).1.same hsame
  | ran reading claimed getInput outputFd hread _ _ hclaimEntry hsame =>
    have hclaim := claimEntry_claimed s fd reading.pipeNumber
    rw [hclaimEntry] at hclaim
    obtain ⟨hq, howner⟩ := hclaimed reading claimed getInput outputFd hread hclaim
    obtain ⟨htidy', hcounting, hpos⟩ := htidy.claimed (hkeeps reading hread) hclaim
    apply Queued.same hsame
    unfold afterLine
    split
    next htwo =>
      apply (hq.countDown_other hc).completeEntry_other (htidy'.countDown hcounting) (hpos htwo)
      rw [countDown_fd]
      exact fun heq => hc ((howner htwo).symm.trans heq)
    next => exact hq.countDown_other hc

end OtherLine

/-- The count that a number of a line stands for. -/
def key (pipeNumber : Option Int) : Option Int := pipeNumber.map fun n => int32 (n + 1)

/-- A line in the queue of its client: the queue after it, the place it reads,
the one it writes, and how many places it filled. -/
structure Turn where
  queue : Queue Nat
  input : Option (Option Nat)
  output : Option (Option (Option Nat))
  filled : Nat

/-- Apart from the answer of the user pipe checks, what a line comes to depends
on the queue of its client only. -/
def lineTurn (q : Queue Nat) (line : Text) (accepted : Bool) (number : Nat) : Turn :=
  match readLine line with
  | none => ⟨q, none, none, 0⟩
  | some reading =>
    let (claimed, fresh) := q.reserve (key reading.pipeNumber)
    if accepted && (builtin reading.commands).isNone then
      ⟨claimed.turn fresh number, claimed.look 1, (key reading.pipeNumber).map q.look,
        if fresh then 1 else 0⟩
    else ⟨claimed, none, none, 0⟩

inductive ShowsTarget (own : List Event) : Option (Option Nat) → Target → Prop
  | new : ShowsTarget own none .new
  | shared {o : Option Nat} {p : Int × Int} (h : Shown own o p) :
      ShowsTarget own (some o) (.shared p.2)

structure TurnShown (own : List Event) (e : Event) (s s' : Server) (fd : Int) (turn : Turn)
    (effects : List Effect) : Prop where
  queued : Queued (own ++ [e]) s' fd turn.queue
  input : Option.Rel (fun o input => ∃ p, Shown own o p ∧ input = p.1) turn.input
    (numberedInput effects)
  output : Option.Rel (ShowsTarget own) turn.output (numberedOutput effects)
  pos : s'.pos = s.pos + turn.filled

structure Reserved (own : List Event) (s : Server) (fd : Int) (q : Queue Nat)
    (pipeNumber : Option Int) (claimed : Server) (getInput : Nat) (outputFd : Int) : Prop where
  queued : Queued own claimed fd (q.reserve (key pipeNumber)).1
  fresh : (q.reserve (key pipeNumber)).2 = decide (getInput = 2)
  output : Option.Rel (ShowsTarget own) ((key pipeNumber).map q.look)
    (if getInput = 2 then some .new else if getInput = 1 then some (.shared outputFd) else none)
  pos : claimed.pos = s.pos

theorem Queued.reserved (h : Queued own s fd q) (htidy : Tidy s) {pipeNumber : Option Int}
    {claimed : Server} {getInput : Nat} {outputFd : Int} (hkeeps : KeepsToTable s fd pipeNumber)
    (hclaim : Claimed s fd pipeNumber (claimed, getInput, outputFd)) :
    Reserved own s fd q pipeNumber claimed getInput outputFd := by
  cases hclaim with
  | plain => exact ⟨h, rfl, .none, rfl⟩
  | shared n j hfind =>
    have hn := hkeeps.positive n rfl
    obtain ⟨hj, hcount⟩ := (findTarget_live htidy hn).mp hfind
    obtain ⟨o, ho, hshown⟩ := h.look_live htidy hj
    rw [hcount] at ho
    have hreserve : q.reserve (key (some n)) = (q, false) := by
      simp [key, Queue.reserve, ho]
    constructor
    · rw [hreserve]
      exact h
    · rw [hreserve]
      rfl
    · simp only [key, Option.map_some, ho]
      exact .some (.shared hshown)
    · rfl
  | fresh n hfind =>
    have hn := hkeeps.positive n rfl
    obtain ⟨hpos, -⟩ := hkeeps.room n rfl hfind
    have hlook := (h.findTarget_none htidy hn).mp hfind
    have hreserve : q.reserve (key (some n)) = (q.claim (int32 (n + 1)), true) := by
      simp [key, Queue.reserve, hlook]
    constructor
    · rw [hreserve]
      exact h.claimNew hpos hn
    · rw [hreserve]
      rfl
    · simp only [key, Option.map_some, hlook]
      exact .some .new
    · rfl

theorem Queued.afterLine (h : Queued own s fd q) (htidy : Tidy s) {getInput : Nat}
    (hcounting : Counting s fd) (hpos : getInput = 2 → s.pos < 1000) :
    Queued (own ++ [e]) (afterLine s fd getInput e.pipe) fd
      (q.turn (decide (getInput = 2)) own.length) ∧
    (afterLine s fd getInput e.pipe).pos = s.pos + if decide (getInput = 2) then 1 else 0 := by
  have hdown := h.countDown htidy hcounting
  unfold Single.afterLine Queue.turn
  split
  next htwo =>
    simp only [htwo, decide_true, if_true]
    exact ⟨hdown.completeEntry (htidy.countDown hcounting) (hpos htwo),
      completeEntry_pos (hpos htwo)⟩
  next htwo =>
    simp only [htwo, decide_false, Bool.false_eq_true, if_false]
    exact ⟨hdown.append [e], rfl⟩

theorem Queued.ownLine (h : Queued own s fd q) (htidy : Tidy s) {chunk : Text}
    {calls : Nat → ParserCall} {effects : List Effect}
    (hkeeps : ∀ reading, readLine (lineOf chunk) = some reading →
      KeepsToTable s fd reading.pipeNumber)
    (hdone : LineDone s s' fd (lineOf chunk) calls effects) :
    TurnShown own (.line fd chunk calls) s s' fd
      (lineTurn q (lineOf chunk) (rejection s (lineOf chunk) fd).isNone own.length) effects := by
  unfold lineTurn
  cases hdone with
  | unread hread hsame hforks =>
    simp only [hread]
    constructor
    · exact (h.append _).same hsame
    · rw [numberedInput, hforks]
      exact .none
    · rw [numberedOutput, hforks]
      exact .none
    · exact hsame.pos
  | stopped reading hread hstop hsame hforks =>
    have hnot : ((rejection s (lineOf chunk) fd).isNone &&
        (builtin reading.commands).isNone) = false := by
      rcases hstop with hreject | hbuiltin
      · rw [Option.isNone_eq_false_iff.mpr (Option.isSome_iff_ne_none.mpr hreject), Bool.false_and]
      · rw [Option.isNone_eq_false_iff.mpr (Option.isSome_iff_ne_none.mpr hbuiltin), Bool.and_false]
    have hreserved := h.reserved htidy (hkeeps reading hread) (claimEntry_claimed s fd _)
    simp only [hread, hnot, Bool.false_eq_true, if_false]
    constructor
    · exact (hreserved.queued.append _).same hsame
    · rw [numberedInput, hforks]
      exact .none
    · rw [numberedOutput, hforks]
      exact .none
    · exact hsame.pos.trans hreserved.pos
  | ran reading claimed getInput outputFd hread haccept hbuiltin hclaimEntry hsame hinput houtput =>
    have hclaim := claimEntry_claimed s fd reading.pipeNumber
    rw [hclaimEntry] at hclaim
    have hreserved := h.reserved htidy (hkeeps reading hread) hclaim
    obtain ⟨htidy', hcounting, hpos⟩ := htidy.claimed (hkeeps reading hread) hclaim
    have hpipe : (Event.line fd chunk calls).pipe = linePipe reading calls := by
      simp [Event.pipe, hread]
    obtain ⟨hqueued, hadvance⟩ := hreserved.queued.afterLine htidy' (e := .line fd chunk calls)
      hcounting hpos
    rw [hpipe] at hqueued hadvance
    simp only [hread, haccept, hbuiltin, Option.isNone_none, Bool.and_self, if_true]
    constructor
    · rw [hreserved.fresh]
      exact hqueued.same hsame
    · rw [hinput]
      have hdue := hreserved.queued.dueEntry htidy'
      generalize (q.reserve (key reading.pipeNumber)).1.look 1 = due at hdue ⊢
      generalize Single.dueEntry claimed fd = entry at hdue ⊢
      cases hdue with
      | none => exact .none
      | some hshown => exact .some ⟨_, hshown, rfl⟩
    · rw [houtput]
      exact hreserved.output
    · rw [hsame.pos, hadvance, hreserved.pos, hreserved.fresh]

end NetworkProgramming.Single
