import NetworkProgramming.Single.NumberedLine

/-! The entries of `client_pipe` that still wait for a line, and what a line
does to them when it does not run into the entry of another client. -/
namespace NetworkProgramming.Single
open Library.CString Library.Run Library.Search CommandLine

/-- An entry the loops still reach, with a line to come. -/
def Live (s : Server) (fd : Int) (j : Nat) : Prop :=
  j < 1000 ∧ (s.clientPipe j).fd = fd ∧ 0 < (s.clientPipe j).inputCount

def PipeInfo.pipe (entry : PipeInfo) : Int × Int := (entry.inputNum, entry.outputNum)

/-- The table before `pos` has wrapped: behind `pos` nothing was used yet. -/
structure Tidy (s : Server) : Prop where
  pos : s.pos ≤ 1000
  unused : ∀ j, s.pos ≤ j → (s.clientPipe j).pipe = (0, 0)
  beyond : ∀ j, s.pos < j ∨ 1000 ≤ j → (s.clientPipe j).inputCount ≤ 0
  range : ∀ j, (s.clientPipe j).inputCount < 2 ^ 31
  distinct : ∀ fd i j, Live s fd i → Live s fd j →
    (s.clientPipe i).inputCount = (s.clientPipe j).inputCount → i = j

/-- Counters that are in the range of `int`, those of one client apart. -/
structure Counted (s : Server) : Prop where
  range : ∀ j, (s.clientPipe j).inputCount < 2 ^ 31
  distinct : ∀ fd i j, Live s fd i → Live s fd j →
    (s.clientPipe i).inputCount = (s.clientPipe j).inputCount → i = j

/-- The counters of a client are above the lowest `int`. -/
def Counting (s : Server) (fd : Int) : Prop :=
  ∀ j < 1000, (s.clientPipe j).fd = fd → -2 ^ 31 < (s.clientPipe j).inputCount

/-- A line that keeps to the table: its number is not negative, its counters
stay in the range of `int`, and a new entry is one that the loops reach and that
no other client's line waits for. -/
structure KeepsToTable (s : Server) (fd : Int) (pipeNumber : Option Int) : Prop where
  positive : ∀ n, pipeNumber = some n → 0 < int32 (n + 1)
  counters : Counting s fd
  room : ∀ n, pipeNumber = some n → findTarget s fd n = none →
    s.pos < 1000 ∧ (0 < (s.clientPipe s.pos).inputCount → (s.clientPipe s.pos).fd = fd)

/-- A login does not get a number whose earlier holder still has an entry, and a
line keeps to the table. -/
def Apart (s : Server) : Event → Prop
  | .login ssock _ => ∀ j < 1000, (s.clientPipe j).fd = ssock → (s.clientPipe j).inputCount ≤ 0
  | .line fd chunk _ => ∀ reading, readLine (lineOf chunk) = some reading →
    KeepsToTable s fd reading.pipeNumber

instance (s : Server) (fd : Int) (pipeNumber : Option Int) :
    Decidable (KeepsToTable s fd pipeNumber) :=
  decidable_of_iff
    ((∀ n ∈ pipeNumber, 0 < int32 (n + 1)) ∧
      (∀ j < 1000, (s.clientPipe j).fd = fd → -2 ^ 31 < (s.clientPipe j).inputCount) ∧
      ∀ n ∈ pipeNumber, findTarget s fd n = none →
        s.pos < 1000 ∧ (0 < (s.clientPipe s.pos).inputCount → (s.clientPipe s.pos).fd = fd))
    ⟨fun h => ⟨h.1, h.2.1, h.2.2⟩, fun h => ⟨h.positive, h.counters, h.room⟩⟩

instance (s : Server) : (e : Event) → Decidable (Apart s e)
  | .login ssock _ => decidable_of_iff (∀ j < 1000, (s.clientPipe j).fd = ssock →
      (s.clientPipe j).inputCount ≤ 0) Iff.rfl
  | .line fd chunk _ => decidable_of_iff (∀ reading ∈ readLine (lineOf chunk),
      KeepsToTable s fd reading.pipeNumber) Iff.rfl

variable {s s' : Server} {fd : Int} {n : Int} {pipe : Int × Int}

theorem Tidy.initial : Tidy Server.initial := by
  constructor
  · decide
  · intro j _
    rfl
  · intro j _
    exact le_refl _
  · intro j
    simp [Server.initial]
  · intro fd i j hi
    exact absurd hi.2.2 (lt_irrefl _)

theorem Tidy.counted (h : Tidy s) : Counted s := ⟨h.range, h.distinct⟩

theorem Counted.initial : Counted Server.initial := Tidy.initial.counted

theorem Live.same (h : SameNumberedPipes s s') (j : Nat) : Live s' fd j ↔ Live s fd j := by
  rw [Live, Live, h.clientPipe]

theorem Counted.same (h : SameNumberedPipes s s') (hcounted : Counted s) : Counted s' := by
  constructor
  · rw [h.clientPipe]
    exact hcounted.range
  · intro fd i j hi hj
    rw [h.clientPipe]
    exact hcounted.distinct fd i j ((Live.same h i).mp hi) ((Live.same h j).mp hj)

theorem Tidy.same (h : SameNumberedPipes s s') (htidy : Tidy s) : Tidy s' := by
  have hcounted := htidy.counted.same h
  refine ⟨?_, ?_, ?_, hcounted.range, hcounted.distinct⟩
  · rw [h.pos]
    exact htidy.pos
  · rw [h.pos, h.clientPipe]
    exact htidy.unused
  · rw [h.pos, h.clientPipe]
    exact htidy.beyond

theorem Live.count_ne (hfind : findTarget s fd n = none) {j : Nat} (h : Live s fd j) :
    (s.clientPipe j).inputCount ≠ int32 (n + 1) := by
  intro hcount
  have hlow := h.1
  have hmiss := List.find?_eq_none.mp hfind j (by rw [List.mem_range, maxPipeNum]; omega)
  simp [PipeInfo.waits, hcount, h.2.1] at hmiss

theorem findTarget_live (htidy : Tidy s) (hn : 0 < int32 (n + 1)) {j : Nat} :
    findTarget s fd n = some j ↔ Live s fd j ∧ (s.clientPipe j).inputCount = int32 (n + 1) := by
  have hlive : ∀ i, (s.clientPipe i).waits fd (int32 (n + 1)) = true →
      Live s fd i ∧ (s.clientPipe i).inputCount = int32 (n + 1) := by
    intro i hi
    simp only [PipeInfo.waits, Bool.and_eq_true, decide_eq_true_eq] at hi
    have hpositive : 0 < (s.clientPipe i).inputCount := by omega
    refine ⟨⟨?_, hi.2, hpositive⟩, hi.1⟩
    by_contra hge
    have hdead := htidy.beyond i (.inr (by omega))
    omega
  rw [findTarget, List.find?_range_eq_some]
  constructor
  · intro h
    exact hlive j h.1
  · rintro ⟨hj, hcount⟩
    refine ⟨?_, ?_, ?_⟩
    · simp [PipeInfo.waits, hcount, hj.2.1]
    · rw [List.mem_range, maxPipeNum]
      have hlow := hj.1
      omega
    · intro i hi
      rw [Bool.not_eq_true', Bool.eq_false_iff]
      intro hwaits
      obtain ⟨hlivei, hcounti⟩ := hlive i hwaits
      have hsame := htidy.distinct fd i j hlivei hj (hcounti.trans hcount.symm)
      omega

theorem findTarget_none (htidy : Tidy s) (hn : 0 < int32 (n + 1)) :
    findTarget s fd n = none ↔
      ∀ j, Live s fd j → (s.clientPipe j).inputCount ≠ int32 (n + 1) := by
  constructor
  · exact fun hfind j hj => hj.count_ne hfind
  · intro h
    rw [Option.eq_none_iff_forall_ne_some]
    intro j hfind
    obtain ⟨hj, hcount⟩ := (findTarget_live htidy hn).mp hfind
    exact h j hj hcount

theorem dueEntry_cases (s : Server) (fd : Int) :
    (dueEntry s fd = none ∧ ∀ j, Live s fd j → (s.clientPipe j).inputCount ≠ 1) ∨
      ∃ j, Live s fd j ∧ (s.clientPipe j).inputCount = 1 ∧ dueEntry s fd = some (s.clientPipe j) := by
  unfold dueEntry
  cases hlast : lastBelow (fun j => (s.clientPipe j).waits fd 1) 1000 with
  | none =>
    refine .inl ⟨rfl, ?_⟩
    intro j hj hcount
    have hmiss := lastBelow_eq_none.mp hlast j hj.1
    simp [PipeInfo.waits, hcount, hj.2.1] at hmiss
  | some j =>
    obtain ⟨hj, hwaits, -⟩ := lastBelow_eq_some.mp hlast
    simp only [PipeInfo.waits, Bool.and_eq_true, decide_eq_true_eq] at hwaits
    exact .inr ⟨j, ⟨hj, hwaits.2, by omega⟩, hwaits.1, rfl⟩

inductive Claimed (s : Server) (fd : Int) : Option Int → Server × Nat × Int → Prop
  | plain : Claimed s fd none (s, 0, fd)
  | shared (n : Int) (j : Nat) (hfind : findTarget s fd n = some j) :
      Claimed s fd (some n) (s, 1, (s.clientPipe j).outputNum)
  | fresh (n : Int) (hfind : findTarget s fd n = none) :
      Claimed s fd (some n) (claimNew s fd n, 2, fd)

theorem claimEntry_claimed (s : Server) (fd : Int) (pipeNumber : Option Int) :
    Claimed s fd pipeNumber (claimEntry s fd pipeNumber) := by
  cases pipeNumber with
  | none => exact .plain
  | some n =>
    simp only [claimEntry]
    cases hfind : findTarget s fd n with
    | none => exact .fresh n hfind
    | some j => exact .shared n j hfind

section Claim

theorem claimNew_pos_entry : (claimNew s fd n).clientPipe s.pos =
    { s.clientPipe s.pos with inputCount := int32 (n + 1), fd := fd } := Function.update_self _ _ _

theorem claimNew_other {j : Nat} (h : j ≠ s.pos) :
    (claimNew s fd n).clientPipe j = s.clientPipe j := Function.update_of_ne h _ _

/-- Away from `pos` a claim changes nothing; the entry there changes hands. -/
theorem claimNew_live {c : Int} {j : Nat} : Live (claimNew s fd n) c j ↔
    (j ≠ s.pos ∧ Live s c j) ∨ (j = s.pos ∧ j < 1000 ∧ fd = c ∧ 0 < int32 (n + 1)) := by
  by_cases hj : j = s.pos
  · subst hj
    simp [Live, claimNew_pos_entry]
  · simp [Live, claimNew_other hj, hj]

theorem Counted.claimNew (h : Counted s) (hfind : findTarget s fd n = none) :
    Counted (claimNew s fd n) := by
  constructor
  · intro j
    by_cases hjpos : j = s.pos
    · subst hjpos
      rw [claimNew_pos_entry]
      exact int32_lt _
    · rw [claimNew_other hjpos]
      exact h.range j
  · intro c i j hi hj hcount
    rw [claimNew_live] at hi hj
    rcases hi with ⟨hipos, hi⟩ | ⟨rfl, -, rfl, -⟩
    · rcases hj with ⟨hjpos, hj⟩ | ⟨rfl, -, rfl, -⟩
      · rw [claimNew_other hipos, claimNew_other hjpos] at hcount
        exact h.distinct c i j hi hj hcount
      · rw [claimNew_other hipos, claimNew_pos_entry] at hcount
        exact absurd hcount (hi.count_ne hfind)
    · rcases hj with ⟨hjpos, hj⟩ | ⟨rfl, -⟩
      · rw [claimNew_other hjpos, claimNew_pos_entry] at hcount
        exact absurd hcount.symm (hj.count_ne hfind)
      · rfl

theorem Tidy.claimNew (htidy : Tidy s) (hpos : s.pos < 1000)
    (hfind : findTarget s fd n = none) : Tidy (claimNew s fd n) := by
  have hcounted := htidy.counted.claimNew hfind
  refine ⟨htidy.pos, ?_, ?_, hcounted.range, hcounted.distinct⟩
  · intro j hj
    have hold := htidy.unused j hj
    by_cases hjpos : j = s.pos
    · subst hjpos
      rw [claimNew_pos_entry]
      exact hold
    · rw [claimNew_other hjpos]
      exact hold
  · intro j hj
    have hpos' : (Single.claimNew s fd n).pos = s.pos := rfl
    rw [hpos'] at hj
    rw [claimNew_other (by omega)]
    exact htidy.beyond j hj

end Claim

theorem Counting.claimNew (h : Counting s fd) (hn : 0 < int32 (n + 1)) :
    Counting (claimNew s fd n) fd := by
  intro j hj hfd
  by_cases hjpos : j = s.pos
  · subst hjpos
    rw [claimNew_pos_entry]
    dsimp only
    omega
  · rw [claimNew_other hjpos] at hfd ⊢
    exact h j hj hfd

section CountDown
variable {c : Int} {j : Nat}

theorem countDown_other (h : (s.clientPipe j).fd ≠ fd) :
    (countDown s fd).clientPipe j = s.clientPipe j := if_neg fun hboth => h hboth.2

theorem countDown_fd : ((countDown s fd).clientPipe j).fd = (s.clientPipe j).fd := by
  simp only [countDown]
  split <;> rfl

theorem countDown_pipe : ((countDown s fd).clientPipe j).pipe = (s.clientPipe j).pipe := by
  simp only [countDown]
  split <;> rfl

theorem countDown_count (hcounted : Counted s) (hcounting : Counting s fd) :
    ((countDown s fd).clientPipe j).inputCount =
      if j < 1000 ∧ (s.clientPipe j).fd = fd then (s.clientPipe j).inputCount - 1
      else (s.clientPipe j).inputCount := by
  simp only [countDown]
  split
  next h =>
    have hlow := hcounting j h.1 h.2
    have hhigh := hcounted.range j
    exact int32_eq_self (by omega) (by omega)
  next => rfl

theorem countDown_live (hcounted : Counted s) (hcounting : Counting s fd) :
    Live (countDown s fd) fd j ↔ Live s fd j ∧ 1 < (s.clientPipe j).inputCount := by
  rw [Live, Live, countDown_fd, countDown_count hcounted hcounting]
  constructor
  · intro ⟨hj, hfd, hcount⟩
    rw [if_pos ⟨hj, hfd⟩] at hcount
    exact ⟨⟨hj, hfd, by omega⟩, by omega⟩
  · intro ⟨⟨hj, hfd, _⟩, hcount⟩
    rw [if_pos ⟨hj, hfd⟩]
    exact ⟨hj, hfd, by omega⟩

theorem countDown_live_other (h : c ≠ fd) : Live (countDown s fd) c j ↔ Live s c j := by
  rw [Live, Live, countDown_fd]
  constructor
  · intro ⟨hj, hfd, hcount⟩
    rw [countDown_other (by rw [hfd]; exact h)] at hcount
    exact ⟨hj, hfd, hcount⟩
  · intro ⟨hj, hfd, hcount⟩
    rw [countDown_other (by rw [hfd]; exact h)]
    exact ⟨hj, hfd, hcount⟩

theorem Counted.countDown (hcounted : Counted s) (hcounting : Counting s fd) :
    Counted (countDown s fd) := by
  constructor
  · intro j
    have hold := hcounted.range j
    rw [countDown_count hcounted hcounting]
    split <;> omega
  · intro c i j hi hj hcount
    by_cases hc : c = fd
    · subst hc
      obtain ⟨hi, -⟩ := (countDown_live hcounted hcounting).mp hi
      obtain ⟨hj, -⟩ := (countDown_live hcounted hcounting).mp hj
      rw [countDown_count hcounted hcounting, countDown_count hcounted hcounting,
        if_pos ⟨hi.1, hi.2.1⟩, if_pos ⟨hj.1, hj.2.1⟩] at hcount
      exact hcounted.distinct c i j hi hj (by omega)
    · rw [countDown_live_other hc] at hi hj
      rw [countDown_other (by rw [hi.2.1]; exact hc), countDown_other (by rw [hj.2.1]; exact hc)]
        at hcount
      exact hcounted.distinct c i j hi hj hcount

theorem Tidy.countDown (htidy : Tidy s) (hcounting : Counting s fd) : Tidy (countDown s fd) := by
  have hcounted := htidy.counted.countDown hcounting
  refine ⟨htidy.pos, ?_, ?_, hcounted.range, hcounted.distinct⟩
  · intro j hj
    rw [countDown_pipe]
    exact htidy.unused j hj
  · intro j hj
    have hold := htidy.beyond j hj
    rw [countDown_count htidy.counted hcounting]
    split <;> omega

end CountDown

section Complete
variable {c : Int} {j : Nat}

theorem completeEntry_pos (hpos : s.pos < 1000) : (completeEntry s pipe).pos = s.pos + 1 := by
  simp only [completeEntry]
  rw [if_neg (by omega)]

theorem completeEntry_other (h : j ≠ s.pos) :
    (completeEntry s pipe).clientPipe j = s.clientPipe j := Function.update_of_ne h _ _

theorem completeEntry_entry : (completeEntry s pipe).clientPipe s.pos =
    { s.clientPipe s.pos with inputNum := pipe.1, outputNum := pipe.2 } :=
  Function.update_self _ _ _

theorem completeEntry_fd :
    ((completeEntry s pipe).clientPipe j).fd = (s.clientPipe j).fd := by
  by_cases h : j = s.pos
  · rw [h, completeEntry_entry]
  · rw [completeEntry_other h]

theorem completeEntry_count :
    ((completeEntry s pipe).clientPipe j).inputCount = (s.clientPipe j).inputCount := by
  by_cases h : j = s.pos
  · rw [h, completeEntry_entry]
  · rw [completeEntry_other h]

theorem completeEntry_live : Live (completeEntry s pipe) c j ↔ Live s c j := by
  rw [Live, Live, completeEntry_fd, completeEntry_count]

theorem Counted.completeEntry (h : Counted s) (pipe : Int × Int) :
    Counted (completeEntry s pipe) := by
  constructor
  · intro j
    rw [completeEntry_count]
    exact h.range j
  · intro c i j hi hj hcount
    rw [completeEntry_live] at hi hj
    rw [completeEntry_count, completeEntry_count] at hcount
    exact h.distinct c i j hi hj hcount

theorem Tidy.completeEntry (htidy : Tidy s) (hpos : s.pos < 1000) :
    Tidy (completeEntry s pipe) := by
  have hcounted := htidy.counted.completeEntry pipe
  refine ⟨?_, ?_, ?_, hcounted.range, hcounted.distinct⟩
  · rw [completeEntry_pos hpos]
    omega
  · intro j hj
    rw [completeEntry_pos hpos] at hj
    rw [completeEntry_other (by omega)]
    exact htidy.unused j (by omega)
  · intro j hj
    rw [completeEntry_pos hpos] at hj
    rw [completeEntry_count]
    exact htidy.beyond j (by omega)

end Complete

theorem Tidy.claimed (htidy : Tidy s) {pipeNumber : Option Int} {claimed : Server} {getInput : Nat}
    {outputFd : Int} (hkeeps : KeepsToTable s fd pipeNumber)
    (hclaim : Claimed s fd pipeNumber (claimed, getInput, outputFd)) :
    Tidy claimed ∧ Counting claimed fd ∧ (getInput = 2 → claimed.pos < 1000) := by
  cases hclaim with
  | plain => exact ⟨htidy, hkeeps.counters, by simp⟩
  | shared n j hfind => exact ⟨htidy, hkeeps.counters, by simp⟩
  | fresh n hfind =>
    have hn := hkeeps.positive n rfl
    obtain ⟨hpos, -⟩ := hkeeps.room n rfl hfind
    exact ⟨htidy.claimNew hpos hfind, hkeeps.counters.claimNew hn, fun _ => hpos⟩

theorem Tidy.afterLine (htidy : Tidy s) {getInput : Nat} (hcounting : Counting s fd)
    (hpos : getInput = 2 → s.pos < 1000) : Tidy (afterLine s fd getInput pipe) := by
  unfold Single.afterLine
  split
  next htwo => exact (htidy.countDown hcounting).completeEntry (hpos htwo)
  next => exact htidy.countDown hcounting

theorem Tidy.lineDone (htidy : Tidy s) {line : Text} {calls : Nat → ParserCall}
    {effects : List Effect}
    (hkeeps : ∀ reading, readLine line = some reading → KeepsToTable s fd reading.pipeNumber)
    (hdone : LineDone s s' fd line calls effects) : Tidy s' := by
  cases hdone with
  | unread _ hsame => exact htidy.same hsame
  | stopped reading hread _ hsame =>
    have hclaim := claimEntry_claimed s fd reading.pipeNumber
    generalize claimEntry s fd reading.pipeNumber = claim at hclaim hsame
    obtain ⟨claimed, getInput, outputFd⟩ := claim
    exact (htidy.claimed (hkeeps reading hread) hclaim).1.same hsame
  | ran reading claimed getInput outputFd hread _ _ hclaimEntry hsame =>
    have hclaim := claimEntry_claimed s fd reading.pipeNumber
    rw [hclaimEntry] at hclaim
    obtain ⟨htidy', hcounting, hpos⟩ := htidy.claimed (hkeeps reading hread) hclaim
    exact (htidy'.afterLine hcounting hpos).same hsame

theorem LineDone.pos_le (htidy : Tidy s) {line : Text} {calls : Nat → ParserCall}
    {effects : List Effect}
    (hkeeps : ∀ reading, readLine line = some reading → KeepsToTable s fd reading.pipeNumber)
    (hdone : LineDone s s' fd line calls effects) : s.pos ≤ s'.pos := by
  cases hdone with
  | unread _ hsame => exact le_of_eq hsame.pos.symm
  | stopped reading hread _ hsame =>
    obtain ⟨-, -, hpos⟩ := claimEntry_same s fd reading.pipeNumber
    rw [hsame.pos, hpos]
  | ran reading claimed getInput outputFd hread _ _ hclaimEntry hsame =>
    obtain ⟨-, -, hpos⟩ := claimEntry_same s fd reading.pipeNumber
    have hclaim := claimEntry_claimed s fd reading.pipeNumber
    rw [hclaimEntry] at hclaim hpos
    obtain ⟨-, -, hroom⟩ := htidy.claimed (hkeeps reading hread) hclaim
    have hdown : (countDown claimed fd).pos = claimed.pos := rfl
    dsimp only at hpos
    rw [hsame.pos, afterLine]
    split
    next htwo =>
      have hlow : (countDown claimed fd).pos < 1000 := hroom htwo
      rw [completeEntry_pos hlow]
      omega
    next => omega

theorem tidy_run {limit : Nat} (es : List Event) (s : Server)
    (hapart : Meets (next limit) Server.initial (fun _ s e => Apart s e) es)
    (hrun : exec (next limit) Server.initial es = some s) : Tidy s := by
  apply invariant (I := fun _ => Tidy) Tidy.initial _ es hapart s hrun
  intro es s e s' _ htidy hapart hnext
  obtain ⟨-, effects, hstep⟩ := next_eq_some hnext
  cases e with
  | login ssock fsin => exact htidy.same (login_frame hstep).toSameNumberedPipes
  | line fd chunk calls => exact htidy.lineDone hapart (step_line_numbered hstep)

end NetworkProgramming.Single
