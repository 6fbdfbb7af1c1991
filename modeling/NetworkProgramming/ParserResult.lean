import NetworkProgramming.Simple.Exec
import NetworkProgramming.Single.Exec
import NetworkProgramming.Multi.Programs

/-! The pair that `parser` hands back to `do_exec`: two bytes of it are copied into the
block that `malloc` returned, and eight are read. -/
namespace NetworkProgramming.ParserResult
open Library.CString Library.Descriptors Library.Search CommandLine

/-- What `pipe` can return in one of the two places. -/
def IsDescriptor (fd : Int) : Prop := 0 ≤ fd ∧ fd < 2 ^ 31

/-- The six bytes that are not copied stand in the block already: the upper half of the
read end, and the write end. -/
def LeftOver (call : ParserCall) : Prop :=
  call.block.extractLsb' 16 16 = (BitVec.ofInt 32 call.pipeFd.1).extractLsb' 16 16 ∧
    call.block.extractLsb' 32 32 = BitVec.ofInt 32 call.pipeFd.2

instance (call : ParserCall) : Decidable (LeftOver call) := by
  unfold LeftOver
  infer_instance

def NoWriter (t : Table) (pipe : Nat) : Prop := ∀ fd, t fd ≠ some (.writeEnd pipe)

/-- Behind a stage whose pipe goes to the next one, or to nobody, no descriptor of the
`np_simple` process writes to it any more. -/
def StageClosed (call : ParserCall) : Prop :=
  ∀ (s s' : Simple.Shell) (args : Simple.ParserArgs) (c : Simple.Child),
    Simple.parser s args call = some (s', c) → NoWriter s.files s.made →
    args.last = false ∨ args.getInput = 0 →
      NoWriter (Simple.finishRound s' args.last args.getInput call.getData).files s.made

/-- What `np_single_proc` closes behind such a stage. -/
def WriteEndClosed (call : ParserCall) : Prop :=
  ∀ (s : Single.Server) (last : Bool) (getInput : Nat), last = false ∨ getInput = 0 →
    Single.finishRound s last getInput call.getData = (s, [.close call.pipeFd.2])

/-- Behind such a round of `np_multi_proc`, from the pipe that is due to the close of the
user pipe, no descriptor of its process writes to the pipe any more. -/
def RoundClosed (call : ParserCall) : Prop :=
  ∀ (line : Multi.Programs.Line) (first last : Bool) (cmd : Text) (r r' : Simple.Round),
    Multi.Programs.runCommand line first last cmd call r = some r' →
    NoWriter r.shell.files r.shell.made → last = false ∨ r.getInput = 0 →
      NoWriter r'.shell.files r.shell.made

variable {call : ParserCall} {t : Table} {fds : Int × Int} {fd : Int} {pipe : Nat}

theorem toInt_eq_iff (h : IsDescriptor fd) (word : BitVec 32) :
    word.toInt = fd ↔ word = BitVec.ofInt 32 fd := by
  obtain ⟨hlow, hhigh⟩ := h
  have hvalue : (BitVec.ofInt 32 fd).toInt = fd := by
    rw [BitVec.toInt_ofInt]
    exact Int.bmod_eq_of_le (by omega) (by omega)
  constructor
  · intro heq
    apply BitVec.eq_of_toInt_eq
    rw [heq, hvalue]
  · rintro rfl
    exact hvalue

theorem readWord_eq (block : BitVec 64) (word : BitVec 32) :
    (block.extractLsb' 16 48 ++ word.extractLsb' 0 16).extractLsb' 0 32 =
      block.extractLsb' 16 16 ++ word.extractLsb' 0 16 := by
  apply BitVec.eq_of_getLsbD_eq
  intro i hi
  simp only [BitVec.getLsbD_extractLsb', BitVec.getLsbD_append]
  grind

theorem writeWord_eq (block : BitVec 64) (word : BitVec 32) :
    (block.extractLsb' 16 48 ++ word.extractLsb' 0 16).extractLsb' 32 32 =
      block.extractLsb' 32 32 := by
  apply BitVec.eq_of_getLsbD_eq
  intro i hi
  simp only [BitVec.getLsbD_extractLsb', BitVec.getLsbD_append]
  grind

theorem halves (word : BitVec 32) : word.extractLsb' 16 16 ++ word.extractLsb' 0 16 = word := by
  apply BitVec.eq_of_getLsbD_eq
  intro i hi
  simp only [BitVec.getLsbD_extractLsb', BitVec.getLsbD_append]
  grind

theorem first_eq_iff (h : IsDescriptor call.pipeFd.1) :
    call.getData.1 = call.pipeFd.1 ↔
      call.block.extractLsb' 16 16 = (BitVec.ofInt 32 call.pipeFd.1).extractLsb' 16 16 := by
  rw [ParserCall.getData]
  dsimp only
  rw [toInt_eq_iff h, readWord_eq]
  conv_lhs => rhs; rw [← halves (BitVec.ofInt 32 call.pipeFd.1)]
  exact BitVec.append_left_inj _

theorem second_eq_iff (h : IsDescriptor call.pipeFd.2) :
    call.getData.2 = call.pipeFd.2 ↔
      call.block.extractLsb' 32 32 = BitVec.ofInt 32 call.pipeFd.2 := by
  rw [ParserCall.getData]
  dsimp only
  rw [toInt_eq_iff h, writeWord_eq]

theorem getData_eq_iff (hread : IsDescriptor call.pipeFd.1) (hwrite : IsDescriptor call.pipeFd.2) :
    call.getData = call.pipeFd ↔ LeftOver call := by
  rw [LeftOver, ← first_eq_iff hread, ← second_eq_iff hwrite, Prod.ext_iff]

theorem noWriter_close (h : NoWriter t pipe) (closed : Int) : NoWriter (close t closed) pipe := by
  intro fd
  by_cases hfd : fd = closed
  · rw [hfd, close_self]
    simp
  · rw [close_of_ne hfd]
    exact h fd

theorem noWriter_close_comm (h : NoWriter (close t fd) pipe) (closed : Int) :
    NoWriter (close (close t closed) fd) pipe := by
  by_cases hfd : closed = fd
  · subst hfd
    exact noWriter_close h closed
  · have hcomm : close (close t closed) fd = close (close t fd) closed :=
      Function.update_comm hfd _ _ _
    rw [hcomm]
    exact noWriter_close h closed

theorem noWriter_openPipe (h : NoWriter t pipe) :
    NoWriter (close (openPipe t fds pipe) fds.2) pipe := by
  intro fd
  by_cases hwrite : fd = fds.2
  · rw [hwrite, close_self]
    simp
  · rw [close_of_ne hwrite, openPipe, Function.update_of_ne hwrite]
    by_cases hread : fd = fds.1
    · rw [hread, Function.update_self]
      simp
    · rw [Function.update_of_ne hread]
      exact h fd

theorem noWriter_stage (h : NoWriter t pipe) (input : Int) : NoWriter
    (close (if input ≠ 0 then close (openPipe t fds pipe) input else openPipe t fds pipe) fds.2)
    pipe := by
  split
  · exact noWriter_close_comm (noWriter_openPipe h) input
  · exact noWriter_openPipe h

theorem finishRound_files {last : Bool} {getInput : Nat} (s : Simple.Shell)
    (h : last = false ∨ getInput = 0) (fds : Int × Int) :
    (Simple.finishRound s last getInput fds).files = close s.files fds.2 := by
  rw [Simple.finishRound]
  rcases h with hlast | hzero
  · rw [if_neg (by simp [hlast])]
  · rw [if_pos hzero, ite_self]

theorem parser_noWriter {s s' : Simple.Shell} {args : Simple.ParserArgs} {c : Simple.Child}
    (h : Simple.parser s args call = some (s', c)) (hnew : NoWriter s.files s.made) :
    NoWriter (close s'.files call.pipeFd.2) s.made := by
  unfold Simple.parser at h
  split at h
  next =>
    simp only [Option.some.injEq, Prod.mk.injEq] at h
    rw [← h.1]
    exact noWriter_stage hnew args.input
  next => contradiction

theorem stageClosed_of_same (h : call.getData = call.pipeFd) : StageClosed call := by
  intro s s' args c hparser hnew hbetween
  rw [finishRound_files s' hbetween, h]
  exact parser_noWriter hparser hnew

theorem takeDue_noWriter {s : Simple.Shell} (h : NoWriter s.files pipe) (first : Bool) :
    NoWriter (Simple.takeDue s first).1.files pipe ∧ (Simple.takeDue s first).1.made = s.made := by
  unfold Simple.takeDue
  split
  · split
    · exact ⟨h, rfl⟩
    · exact ⟨noWriter_close h _, rfl⟩
  · exact ⟨h, rfl⟩

theorem closeUserPipe_noWriter {s : Simple.Shell} (h : NoWriter (close s.files fd) pipe)
    (userPipe : Int) : NoWriter (close (Multi.Programs.closeUserPipe s userPipe).files fd) pipe := by
  unfold Multi.Programs.closeUserPipe
  split
  · exact noWriter_close_comm h userPipe
  · exact h

theorem multiParser_noWriter {s s' : Simple.Shell} {args : Simple.ParserArgs} {c : Simple.Child}
    (h : Multi.Programs.parser s args call = some (s', c)) (hnew : NoWriter s.files s.made) :
    NoWriter (close s'.files call.pipeFd.2) s.made := by
  unfold Multi.Programs.parser at h
  split at h
  next =>
    simp only [Option.some.injEq, Prod.mk.injEq] at h
    rw [← h.1]
    exact noWriter_stage hnew args.input
  next => contradiction

theorem roundClosed_of_same (h : call.getData = call.pipeFd) : RoundClosed call := by
  intro line first last cmd r r' hround hnew hbetween
  have hget : last = false ∨ (if last then Simple.lastGetInput r.getInput else r.getInput) = 0 :=
    hbetween.imp_right fun hzero => by simp [hzero, Simple.lastGetInput]
  obtain ⟨hdue, hmade⟩ := takeDue_noWriter hnew first
  obtain ⟨⟨s', c⟩, hparser, rfl⟩ := Option.map_eq_some_iff.mp hround
  rw [← hmade] at hdue ⊢
  have hstage := multiParser_noWriter hparser hdue
  dsimp only
  rw [finishRound_files _ hget, h]
  cases first with
  | true => exact closeUserPipe_noWriter hstage line.userPipeIn
  | false => exact hstage

theorem writeEndClosed_of_same (h : call.getData = call.pipeFd) : WriteEndClosed call := by
  intro s last getInput hbetween
  rw [Single.finishRound, h]
  rcases hbetween with hlast | hzero
  · rw [if_neg (by simp [hlast])]
  · rw [if_pos hzero, ite_self]

/-- The pair comes back, and the write end of the stage is closed in each of the three
servers, exactly when the block of `malloc` holds what is not copied already. -/
theorem pair_back_iff (call : ParserCall) (hread : IsDescriptor call.pipeFd.1)
    (hwrite : IsDescriptor call.pipeFd.2) :
    call.getData = call.pipeFd ∧ StageClosed call ∧ WriteEndClosed call ∧ RoundClosed call ↔
      LeftOver call := by
  rw [← getData_eq_iff hread hwrite]
  constructor
  · exact And.left
  · exact fun h =>
      ⟨h, stageClosed_of_same h, writeEndClosed_of_same h, roundClosed_of_same h⟩

def samePair : ParserCall := ⟨(5, 6), 0x600000000⟩

theorem pair_back_leftOver : samePair.getData = (5, 6) ∧ StageClosed samePair ∧
    WriteEndClosed samePair ∧ RoundClosed samePair :=
  (pair_back_iff samePair ⟨by decide, by decide⟩ ⟨by decide, by decide⟩).mpr (by decide)

def firstArgs : Simple.ParserArgs :=
  ⟨0, true, false, true, false, false, 7, 0, "ls".toList⟩

/-- A line of `np_multi_proc` without a number or a user pipe. -/
def firstLine : Multi.Programs.Line := ⟨true, false, 7, 0, 0⟩

theorem takeDue_initial : Simple.takeDue (Simple.Shell.initial 7) true =
    (Simple.countDown (Simple.Shell.initial 7), none) := by
  have hnone : Simple.dueEntry (Simple.Shell.initial 7) = none :=
    lastBelow_eq_none.mpr fun _ _ => rfl
  rw [Simple.takeDue, if_pos rfl, hnone]

theorem initial_noWriter : NoWriter (Simple.Shell.initial 7).files 0 := by
  intro fd
  simp only [Simple.Shell.initial]
  split_ifs <;> simp

/-- On a block of zeros the write end is read as descriptor 0: that one is closed, and 4
still writes to the pipe. -/
theorem writeEnd_lost : (⟨(3, 4), 0⟩ : ParserCall).getData = (3, 0) ∧
    ¬ ((⟨(3, 4), 0⟩ : ParserCall).getData = (3, 4) ∧ StageClosed ⟨(3, 4), 0⟩ ∧
      WriteEndClosed ⟨(3, 4), 0⟩ ∧ RoundClosed ⟨(3, 4), 0⟩) ∧
    ¬ StageClosed ⟨(3, 4), 0⟩ ∧ ¬ RoundClosed ⟨(3, 4), 0⟩ := by
  have hzero : (⟨(3, 4), 0⟩ : ParserCall).getData = (3, 0) := by decide
  refine ⟨hzero, ?_, ?_, ?_⟩
  · rintro ⟨hsame, -⟩
    rw [hzero] at hsame
    exact absurd hsame (by decide)
  · intro hclosed
    exact hclosed (Simple.Shell.initial 7) _ firstArgs _ rfl initial_noWriter (.inl rfl) 4 rfl
  · intro hclosed
    have hround : ∃ r', Multi.Programs.runCommand firstLine true false "ls".toList
        ⟨(3, 4), 0⟩ ⟨Simple.Shell.initial 7, 0, 0, []⟩ = some r' ∧
        r'.shell.files 4 = some (.writeEnd 0) := by
      rw [Multi.Programs.runCommand, takeDue_initial]
      exact ⟨_, rfl, rfl⟩
    obtain ⟨r', hrun, hfour⟩ := hround
    exact hclosed _ _ _ _ _ r' hrun initial_noWriter (.inl rfl) 4 hfour

end NetworkProgramming.ParserResult
