import NetworkProgramming.Npshell.Exec

/-! The descriptors of the pipes in `pipeStack`: what `getPipe`, `makeNewPipe` and
`cleanPipes` leave open. -/
namespace NetworkProgramming.Npshell
open Library.CString Library.Descriptors

def Owned (files : Table) (pipe : Pipe) : Prop :=
  files pipe.fds.1 = some (.readEnd pipe.id) ∧ files pipe.fds.2 = some (.writeEnd pipe.id)

/-- One of the numbers that the next `cleanPipes` closes. -/
def Evicts (recycle : List Pipe) (fd : Int) : Prop :=
  ∃ pipe ∈ recycle.take (recycle.length - 10), fd = pipe.fds.1 ∨ fd = pipe.fds.2

instance (recycle : List Pipe) (fd : Int) : Decidable (Evicts recycle fd) := by
  unfold Evicts
  infer_instance

def Standard (fd : Int) : Prop := fd = 0 ∨ fd = 1 ∨ fd = 2

structure Tidy (s : Shell) : Prop where
  standard : ∀ fd, Standard fd → s.files fd = some .terminal
  owned : ∀ pipe, some pipe ∈ s.pipeStack → Owned s.files pipe
  recycled : ∀ pipe ∈ s.recycle, ¬ Standard pipe.fds.1 ∧ ¬ Standard pipe.fds.2

/-- The next `cleanPipes` hits no pipe that waits. -/
def Spared (s : Shell) : Prop :=
  ∀ pipe, some pipe ∈ s.pipeStack → ¬ Evicts s.recycle pipe.fds.1 ∧ ¬ Evicts s.recycle pipe.fds.2

instance (s : Shell) : Decidable (Spared s) :=
  decidable_of_iff (∀ o ∈ s.pipeStack, ∀ pipe ∈ o,
      ¬ Evicts s.recycle pipe.fds.1 ∧ ¬ Evicts s.recycle pipe.fds.2)
    ⟨fun h pipe hpipe => h _ hpipe pipe rfl, fun h _ ho pipe hpipe => h pipe (hpipe ▸ ho)⟩

variable {s s' : Shell} {pipe : Pipe} {files : Table} {fd : Int} {calls : Calls}

theorem Tidy.initial : Tidy Shell.initial := by
  constructor
  · intro fd hfd
    exact if_pos hfd
  · intro pipe hpipe
    simp [Shell.initial] at hpipe
  · intro pipe hpipe
    simp [Shell.initial] at hpipe

theorem not_standard (hstandard : ∀ fd, Standard fd → files fd = some .terminal) {file : File}
    (h : files fd = some file) (hfile : file ≠ .terminal) : ¬ Standard fd := by
  intro hfd
  rw [hstandard fd hfd, Option.some.injEq] at h
  exact hfile h.symm

theorem Owned.not_standard (hstandard : ∀ fd, Standard fd → files fd = some .terminal)
    (h : Owned files pipe) : ¬ Standard pipe.fds.1 ∧ ¬ Standard pipe.fds.2 :=
  ⟨Npshell.not_standard hstandard h.1 (by simp), Npshell.not_standard hstandard h.2 (by simp)⟩

theorem excess_cons {pipe : Pipe} {rest : List Pipe} (h : (pipe :: rest).length > 10) :
    (pipe :: rest).length - 10 = rest.length - 10 + 1 := by
  rw [List.length_cons] at h ⊢
  omega

theorem closeOldest_recycle (files : Table) (recycle : List Pipe) :
    (closeOldest files recycle).2 = recycle.drop (recycle.length - 10) := by
  induction recycle generalizing files with
  | nil => rfl
  | cons pipe rest ih =>
    rw [closeOldest]
    split
    next hlong =>
      rw [ih, excess_cons hlong, List.drop_succ_cons]
    next hshort =>
      have hzero : (pipe :: rest).length - 10 = 0 := by omega
      rw [hzero, List.drop_zero]

theorem closeOldest_kept (files : Table) (recycle : List Pipe) (h : ¬ Evicts recycle fd) :
    (closeOldest files recycle).1 fd = files fd := by
  induction recycle generalizing files with
  | nil => rfl
  | cons pipe rest ih =>
    rw [closeOldest]
    split
    next hlong =>
      rw [Evicts, excess_cons hlong, List.take_succ_cons] at h
      have hrest : ¬ Evicts rest fd := by
        rintro ⟨other, hother, hfd⟩
        exact h ⟨other, List.mem_cons_of_mem _ hother, hfd⟩
      have hread : fd ≠ pipe.fds.1 := fun heq => h ⟨pipe, List.mem_cons_self .., .inl heq⟩
      have hwrite : fd ≠ pipe.fds.2 := fun heq => h ⟨pipe, List.mem_cons_self .., .inr heq⟩
      rw [ih _ hrest, close_of_ne hwrite, close_of_ne hread]
    next => rfl

theorem evicts_of_short {recycle : List Pipe} (h : recycle.length ≤ 10) : ¬ Evicts recycle fd := by
  rintro ⟨pipe, hpipe, -⟩
  have hzero : recycle.length - 10 = 0 := by omega
  rw [hzero, List.take_zero] at hpipe
  simp at hpipe

theorem cleanPipes_kept (h : ¬ Evicts s.recycle fd) : (cleanPipes s).files fd = s.files fd :=
  closeOldest_kept _ _ h

theorem cleanPipes_short (s : Shell) : (cleanPipes s).recycle.length ≤ 10 := by
  have hrecycle : (cleanPipes s).recycle = s.recycle.drop (s.recycle.length - 10) :=
    closeOldest_recycle _ _
  rw [hrecycle, List.length_drop]
  omega

theorem cleanPipes_recycle (h : pipe ∈ (cleanPipes s).recycle) : pipe ∈ s.recycle := by
  have hrecycle : (cleanPipes s).recycle = s.recycle.drop (s.recycle.length - 10) :=
    closeOldest_recycle _ _
  rw [hrecycle] at h
  exact List.mem_of_mem_drop h

theorem Owned.cleanPipes (h : Owned s.files pipe)
    (hspared : ¬ Evicts s.recycle pipe.fds.1 ∧ ¬ Evicts s.recycle pipe.fds.2) :
    Owned (cleanPipes s).files pipe := by
  rw [Owned, cleanPipes_kept hspared.1, cleanPipes_kept hspared.2]
  exact h

theorem Tidy.evicts_standard (h : Tidy s) (hfd : Standard fd) : ¬ Evicts s.recycle fd := by
  rintro ⟨pipe, hpipe, heq⟩
  obtain ⟨hread, hwrite⟩ := h.recycled pipe (List.mem_of_mem_take hpipe)
  rcases heq with rfl | rfl
  · exact hread hfd
  · exact hwrite hfd

theorem Tidy.cleanPipes (h : Tidy s) (hspared : Spared s) : Tidy (cleanPipes s) := by
  constructor
  · intro fd hfd
    rw [cleanPipes_kept (h.evicts_standard hfd)]
    exact h.standard fd hfd
  · intro pipe hpipe
    exact (h.owned pipe hpipe).cleanPipes (hspared pipe hpipe)
  · intro pipe hpipe
    exact h.recycled pipe (cleanPipes_recycle hpipe)

/-- The numbers that `makeNewPipe` must not meet: those it closes first, and those
that `cleanPipes` closes behind it. -/
structure CleanCalls (s : Shell) (input : Option Pipe) (calls : Calls) : Prop where
  input : calls.pipeFails = true → ∀ pipe, input = some pipe → ¬ Evicts s.recycle pipe.fds.1
  new : calls.pipeFails = false →
    ¬ Evicts s.recycle calls.pipeFd.1 ∧ ¬ Evicts s.recycle calls.pipeFd.2

instance (s : Shell) (input : Option Pipe) (calls : Calls) : Decidable (CleanCalls s input calls) :=
  decidable_of_iff ((calls.pipeFails = true → ∀ pipe ∈ input, ¬ Evicts s.recycle pipe.fds.1) ∧
      (calls.pipeFails = false →
        ¬ Evicts s.recycle calls.pipeFd.1 ∧ ¬ Evicts s.recycle calls.pipeFd.2))
    ⟨fun h => ⟨h.1, h.2⟩, fun h => ⟨h.input, h.new⟩⟩

structure Made (s s' : Shell) (input : Option Pipe) (pipe : Pipe) : Prop where
  id : pipe.id = s.made
  made : s'.made = s.made + 1
  stack : s'.pipeStack = s.pipeStack
  buf : s'.buf = s.buf
  owned : Owned s'.files pipe
  tidy : Tidy s'
  input : ∀ p, input = some p → s.files p.fds.1 = some (.readEnd p.id) →
    s'.files p.fds.1 = some (.readEnd p.id)
  spared : Spared s' ∧ ¬ Evicts s'.recycle pipe.fds.1 ∧ ¬ Evicts s'.recycle pipe.fds.2

theorem Owned.openPipe {fds : Int × Int} {id : Nat} (h : Owned files pipe)
    (hunused : Unused files fds) : Owned (openPipe files fds id) pipe :=
  ⟨openPipe_old hunused h.1, openPipe_old hunused h.2⟩

theorem makeNewPipe_made {input : Option Pipe} (htidy : Tidy s) (hspared : Spared s)
    (hcalls : CleanCalls s input calls) (h : makeNewPipe s calls = some (s', pipe)) :
    Made s s' input pipe := by
  -- the state in which `pipe` succeeds
  obtain ⟨start, hstart, htidy', hspared', hmade, hstack, hbuf, hinput, hnew⟩ : ∃ start,
      (if calls.pipeFails then cleanPipes s else s) = start ∧ Tidy start ∧ Spared start ∧
        start.made = s.made ∧ start.pipeStack = s.pipeStack ∧ start.buf = s.buf ∧
        (∀ p, input = some p → start.files p.fds.1 = s.files p.fds.1) ∧
        ¬ Evicts start.recycle calls.pipeFd.1 ∧ ¬ Evicts start.recycle calls.pipeFd.2 := by
    cases hfails : calls.pipeFails with
    | true =>
      have hshort := cleanPipes_short s
      refine ⟨cleanPipes s, rfl, htidy.cleanPipes hspared, ?_, rfl, rfl, rfl, ?_, ?_⟩
      · intro p _
        exact ⟨evicts_of_short hshort, evicts_of_short hshort⟩
      · intro p hp
        exact cleanPipes_kept (hcalls.input hfails p hp)
      · exact ⟨evicts_of_short hshort, evicts_of_short hshort⟩
    | false => exact ⟨s, rfl, htidy, hspared, rfl, rfl, rfl, fun _ _ => rfl, hcalls.new hfails⟩
  unfold makeNewPipe at h
  rw [hstart] at h
  dsimp only at h
  split at h
  next hunused =>
    simp only [Option.some.injEq, Prod.mk.injEq] at h
    obtain ⟨rfl, rfl⟩ := h
    constructor
    · exact hmade
    · exact congrArg (· + 1) hmade
    · exact hstack
    · exact hbuf
    · exact ⟨openPipe_read hunused, openPipe_write⟩
    · constructor
      · intro fd hfd
        exact openPipe_old hunused (htidy'.standard fd hfd)
      · intro p hp
        exact (htidy'.owned p hp).openPipe hunused
      · exact htidy'.recycled
    · intro p hp hread
      apply openPipe_old hunused
      rw [hinput p hp, hread]
    · exact ⟨hspared', hnew⟩
  next => contradiction

end NetworkProgramming.Npshell
