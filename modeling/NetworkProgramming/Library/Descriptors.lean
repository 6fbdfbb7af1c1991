import Mathlib.Data.Finset.Basic
import Mathlib.Data.List.Induction
import Mathlib.Logic.Function.Basic

/-! The descriptor table of a process, and what `pipe`, `dup2` and `close` make
of it. Pipes are told apart by the order in which they were made. -/
namespace NetworkProgramming.Library.Descriptors

inductive File where
  | terminal
  | socket
  | created (name : List Char)
  | readEnd (pipe : Nat)
  | writeEnd (pipe : Nat)
  deriving DecidableEq, Repr

/-- The file behind each descriptor that is open. -/
abbrev Table := Int → Option File

def close (t : Table) (fd : Int) : Table := Function.update t fd none

/-- `dup2(old, new)`; a closed `old` changes nothing. -/
def dup2 (t : Table) (old new : Int) : Table :=
  match t old with
  | none => t
  | some file => Function.update t new (some file)

def openPipe (t : Table) (fds : Int × Int) (pipe : Nat) : Table :=
  Function.update (Function.update t fds.1 (some (.readEnd pipe))) fds.2 (some (.writeEnd pipe))

/-- What `pipe` can return: two numbers that are not in use. -/
def Unused (t : Table) (fds : Int × Int) : Prop :=
  0 ≤ fds.1 ∧ 0 ≤ fds.2 ∧ fds.1 ≠ fds.2 ∧ t fds.1 = none ∧ t fds.2 = none

instance (t : Table) (fds : Int × Int) : Decidable (Unused t fds) := by
  unfold Unused
  infer_instance

variable {t : Table} {fd other old new : Int} {fds : Int × Int} {pipe : Nat} {file : File}

@[simp] theorem close_self : close t fd fd = none := Function.update_self _ _ _

theorem close_of_ne (h : other ≠ fd) : close t fd other = t other := Function.update_of_ne h _ _

theorem close_eq_some (h : t other = some file) (hfd : t fd ≠ some file) :
    close t fd other = some file := by
  have hne : other ≠ fd := by
    rintro rfl
    exact hfd h
  rw [close_of_ne hne, h]

theorem dup2_target (h : t old = some file) : dup2 t old new new = some file := by
  rw [dup2, h]
  exact Function.update_self _ _ _

theorem dup2_of_ne (h : other ≠ new) : dup2 t old new other = t other := by
  cases hold : t old with
  | none => rw [dup2, hold]
  | some file =>
    rw [dup2, hold]
    exact Function.update_of_ne h _ _

theorem openPipe_read (h : Unused t fds) : openPipe t fds pipe fds.1 = some (.readEnd pipe) := by
  rw [openPipe, Function.update_of_ne h.2.2.1, Function.update_self]

theorem openPipe_write : openPipe t fds pipe fds.2 = some (.writeEnd pipe) :=
  Function.update_self _ _ _

theorem openPipe_old (h : Unused t fds) (hfd : t fd = some file) :
    openPipe t fds pipe fd = some file := by
  have hread : fd ≠ fds.1 := by
    rintro rfl
    rw [h.2.2.2.1] at hfd
    contradiction
  have hwrite : fd ≠ fds.2 := by
    rintro rfl
    rw [h.2.2.2.2] at hfd
    contradiction
  rw [openPipe, Function.update_of_ne hwrite, Function.update_of_ne hread, hfd]

theorem Unused.close (h : Unused t fds) : Unused (close t fd) fds := by
  refine ⟨h.1, h.2.1, h.2.2.1, ?_, ?_⟩
  · unfold Descriptors.close
    rw [Function.update_apply, h.2.2.2.1, ite_self]
  · unfold Descriptors.close
    rw [Function.update_apply, h.2.2.2.2, ite_self]

theorem close_openPipe (h : Unused t fds) (hfd : t fd ≠ none) :
    close (openPipe t fds pipe) fd = openPipe (close t fd) fds pipe := by
  have hread : fds.1 ≠ fd := by
    rintro rfl
    exact hfd h.2.2.2.1
  have hwrite : fds.2 ≠ fd := by
    rintro rfl
    exact hfd h.2.2.2.2
  unfold openPipe close
  rw [Function.update_comm hwrite, Function.update_comm hread]

theorem close_openPipe_write (h : Unused t fds) :
    close (openPipe t fds pipe) fds.2 = Function.update t fds.1 (some (.readEnd pipe)) := by
  have hwrite : Function.update t fds.1 (some (.readEnd pipe)) fds.2 = none := by
    rw [Function.update_of_ne h.2.2.1.symm, h.2.2.2.2]
  unfold openPipe close
  rw [Function.update_idem, ← hwrite, Function.update_eq_self]

/-- A row of calls of `dup2`, each an old and a new descriptor. -/
abbrev Dups := List (Int × Int)

def dupAll (t : Table) (dups : Dups) : Table := dups.foldl (fun t d => dup2 t d.1 d.2) t

def source (dups : Dups) (new : Int) : Int :=
  dups.foldl (fun fd d => if d.2 = new then d.1 else fd) new

variable {dups more : Dups}

theorem dupAll_append : dupAll t (dups ++ more) = dupAll (dupAll t dups) more := List.foldl_append

theorem source_concat (d : Int × Int) :
    source (dups ++ [d]) new = if d.2 = new then d.1 else source dups new := by
  rw [source, List.foldl_append]
  rfl

def Kept (dups : Dups) (fd : Int) : Prop := ∀ d ∈ dups, d.2 = fd → d.1 = fd

theorem source_kept (h : Kept dups fd) : source dups fd = fd := by
  induction dups using List.reverseRecOn with
  | nil => rfl
  | append_singleton dups d ih =>
    rw [source_concat]
    split
    next hd => exact h d (by simp) hd
    next => exact ih fun e he => h e (List.mem_append_left _ he)

theorem dupAll_source (h : ∀ d ∈ dups, t d.1 ≠ none ∧ Kept dups d.1) (new : Int) :
    dupAll t dups new = t (source dups new) := by
  induction dups using List.reverseRecOn generalizing new with
  | nil => rfl
  | append_singleton dups d ih =>
    have hbefore : ∀ e ∈ dups, t e.1 ≠ none ∧ Kept dups e.1 := by
      intro e he
      obtain ⟨hopen, hkept⟩ := h e (List.mem_append_left _ he)
      exact ⟨hopen, fun f hf => hkept f (List.mem_append_left _ hf)⟩
    obtain ⟨hopen, hkept⟩ := h d (by simp)
    have hold : dupAll t dups d.1 = t d.1 := by
      rw [ih hbefore, source_kept fun e he => hkept e (List.mem_append_left _ he)]
    obtain ⟨file, hfile⟩ := Option.ne_none_iff_exists'.mp hopen
    rw [dupAll_append, source_concat]
    change dup2 (dupAll t dups) d.1 d.2 new = _
    split
    next hnew =>
      rw [← hnew, hfile]
      exact dup2_target (hold.trans hfile)
    next hnew => rw [dup2_of_ne (Ne.symm hnew), ih hbefore]

def Spares (s : Nat → Prop) (t t' : Table) : Prop :=
  ∀ fd file, t fd = some file → (∀ p, file = .readEnd p ∨ file = .writeEnd p → ¬ s p) →
    t' fd = some file

variable {s : Nat → Prop} {t' t'' : Table}

theorem Spares.refl (s : Nat → Prop) (t : Table) : Spares s t t := fun _ _ h _ => h

theorem Spares.trans (h : Spares s t t') (h' : Spares s t' t'') : Spares s t t'' :=
  fun fd file hfile hp => h' fd file (h fd file hfile hp) hp

theorem Spares.openPipe (h : Unused t fds) : Spares s t (openPipe t fds pipe) :=
  fun _ _ hfile _ => openPipe_old h hfile

theorem Spares.close (h : t fd = some file) (hfile : file = .readEnd pipe ∨ file = .writeEnd pipe)
    (hpipe : s pipe) : Spares s t (close t fd) := by
  intro other file' hother hp
  apply close_eq_some hother
  rw [h]
  intro heq
  rw [Option.some.injEq] at heq
  subst heq
  exact hp pipe hfile hpipe

theorem Spares.terminal (h : Spares s t t') (hfd : t fd = some .terminal) :
    t' fd = some .terminal := by
  apply h fd _ hfd
  intro p hp
  simp at hp

theorem Spares.socket (h : Spares s t t') (hfd : t fd = some .socket) : t' fd = some .socket := by
  apply h fd _ hfd
  intro p hp
  simp at hp

theorem Spares.readEnd (h : Spares s t t') (hfd : t fd = some (.readEnd pipe)) (hp : ¬ s pipe) :
    t' fd = some (.readEnd pipe) := by
  apply h fd _ hfd
  intro p heq
  obtain rfl : pipe = p := by simpa using heq
  exact hp

theorem Spares.writeEnd (h : Spares s t t') (hfd : t fd = some (.writeEnd pipe)) (hp : ¬ s pipe) :
    t' fd = some (.writeEnd pipe) := by
  apply h fd _ hfd
  intro p heq
  obtain rfl : pipe = p := by simpa using heq
  exact hp

/-- From some number on, no descriptor is in use. -/
def Bounded (t : Table) : Prop := ∃ limit : Int, ∀ fd, limit ≤ fd → t fd = none

theorem Bounded.close (h : Bounded t) (fd : Int) : Bounded (close t fd) := by
  obtain ⟨limit, hlimit⟩ := h
  refine ⟨limit, fun other hother => ?_⟩
  by_cases heq : other = fd
  · rw [heq, close_self]
  · rw [close_of_ne heq, hlimit other hother]

theorem Bounded.openPipe (h : Bounded t) (fds : Int × Int) (pipe : Nat) :
    Bounded (openPipe t fds pipe) := by
  obtain ⟨limit, hlimit⟩ := h
  refine ⟨max limit (max fds.1 fds.2 + 1), fun fd hfd => ?_⟩
  have hread : fd ≠ fds.1 := by omega
  have hwrite : fd ≠ fds.2 := by omega
  unfold Descriptors.openPipe
  rw [Function.update_of_ne hwrite, Function.update_of_ne hread, hlimit fd (by omega)]

theorem Bounded.unused (h : Bounded t) : ∃ fds, Unused t fds := by
  obtain ⟨limit, hlimit⟩ := h
  refine ⟨(max limit 0, max limit 0 + 1), ?_, ?_, ?_, hlimit _ ?_, hlimit _ ?_⟩
  all_goals
    dsimp only
    omega

def Uncreated (t : Table) : Prop := ∀ fd name, t fd ≠ some (.created name)

theorem Uncreated.close (h : Uncreated t) (fd : Int) : Uncreated (close t fd) := by
  intro other name
  by_cases heq : other = fd
  · rw [heq, close_self]
    simp
  · rw [close_of_ne heq]
    exact h other name

theorem Uncreated.openPipe (h : Uncreated t) (fds : Int × Int) (pipe : Nat) :
    Uncreated (openPipe t fds pipe) := by
  intro fd name
  unfold Descriptors.openPipe
  rw [Function.update_apply, Function.update_apply]
  split_ifs
  · simp
  · simp
  · exact h fd name

theorem Uncreated.dup2 (h : Uncreated t) (old new : Int) : Uncreated (dup2 t old new) := by
  intro fd name
  by_cases heq : fd = new
  · subst heq
    unfold Descriptors.dup2
    cases hfile : t old with
    | none => exact h fd name
    | some file =>
      dsimp only
      rw [Function.update_self, ← hfile]
      exact h old name
  · rw [dup2_of_ne heq]
    exact h fd name

end NetworkProgramming.Library.Descriptors
