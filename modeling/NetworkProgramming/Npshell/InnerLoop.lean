import NetworkProgramming.Npshell.Ownership
import NetworkProgramming.Npshell.Padding

/-! One round of `main`'s inner loop: what `executeCMD` comes to, whatever the pipes
are. -/
namespace NetworkProgramming.Npshell
open Library.CString Library.Descriptors Library.Run

variable {text : Text}

def stored (s : Shell) (text : Text) : Shell :=
  { s with
    instruction := (readCommand text).instruction.getD s.instruction
    buf := (readCommand text).buf.getD s.buf }

def builtinOutcome (instruction : Text) : Outcome :=
  let (op, arg) := scanOperation instruction
  if op = "setenv".toList then
    let (var, value) := scanSetting arg
    .setenv var value
  else if op = "printenv".toList then .printenv arg
  else .exit

/-- What one call of `executeCMD` comes to: the shell behind it, and the outcome. -/
inductive Turn (s : Shell) (text : Text) (calls : Calls) : Shell → Outcome → Prop
  | nothing (hn : (readCommand text).n = -1) : Turn s text calls (stored s text) .nothing
  | misread (hn : (readCommand text).n = 0 ∨ (readCommand text).n = 2) :
      Turn s text calls (stored s text) .error
  | builtin (o : Outcome) (hn : (readCommand text).n = 1)
      (hop : IsBuiltin (scanOperation (stored s text).instruction).1)
      (ho : o.child = none) (herror : o ≠ .error)
      (hnotice : o = builtinOutcome (stored s text).instruction) : Turn s text calls (stored s text) o
  | last (c : Child) (hn : (readCommand text).n = 1)
      (hop : ¬ IsBuiltin (scanOperation (stored s text).instruction).1)
      (hc : c.argv = argv (stored s text).instruction)
      (hout : c.stdout = inputFiles (getPipe (stored s text)).1.files (getPipe (stored s text)).2 1) :
      Turn s text calls (getPipe (stored s text)).1 (.ran c)
  | numbered (s' : Shell) (pipe : Pipe) (c : Child) (o : Outcome) (hn : (readCommand text).n = 3)
      (hnumber : (readCommand text).numPipe ≠ 0)
      (hpipe : numberedPipe (getPipe (stored s text)).1 (readCommand text).numPipe calls =
        some (s', pipe)) (hc : c.argv = argv (stored s text).instruction)
      (ho : o = if calls.forks then .ran c else .unforked)
      (hout : ∃ errors, c.stdout =
        outputFiles (inputFiles s'.files (getPipe (stored s text)).2) pipe errors 1) :
      Turn s text calls s' o
  | ordinary (s' : Shell) (pipe : Pipe) (c : Child) (hn : (readCommand text).n = 3)
      (hnumber : (readCommand text).numPipe = 0)
      (hsymbol : (readCommand text).symbolMeth.head? = some '|')
      (hpipe : ordinaryPipe (getPipe (stored s text)).1 calls = some (s', pipe))
      (hc : c.argv = argv (stored s text).instruction)
      (hout : ∃ errors, c.stdout =
        outputFiles (inputFiles s'.files (getPipe (stored s text)).2) pipe errors 1) :
      Turn s text calls s' (.ran c)
  | redirected (c : Child) (o : Outcome) (hn : (readCommand text).n = 3)
      (hnumber : (readCommand text).numPipe = 0)
      (hsymbol : (readCommand text).symbolMeth.head? = some '>')
      (hc : c.argv = argv (stored s text).instruction)
      (hfile : c.stdout = some (.created (stored s text).buf))
      (ho : o = if calls.opens then .ran c else .returned) :
      Turn s text calls { (getPipe (stored s text)).1 with buf := [] } o
  | refused (hn : (readCommand text).n = 3) (hmark : Unmarked (readCommand text)) :
      Turn s text calls (getPipe (stored s text)).1 .error

variable {s s' : Shell} {calls : Calls} {o : Outcome}

theorem executeCMD_symbol (h : executeCMD s text calls = some (s', o))
    (hn : (readCommand text).n = 3) : Turn s text calls s' o := by
  have hfile : ∀ files : Table, Function.update files 1 (some (File.created
      (getPipe (stored s text)).1.buf)) 1 = some (.created (stored s text).buf) := by
    intro files
    rw [Function.update_self, getPipe_buf]
  unfold executeCMD at h
  dsimp only at h
  rw [if_neg (by rw [hn]; decide), if_neg (by rw [hn]; decide), if_pos hn] at h
  split at h
  next hnumber =>
    simp only [Option.map_eq_some_iff, Prod.exists] at h
    obtain ⟨s'', pipe, hpipe, hs⟩ := h
    split at hs
    next hforks =>
      simp only [Prod.mk.injEq] at hs
      obtain ⟨rfl, rfl⟩ := hs
      exact .numbered s'' pipe _ _ hn hnumber hpipe rfl (if_pos hforks).symm ⟨_, rfl⟩
    next hforks =>
      simp only [Prod.mk.injEq] at hs
      obtain ⟨rfl, rfl⟩ := hs
      exact .numbered s'' pipe ⟨_, none, _, none⟩ _ hn hnumber hpipe rfl (if_neg hforks).symm
        ⟨false, rfl⟩
  next hnumber =>
    rw [not_not] at hnumber
    split at h
    next hbar =>
      simp only [Option.map_eq_some_iff, Prod.exists, Prod.mk.injEq] at h
      obtain ⟨s'', pipe, hpipe, rfl, rfl⟩ := h
      exact .ordinary s'' pipe _ hn hnumber hbar hpipe rfl ⟨false, rfl⟩
    next hbar =>
      split at h
      next hgreater =>
        split at h
        next hopens =>
          simp only [Option.some.injEq, Prod.mk.injEq] at h
          obtain ⟨rfl, rfl⟩ := h
          exact .redirected _ _ hn hnumber hgreater rfl
            (hfile (inputFiles (getPipe (stored s text)).1.files (getPipe (stored s text)).2))
            (if_pos hopens).symm
        next hopens =>
          simp only [Option.some.injEq, Prod.mk.injEq] at h
          obtain ⟨rfl, rfl⟩ := h
          exact .redirected ⟨_, none, some (.created (stored s text).buf), none⟩ _ hn hnumber hgreater
            rfl rfl (if_neg hopens).symm
      next hgreater =>
        simp only [Option.some.injEq, Prod.mk.injEq] at h
        obtain ⟨rfl, rfl⟩ := h
        exact .refused hn ⟨hnumber, hbar, hgreater⟩

theorem executeCMD_turn (h : executeCMD s text calls = some (s', o)) : Turn s text calls s' o := by
  by_cases hthree : (readCommand text).n = 3
  · exact executeCMD_symbol h hthree
  have hscanned := readCommand_scanned text
  unfold executeCMD at h
  dsimp only at h
  rw [if_neg hthree] at h
  split at h
  next hn =>
    simp only [Option.some.injEq, Prod.mk.injEq] at h
    obtain ⟨rfl, rfl⟩ := h
    exact .nothing hn
  next hn =>
    split at h
    next hone =>
      split at h
      next hop =>
        simp only [Option.some.injEq, Prod.mk.injEq] at h
        obtain ⟨rfl, rfl⟩ := h
        exact .builtin _ hone (.inl hop) rfl (by simp) (if_pos hop).symm
      next hsetenv =>
        split at h
        next hop =>
          simp only [Option.some.injEq, Prod.mk.injEq] at h
          obtain ⟨rfl, rfl⟩ := h
          exact .builtin _ hone (.inr (.inl hop)) rfl (by simp)
            ((if_neg hsetenv).trans (if_pos hop)).symm
        next hprintenv =>
          split at h
          next hop =>
            simp only [Option.some.injEq, Prod.mk.injEq] at h
            obtain ⟨rfl, rfl⟩ := h
            exact .builtin _ hone (.inr (.inr hop)) rfl (by simp)
              ((if_neg hsetenv).trans (if_neg hprintenv)).symm
          next hexit =>
            simp only [Option.some.injEq, Prod.mk.injEq] at h
            obtain ⟨rfl, rfl⟩ := h
            refine .last _ hone ?_ rfl rfl
            rintro (hop | hop | hop)
            · exact hsetenv hop
            · exact hprintenv hop
            · exact hexit hop
    next hone =>
      simp only [Option.some.injEq, Prod.mk.injEq] at h
      obtain ⟨rfl, rfl⟩ := h
      apply Turn.misread
      generalize readCommand text = r at hscanned hthree hn hone
      cases hscanned with
      | nothing => exact absurd rfl hn
      | unread => exact .inl rfl
      | alone => exact absurd rfl hone
      | bare => exact .inr rfl
      | number => exact absurd rfl hthree
      | ordinary => exact absurd rfl hthree

/-- A `|` without a number hands its command over, with a pipe behind it. -/
theorem executeCMD_ordinary (h : executeCMD s text calls = some (s', o))
    (hn : (readCommand text).n = 3) (hnumber : (readCommand text).numPipe = 0)
    (hsymbol : (readCommand text).symbolMeth.head? = some '|') :
    ∃ pipe c errors, o = .ran c ∧ c.argv = argv (stored s text).instruction ∧
      c.stdout = outputFiles (inputFiles s'.files (getPipe (stored s text)).2) pipe errors 1 := by
  cases executeCMD_turn h with
  | ordinary s' pipe c hn hnumber hsymbol hpipe hc hout =>
    obtain ⟨errors, hout⟩ := hout
    exact ⟨pipe, c, errors, rfl, hc, hout⟩
  | numbered s' pipe c o hn hne => exact absurd hnumber hne
  | redirected c o hn hnumber hgreater =>
    rw [hsymbol] at hgreater
    contradiction
  | refused hn hmark => exact absurd hsymbol hmark.2.1
  | _ => omega

theorem executeCMD_error_iff (h : executeCMD s text calls = some (s', o)) :
    o = .error ↔ Refuses text := by
  unfold Refuses
  cases executeCMD_turn h with
  | nothing hn => simp [hn]
  | misread hn =>
    refine iff_of_true rfl ?_
    exact hn.imp_right .inl
  | builtin o hn hop ho herror => simp [hn, herror]
  | last c hn => simp [hn]
  | numbered s' pipe c o hn hnumber hpipe hc ho =>
    rw [ho, hn]
    simp only [Unmarked, hnumber]
    split <;> simp
  | ordinary s' pipe c hn hnumber hsymbol => simp [hn, Unmarked, hsymbol]
  | redirected c o hn hnumber hsymbol hc hfile ho =>
    rw [ho, hn]
    simp only [Unmarked, hsymbol]
    split <;> simp
  | refused hn hmark => simp [hn, hmark]

/-- Where a new pipe is needed, `pipe` gives numbers that are not in use. -/
def Answered (s : Shell) (text : Text) (calls : Calls) : Prop :=
  Makes s text → Unused (beforePipe (getPipe s).1 calls).files calls.pipeFd

theorem makeNewPipe_returns (h : Unused (beforePipe s calls).files calls.pipeFd) :
    ∃ made, makeNewPipe s calls = some made := by
  unfold beforePipe at h
  unfold makeNewPipe
  dsimp only
  rw [if_pos h]
  exact ⟨_, rfl⟩

theorem numberedPipe_returns {n : Int} (hpos : 0 < n) (hlt : n < 2 ^ 31)
    (h : (padStack s.pipeStack n).bind (·[toSize (n - 1)]?) = some none →
      Unused (beforePipe s calls).files calls.pipeFd) :
    ∃ made, numberedPipe s n calls = some made := by
  obtain ⟨m, rfl⟩ : ∃ m : Nat, n = m := ⟨n.toNat, by omega⟩
  have hpadded : padStack s.pipeStack m =
      some (s.pipeStack ++ List.replicate (m - s.pipeStack.length) none) := padStack_eq m (by omega)
  have hindex : toSize ((m : Int) - 1) = ((m : Int) - 1).toNat :=
    toSize_of_nonneg (by omega) (by omega)
  generalize hstack : s.pipeStack ++ List.replicate (m - s.pipeStack.length) none = padded at hpadded
  have hinside : toSize ((m : Int) - 1) < padded.length := by
    rw [← hstack, List.length_append, List.length_replicate]
    omega
  have hplace := List.getElem?_eq_getElem hinside
  rw [hpadded, Option.bind_some, hplace] at h
  simp only [numberedPipe, hpadded, Option.bind_eq_bind, Option.bind_some, hplace]
  split
  next => exact ⟨_, rfl⟩
  next hnone =>
    rw [hnone] at h
    have hunused : Unused (beforePipe { s with pipeStack := padded } calls).files calls.pipeFd := by
      rw [beforePipe_files]
      rw [beforePipe_files] at h
      exact h rfl
    obtain ⟨made, hmade⟩ := makeNewPipe_returns hunused
    rw [hmade]
    exact ⟨_, rfl⟩

theorem numberedPipe_negative {n : Int} (hneg : n < 0) (hlow : -2 ^ 31 ≤ n) :
    numberedPipe s n calls = none := by
  have hsize := maxSize_lt_toSize hneg hlow
  simp only [numberedPipe, padStack, if_neg (Nat.not_le.mpr hsize), Option.bind_eq_bind,
    Option.bind_none]

theorem ordinaryPipe_returns
    (h : s.pipeStack.head?.join = none → Unused (beforePipe s calls).files calls.pipeFd) :
    ∃ made, ordinaryPipe s calls = some made := by
  unfold ordinaryPipe
  split
  next => exact ⟨_, rfl⟩
  next hstack =>
    have hnone : s.pipeStack.head?.join = none := by
      cases hpipes : s.pipeStack with
      | nil => rfl
      | cons front rest =>
        cases front with
        | none => rfl
        | some pipe => exact absurd hpipes (hstack pipe rest)
    obtain ⟨made, hmade⟩ := makeNewPipe_returns (h hnone)
    rw [hmade]
    exact ⟨_, rfl⟩

theorem executeCMD_returns (h : Answered s text calls) :
    (∃ result, executeCMD s text calls = some result) ↔ 0 ≤ (readCommand text).numPipe := by
  have hrange := numPipe_range text
  unfold Answered Makes at h
  dsimp only at h
  unfold executeCMD
  dsimp only
  rw [getPipe_reading]
  generalize (readCommand text).instruction.getD s.instruction = instruction
  generalize (readCommand text).buf.getD s.buf = buf
  have hbefore : Unused (beforePipe (getPipe s).1 calls).files calls.pipeFd →
      Unused (beforePipe { (getPipe s).1 with instruction, buf } calls).files calls.pipeFd := by
    rw [beforePipe_files, beforePipe_files]
    exact id
  by_cases hthree : (readCommand text).n = 3
  · rw [if_neg (by rw [hthree]; decide), if_neg (by rw [hthree]; decide), if_pos hthree]
    rw [hthree] at h
    simp only [true_and] at h
    split
    next hnumber =>
      rw [if_pos hnumber] at h
      constructor
      · rintro ⟨result, hresult⟩
        by_contra hneg
        rw [numberedPipe_negative (by omega) hrange.1] at hresult
        contradiction
      · intro hpos
        obtain ⟨made, hmade⟩ := numberedPipe_returns
          (s := { (getPipe s).1 with instruction, buf }) (n := (readCommand text).numPipe)
          (by omega) hrange.2 (fun hnull => hbefore (h hnull))
        rw [hmade]
        exact ⟨_, rfl⟩
    next hnumber =>
      rw [if_neg hnumber] at h
      refine iff_of_true ?_ (by omega)
      split
      next hbar =>
        obtain ⟨made, hmade⟩ := ordinaryPipe_returns
          (s := { (getPipe s).1 with instruction, buf }) (fun hnull => hbefore (h ⟨hbar, hnull⟩))
        rw [hmade]
        exact ⟨_, rfl⟩
      next =>
        split
        next => split <;> exact ⟨_, rfl⟩
        next => exact ⟨_, rfl⟩
  · have hzero := readCommand_zero hthree
    refine iff_of_true ?_ (by omega)
    rw [if_neg hthree]
    split
    next => exact ⟨_, rfl⟩
    next =>
      split
      next => split_ifs <;> exact ⟨_, rfl⟩
      next => exact ⟨_, rfl⟩

theorem executeCMD_negative (h : (readCommand text).numPipe < 0) :
    executeCMD s text calls = none := by
  have hthree : (readCommand text).n = 3 := by
    by_contra hother
    have hzero := readCommand_zero hother
    omega
  unfold executeCMD
  dsimp only
  rw [if_neg (by rw [hthree]; decide), if_neg (by rw [hthree]; decide), if_pos hthree,
    if_pos (by omega), numberedPipe_negative h (numPipe_range text).1]
  rfl

/-- What a round leaves in `_buf`, where nothing was before. -/
def leftOver (text : Text) : Text :=
  if (readCommand text).symbolMeth.head? = some '>' then [] else (readCommand text).buf.getD []

theorem makeNewPipe_buf {pipe : Pipe} (h : makeNewPipe s calls = some (s', pipe)) :
    s'.buf = s.buf := by
  have hbefore : (if calls.pipeFails then cleanPipes s else s).buf = s.buf := by
    split <;> rfl
  unfold makeNewPipe at h
  generalize (if calls.pipeFails then cleanPipes s else s) = before at h hbefore
  dsimp only at h
  split at h
  next =>
    simp only [Option.some.injEq, Prod.mk.injEq] at h
    rw [← h.1, ← hbefore]
  next => contradiction

theorem ordinaryPipe_buf {pipe : Pipe} (h : ordinaryPipe s calls = some (s', pipe)) :
    s'.buf = s.buf := by
  unfold ordinaryPipe at h
  split at h
  next =>
    simp only [Option.some.injEq, Prod.mk.injEq] at h
    rw [← h.1]
  next =>
    simp only [Option.map_eq_some_iff, Prod.exists, Prod.mk.injEq] at h
    obtain ⟨made, _, hmade, rfl, -⟩ := h
    have hbuf := makeNewPipe_buf hmade
    exact hbuf

theorem numberedPipe_buf {pipe : Pipe} {n : Int} (h : numberedPipe s n calls = some (s', pipe)) :
    s'.buf = s.buf := by
  unfold numberedPipe at h
  simp only [Option.bind_eq_bind, Option.bind_eq_some_iff] at h
  obtain ⟨padded, -, place, -, h⟩ := h
  cases place with
  | some found =>
    simp only [Option.some.injEq, Prod.mk.injEq] at h
    rw [← h.1]
  | none =>
    simp only [Option.bind_eq_some_iff, Option.some.injEq, Prod.mk.injEq, Prod.exists] at h
    obtain ⟨made, _, hmade, rfl, -⟩ := h
    have hbuf := makeNewPipe_buf hmade
    exact hbuf

/-- Only what follows a symbol without a number goes to `_buf`. -/
theorem readCommand_buf (h : (readCommand text).n ≠ 3 ∨ (readCommand text).numPipe ≠ 0) :
    (readCommand text).buf = none := by
  have hscanned := readCommand_scanned text
  generalize readCommand text = r at hscanned h
  cases hscanned with
  | ordinary => simp at h
  | _ => rfl

theorem executeCMD_leftOver (h : executeCMD s text calls = some (s', o)) (hbuf : s.buf = []) :
    s'.buf = leftOver text := by
  have hstored : (stored s text).buf = (readCommand text).buf.getD [] := by
    rw [← hbuf]
    rfl
  have hpopped : (getPipe (stored s text)).1.buf = (readCommand text).buf.getD [] := by
    rw [getPipe_buf, hstored]
  have hempty : (readCommand text).n ≠ 3 ∨ (readCommand text).numPipe ≠ 0 →
      (readCommand text).buf.getD [] = leftOver text := by
    intro hnone
    rw [leftOver, readCommand_buf hnone, Option.getD_none, ite_self]
  cases executeCMD_turn h with
  | nothing hn =>
    rw [hstored]
    exact hempty (.inl (by omega))
  | misread hn =>
    rw [hstored]
    exact hempty (.inl (by omega))
  | builtin o hn =>
    rw [hstored]
    exact hempty (.inl (by omega))
  | last c hn =>
    rw [hpopped]
    exact hempty (.inl (by omega))
  | numbered s' pipe c o hn hnumber hpipe =>
    rw [numberedPipe_buf hpipe, hpopped]
    exact hempty (.inr hnumber)
  | ordinary s' pipe c hn hnumber hsymbol hpipe =>
    rw [ordinaryPipe_buf hpipe, hpopped, leftOver, hsymbol, if_neg (by decide)]
  | redirected c o hn hnumber hsymbol => rw [leftOver, hsymbol, if_pos rfl]
  | refused hn hmark => rw [hpopped, leftOver, if_neg hmark.2.2]

theorem leftOver_length (hne : text ≠ []) : (leftOver text).length < text.length := by
  have hpos := List.length_pos_iff.mpr hne
  have hscanned := readCommand_scanned text
  unfold leftOver
  generalize readCommand text = r at hscanned
  cases hscanned with
  | ordinary command symbols rest body more hcommand hsymbols hbody hrest hn =>
    have hlength := congrArg List.length hrest
    have hdrop := (List.dropWhile_sublist isspace (l := rest)).length_le
    have hcommandPos := List.length_pos_iff.mpr hcommand.ne_nil
    rw [List.length_append] at hlength
    split
    next => simpa using hpos
    next =>
      simp only [Option.getD_some, List.length_append]
      omega
  | _ =>
    rw [Option.getD_none, ite_self]
    exact hpos

variable {st st' : Session}

theorem finish_outcomes (st : Session) : st.finish.outcomes = st.outcomes := by
  unfold Session.finish
  split <;> rfl

theorem next_round_leftOver (h : next st (.round calls) = some st') (hbuf : st.shell.buf = []) :
    ∃ s o, executeCMD st.shell st.input calls = some (s, o) ∧
      st'.shell = cleanPipes { s with buf := [] } ∧ st'.input = leftOver st.input ∧
      st'.outcomes = st.outcomes ++ [o] := by
  obtain ⟨s, o, hround, hne, rfl⟩ := next_round h
  refine ⟨s, o, hround, ?_⟩
  rw [executeCMD_leftOver hround hbuf]
  split
  next => exact ⟨(finish_shell _).1, (finish_shell _).2, finish_outcomes _⟩
  next => exact ⟨rfl, rfl, rfl⟩

theorem buf_next {e : Event} (h : next st e = some st') (hbuf : st.shell.buf = []) :
    st'.shell.buf = [] := by
  cases e with
  | line text =>
    obtain ⟨-, rfl⟩ := next_line h
    exact hbuf
  | round calls =>
    obtain ⟨s, o, -, hshell, -⟩ := next_round_leftOver h hbuf
    rw [hshell]
    rfl

theorem next_returns (hne : st.input ≠ []) (hround : executeCMD st.shell st.input calls = some (s, o))
    (hexit : o ≠ .exit) : ∃ st', Npshell.next st (.round calls) = some st' := by
  unfold Npshell.next
  dsimp only
  rw [if_neg hne, hround]
  cases o with
  | exit => contradiction
  | _ => exact ⟨_, rfl⟩

section Files
variable {P : Table → Prop} (hclose : ∀ files fd, P files → P (close files fd))
  (hopen : ∀ files fds pipe, P files → P (openPipe files fds pipe))

include hclose in
theorem closeOldest_files {files : Table} (h : P files) (recycle : List Pipe) :
    P (closeOldest files recycle).1 := by
  induction recycle generalizing files with
  | nil => exact h
  | cons pipe rest ih =>
    rw [closeOldest]
    split
    next => exact ih (hclose _ _ (hclose _ _ h))
    next => exact h

include hclose in
theorem getPipe_files (h : P s.files) : P (getPipe s).1.files := by
  unfold getPipe
  split
  next => exact h
  next => exact h
  next => exact hclose _ _ h

include hclose hopen

theorem executeCMD_files (h : P s.files) (hround : executeCMD s text calls = some (s', o)) :
    P s'.files := by
  cases executeCMD_step hround with
  | kept _ _ hsame =>
    rw [hsame.files]
    exact h
  | popped _ _ hsame =>
    rw [hsame.files]
    exact getPipe_files hclose h
  | made _ _ hgrew =>
    rw [hgrew.files]
    apply hopen
    rw [beforePipe_files]
    split
    next => exact closeOldest_files hclose (getPipe_files hclose h) _
    next => exact getPipe_files hclose h

theorem files_next {e : Event} (h : P st.shell.files) (hstep : next st e = some st') :
    P st'.shell.files := by
  cases e with
  | line text =>
    obtain ⟨-, rfl⟩ := next_line hstep
    exact closeOldest_files hclose h _
  | round calls =>
    obtain ⟨s, o, hround, hshell⟩ := round_shell hstep
    rw [hshell]
    exact closeOldest_files hclose (executeCMD_files hclose hopen h hround) _

theorem files_run (hinitial : P Shell.initial.files) (es : List Event)
    (h : exec next Session.initial es = some st) : P st.shell.files :=
  invariant_always (I := fun _ st => P st.shell.files) hinitial
    (fun _ _ _ _ _ hkept hstep => files_next hclose hopen hkept hstep) es st h

end Files

theorem buf_run (es : List Event) (h : exec next Session.initial es = some st) :
    st.shell.buf = [] :=
  invariant_always (I := fun _ st => st.shell.buf = []) rfl
    (fun _ _ _ _ _ hbuf hstep => buf_next hstep hbuf) es st h

end NetworkProgramming.Npshell
