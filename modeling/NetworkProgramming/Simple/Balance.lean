import NetworkProgramming.Simple.Delivery

/-! The descriptors of the serving process over runs of command lines. -/
namespace NetworkProgramming.Simple
open Library.CString Library.Descriptors Library.Run Library.Search CommandLine

def Waiting (s : Shell) (j : Nat) : Prop := j < 1000 ∧ 0 < s.inputCount j

/-- The open descriptors are those of the login and both ends of each pipe that waits. -/
structure Balanced (sockfd : Int) (s : Shell) : Prop where
  opened : ∀ fd, s.files fd ≠ none ↔ (Shell.initial sockfd).files fd ≠ none ∨
    ∃ j, Waiting s j ∧ (fd = s.inputNum j ∨ fd = s.outputNum j)
  ends : ∀ j, Waiting s j → ∃ p, s.files (s.inputNum j) = some (.readEnd p) ∧
    s.files (s.outputNum j) = some (.writeEnd p)

/-- The line starts no program and has no number, or it runs programs with a number
that is new to the table, and takes a free entry. -/
structure Keeps (s : Shell) (line : Text) : Prop where
  numbered : Counted line ↔ (readLine line).pipeNumber ≠ none
  range : ∀ n ∈ (readLine line).pipeNumber, 1 ≤ n ∧ n + 1 < 2 ^ 31
  fresh : ∀ n ∈ (readLine line).pipeNumber, findTarget s n = none
  room : Counted line → s.pos < 1000 ∧ s.inputCount s.pos ≤ 0
  counters : Counted line → ∀ j < 1000, -2 ^ 31 < s.inputCount j

instance (s : Shell) (line : Text) : Decidable (Keeps s line) :=
  decidable_of_iff
    ((Counted line ↔ (readLine line).pipeNumber ≠ none) ∧
      (∀ n ∈ (readLine line).pipeNumber, 1 ≤ n ∧ n + 1 < 2 ^ 31) ∧
      (∀ n ∈ (readLine line).pipeNumber, findTarget s n = none) ∧
      (Counted line → s.pos < 1000 ∧ s.inputCount s.pos ≤ 0) ∧
      (Counted line → ∀ j < 1000, -2 ^ 31 < s.inputCount j))
    ⟨fun h => ⟨h.1, h.2.1, h.2.2.1, h.2.2.2.1, h.2.2.2.2⟩,
      fun h => ⟨h.numbered, h.range, h.fresh, h.room, h.counters⟩⟩

/-- The other lines that run programs: those without a number, and those whose number
the table already has. -/
structure Leaks (s : Shell) (line : Text) : Prop where
  counted : Counted line
  found : ∀ n ∈ (readLine line).pipeNumber, findTarget s n ≠ none
  counters : ∀ j < 1000, -2 ^ 31 < s.inputCount j

def afterDue (s : Shell) : Table :=
  match dueEntry s with
  | none => s.files
  | some j => close (close s.files (s.outputNum j)) (s.inputNum j)

def leaves (t : Table) (getInput : Nat) (fds : Int × Int) (pipe : Nat) : Table :=
  if getInput = 0 then Function.update t fds.1 (some (.readEnd pipe)) else openPipe t fds pipe

def afterLast (s : Shell) (getInput : Nat) (fds : Int × Int) : Shell :=
  if getInput = 2 then completeEntry s fds else s

variable {sockfd : Int} {s s' base : Shell} {t u : Table} {args : ParserArgs} {call : ParserCall}
  {c : Child} {line : Line} {calls : Nat → ParserCall} {r r' : Round} {getInput : Nat}
  {cmds : List Text}

/-- The table of descriptors without the input that `parser` closes. -/
inductive WithoutInput (t : Table) : Int → Table → Prop
  | none : WithoutInput t 0 t
  | some {fd : Int} (hne : fd ≠ 0) (hopen : t fd ≠ .none) : WithoutInput t fd (close t fd)

theorem parser_leaves (hinput : WithoutInput s.files args.input u)
    (h : parser s args call = some (s', c)) :
    Unused u call.pipeFd ∧ s'.files = openPipe u call.pipeFd s.made ∧
      s'.made = s.made + 1 ∧ SameEntries s s' := by
  obtain ⟨hunused, rfl, -⟩ := parser_eq_some h
  generalize args.input = fd at hinput
  cases hinput with
  | none => exact ⟨hunused, by simp, rfl, ⟨rfl, rfl, rfl, rfl⟩⟩
  | some hne hopen =>
    refine ⟨hunused.close, ?_, rfl, ⟨rfl, rfl, rfl, rfl⟩⟩
    dsimp only
    rw [if_pos hne, close_openPipe hunused hopen]

theorem finishRound_leaves (last : Bool) {fds : Int × Int} {pipe : Nat} (hunused : Unused u fds)
    (hget : getInput = 0 ∨ getInput = 1 ∨ getInput = 2) (hfiles : s.files = openPipe u fds pipe) :
    (finishRound s last (if last then lastGetInput getInput else getInput) fds).files =
        leaves u (if last then getInput else 0) fds pipe ∧
      SameEntries (if last then afterLast s getInput fds else s)
        (finishRound s last (if last then lastGetInput getInput else getInput) fds) := by
  have hclosed : close s.files fds.2 = leaves u 0 fds pipe := by
    rw [hfiles, close_openPipe_write hunused]
    rfl
  cases last with
  | false => exact ⟨hclosed, ⟨rfl, rfl, rfl, rfl⟩⟩
  | true =>
    rcases hget with rfl | rfl | rfl
    · exact ⟨hclosed, ⟨rfl, rfl, rfl, rfl⟩⟩
    · exact ⟨hfiles, SameEntries.refl s⟩
    · exact ⟨hfiles, SameEntries.refl _⟩

theorem afterLast_same (h : SameEntries base s) (fds : Int × Int) :
    SameEntries (afterLast base getInput fds) (afterLast s getInput fds) := by
  unfold afterLast
  split
  · exact h.completeEntry fds
  · exact h

theorem runCommand_leaves {first last : Bool} {cmd : Text} {due : Option Int}
    (hdue : takeDue r.shell first = (s, due)) (hinput : WithoutInput s.files (due.getD r.input) u)
    (hget : r.getInput = 0 ∨ r.getInput = 1 ∨ r.getInput = 2)
    (hreturned : call.getData = call.pipeFd)
    (h : runCommand line first last cmd call r = some r') :
    Unused u call.pipeFd ∧ r'.input = call.pipeFd.1 ∧
      r'.getInput = (if last then lastGetInput r.getInput else r.getInput) ∧
      r'.shell.made = s.made + 1 ∧
      r'.shell.files = leaves u (if last then r.getInput else 0) call.pipeFd s.made ∧
      SameEntries (if last then afterLast s r.getInput call.pipeFd else s) r'.shell := by
  unfold runCommand at h
  simp only [hdue, Option.map_eq_some_iff, Prod.exists] at h
  obtain ⟨s', c, hparser, rfl⟩ := h
  obtain ⟨hunused, hfiles, hmade, hentries⟩ := parser_leaves hinput hparser
  have hfinish := finishRound_leaves (s := s') last hunused hget hfiles
  dsimp only
  rw [hreturned]
  refine ⟨hunused, rfl, rfl, ?_, hfinish.1, ?_⟩
  · rw [finishRound_made, hmade]
  · apply SameEntries.trans _ hfinish.2
    cases last with
    | false => exact hentries
    | true => exact afterLast_same hentries _

/-- What a row of rounds leaves open over the table `u`, and its entries. -/
def RoundsLeave (u : Table) (base : Shell) (made getInput : Nat) (s' : Shell) : Prop :=
  ∃ fds pipe, Unused u fds ∧ made ≤ pipe ∧ pipe < s'.made ∧ s'.files = leaves u getInput fds pipe ∧
    SameEntries (afterLast base getInput fds) s'

theorem runCommands_leave {i pipe : Nat} {fds : Int × Int} (hi : i ≠ 0)
    (hget : r.getInput = 0 ∨ r.getInput = 1 ∨ r.getInput = 2) (hunused : Unused u fds)
    (hzero : u 0 ≠ none) (hinput : r.input = fds.1) (hfiles : r.shell.files = leaves u 0 fds pipe)
    (hreturned : ∀ i, (calls i).getData = (calls i).pipeFd) (hne : cmds ≠ [])
    (h : runCommands line calls i cmds r = some r') :
    RoundsLeave u r.shell r.shell.made r.getInput r'.shell := by
  induction cmds generalizing i r fds pipe with
  | nil => exact absurd rfl hne
  | cons cmd cmds ih =>
    simp only [runCommands, hi, decide_false, Option.bind_eq_some_iff] at h
    obtain ⟨middle, hfirst, hrest⟩ := h
    have hread : fds.1 ≠ 0 := by
      intro heq
      rw [← heq] at hzero
      exact hzero hunused.2.2.2.1
    have hopen : r.shell.files fds.1 ≠ none := by
      rw [hfiles]
      simp [leaves]
    have hwithout : WithoutInput r.shell.files ((none : Option Int).getD r.input) u := by
      have hclosed : close r.shell.files fds.1 = u := by
        rw [hfiles, leaves, if_pos rfl, close, Function.update_idem, ← hunused.2.2.2.1,
          Function.update_eq_self]
      rw [Option.getD_none, hinput, ← hclosed]
      exact .some hread hopen
    have hstage := runCommand_leaves (s := r.shell) rfl hwithout hget (hreturned i) hfirst
    obtain ⟨hunused', hinput', hget', hmade', hfiles', hentries'⟩ := hstage
    cases cmds with
    | nil =>
      simp only [runCommands, Option.some.injEq] at hrest
      subst hrest
      exact ⟨_, _, hunused', le_refl _, by omega, hfiles', hentries'⟩
    | cons next cmds =>
      have hsame : middle.getInput = r.getInput := hget'
      have hmiddle := ih (Nat.succ_ne_zero i) (by rwa [hsame]) hunused' hinput' hfiles'
        (List.cons_ne_nil _ _) hrest
      obtain ⟨fds₁, pipe₁, hunused₁, hlow, hhigh, hfiles₁, hentries₁⟩ := hmiddle
      rw [hsame] at hfiles₁ hentries₁
      exact ⟨fds₁, pipe₁, hunused₁, by omega, hhigh, hfiles₁,
        (afterLast_same hentries' fds₁).trans hentries₁⟩

/-- The pipe that is due is there to be closed. -/
def DueHeld (s : Shell) : Prop :=
  ∀ j, dueEntry s = some j → s.inputNum j ≠ 0 ∧ close s.files (s.outputNum j) (s.inputNum j) ≠ none

theorem takeDue_leaves (hdue : DueHeld s) :
    ∃ s₁ due, takeDue s true = (s₁, due) ∧ SameEntries (countDown s) s₁ ∧ s₁.made = s.made ∧
      WithoutInput s₁.files (due.getD 0) (afterDue s) := by
  unfold takeDue afterDue
  rw [if_pos rfl]
  cases hentry : dueEntry s with
  | none => exact ⟨_, _, rfl, SameEntries.refl _, rfl, .none⟩
  | some j =>
    obtain ⟨hne, hopen⟩ := hdue j hentry
    exact ⟨_, _, rfl, ⟨rfl, rfl, rfl, rfl⟩, rfl, .some hne hopen⟩

theorem line_leaves (hget : getInput = 0 ∨ getInput = 1 ∨ getInput = 2) (hdue : DueHeld s)
    (hzero : afterDue s 0 ≠ none) (hreturned : ∀ i, (calls i).getData = (calls i).pipeFd)
    (hne : cmds ≠ []) (h : runCommands line calls 0 cmds ⟨s, 0, getInput, []⟩ = some r') :
    RoundsLeave (afterDue s) (countDown s) s.made getInput r'.shell := by
  obtain ⟨s₁, due, htake, hentries, hmade, hinput⟩ := takeDue_leaves hdue
  cases cmds with
  | nil => exact absurd rfl hne
  | cons cmd cmds =>
    simp only [runCommands, decide_true, Option.bind_eq_some_iff] at h
    obtain ⟨middle, hfirst, hrest⟩ := h
    have hstage := runCommand_leaves (r := ⟨s, 0, getInput, []⟩) htake hinput hget (hreturned 0)
      hfirst
    obtain ⟨hunused', hinput', hget', hmade', hfiles', hentries'⟩ := hstage
    rw [hmade] at hmade' hfiles'
    cases cmds with
    | nil =>
      simp only [runCommands, Option.some.injEq] at hrest
      subst hrest
      exact ⟨_, _, hunused', le_refl _, by omega, hfiles',
        (afterLast_same hentries _).trans hentries'⟩
    | cons next cmds =>
      have hsame : middle.getInput = getInput := hget'
      have hmiddle := runCommands_leave (Nat.succ_ne_zero 0) (by rwa [hsame]) hunused' hzero
        hinput' hfiles' hreturned (List.cons_ne_nil _ _) hrest
      obtain ⟨fds₁, pipe₁, hunused₁, hlow, hhigh, hfiles₁, hentries₁⟩ := hmiddle
      rw [hsame] at hfiles₁ hentries₁
      exact ⟨fds₁, pipe₁, hunused₁, by omega, hhigh, hfiles₁,
        (afterLast_same (hentries.trans hentries') fds₁).trans hentries₁⟩

/-- The pipes that wait are all there, at one target each, and nothing else is. -/
structure Tables (sockfd : Int) (s : Shell) : Prop where
  serving : Serving sockfd s.files
  opened : ∀ fd, s.files fd ≠ none → (Shell.initial sockfd).files fd ≠ none ∨
    ∃ j, Waiting s j ∧ (fd = s.inputNum j ∨ fd = s.outputNum j)
  ends : ∀ j, Waiting s j → ∃ p < s.made, s.files (s.inputNum j) = some (.readEnd p) ∧
    s.files (s.outputNum j) = some (.writeEnd p)
  separate : ∀ i j p, Waiting s i → Waiting s j → s.files (s.inputNum i) = some (.readEnd p) →
    s.files (s.inputNum j) = some (.readEnd p) → i = j
  distinct : ∀ i j, Waiting s i → Waiting s j → s.inputCount i = s.inputCount j → i = j
  counts : ∀ j, s.inputCount j < 2 ^ 31

theorem login_open {fd : Int} :
    (Shell.initial sockfd).files fd ≠ none ↔ fd = sockfd ∨ fd = 0 ∨ fd = 1 ∨ fd = 2 := by
  unfold Shell.initial
  dsimp only
  split_ifs with hsock hstd
  · simp [hsock]
  · simp [hstd]
  · simp [hsock, hstd]

theorem Serving.login (h : Serving sockfd t) {fd : Int}
    (hfd : (Shell.initial sockfd).files fd ≠ none) :
    t fd = some .terminal ∨ t fd = some .socket := by
  rcases login_open.mp hfd with rfl | rfl | rfl | rfl
  · exact .inr h.socket
  · exact .inl h.stdin
  · exact .inl h.stdout
  · exact .inl h.stderr

theorem not_waiting_initial (j : Nat) : ¬ Waiting (Shell.initial sockfd) j := by
  intro h
  exact absurd h.2 (by simp [Shell.initial])

theorem Tables.initial (hsockfd : 2 < sockfd) : Tables sockfd (Shell.initial sockfd) where
  serving := (Invariant.initial hsockfd).serving
  opened _ h := .inl h
  ends j h := absurd h (not_waiting_initial j)
  separate i _ _ h := absurd h (not_waiting_initial i)
  distinct i _ h := absurd h (not_waiting_initial i)
  counts := (Invariant.initial hsockfd).counts

theorem Tables.balanced (h : Tables sockfd s) : Balanced sockfd s := by
  constructor
  · intro fd
    refine ⟨h.opened fd, ?_⟩
    rintro (hlogin | ⟨j, hj, hfd⟩)
    · rcases h.serving.login hlogin with heq | heq <;> simp [heq]
    · obtain ⟨p, -, hread, hwrite⟩ := h.ends j hj
      rcases hfd with rfl | rfl
      · simp [hread]
      · simp [hwrite]
  · intro j hj
    obtain ⟨p, -, hread, hwrite⟩ := h.ends j hj
    exact ⟨p, hread, hwrite⟩

theorem dueEntry_waiting {j : Nat} (h : dueEntry s = some j) :
    Waiting s j ∧ s.inputCount j = 1 := by
  obtain ⟨hj, hcount, -⟩ := lastBelow_eq_some.mp h
  rw [decide_eq_true_eq] at hcount
  exact ⟨⟨hj, by omega⟩, hcount⟩

theorem Tables.due {j : Nat} (h : Tables sockfd s) (hj : Waiting s j) (hcount : s.inputCount j = 1) :
    dueEntry s = some j := by
  cases hdue : dueEntry s with
  | none =>
    have hmiss := lastBelow_eq_none.mp hdue j hj.1
    simp [hcount] at hmiss
  | some i =>
    obtain ⟨hi, hone⟩ := dueEntry_waiting hdue
    rw [h.distinct i j hi hj (hone.trans hcount.symm)]

theorem Tables.dueHeld (h : Tables sockfd s) : DueHeld s := by
  intro j hdue
  obtain ⟨p, -, hread, hwrite⟩ := h.ends j (dueEntry_waiting hdue).1
  refine ⟨(h.serving.not_standard hread (by simp)).1, ?_⟩
  rw [close_eq_some hread (by simp [hwrite])]
  simp

theorem afterDue_of_ne {fd : Int}
    (h : ∀ j, dueEntry s = some j → fd ≠ s.inputNum j ∧ fd ≠ s.outputNum j) :
    afterDue s fd = s.files fd := by
  unfold afterDue
  cases hdue : dueEntry s with
  | none => rfl
  | some j =>
    dsimp only
    rw [close_of_ne (h j hdue).1, close_of_ne (h j hdue).2]

theorem Tables.afterDue_eq {fd : Int} {file : File} (h : Tables sockfd s)
    (hfd : s.files fd = some file)
    (hother : ∀ j p, dueEntry s = some j → s.files (s.inputNum j) = some (.readEnd p) →
      file ≠ .readEnd p ∧ file ≠ .writeEnd p) : afterDue s fd = some file := by
  rw [afterDue_of_ne, hfd]
  intro j hdue
  obtain ⟨p, -, hread, hwrite⟩ := h.ends j (dueEntry_waiting hdue).1
  obtain ⟨hnread, hnwrite⟩ := hother j p hdue hread
  constructor
  · rintro rfl
    rw [hread, Option.some.injEq] at hfd
    exact hnread hfd.symm
  · rintro rfl
    rw [hwrite, Option.some.injEq] at hfd
    exact hnwrite hfd.symm

theorem Tables.afterDue_serving (h : Tables sockfd s) : Serving sockfd (afterDue s) :=
  ⟨h.afterDue_eq h.serving.stdin (by simp), h.afterDue_eq h.serving.stdout (by simp),
    h.afterDue_eq h.serving.stderr (by simp), h.afterDue_eq h.serving.socket (by simp)⟩

theorem Tables.afterDue_ends {j p : Nat} (h : Tables sockfd s) (hj : Waiting s j)
    (hcount : s.inputCount j ≠ 1) (hread : s.files (s.inputNum j) = some (.readEnd p))
    (hwrite : s.files (s.outputNum j) = some (.writeEnd p)) :
    afterDue s (s.inputNum j) = some (.readEnd p) ∧
      afterDue s (s.outputNum j) = some (.writeEnd p) := by
  have hother : ∀ i q, dueEntry s = some i → s.files (s.inputNum i) = some (.readEnd q) →
      p ≠ q := by
    rintro i q hdue hq rfl
    obtain ⟨hi, hone⟩ := dueEntry_waiting hdue
    rw [h.separate i j p hi hj hq hread] at hone
    exact hcount hone
  refine ⟨h.afterDue_eq hread ?_, h.afterDue_eq hwrite ?_⟩
  · intro i q hdue hq
    simp [hother i q hdue hq]
  · intro i q hdue hq
    simp [hother i q hdue hq]

theorem Tables.afterDue_opened {fd : Int} (h : Tables sockfd s) (hfd : afterDue s fd ≠ none) :
    (Shell.initial sockfd).files fd ≠ none ∨
      ∃ j, Waiting s j ∧ s.inputCount j ≠ 1 ∧ (fd = s.inputNum j ∨ fd = s.outputNum j) := by
  have hne : ∀ j, dueEntry s = some j → fd ≠ s.inputNum j ∧ fd ≠ s.outputNum j := by
    intro j hdue
    unfold afterDue at hfd
    rw [hdue] at hfd
    dsimp only at hfd
    constructor
    · rintro rfl
      exact hfd close_self
    · rintro rfl
      apply hfd
      unfold close
      rw [Function.update_apply, Function.update_self, ite_self]
  rw [afterDue_of_ne hne] at hfd
  apply (h.opened fd hfd).imp_right
  rintro ⟨j, hj, hends⟩
  refine ⟨j, hj, ?_, hends⟩
  intro hone
  have hdue := hne j (h.due hj hone)
  exact hends.elim hdue.1 hdue.2

variable {n : Int} {fds : Int × Int} {p : Nat}

theorem countDown_count {j : Nat} (hj : j < 1000) (hlow : -2 ^ 31 < s.inputCount j)
    (hhigh : s.inputCount j < 2 ^ 31) : (countDown s).inputCount j = s.inputCount j - 1 := by
  unfold countDown
  dsimp only
  rw [if_pos hj]
  exact int32_eq_self (by omega) (by omega)

theorem claimNew_due (hfree : s.inputCount s.pos ≤ 0) (hlow : 1 ≤ n) (hhigh : n + 1 < 2 ^ 31) :
    dueEntry (claimNew s n) = dueEntry s := by
  unfold dueEntry
  congr 1
  funext j
  rw [decide_eq_decide]
  unfold claimNew
  dsimp only
  rw [Function.update_apply, int32_eq_self (by omega) (by omega)]
  split
  next hj =>
    rw [hj]
    omega
  next => rfl

/-- What a line with a new number does: the pipe `p` for the free entry, with the
number to count, and one less for the others. -/
structure Took (s s' : Shell) (n : Int) (fds : Int × Int) (p : Nat) : Prop where
  unused : Unused (afterDue s) fds
  files : s'.files = openPipe (afterDue s) fds p
  made : s.made ≤ p ∧ p < s'.made
  inputNum : s'.inputNum = Function.update s.inputNum s.pos fds.1
  outputNum : s'.outputNum = Function.update s.outputNum s.pos fds.2
  free : s.pos < 1000 ∧ s.inputCount s.pos ≤ 0
  count : ∀ j < 1000, s'.inputCount j = if j = s.pos then n else s.inputCount j - 1
  counts : ∀ j, s'.inputCount j < 2 ^ 31

theorem Tables.took (h : Tables sockfd s) (hlow : 1 ≤ n) (hhigh : n + 1 < 2 ^ 31)
    (hfree : s.pos < 1000 ∧ s.inputCount s.pos ≤ 0)
    (hcounters : ∀ j < 1000, -2 ^ 31 < s.inputCount j) (hunused : Unused (afterDue s) fds)
    (hmade : s.made ≤ p ∧ p < s'.made) (hfiles : s'.files = openPipe (afterDue s) fds p)
    (hentries : SameEntries (completeEntry (countDown (claimNew s n)) fds) s') :
    Took s s' n fds p := by
  have hclaimed : ∀ j, (claimNew s n).inputCount j =
      if j = s.pos then n + 1 else s.inputCount j := by
    intro j
    unfold claimNew
    dsimp only
    rw [Function.update_apply, int32_eq_self (by omega) (by omega)]
  refine ⟨hunused, hfiles, hmade, hentries.inputNum, hentries.outputNum, hfree, ?_, ?_⟩
  · intro j hj
    have hlower := hcounters j hj
    have hupper := h.counts j
    have hbounds : -2 ^ 31 < (claimNew s n).inputCount j ∧ (claimNew s n).inputCount j < 2 ^ 31 := by
      rw [hclaimed]
      split <;> omega
    have hdown := countDown_count hj hbounds.1 hbounds.2
    rw [hentries.inputCount]
    unfold completeEntry
    dsimp only
    rw [hdown, hclaimed]
    split <;> omega
  · intro j
    rw [hentries.inputCount]
    unfold completeEntry countDown
    dsimp only
    split
    next => exact int32_lt _
    next hj =>
      rw [hclaimed, if_neg (by omega)]
      exact h.counts j

variable {i j q : Nat}

theorem Took.pos_waiting (h : Took s s' n fds p) (hlow : 1 ≤ n) : Waiting s' s.pos := by
  refine ⟨h.free.1, ?_⟩
  rw [h.count _ h.free.1, if_pos rfl]
  omega

theorem Took.waiting_iff (h : Took s s' n fds p) (hne : j ≠ s.pos) :
    Waiting s' j ↔ Waiting s j ∧ s.inputCount j ≠ 1 := by
  unfold Waiting
  constructor
  · intro ⟨hj, hpositive⟩
    rw [h.count j hj, if_neg hne] at hpositive
    exact ⟨⟨hj, by omega⟩, by omega⟩
  · intro ⟨⟨hj, hpositive⟩, hlate⟩
    rw [h.count j hj, if_neg hne]
    exact ⟨hj, by omega⟩

theorem Took.ends_pos (h : Took s s' n fds p) : s'.files (s'.inputNum s.pos) = some (.readEnd p) ∧
    s'.files (s'.outputNum s.pos) = some (.writeEnd p) := by
  rw [h.inputNum, h.outputNum, Function.update_self, Function.update_self, h.files]
  exact ⟨openPipe_read h.unused, openPipe_write⟩

theorem Took.ends_kept (h : Took s s' n fds p) (htables : Tables sockfd s) (hj : Waiting s' j)
    (hne : j ≠ s.pos) :
    ∃ q < s.made, s.files (s.inputNum j) = some (.readEnd q) ∧
      s'.files (s'.inputNum j) = some (.readEnd q) ∧
      s'.files (s'.outputNum j) = some (.writeEnd q) := by
  obtain ⟨hold, hlate⟩ := (h.waiting_iff hne).mp hj
  obtain ⟨q, hq, hread, hwrite⟩ := htables.ends j hold
  obtain ⟨hafter, hafterWrite⟩ := htables.afterDue_ends hold hlate hread hwrite
  rw [h.inputNum, h.outputNum, Function.update_of_ne hne, Function.update_of_ne hne, h.files]
  exact ⟨q, hq, hread, openPipe_old h.unused hafter, openPipe_old h.unused hafterWrite⟩

theorem Took.opened (h : Took s s' n fds p) (htables : Tables sockfd s) (hlow : 1 ≤ n) {fd : Int}
    (hfd : s'.files fd ≠ none) : (Shell.initial sockfd).files fd ≠ none ∨
      ∃ j, Waiting s' j ∧ (fd = s'.inputNum j ∨ fd = s'.outputNum j) := by
  rw [h.inputNum, h.outputNum]
  by_cases hends : fd = fds.1 ∨ fd = fds.2
  · exact .inr ⟨s.pos, h.pos_waiting hlow, by simpa using hends⟩
  · push Not at hends
    rw [h.files, openPipe, Function.update_of_ne hends.2, Function.update_of_ne hends.1] at hfd
    apply (htables.afterDue_opened hfd).imp_right
    rintro ⟨j, hj, hlate, hend⟩
    have hne : j ≠ s.pos := by
      rintro rfl
      exact absurd hj.2 (by have hfree := h.free.2; omega)
    refine ⟨j, (h.waiting_iff hne).mpr ⟨hj, hlate⟩, ?_⟩
    rw [Function.update_of_ne hne, Function.update_of_ne hne]
    exact hend

theorem Took.separate_pos (h : Took s s' n fds p) (htables : Tables sockfd s) (hj : Waiting s' j)
    (hpos : s'.files (s'.inputNum s.pos) = some (.readEnd q))
    (hread : s'.files (s'.inputNum j) = some (.readEnd q)) : j = s.pos := by
  by_contra hne
  obtain ⟨old, hold, -, hkept, -⟩ := h.ends_kept htables hj hne
  rw [h.ends_pos.1, Option.some.injEq, File.readEnd.injEq] at hpos
  rw [hkept, Option.some.injEq, File.readEnd.injEq] at hread
  have hmade := h.made.1
  omega

theorem Took.separate (h : Took s s' n fds p) (htables : Tables sockfd s) (hi : Waiting s' i)
    (hj : Waiting s' j) (hiread : s'.files (s'.inputNum i) = some (.readEnd q))
    (hjread : s'.files (s'.inputNum j) = some (.readEnd q)) : i = j := by
  by_cases hipos : i = s.pos
  · rw [hipos] at hiread ⊢
    exact (h.separate_pos htables hj hiread hjread).symm
  · by_cases hjpos : j = s.pos
    · rw [hjpos] at hjread ⊢
      exact h.separate_pos htables hi hjread hiread
    · obtain ⟨qi, -, hoi, hki, -⟩ := h.ends_kept htables hi hipos
      obtain ⟨qj, -, hoj, hkj, -⟩ := h.ends_kept htables hj hjpos
      rw [hki] at hiread
      rw [hkj] at hjread
      exact htables.separate i j q ((h.waiting_iff hipos).mp hi).1 ((h.waiting_iff hjpos).mp hj).1
        (hoi.trans hiread) (hoj.trans hjread)

theorem Took.distinct (h : Took s s' n fds p) (htables : Tables sockfd s)
    (hhigh : 1 ≤ n ∧ n + 1 < 2 ^ 31) (hfresh : findTarget s n = none) (hi : Waiting s' i)
    (hj : Waiting s' j) (heq : s'.inputCount i = s'.inputCount j) : i = j := by
  have hnone : ∀ k < 1000, s.inputCount k ≠ n + 1 := by
    intro k hk hcount
    have hint : int32 (n + 1) = n + 1 := int32_eq_self (by omega) (by omega)
    have hmiss := List.find?_eq_none.mp hfresh k (List.mem_range.mpr hk)
    simp [hcount, hint] at hmiss
  have hmissi := hnone i hi.1
  have hmissj := hnone j hj.1
  rw [h.count i hi.1, h.count j hj.1] at heq
  split_ifs at heq with hipos hjpos hjpos
  · rw [hipos, hjpos]
  · omega
  · omega
  · exact htables.distinct i j ((h.waiting_iff hipos).mp hi).1 ((h.waiting_iff hjpos).mp hj).1
      (by omega)

theorem Took.tables (h : Took s s' n fds p) (htables : Tables sockfd s)
    (hrange : 1 ≤ n ∧ n + 1 < 2 ^ 31) (hfresh : findTarget s n = none) : Tables sockfd s' := by
  constructor
  · rw [h.files]
    exact htables.afterDue_serving.spares (s := fun _ => False) (Spares.openPipe h.unused)
  · exact fun fd => h.opened htables hrange.1
  · intro j hj
    by_cases hne : j = s.pos
    · rw [hne]
      exact ⟨p, h.made.2, h.ends_pos⟩
    · obtain ⟨q, hq, -, hread, hwrite⟩ := h.ends_kept htables hj hne
      have hmade := h.made
      exact ⟨q, by omega, hread, hwrite⟩
  · exact fun i j q => h.separate htables
  · exact fun i j => h.distinct htables hrange hfresh
  · exact h.counts

theorem Tables.leak (h : Tables sockfd s) (hcounters : ∀ j < 1000, -2 ^ 31 < s.inputCount j)
    (hunused : Unused (afterDue s) fds) (hfiles : s'.files = leaves (afterDue s) getInput fds p)
    (hentries : SameEntries (countDown s) s') : ¬ Balanced sockfd s' := by
  intro hbalanced
  have hopen : s'.files fds.1 ≠ none := by
    rw [hfiles]
    unfold leaves
    split
    · rw [Function.update_self]
      simp
    · rw [openPipe_read hunused]
      simp
  have hclosed := hunused.2.2.2.1
  rcases (hbalanced.opened fds.1).mp hopen with hlogin | ⟨j, hj, hends⟩
  · rcases h.afterDue_serving.login hlogin with heq | heq <;> simp [heq] at hclosed
  · have hdown : s'.inputCount j = s.inputCount j - 1 := by
      rw [hentries.inputCount]
      exact countDown_count hj.1 (hcounters j hj.1) (h.counts j)
    have hpositive := hj.2
    have hwaiting : Waiting s j := ⟨hj.1, by omega⟩
    obtain ⟨q, -, hread, hwrite⟩ := h.ends j hwaiting
    obtain ⟨hafter, hafterWrite⟩ := h.afterDue_ends hwaiting (by omega) hread hwrite
    rw [hentries.inputNum, hentries.outputNum] at hends
    rcases hends with heq | heq
    · rw [heq] at hclosed
      exact absurd (hclosed.symm.trans hafter) (by simp)
    · rw [heq] at hclosed
      exact absurd (hclosed.symm.trans hafterWrite) (by simp)

variable {st st' : Session} {e : Event}

theorem next_counted {claimed : Shell} {fd : Int} (hcounted : Counted (lineOf e.chunk))
    (hclaim : claimEntry st.shell sockfd (readLine (lineOf e.chunk)).pipeNumber =
      (claimed, getInput, fd)) (hget : getInput = 0 ∨ getInput = 1 ∨ getInput = 2)
    (hdue : DueHeld claimed) (hzero : afterDue claimed 0 ≠ none) (hreturned : e.Returned)
    (hnext : next sockfd st e = some st') :
    RoundsLeave (afterDue claimed) (countDown claimed) claimed.made getInput st'.shell := by
  unfold Simple.next at hnext
  cases hexec : doExec st.shell (lineOf e.chunk) sockfd e.calls with
  | none => simp [hexec] at hnext
  | some o =>
    obtain ⟨l, r', -, hrun, rfl⟩ := counted_runs hcounted hexec
    simp only [hexec, Option.some.injEq] at hnext
    subst hnext
    rw [hclaim] at hrun
    have hne : (readLine (lineOf e.chunk)).commands ≠ [] := by
      intro hnil
      have hblank := hcounted.1
      simp [hnil, blank] at hblank
    exact line_leaves hget hdue hzero hreturned hne hrun

theorem Tables.next (h : Tables sockfd st.shell) (hreturned : e.Returned)
    (hkeeps : Keeps st.shell (lineOf e.chunk)) (hnext : Simple.next sockfd st e = some st') :
    Tables sockfd st'.shell := by
  cases hnumber : (readLine (lineOf e.chunk)).pipeNumber with
  | none =>
    have hcounted : ¬ Counted (lineOf e.chunk) := fun hc => hkeeps.numbered.mp hc hnumber
    unfold Simple.next at hnext
    cases hexec : doExec st.shell (lineOf e.chunk) sockfd e.calls with
    | none => simp [hexec] at hnext
    | some o =>
      rcases uncounted_kept hnumber hcounted hexec with rfl | ⟨b, rfl⟩
      · simp only [hexec, Option.some.injEq] at hnext
        rw [← hnext]
        exact h
      · simp only [hexec] at hnext
        split at hnext
        next => contradiction
        next =>
          simp only [Option.some.injEq] at hnext
          rw [← hnext]
          exact h
  | some n =>
    have hcounted : Counted (lineOf e.chunk) := hkeeps.numbered.mpr (by simp [hnumber])
    have hrange := hkeeps.range n hnumber
    have hfresh := hkeeps.fresh n hnumber
    have hfree := hkeeps.room hcounted
    have hclaim : claimEntry st.shell sockfd (readLine (lineOf e.chunk)).pipeNumber =
        (claimNew st.shell n, 2, sockfd) := by
      rw [hnumber]
      unfold claimEntry
      dsimp only
      rw [hfresh]
      rfl
    have hdue := claimNew_due hfree.2 hrange.1 hrange.2
    have hafter : afterDue (claimNew st.shell n) = afterDue st.shell := by
      unfold afterDue
      rw [hdue]
      rfl
    have hheld : DueHeld (claimNew st.shell n) := by
      intro j hj
      rw [hdue] at hj
      exact h.dueHeld j hj
    have hzero : afterDue (claimNew st.shell n) 0 ≠ none := by
      rw [hafter, h.afterDue_serving.stdin]
      simp
    obtain ⟨fds, p, hunused, hp, hmade, hfiles, hentries⟩ :=
      next_counted hcounted hclaim (.inr (.inr rfl)) hheld hzero hreturned hnext
    rw [hafter] at hunused hfiles
    have htook := h.took hrange.1 hrange.2 hfree (hkeeps.counters hcounted) hunused ⟨hp, hmade⟩
      hfiles hentries
    exact htook.tables h hrange hfresh

theorem Tables.next_leaks (h : Tables sockfd st.shell) (hreturned : e.Returned)
    (hleaks : Leaks st.shell (lineOf e.chunk)) (hnext : Simple.next sockfd st e = some st') :
    ¬ Balanced sockfd st'.shell := by
  have hclaim : ∃ getInput fd, (getInput = 0 ∨ getInput = 1) ∧
      claimEntry st.shell sockfd (readLine (lineOf e.chunk)).pipeNumber =
        (st.shell, getInput, fd) := by
    cases hnumber : (readLine (lineOf e.chunk)).pipeNumber with
    | none => exact ⟨0, sockfd, .inl rfl, rfl⟩
    | some n =>
      obtain ⟨i, hi⟩ := Option.ne_none_iff_exists'.mp (hleaks.found n hnumber)
      refine ⟨1, st.shell.outputNum i, .inr rfl, ?_⟩
      unfold claimEntry
      dsimp only
      rw [hi]
      rfl
  obtain ⟨getInput, fd, hget, hclaim⟩ := hclaim
  have hzero : afterDue st.shell 0 ≠ none := by
    rw [h.afterDue_serving.stdin]
    simp
  obtain ⟨fds, p, hunused, -, -, hfiles, hentries⟩ := next_counted hleaks.counted hclaim
    (hget.imp_right .inl) h.dueHeld hzero hreturned hnext
  have hlast : afterLast (countDown st.shell) getInput fds = countDown st.shell := by
    unfold afterLast
    rw [if_neg (by omega)]
  rw [hlast] at hentries
  exact h.leak hleaks.counters hunused hfiles hentries

/-- The descriptors of a run whose lines all keep the balance; any other line that runs
programs upsets it. -/
theorem descriptors_balanced (sockfd : Int) (hsockfd : 2 < sockfd) (es : List Event) (st : Session)
    (hreturned : ∀ e ∈ es, e.Returned)
    (hkeeps : Meets (next sockfd) (Session.initial sockfd)
      (fun _ st e => Keeps st.shell (lineOf e.chunk)) es)
    (hrun : exec (next sockfd) (Session.initial sockfd) es = some st) :
    Balanced sockfd st.shell ∧ ∀ e st', e.Returned → Leaks st.shell (lineOf e.chunk) →
      next sockfd st e = some st' → ¬ Balanced sockfd st'.shell := by
  have hmeets : Meets (next sockfd) (Session.initial sockfd)
      (fun _ st e => e.Returned ∧ Keeps st.shell (lineOf e.chunk)) es := by
    intro before e after s heq hs
    exact ⟨hreturned e (by simp [heq]), hkeeps before e after s heq hs⟩
  have htables : Tables sockfd st.shell := by
    apply invariant (I := fun _ st => Tables sockfd st.shell) (Tables.initial hsockfd) _ es hmeets
      st hrun
    intro before s e s' _ htables he hstep
    exact htables.next he.1 he.2 hstep
  exact ⟨htables.balanced, fun e st' he hleaks => htables.next_leaks he hleaks⟩

def numberedOnly : List Event :=
  [event "ls |1\n" (pairFrom 5), event "printenv PATH\n" (pairFrom 7),
    event "cat |2\n" (pairFrom 7)]

theorem descriptors_balanced_numberedOnly :
    ∃ st, exec (next 4) (Session.initial 4) numberedOnly = some st ∧ Balanced 4 st.shell := by
  have hsome : (exec (next 4) (Session.initial 4) numberedOnly).isSome := by decide +kernel
  have hrun := Option.eq_some_of_isSome hsome
  have hreturned : ∀ e ∈ numberedOnly, e.Returned := by
    intro e he
    simp only [numberedOnly, List.mem_cons, List.not_mem_nil, or_false] at he
    rcases he with rfl | rfl | rfl <;> exact event_returned (by decide)
  have hkeeps : Meets (next 4) (Session.initial 4)
      (fun _ st e => Keeps st.shell (lineOf e.chunk)) numberedOnly := by decide +kernel
  exact ⟨_, hrun, (descriptors_balanced 4 (by decide) numberedOnly _ hreturned hkeeps hrun).1⟩

def oneCommand : Event := event "ls\n" (pairFrom 5)

theorem oneCommand_unbalanced :
    ∃ st, exec (next 4) (Session.initial 4) [oneCommand] = some st ∧ oneCommand.Returned ∧
      ¬ Balanced 4 st.shell := by
  have hsome : (exec (next 4) (Session.initial 4) [oneCommand]).isSome := by decide +kernel
  obtain ⟨st, hrun⟩ := Option.isSome_iff_exists.mp hsome
  have hreturned : oneCommand.Returned := event_returned (by decide)
  have hleaks : Leaks (Shell.initial 4) (lineOf oneCommand.chunk) :=
    ⟨by decide, by decide, fun j _ => by simp [Shell.initial]⟩
  obtain ⟨start, hstart, hnext⟩ : ∃ start, exec (next 4) (Session.initial 4) [] = some start ∧
      next 4 start oneCommand = some st := exec_concat_eq_some hrun
  obtain rfl : Session.initial 4 = start := Option.some.inj hstart
  exact ⟨st, hrun, hreturned, (Tables.initial (by decide)).next_leaks hreturned hleaks hnext⟩

end NetworkProgramming.Simple
