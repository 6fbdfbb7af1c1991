import NetworkProgramming.Library.Lines
import NetworkProgramming.Single.Server

/-! `handle_new_connection(int)`: one `read`, one command line. What a client's
stream becomes, and what becomes of its end. -/
namespace NetworkProgramming.Single
open Library.CString Library.Lines Library.Run CommandLine

/-- What `read` returns for the client on `fd`, until the number is used again. -/
def reads (fd : Int) : List Event → List Text
  | [] => []
  | .login ssock _ :: es => if ssock = fd then [] else reads fd es
  | .line sockfd chunk _ :: es => if sockfd = fd then chunk :: reads fd es else reads fd es

/-- The lines on which `do_exec` is run for it. -/
def executed (fd : Int) (es : List Event) : List Text := (reads fd es).map lineOf

/-- `main` frees the client's slot and tells the others. -/
def ClientEnds (s : Server) (fd : Int) (calls : Nat → ParserCall) : Prop :=
  ∃ i after effects, s.clientsMap.indexOf fd = some i ∧
    step s (.line fd [] calls) = .ok (after, effects) ∧ after.clientsMap.clientsFdSet i = 0 ∧
    ∀ other ∈ after.clientsMap.everyone,
      .send other (.left (s.clientsMap.nickname i)) ∈ effects

/-- `read` returning 0 is the end of the client, whenever it happens. -/
def ClosingNoticed (limit : Nat) (before : List Event) (fd : Int) (es : List Event) : Prop :=
  ∀ middle calls rest s, es = middle ++ .line fd [] calls :: rest →
    (∀ addr, Event.login fd addr ∉ middle) →
    exec (next limit) Server.initial (before ++ middle) = some s → ClientEnds s fd calls

/-- The read is one line and its newline, with `tail` behind them. -/
def BringsLine (chunk tail : Text) : Prop :=
  chunk = lineOf chunk ++ '\n' :: tail ∧ '\n' ∉ lineOf chunk ∧ '\n' ∉ tail

/-- Every read is one line; only the last may go on, and then with a NUL. -/
def OneLineEach : List Text → Prop
  | [] => True
  | [chunk] => ∃ tail, BringsLine chunk tail
  | chunk :: chunks => BringsLine chunk [] ∧ OneLineEach chunks

variable {chunk rest tail owed : Text} {chunks : List Text} {fd : Int} {es : List Event}

theorem nul_not_mem_lineOf (chunk : Text) : '\x00' ∉ lineOf chunk := by
  intro hmem
  have hfront := List.mem_takeWhile_imp (List.mem_of_mem_dropLast hmem)
  exact absurd hfront (by decide)

/-- Where `lineOf` cuts: behind it stands the character that it overwrites, and
then nothing or a NUL. -/
theorem lineOf_cases (chunk : Text) :
    chunk = [] ∨ (lineOf chunk = [] ∧ ∃ tail, chunk = '\x00' :: tail) ∨
      ∃ c tail, chunk = lineOf chunk ++ c :: tail ∧ (tail = [] ∨ ∃ more, tail = '\x00' :: more) := by
  have hstop : chunk.dropWhile (· != '\x00') = [] ∨
      ∃ more, chunk.dropWhile (· != '\x00') = '\x00' :: more := by
    cases hdrop : chunk.dropWhile (· != '\x00') with
    | nil => exact .inl rfl
    | cons c more =>
      have hhead := List.head_dropWhile_not (· != '\x00') (l := chunk) (by simp [hdrop])
      simp only [hdrop, List.head_cons, bne_eq_false_iff_eq] at hhead
      exact .inr ⟨more, by rw [hhead]⟩
  have hsplit : chunk = chunk.takeWhile (· != '\x00') ++ chunk.dropWhile (· != '\x00') :=
    List.takeWhile_append_dropWhile.symm
  rcases List.eq_nil_or_concat (chunk.takeWhile (· != '\x00')) with hnil | ⟨front, c, hfront⟩
  · rw [hnil, List.nil_append] at hsplit
    obtain hstop | ⟨more, hstop⟩ := hstop
    · exact .inl (hsplit.trans hstop)
    · exact .inr (.inl ⟨by rw [lineOf, hnil]; rfl, more, hsplit.trans hstop⟩)
  · have hline : lineOf chunk = front := by
      rw [lineOf, hfront, List.concat_eq_append, List.dropLast_concat]
    refine .inr (.inr ⟨c, _, ?_, hstop⟩)
    rw [hline]
    rw [hfront, List.concat_eq_append, List.append_assoc, List.singleton_append] at hsplit
    exact hsplit

/-- A stream never catches up with what is owed to it: a read brings at most the
line that is run on it and one byte more. -/
theorem owed_ne_flatten (howed : owed ≠ []) (hnul : '\x00' ∉ owed) (rest : Text) :
    chunks.flatten ≠ owed ++ (unlines '\n' (chunks.map lineOf) ++ rest) := by
  induction chunks generalizing owed with
  | nil =>
    intro heq
    exact howed (List.append_eq_nil_iff.mp heq.symm).1
  | cons chunk chunks ih =>
    intro heq
    rw [List.flatten_cons, List.map_cons, unlines_cons] at heq
    obtain rfl | ⟨-, tail, rfl⟩ | ⟨c, tail, hchunk, htail⟩ := lineOf_cases chunk
    · have hmore : owed ++ ['\n'] ≠ [] := by simp
      have hnulMore : '\x00' ∉ owed ++ ['\n'] := by simp [hnul]
      apply ih hmore hnulMore
      simpa [lineOf] using heq
    · obtain ⟨first, more, rfl⟩ := List.exists_cons_of_ne_nil howed
      rw [List.cons_append, List.cons_append, List.cons.injEq] at heq
      exact hnul (heq.1 ▸ List.mem_cons_self)
    · have hline := nul_not_mem_lineOf chunk
      generalize lineOf chunk = line at heq hchunk hline
      subst hchunk
      have hclean : '\x00' ∉ owed ++ line ++ ['\n'] := by
        simp [hnul, hline]
      have hlong : (line ++ [c]).length < (owed ++ line ++ ['\n']).length := by
        have hpos := List.length_pos_iff.mpr howed
        simp only [List.length_append, List.length_singleton]
        omega
      have hboth : line ++ [c] ++ (tail ++ chunks.flatten) =
          owed ++ line ++ ['\n'] ++ (unlines '\n' (chunks.map lineOf) ++ rest) := by
        simpa using heq
      obtain ⟨behind, hbehind, hrest⟩ | ⟨behind, hbehind, -⟩ := List.append_eq_append_iff.mp hboth
      · have hne : behind ≠ [] := by
          rintro rfl
          rw [hbehind, List.append_nil] at hlong
          exact absurd hlong (Nat.lt_irrefl _)
        have hbehindClean : '\x00' ∉ behind := by
          intro hmem
          apply hclean
          rw [hbehind]
          exact List.mem_append_right _ hmem
        obtain rfl | ⟨more, rfl⟩ := htail
        · exact ih hne hbehindClean hrest
        · obtain ⟨first, others, rfl⟩ := List.exists_cons_of_ne_nil hne
          rw [List.cons_append, List.cons_append, List.cons.injEq] at hrest
          exact hbehindClean (hrest.1 ▸ List.mem_cons_self)
      · rw [hbehind, List.length_append] at hlong
        omega

theorem tail_eq_nil {line more : Text} (hline : '\x00' ∉ line)
    (htail : tail = [] ∨ ∃ more, tail = '\x00' :: more) (h : tail ++ more = line ++ '\n' :: rest) :
    tail = [] := by
  obtain rfl | ⟨others, rfl⟩ := htail
  · rfl
  · cases line with
    | nil =>
      rw [List.cons_append, List.nil_append, List.cons.injEq] at h
      exact absurd h.1 (by decide)
    | cons first line =>
      rw [List.cons_append, List.cons_append, List.cons.injEq] at h
      exact absurd (h.1 ▸ List.mem_cons_self) hline

theorem oneLineEach_of_flatten (hlines : ∀ chunk ∈ chunks, '\n' ∉ lineOf chunk)
    (hrest : '\n' ∉ rest) (h : chunks.flatten = unlines '\n' (chunks.map lineOf) ++ rest) :
    OneLineEach chunks := by
  induction chunks with
  | nil => trivial
  | cons chunk chunks ih =>
    have hline := hlines chunk List.mem_cons_self
    rw [List.flatten_cons, List.map_cons, unlines_cons] at h
    obtain rfl | ⟨hempty, tail, htail⟩ | ⟨c, tail, hchunk, htail⟩ := lineOf_cases chunk
    · -- an empty read leaves its line's newline to the reads behind it
      exfalso
      have hnewline : ['\n'] ≠ ([] : Text) := by simp
      have hnul : '\x00' ∉ ['\n'] := by decide
      have hflat : chunks.flatten = ['\n'] ++ (unlines '\n' (chunks.map lineOf) ++ rest) := by
        simpa [lineOf] using h
      exact owed_ne_flatten hnewline hnul rest hflat
    · rw [hempty, htail, List.cons_append, List.nil_append, List.cons_append, List.cons.injEq] at h
      exact absurd h.1 (by decide)
    · have hboth : lineOf chunk ++ c :: (tail ++ chunks.flatten) =
          lineOf chunk ++ '\n' :: (unlines '\n' (chunks.map lineOf) ++ rest) := by
        generalize lineOf chunk = line at h hchunk
        subst hchunk
        simpa using h
      rw [List.append_cancel_left_eq, List.cons.injEq] at hboth
      obtain ⟨rfl, hbehind⟩ := hboth
      cases chunks with
      | nil =>
        have htailRest : tail = rest := by
          simpa using hbehind
        exact ⟨tail, hchunk, hline, htailRest ▸ hrest⟩
      | cons second chunks =>
        have hnil : tail = [] := by
          apply tail_eq_nil (nul_not_mem_lineOf second) htail
          rw [hbehind, List.map_cons, unlines_cons, List.append_assoc, List.cons_append]
        subst hnil
        refine ⟨⟨hchunk, hline, by simp⟩, ih (fun c hc => hlines c (List.mem_cons_of_mem _ hc)) ?_⟩
        exact hbehind

theorem OneLineEach.flatten (h : OneLineEach chunks) : (∀ chunk ∈ chunks, '\n' ∉ lineOf chunk) ∧
    ∃ rest, '\n' ∉ rest ∧ chunks.flatten = unlines '\n' (chunks.map lineOf) ++ rest := by
  induction chunks with
  | nil => exact ⟨by simp, [], by simp, rfl⟩
  | cons chunk chunks ih =>
    cases chunks with
    | nil =>
      obtain ⟨tail, hchunk, hline, htail⟩ := h
      refine ⟨by simpa using hline, tail, htail, ?_⟩
      simpa using hchunk
    | cons second chunks =>
      obtain ⟨⟨hchunk, hline, -⟩, hothers⟩ := h
      obtain ⟨hlines, rest, hrest, hflatten⟩ := ih hothers
      refine ⟨List.forall_mem_cons.mpr ⟨hline, hlines⟩, rest, hrest, ?_⟩
      rw [List.flatten_cons, List.map_cons, unlines_cons, List.append_assoc, List.cons_append,
        ← hflatten]
      calc chunk ++ (second :: chunks).flatten
          = (lineOf chunk ++ ['\n']) ++ (second :: chunks).flatten := by rw [← hchunk]
        _ = lineOf chunk ++ '\n' :: (second :: chunks).flatten := by simp

theorem lines_iff : chunks.map lineOf = terminated '\n' chunks.flatten ↔ OneLineEach chunks := by
  rw [eq_comm, terminated_eq_iff, List.forall_mem_map]
  constructor
  · rintro ⟨hlines, rest, hrest, hflatten⟩
    exact oneLineEach_of_flatten hlines hrest hflatten
  · exact OneLineEach.flatten

theorem step_closed (s : Server) (fd : Int) (calls : Nat → ParserCall) :
    step s (.line fd [] calls) = .ok (s, [.send fd .prompt]) := rfl

theorem not_clientEnds {s : Server} {calls : Nat → ParserCall} (hfd : fd ≠ 0) :
    ¬ ClientEnds s fd calls := by
  rintro ⟨i, after, effects, hindex, hstep, hfree, -⟩
  rw [step_closed, Except.ok.injEq, Prod.mk.injEq] at hstep
  rw [← hstep.1, (ClientMap.indexOf_eq_some hindex).2.1] at hfree
  exact hfd hfree

theorem mem_reads_iff : chunk ∈ reads fd es ↔ ∃ middle calls rest,
    es = middle ++ .line fd chunk calls :: rest ∧ ∀ addr, Event.login fd addr ∉ middle := by
  induction es with
  | nil => simp [reads]
  | cons e es ih =>
    constructor
    · intro hmem
      -- the read is of this event, or of a later one before the next login
      have hlater : chunk ∈ reads fd es → (∀ addr, e ≠ .login fd addr) →
          ∃ middle calls rest, e :: es = middle ++ .line fd chunk calls :: rest ∧
            ∀ addr, Event.login fd addr ∉ middle := by
        intro hes he
        obtain ⟨middle, calls, rest, rfl, hlogin⟩ := ih.mp hes
        refine ⟨e :: middle, calls, rest, rfl, fun addr hin => ?_⟩
        obtain hhead | hin := List.mem_cons.mp hin
        · exact he addr hhead.symm
        · exact hlogin addr hin
      cases e with
      | login ssock fsin =>
        rw [reads] at hmem
        split at hmem
        next => simp at hmem
        next hne => exact hlater hmem (by simp [hne])
      | line sockfd first calls =>
        rw [reads] at hmem
        split at hmem
        next hfd =>
          subst hfd
          obtain rfl | hmem := List.mem_cons.mp hmem
          · exact ⟨[], calls, es, rfl, by simp⟩
          · exact hlater hmem (by simp)
        next => exact hlater hmem (by simp)
    · rintro ⟨middle, calls, rest, heq, hlogin⟩
      cases middle with
      | nil =>
        cases heq
        simp [reads]
      | cons first middle =>
        rw [List.cons_append, List.cons.injEq] at heq
        obtain ⟨rfl, rfl⟩ := heq
        have hes : chunk ∈ reads fd (middle ++ .line fd chunk calls :: rest) :=
          ih.mpr ⟨middle, calls, rest, rfl, fun addr hin => hlogin addr (List.mem_cons_of_mem _ hin)⟩
        cases e with
        | login ssock fsin =>
          have hne : ssock ≠ fd := by
            rintro rfl
            exact hlogin fsin List.mem_cons_self
          rw [reads, if_neg hne]
          exact hes
        | line sockfd first calls =>
          rw [reads]
          split
          · exact List.mem_cons_of_mem _ hes
          · exact hes

/-- For a client that logs in at any point of any run: the commands that are run
are the lines of its stream exactly when every read brought one line, and its
end is noticed exactly when no read returned 0. -/
theorem stream_framed_iff (limit : Nat) (before : List Event) (fd : Int) (addr : SockaddrIn)
    (es : List Event) (s : Server)
    (hrun : exec (next limit) Server.initial (before ++ .login fd addr :: es) = some s) :
    (executed fd es = terminated '\n' (reads fd es).flatten ↔ OneLineEach (reads fd es)) ∧
      (ClosingNoticed limit (before ++ [.login fd addr]) fd es ↔ [] ∉ reads fd es) := by
  refine ⟨lines_iff, ?_⟩
  have hsame : before ++ .login fd addr :: es = before ++ [.login fd addr] ++ es := by simp
  constructor
  · intro hnoticed hmem
    obtain ⟨middle, calls, rest, rfl, hlogin⟩ := mem_reads_iff.mp hmem
    rw [hsame, ← List.append_assoc, exec_append, exec_append, exec_concat] at hrun
    obtain ⟨t, hmiddle, -⟩ := Option.bind_eq_some_iff.mp hrun
    have hends := hnoticed middle calls rest t rfl hlogin (by rw [exec_append, exec_concat, hmiddle])
    obtain ⟨u, hu, -⟩ := Option.bind_eq_some_iff.mp hmiddle
    obtain ⟨v, -, hv⟩ := Option.bind_eq_some_iff.mp hu
    exact not_clientEnds (next_eq_some hv).1.1 hends
  · intro hclosed middle calls rest t hes hlogin _
    exact absurd (mem_reads_iff.mpr ⟨middle, calls, rest, hes, hlogin⟩) hclosed

/-- One command, one read. -/
def oneRead (chunk : Text) : Event := .line 4 chunk fun _ => ⟨(6, 7), 0⟩

def home : SockaddrIn := ⟨[127, 0, 0, 1], 4000⟩

theorem stream_framed_iff_twoReads :
    ∃ s, exec (next 30) Server.initial [.login 4 home, oneRead "who\n".toList,
        oneRead "name a\n".toList] = some s ∧
      (executed 4 [oneRead "who\n".toList, oneRead "name a\n".toList] =
          terminated '\n' (reads 4 [oneRead "who\n".toList, oneRead "name a\n".toList]).flatten ↔
        OneLineEach (reads 4 [oneRead "who\n".toList, oneRead "name a\n".toList])) ∧
      (ClosingNoticed 30 [.login 4 home] 4 [oneRead "who\n".toList, oneRead "name a\n".toList] ↔
        [] ∉ reads 4 [oneRead "who\n".toList, oneRead "name a\n".toList]) := by
  have hsome : (exec (next 30) Server.initial [.login 4 home, oneRead "who\n".toList,
      oneRead "name a\n".toList]).isSome = true := by decide
  have hrun := Option.eq_some_of_isSome hsome
  exact ⟨_, hrun, stream_framed_iff 30 [] 4 home _ _ hrun⟩

/-- Two lines in one read are one command, and a closed connection is prompted. -/
theorem one_read_one_command :
    ((exec (next 30) Server.initial [.login 4 home, oneRead "who\nname a\n".toList]).isSome ∧
      executed 4 [oneRead "who\nname a\n".toList] = ["who\nname a".toList] ∧
      terminated '\n' (reads 4 [oneRead "who\nname a\n".toList]).flatten =
        ["who".toList, "name a".toList]) ∧
    ((exec (next 30) Server.initial [.login 4 home, oneRead []]).isSome ∧
      ¬ ClosingNoticed 30 [.login 4 home] 4 [oneRead []]) := by
  refine ⟨⟨by decide, by decide, by decide⟩, ⟨by decide, ?_⟩⟩
  intro hnoticed
  have hsome : (exec (next 30) Server.initial [.login 4 home]).isSome = true := by decide
  have hrun := Option.eq_some_of_isSome hsome
  exact not_clientEnds (by decide) (hnoticed [] _ [] _ rfl (by simp) hrun)

end NetworkProgramming.Single
