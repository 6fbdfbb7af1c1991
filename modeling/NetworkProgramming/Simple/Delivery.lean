import NetworkProgramming.Library.Run
import NetworkProgramming.Library.Schedule
import NetworkProgramming.Simple.Rounds
import Mathlib.Data.List.Nodup

/-! Delivery of numbered pipes over runs of command lines: the countdown table
against the schedule of the lines' targets. -/
namespace NetworkProgramming.Simple
open Library.CString Library.Descriptors Library.Run Library.Schedule Library.Search CommandLine

/-- A counted line: one that ran commands. -/
structure Record where
  line : Text
  children : List Child
  deriving DecidableEq, Repr

def Record.number (r : Record) : Option Nat := endNumber r.line

def Record.lastPipe (r : Record) : Option Nat := r.children.getLast?.map Child.pipe

/-- The process, and the lines it has counted so far. -/
structure Session where
  shell : Shell
  log : List Record

def Session.initial (sockfd : Int) : Session := ⟨Shell.initial sockfd, []⟩

structure Event where
  chunk : Text
  calls : Nat → ParserCall

/-- One round of `handle_new_connection`; `exit` ends the process. -/
def next (sockfd : Int) (st : Session) (e : Event) : Option Session :=
  match doExec st.shell (lineOf e.chunk) sockfd e.calls with
  | none => none
  | some (.nothing s) => some { st with shell := s }
  | some (.builtin s b) => if b = .exit then none else some { st with shell := s }
  | some (.ran s children) => some ⟨s, st.log ++ [⟨lineOf e.chunk, children⟩]⟩

/-- The pair that `parser` returns holds the descriptors of its pipe. -/
def Event.Returned (e : Event) : Prop := ∀ i, (e.calls i).getData = (e.calls i).pipeFd

def Counted (line : Text) : Prop :=
  blank (readLine line).commands = false ∧ builtin (readLine line).commands = none

instance (line : Text) : Decidable (Counted line) := by
  unfold Counted
  infer_instance

/-- A line that the table can schedule: its end is read as written, only counted
lines have a number, no counter leaves the range of `int`, and a new entry finds
a free one that the loops reach. -/
structure Fits (s : Shell) (line : Text) : Prop where
  number : (readLine line).pipeNumber = (endNumber line).map Nat.cast
  counted : Counted line ∨ endNumber line = none
  range : ∀ n, endNumber line = some n → n + 1 < 2 ^ 31
  counters : Counted line → ∀ j < 1000, -2 ^ 31 < s.inputCount j
  room : ∀ n : Nat, endNumber line = some n → findTarget s n = none →
    s.pos < 1000 ∧ s.inputCount s.pos ≤ 0

instance (s : Shell) (line : Text) : Decidable (Fits s line) :=
  decidable_of_iff
    ((readLine line).pipeNumber = (endNumber line).map Nat.cast ∧
      (Counted line ∨ endNumber line = none) ∧ (∀ n ∈ endNumber line, n + 1 < 2 ^ 31) ∧
      (Counted line → ∀ j < 1000, -2 ^ 31 < s.inputCount j) ∧
      ∀ n ∈ endNumber line, findTarget s n = none → s.pos < 1000 ∧ s.inputCount s.pos ≤ 0)
    ⟨fun h => ⟨h.1, h.2.1, h.2.2.1, h.2.2.2.1, h.2.2.2.2⟩,
      fun h => ⟨h.number, h.counted, h.range, h.counters, h.room⟩⟩

def numbers (log : List Record) : Numbers := log.map Record.number

/-- The pipe for the line `t`: the last one of the first line that targets it. -/
def pipeFor (log : List Record) (t : Nat) : Option Nat :=
  (maker (numbers log) t).bind fun m => log[m]?.bind Record.lastPipe

variable {log : List Record} {r r' : Record} {sockfd : Int} {s s' : Shell} {l m n p t : Nat}

theorem numbers_concat : numbers (log ++ [r]) = numbers log ++ [r.number] := by
  simp [numbers]

theorem length_numbers : (numbers log).length = log.length := List.length_map _

theorem maker_numbers_lt (h : maker (numbers log) t = some m) : m < log.length := by
  have hm := (maker_eq_some.mp h).1
  rwa [length_numbers] at hm

theorem pipeFor_concat (h : pipeFor log t = some p) : pipeFor (log ++ [r]) t = some p := by
  obtain ⟨m, hmaker, hp⟩ := Option.bind_eq_some_iff.mp h
  rw [pipeFor, numbers_concat, maker_concat_of_some hmaker, Option.bind_some,
    List.getElem?_append_left (maker_numbers_lt hmaker), hp]

theorem maker_concat_old (ht : t ≤ log.length) :
    maker (numbers (log ++ [r])) t = maker (numbers log) t := by
  rw [numbers_concat]
  cases hmaker : maker (numbers log) t with
  | some m => exact maker_concat_of_some hmaker
  | none =>
    rw [maker_concat_of_none hmaker, if_neg]
    intro htarget
    obtain ⟨n, hn, rfl⟩ := Option.map_eq_some_iff.mp htarget
    have hpos := endNumber_pos hn
    rw [length_numbers] at ht
    omega

theorem pipeFor_old (ht : t ≤ log.length) : pipeFor (log ++ [r]) t = pipeFor log t := by
  rw [pipeFor, maker_concat_old ht, pipeFor]
  cases hmaker : maker (numbers log) t with
  | none => rfl
  | some m =>
    rw [Option.bind_some, Option.bind_some, List.getElem?_append_left (maker_numbers_lt hmaker)]

def allPipes (log : List Record) : List Nat := (log.flatMap Record.children).map Child.pipe

theorem allPipes_concat : allPipes (log ++ [r]) = allPipes log ++ r.children.map Child.pipe := by
  simp [allPipes]

theorem pipe_mem {i : Nat} {c : Child} (hc : r.children[i]? = some c) :
    c.pipe ∈ r.children.map Child.pipe :=
  List.mem_map_of_mem (List.mem_of_getElem? hc)

theorem record_disjoint (hnodup : (allPipes log).Nodup) {i j : Nat} {c d : Child}
    (hl : log[l]? = some r) (hm : log[m]? = some r') (hlm : l < m)
    (hc : r.children[i]? = some c) (hd : r'.children[j]? = some d) : c.pipe ≠ d.pipe := by
  intro hpipe
  rw [allPipes, List.map_flatMap, List.nodup_flatMap] at hnodup
  obtain ⟨hlLength, hlGet⟩ := List.getElem?_eq_some_iff.mp hl
  obtain ⟨hmLength, hmGet⟩ := List.getElem?_eq_some_iff.mp hm
  have hdisjoint : List.Disjoint (log[l].children.map Child.pipe) (log[m].children.map Child.pipe) :=
    List.pairwise_iff_getElem.mp hnodup.2 l m hlLength hmLength hlm
  rw [hlGet, hmGet] at hdisjoint
  apply hdisjoint (pipe_mem hc)
  rw [hpipe]
  exact pipe_mem hd

theorem child_unique (hnodup : (allPipes log).Nodup) {i j : Nat} {c d : Child}
    (hl : log[l]? = some r) (hm : log[m]? = some r') (hc : r.children[i]? = some c)
    (hd : r'.children[j]? = some d) (hpipe : c.pipe = d.pipe) : l = m ∧ i = j := by
  rcases Nat.lt_trichotomy l m with hlt | rfl | hgt
  · exact absurd hpipe (record_disjoint hnodup hl hm hlt hc hd)
  · rw [hl, Option.some.injEq] at hm
    subst hm
    refine ⟨rfl, ?_⟩
    rw [allPipes, List.map_flatMap, List.nodup_flatMap] at hnodup
    have hrecord := hnodup.1 r (List.mem_of_getElem? hl)
    obtain ⟨hi, -⟩ := List.getElem?_eq_some_iff.mp hc
    have hsame : (r.children.map Child.pipe)[i]? = (r.children.map Child.pipe)[j]? := by
      simp [hc, hd, hpipe]
    exact (List.getElem?_inj (by simpa using hi) hrecord).mp hsame
  · exact absurd hpipe.symm (record_disjoint hnodup hm hl hgt hd hc)

theorem lastPipe_eq_some : r.lastPipe = some p ↔
    ∃ c, r.children[r.children.length - 1]? = some c ∧ c.pipe = p := by
  simp [Record.lastPipe, List.getLast?_eq_getElem?]

theorem lastPipe_unique (hnodup : (allPipes log).Nodup) (hl : log[l]?.bind Record.lastPipe = some p)
    (hm : log[m]?.bind Record.lastPipe = some p) : l = m := by
  obtain ⟨r, hr, hrp⟩ := Option.bind_eq_some_iff.mp hl
  obtain ⟨r', hr', hrp'⟩ := Option.bind_eq_some_iff.mp hm
  obtain ⟨c, hc, hcp⟩ := lastPipe_eq_some.mp hrp
  obtain ⟨d, hd, hdp⟩ := lastPipe_eq_some.mp hrp'
  exact (child_unique hnodup hr hr' hc hd (hcp.trans hdp.symm)).1

theorem pipeFor_unique (hnodup : (allPipes log).Nodup) {t' : Nat} (h : pipeFor log t = some p)
    (h' : pipeFor log t' = some p) : t = t' := by
  obtain ⟨m, hm, hp⟩ := Option.bind_eq_some_iff.mp h
  obtain ⟨m', hm', hp'⟩ := Option.bind_eq_some_iff.mp h'
  have hsame := lastPipe_unique hnodup hp hp'
  subst hsame
  have htarget := (maker_eq_some.mp hm).2.1
  rw [(maker_eq_some.mp hm').2.1, Option.some.injEq] at htarget
  exact htarget.symm

theorem lastPipe_mem (h : log[m]?.bind Record.lastPipe = some p) : p ∈ allPipes log := by
  obtain ⟨r, hr, hp⟩ := Option.bind_eq_some_iff.mp h
  obtain ⟨c, hc, rfl⟩ := lastPipe_eq_some.mp hp
  rw [allPipes, List.mem_map]
  exact ⟨c, List.mem_flatMap.mpr ⟨r, List.mem_of_getElem? hr, List.mem_of_getElem? hc⟩, rfl⟩

/-- Entry `j` has the pipe of line `m`, both ends open. -/
def Holds (log : List Record) (s : Shell) (j m : Nat) : Prop :=
  ∃ p, log[m]?.bind Record.lastPipe = some p ∧ s.files (s.inputNum j) = some (.readEnd p) ∧
    s.files (s.outputNum j) = some (.writeEnd p)

structure Wired (log : List Record) : Prop where
  first : ∀ (l : Nat) (r : Record), log[l]? = some r → ∃ c, r.children.head? = some c ∧
    c.stdin = some ((pipeFor log l).elim .terminal .readEnd)
  later : ∀ (l : Nat) (r : Record) (i : Nat) (c d : Child), log[l]? = some r →
    r.children[i]? = some c → r.children[i + 1]? = some d →
    d.stdin = some (.readEnd c.pipe)
  last : ∀ (l : Nat) (r : Record) (n : Nat), log[l]? = some r → r.number = some n →
    ∃ p c, pipeFor log (l + n) = some p ∧
    r.children.getLast? = some c ∧ ('>' ∉ c.cmd → c.stdout = some (.writeEnd p))

structure Invariant (sockfd : Int) (st : Session) : Prop where
  serving : Serving sockfd st.shell.files
  follows : Follows (numbers st.log) 1000 st.shell.inputCount (Holds st.log st.shell)
  counts : ∀ j, st.shell.inputCount j < 2 ^ 31
  pipes : allPipes st.log = List.range st.shell.made
  wired : Wired st.log

theorem Invariant.initial (hsockfd : 2 < sockfd) : Invariant sockfd (Session.initial sockfd) := by
  have hzero : (0 : Int) ≠ sockfd := by omega
  have hone : (1 : Int) ≠ sockfd := by omega
  have htwo : (2 : Int) ≠ sockfd := by omega
  constructor
  · constructor
    · simp [Session.initial, Shell.initial, hzero]
    · simp [Session.initial, Shell.initial, hone]
    · simp [Session.initial, Shell.initial, htwo]
    · simp [Session.initial, Shell.initial]
  · exact Follows.nil
  · intro j
    simp [Session.initial, Shell.initial]
  · rfl
  · constructor
    · intro l r hl
      simp [Session.initial] at hl
    · intro l r i c d hl
      simp [Session.initial] at hl
    · intro l r n hl
      simp [Session.initial] at hl

theorem Wired.concat (h : Wired log) (hfirst : ∃ c, r.children.head? = some c ∧
      c.stdin = some ((pipeFor log log.length).elim .terminal .readEnd))
    (hlater : ∀ i c d, r.children[i]? = some c → r.children[i + 1]? = some d →
      d.stdin = some (.readEnd c.pipe))
    (hlast : ∀ n, r.number = some n → ∃ p c, pipeFor (log ++ [r]) (log.length + n) = some p ∧
      r.children.getLast? = some c ∧ ('>' ∉ c.cmd → c.stdout = some (.writeEnd p))) :
    Wired (log ++ [r]) := by
  constructor
  · intro l r' hl
    rcases getElem?_concat_eq_some hl with ⟨hlt, hold⟩ | ⟨rfl, rfl⟩
    · rw [pipeFor_old (by omega)]
      exact h.first l r' hold
    · rw [pipeFor_old (le_refl _)]
      exact hfirst
  · intro l r' i c d hl
    rcases getElem?_concat_eq_some hl with ⟨-, hold⟩ | ⟨-, rfl⟩
    · exact h.later l r' i c d hold
    · exact hlater i c d
  · intro l r' n hl hn
    rcases getElem?_concat_eq_some hl with ⟨-, hold⟩ | ⟨rfl, rfl⟩
    · obtain ⟨p, c, hp, hc, hstdout⟩ := h.last l r' n hold hn
      exact ⟨p, c, pipeFor_concat hp, hc, hstdout⟩
    · exact hlast n hn

inductive Claimed (sockfd : Int) (st : Session) (line : Text) : Shell × Nat × Int → Prop
  | plain (hnumber : endNumber line = none) : Claimed sockfd st line (st.shell, 0, sockfd)
  | merged (n p : Nat) (fd : Int) (hnumber : endNumber line = some n)
      (hp : pipeFor st.log (st.log.length + n) = some p)
      (hfd : st.shell.files fd = some (.writeEnd p)) : Claimed sockfd st line (st.shell, 1, fd)
  | fresh (n : Nat) (hnumber : endNumber line = some n)
      (hnone : maker (numbers st.log) (st.log.length + n) = none) (hpos : st.shell.pos < 1000)
      (hfree : st.shell.inputCount st.shell.pos ≤ 0)
      (hint : int32 ((n : Int) + 1) = n + 1) :
      Claimed sockfd st line (claimNew st.shell n, 2, sockfd)

variable {st : Session} {line : Text}

theorem claimEntry_claimed (hinv : Invariant sockfd st) (hfits : Fits st.shell line) :
    Claimed sockfd st line (claimEntry st.shell sockfd (readLine line).pipeNumber) := by
  rw [hfits.number]
  cases hnumber : endNumber line with
  | none => exact .plain hnumber
  | some n =>
    have hrange := hfits.range n hnumber
    have hint : int32 ((n : Int) + 1) = n + 1 := int32_eq_self (by omega) (by omega)
    simp only [Option.map_some, claimEntry]
    cases hfind : findTarget st.shell n with
    | some i =>
      rw [findTarget, List.find?_range_eq_some] at hfind
      obtain ⟨hcount, hi, -⟩ := hfind
      rw [List.mem_range] at hi
      rw [decide_eq_true_eq, hint] at hcount
      obtain ⟨m, hmaker, p, hp, -, hwrite⟩ := hinv.follows.sound i (st.log.length + n) hi
        (by rw [length_numbers]; omega) (by rw [length_numbers, hcount]; omega)
      refine .merged n p _ hnumber ?_ hwrite
      rw [pipeFor, hmaker, Option.bind_some, hp]
    | none =>
      obtain ⟨hpos, hfree⟩ := hfits.room n hnumber hfind
      refine .fresh n hnumber ?_ hpos hfree hint
      cases hmaker : maker (numbers st.log) (st.log.length + n) with
      | none => rfl
      | some m =>
        -- the counter of this target would have been found
        obtain ⟨j, hj, hcount⟩ := hinv.follows.complete _ m (by rw [length_numbers]; omega) hmaker
        rw [length_numbers] at hcount
        rw [findTarget, List.find?_eq_none] at hfind
        have hmiss := hfind j (List.mem_range.mpr hj)
        rw [decide_eq_true_eq, hint] at hmiss
        exact absurd (by omega) hmiss

def lineSpared (st : Session) (p : Nat) : Prop :=
  st.shell.made ≤ p ∨ pipeFor st.log st.log.length = some p

theorem Invariant.nodup (hinv : Invariant sockfd st) : (allPipes st.log).Nodup := by
  rw [hinv.pipes]
  exact List.nodup_range

theorem Invariant.made_gt (hinv : Invariant sockfd st) (hp : pipeFor st.log t = some p) :
    p < st.shell.made := by
  obtain ⟨m, -, hm⟩ := Option.bind_eq_some_iff.mp hp
  have hmem := lastPipe_mem hm
  rwa [hinv.pipes, List.mem_range] at hmem

theorem Invariant.not_spared (hinv : Invariant sockfd st) (hp : pipeFor st.log t = some p)
    (ht : t ≠ st.log.length) : ¬ lineSpared st p := by
  rintro (hmade | hdue)
  · have hlt := hinv.made_gt hp
    omega
  · exact ht (pipeFor_unique hinv.nodup hp hdue)

theorem Claimed.same {claimed : Shell} {getInput : Nat} {fd : Int}
    (h : Claimed sockfd st line (claimed, getInput, fd)) :
    claimed.files = st.shell.files ∧ claimed.inputNum = st.shell.inputNum ∧
      claimed.outputNum = st.shell.outputNum ∧ claimed.made = st.shell.made ∧
      ∀ j, claimed.inputCount j = 1 ↔ st.shell.inputCount j = 1 := by
  cases h with
  | plain => exact ⟨rfl, rfl, rfl, rfl, fun j => Iff.rfl⟩
  | merged => exact ⟨rfl, rfl, rfl, rfl, fun j => Iff.rfl⟩
  | fresh n hnumber _ _ hfree hint =>
    have hn := endNumber_pos hnumber
    refine ⟨rfl, rfl, rfl, rfl, fun j => ?_⟩
    simp only [claimNew, Function.update_apply]
    split
    next hj =>
      rw [hint, hj]
      omega
    next => rfl

theorem Invariant.dueFile (hinv : Invariant sockfd st) {claimed : Shell} {getInput : Nat} {fd : Int}
    (hclaim : Claimed sockfd st line (claimed, getInput, fd)) :
    DueFile (lineSpared st) claimed
      ((pipeFor st.log st.log.length).elim .terminal .readEnd) := by
  obtain ⟨hfiles, hinput, houtput, -, hone⟩ := hclaim.same
  cases hdue : dueEntry claimed with
  | none =>
    rw [dueEntry, lastBelow_eq_none] at hdue
    have hnone : pipeFor st.log st.log.length = none := by
      rw [pipeFor]
      cases hmaker : maker (numbers st.log) st.log.length with
      | none => rfl
      | some m =>
        obtain ⟨j, hj, hcount⟩ := hinv.follows.complete _ m (by rw [length_numbers]) hmaker
        rw [length_numbers] at hcount
        have hmiss := hdue j hj
        rw [decide_eq_false_iff_not, hone j] at hmiss
        exact absurd (by omega) hmiss
    rw [hnone]
    exact .none (by rw [dueEntry, lastBelow_eq_none]; exact hdue)
  | some j =>
    have hlast := hdue
    rw [dueEntry, lastBelow_eq_some] at hlast
    obtain ⟨hj, hcount, -⟩ := hlast
    rw [decide_eq_true_eq, hone j] at hcount
    obtain ⟨m, hmaker, p, hp, hread, hwrite⟩ := hinv.follows.sound j st.log.length hj
      (by rw [length_numbers]) (by rw [length_numbers, hcount]; omega)
    have hpipe : pipeFor st.log st.log.length = some p := by
      rw [pipeFor, hmaker, Option.bind_some, hp]
    rw [hpipe]
    refine .some j p hdue ?_ ?_ (.inr hpipe)
    · rw [hfiles, hinput]
      exact hread
    · rw [hfiles, houtput]
      exact hwrite

/-- The file behind `last_output`: the socket, or the pipe that is merged into. -/
theorem Invariant.outputFile (hinv : Invariant sockfd st) {claimed : Shell} {getInput : Nat}
    {fd : Int} (hclaim : Claimed sockfd st line (claimed, getInput, fd)) :
    ∃ output, claimed.files fd = some output ∧
      Unspared (lineSpared st) claimed.made output ∧
      (getInput = 1 → ∀ n, endNumber line = some n →
        ∃ p, pipeFor st.log (st.log.length + n) = some p ∧ output = .writeEnd p) := by
  have hlater : ∀ p, st.shell.made ≤ p → lineSpared st p := fun p => .inl
  cases hclaim with
  | plain hnumber =>
    exact ⟨.socket, hinv.serving.socket, ⟨hlater, by simp, by simp⟩, by simp⟩
  | merged n p fd hnumber hp hfd =>
    have hn := endNumber_pos hnumber
    refine ⟨.writeEnd p, hfd, ⟨hlater, ?_, by simp⟩, ?_⟩
    · intro q hq
      obtain rfl : p = q := by simpa using hq
      exact hinv.not_spared hp (by omega)
    · intro _ n' hn'
      rw [hnumber, Option.some.injEq] at hn'
      subst hn'
      exact ⟨p, hp, rfl⟩
  | fresh n hnumber hnone hpos hfree hint =>
    exact ⟨.socket, hinv.serving.socket, ⟨hlater, by simp, by simp⟩, by simp⟩

section Counted
variable {claimed : Shell} {getInput : Nat} {fd : Int} {stdin output : File} {cmds : List Text}
  {children : List Child}

theorem Invariant.holds_kept (hinv : Invariant sockfd st) (r : Record) {j : Nat} (hj : j < 1000)
    (hcount : 1 < st.shell.inputCount j) (hholds : Holds st.log st.shell j m)
    (hspares : Spares (lineSpared st) st.shell.files s'.files)
    (hinput : s'.inputNum j = st.shell.inputNum j)
    (houtput : s'.outputNum j = st.shell.outputNum j) : Holds (st.log ++ [r]) s' j m := by
  obtain ⟨p, hp, hread, hwrite⟩ := hholds
  have hlength := @length_numbers st.log
  have hlast : 0 ≤ st.shell.inputCount j - 1 := by omega
  obtain ⟨d, hd⟩ := Int.eq_ofNat_of_zero_le hlast
  obtain ⟨m', hmaker, p', hp', hread', -⟩ := hinv.follows.sound j (st.log.length + d) hj
    (by omega) (by omega)
  rw [hread] at hread'
  obtain rfl : p = p' := by simpa using hread'
  have hpipe : pipeFor st.log (st.log.length + d) = some p := by
    rw [pipeFor, hmaker, Option.bind_some, hp']
  have hkept := hinv.not_spared hpipe (by omega)
  refine ⟨p, ?_, ?_, ?_⟩
  · obtain ⟨r', hr', hlastPipe⟩ := Option.bind_eq_some_iff.mp hp
    have hm := (List.getElem?_eq_some_iff.mp hr').1
    rw [List.getElem?_append_left hm, hp]
  · rw [hinput]
    exact hspares.readEnd hread hkept
  · rw [houtput]
    exact hspares.writeEnd hwrite hkept

theorem Claimed.countDown (hclaim : Claimed sockfd st line (claimed, getInput, fd))
    (hinv : Invariant sockfd st) (hfits : Fits st.shell line) (hcounted : Counted line) {j : Nat}
    (hj : j < 1000) : (countDown claimed).inputCount j = claimed.inputCount j - 1 := by
  have hlow := hfits.counters hcounted j hj
  have hhigh := hinv.counts j
  simp only [Simple.countDown, if_pos hj]
  cases hclaim with
  | plain => exact int32_eq_self (by omega) (by omega)
  | merged => exact int32_eq_self (by omega) (by omega)
  | fresh n hnumber _ _ _ hint =>
    have hrange := hfits.range n hnumber
    simp only [claimNew, Function.update_apply]
    split
    next =>
      rw [hint]
      exact int32_eq_self (by omega) (by omega)
    next => exact int32_eq_self (by omega) (by omega)

theorem StagesDone.inputCount {spared : Nat → Prop} {base : Shell}
    (h : StagesDone spared base s s' getInput stdin output cmds children) :
    s'.inputCount = base.inputCount := by
  by_cases htwo : getInput = 2
  · obtain ⟨c, pipefd, -, -, -, -, hentries⟩ := h.fresh htwo
    exact hentries.inputCount
  · exact (h.kept htwo).inputCount

theorem Invariant.counted_follows (hinv : Invariant sockfd st) (hfits : Fits st.shell line)
    (hcounted : Counted line) (hclaim : Claimed sockfd st line (claimed, getInput, fd))
    (hdone : StagesDone (lineSpared st) (countDown claimed) claimed s' getInput stdin output cmds
      children) :
    Follows (numbers (st.log ++ [⟨line, children⟩])) 1000 s'.inputCount
      (Holds (st.log ++ [⟨line, children⟩]) s') := by
  have hspares := hdone.spares
  rw [hclaim.same.1] at hspares
  have hdown : ∀ j < 1000, s'.inputCount j = claimed.inputCount j - 1 := by
    intro j hj
    rw [hdone.inputCount]
    exact hclaim.countDown hinv hfits hcounted hj
  rw [numbers_concat, Record.number]
  cases hclaim with
  | plain hnumber =>
    have hkept := hdone.kept (by decide)
    rw [hnumber]
    apply hinv.follows.keep
    · simp
    · exact hdown
    · intro j m hj hcount hm
      exact hinv.holds_kept _ hj hcount hm hspares (by rw [hkept.inputNum]; rfl)
        (by rw [hkept.outputNum]; rfl)
  | merged n p fd hnumber hp hfd =>
    have hkept := hdone.kept (by decide)
    rw [hnumber]
    apply hinv.follows.keep
    · intro n' hn'
      rw [Option.some.injEq] at hn'
      subst hn'
      obtain ⟨m, hm, -⟩ := Option.bind_eq_some_iff.mp hp
      exact ⟨m, by rw [length_numbers]; exact hm⟩
    · exact hdown
    · intro j m hj hcount hm
      exact hinv.holds_kept _ hj hcount hm hspares (by rw [hkept.inputNum]; rfl)
        (by rw [hkept.outputNum]; rfl)
  | fresh n hnumber hnone hpos hfree hint =>
    obtain ⟨c, pipefd, hlast, -, hread, hwrite, hentries⟩ := hdone.fresh rfl
    rw [hnumber]
    apply hinv.follows.claim (by rw [length_numbers]; exact hnone) hpos hfree
    · rw [hdown _ hpos]
      simp [claimNew, hint]
    · intro j hj hne
      rw [hdown j hj]
      simp [claimNew, Function.update_of_ne hne]
    · intro j m hj hne hcount hm
      apply hinv.holds_kept _ hj hcount hm hspares
      · rw [hentries.inputNum]
        exact Function.update_of_ne hne _ _
      · rw [hentries.outputNum]
        exact Function.update_of_ne hne _ _
    · refine ⟨c.pipe, ?_, ?_, ?_⟩
      · rw [length_numbers, List.getElem?_concat_length, Option.bind_some, Record.lastPipe, hlast]
        rfl
      · have hslot : s'.inputNum st.shell.pos = pipefd.1 := by
          rw [hentries.inputNum]
          exact Function.update_self _ _ _
        rw [hslot, hread]
      · have hslot : s'.outputNum st.shell.pos = pipefd.2 := by
          rw [hentries.outputNum]
          exact Function.update_self _ _ _
        rw [hslot, hwrite]

theorem Invariant.counted_wired (hinv : Invariant sockfd st)
    (hclaim : Claimed sockfd st line (claimed, getInput, fd))
    (houtput : getInput = 1 → ∀ n, endNumber line = some n →
      ∃ p, pipeFor st.log (st.log.length + n) = some p ∧ output = .writeEnd p)
    (hdone : StagesDone (lineSpared st) (countDown claimed) claimed s' getInput
      ((pipeFor st.log st.log.length).elim .terminal .readEnd) output cmds children) :
    Wired (st.log ++ [⟨line, children⟩]) := by
  apply hinv.wired.concat hdone.first
  · intro i c d hc hd
    have hpipe : (children.map Child.pipe)[i]? = some c.pipe := by simp [hc]
    rw [hdone.pipes] at hpipe
    obtain ⟨hi, hget⟩ := List.getElem?_eq_some_iff.mp hpipe
    rw [List.getElem_range', Nat.one_mul] at hget
    rw [hdone.later i d hd, hget]
  · intro n hn
    have hnumber : endNumber line = some n := hn
    cases hclaim with
    | plain hnone =>
      rw [hnumber] at hnone
      contradiction
    | merged n' p fd hnumber' hp hfd =>
      obtain ⟨c, hc, hstdout⟩ := hdone.merged rfl
      obtain ⟨p', hp', rfl⟩ := houtput rfl n hnumber
      exact ⟨p', c, pipeFor_concat hp', hc, hstdout⟩
    | fresh n' hnumber' hnone hpos hfree hint =>
      obtain ⟨c, pipefd, hc, hstdout, -⟩ := hdone.fresh rfl
      refine ⟨c.pipe, c, ?_, hc, hstdout⟩
      rw [hnumber, Option.some.injEq] at hnumber'
      subst hnumber'
      have hnone' : maker (numbers st.log) ((numbers st.log).length + n) = none := by
        rw [length_numbers]
        exact hnone
      have hmaker : maker (numbers (st.log ++ [⟨line, children⟩])) (st.log.length + n) =
          some st.log.length := by
        rw [numbers_concat, ← @length_numbers st.log, maker_concat_of_none hnone', if_pos]
        rw [Record.number, hnumber]
        rfl
      rw [pipeFor, hmaker, Option.bind_some, List.getElem?_concat_length, Option.bind_some,
        Record.lastPipe, hc]
      rfl

theorem Invariant.counted (hinv : Invariant sockfd st) (hfits : Fits st.shell line)
    (hcounted : Counted line) (hclaim : Claimed sockfd st line (claimed, getInput, fd))
    (houtput : getInput = 1 → ∀ n, endNumber line = some n →
      ∃ p, pipeFor st.log (st.log.length + n) = some p ∧ output = .writeEnd p)
    (hdone : StagesDone (lineSpared st) (countDown claimed) claimed s' getInput
      ((pipeFor st.log st.log.length).elim .terminal .readEnd) output cmds children) :
    Invariant sockfd ⟨s', st.log ++ [⟨line, children⟩]⟩ := by
  have hspares := hdone.spares
  rw [hclaim.same.1] at hspares
  constructor
  · exact hinv.serving.spares hspares
  · exact hinv.counted_follows hfits hcounted hclaim hdone
  · intro j
    have hold := hinv.counts j
    simp only [hdone.inputCount, Simple.countDown]
    split
    · exact int32_lt _
    · cases hclaim with
      | plain => exact hold
      | merged => exact hold
      | fresh n _ _ hpos _ _ =>
        have hne : j ≠ st.shell.pos := by omega
        simp only [claimNew, Function.update_of_ne hne]
        exact hold
  · have hmade := hclaim.same.2.2.2.1
    rw [allPipes_concat, hinv.pipes, hdone.pipes, hdone.made, hmade, List.range_eq_range',
      List.range_eq_range']
    have hjoin := List.range'_append_1 (s := 0) (m := st.shell.made) (n := cmds.length)
    rwa [Nat.zero_add] at hjoin
  · exact hinv.counted_wired hclaim houtput hdone

end Counted

theorem getInput_claimed {claimed : Shell} {getInput : Nat} {fd : Int}
    (hclaim : Claimed sockfd st line (claimed, getInput, fd)) :
    getInput = 0 ∨ getInput = 1 ∨ getInput = 2 := by
  cases hclaim with
  | plain => exact .inl rfl
  | merged => exact .inr (.inl rfl)
  | fresh => exact .inr (.inr rfl)

theorem uncounted_kept (hnumber : (readLine line).pipeNumber = none) {calls : Nat → ParserCall}
    (hcounted : ¬ Counted line) {o : Outcome} (h : doExec s line sockfd calls = some o) :
    o = .nothing s ∨ ∃ b, o = .builtin s b := by
  unfold doExec at h
  simp only [hnumber, claimEntry] at h
  split at h
  next =>
    simp only [Option.some.injEq] at h
    exact .inl h.symm
  next hblank =>
    split at h
    next b hb =>
      simp only [Option.some.injEq] at h
      exact .inr ⟨b, h.symm⟩
    next hnone =>
      exact absurd ⟨by simpa using hblank, hnone⟩ hcounted

theorem counted_runs {calls : Nat → ParserCall} (hcounted : Counted line) {o : Outcome}
    (h : doExec s line sockfd calls = some o) :
    ∃ l r', (l : Line).lastOutput = (claimEntry s sockfd (readLine line).pipeNumber).2.2 ∧
      runCommands l calls 0 (readLine line).commands
        ⟨(claimEntry s sockfd (readLine line).pipeNumber).1, 0,
          (claimEntry s sockfd (readLine line).pipeNumber).2.1, []⟩ = some r' ∧
      o = .ran r'.shell r'.children := by
  obtain ⟨hblank, hbuiltin⟩ := hcounted
  unfold doExec at h
  simp only [hblank, hbuiltin, Bool.false_eq_true, if_false, Option.map_eq_some_iff] at h
  obtain ⟨r', hrun, rfl⟩ := h
  exact ⟨_, r', rfl, hrun, rfl⟩

theorem Invariant.next (hinv : Invariant sockfd st) {e : Event} {st' : Session}
    (hreturned : e.Returned) (hfits : Fits st.shell (lineOf e.chunk))
    (h : next sockfd st e = some st') : Invariant sockfd st' := by
  unfold Simple.next at h
  cases hexec : doExec st.shell (lineOf e.chunk) sockfd e.calls with
  | none => simp [hexec] at h
  | some o =>
    by_cases hcounted : Counted (lineOf e.chunk)
    · obtain ⟨l, r', hlast, hrun, rfl⟩ := counted_runs hcounted hexec
      simp only [hexec, Option.some.injEq] at h
      subst h
      have hclaim := claimEntry_claimed hinv hfits
      generalize claimEntry st.shell sockfd (readLine (lineOf e.chunk)).pipeNumber = claim
        at hclaim hlast hrun
      obtain ⟨claimed, getInput, fd⟩ := claim
      dsimp only at hlast hrun
      have hne : (readLine (lineOf e.chunk)).commands ≠ [] := by
        intro hnil
        have hblank := hcounted.1
        simp [hnil, blank] at hblank
      obtain ⟨output, hfile, hunspared, hmerged⟩ := hinv.outputFile hclaim
      have hserving : Serving sockfd claimed.files := by
        rw [hclaim.same.1]
        exact hinv.serving
      rw [← hlast] at hfile
      have hdone := runCommands_line (getInput_claimed hclaim) hserving (hinv.dueFile hclaim) hfile
        hunspared hreturned hne hrun
      exact hinv.counted hfits hcounted hclaim hmerged hdone
    · have hnumber : (readLine (lineOf e.chunk)).pipeNumber = none := by
        rw [hfits.number, hfits.counted.resolve_left hcounted]
        rfl
      rcases uncounted_kept hnumber hcounted hexec with rfl | ⟨b, rfl⟩
      · simp only [hexec, Option.some.injEq] at h
        rw [← h]
        exact hinv
      · simp only [hexec] at h
        split at h
        next => contradiction
        next =>
          simp only [Option.some.injEq] at h
          rw [← h]
          exact hinv

theorem invariant_run (hsockfd : 2 < sockfd) (es : List Event) (st : Session)
    (hreturned : ∀ e ∈ es, e.Returned)
    (hfits : Meets (next sockfd) (Session.initial sockfd)
      (fun _ st e => Fits st.shell (lineOf e.chunk)) es)
    (hrun : exec (next sockfd) (Session.initial sockfd) es = some st) : Invariant sockfd st := by
  have hmeets : Meets (next sockfd) (Session.initial sockfd)
      (fun _ st e => e.Returned ∧ Fits st.shell (lineOf e.chunk)) es := by
    intro before e after s heq hs
    exact ⟨hreturned e (by simp [heq]), hfits before e after s heq hs⟩
  apply invariant (I := fun _ => Invariant sockfd) (Invariant.initial hsockfd) _ es hmeets st hrun
  intro before s e s' _ hinv he hstep
  exact hinv.next he.1 he.2 hstep

def Targeted (log : List Record) (t : Nat) : Prop :=
  ∃ l r n, log[l]? = some r ∧ r.number = some n ∧ l + n = t

/-- Every numbered line writes into the pipe of its target, the first command of
the target reads that pipe, and no other command does. -/
structure Delivered (log : List Record) (pipeOf : Nat → Nat) : Prop where
  writes : ∀ (l : Nat) (r : Record) (n : Nat), log[l]? = some r → r.number = some n →
    ∃ c, r.children.getLast? = some c ∧
      ('>' ∉ c.cmd → c.stdout = some (.writeEnd (pipeOf (l + n))))
  reads : ∀ (t : Nat) (r : Record), Targeted log t → log[t]? = some r →
    ∃ c, r.children.head? = some c ∧ c.stdin = some (.readEnd (pipeOf t))
  only : ∀ (t m : Nat) (r : Record) (i : Nat) (c : Child), Targeted log t → log[m]? = some r →
    r.children[i]? = some c → c.stdin = some (.readEnd (pipeOf t)) → m = t ∧ i = 0
  idle : ∀ (t : Nat) (r : Record), ¬ Targeted log t → log[t]? = some r →
    ∃ c, r.children.head? = some c ∧ c.stdin = some .terminal

theorem pipeFor_targeted (h : pipeFor log t = some p) : Targeted log t := by
  obtain ⟨m, hmaker, -⟩ := Option.bind_eq_some_iff.mp h
  obtain ⟨n, hn, htarget⟩ := target_eq_some.mp (maker_eq_some.mp hmaker).2.1
  rw [numbers, List.getElem?_map, Option.map_eq_some_iff] at hn
  obtain ⟨r, hr, hnumber⟩ := hn
  exact ⟨m, r, n, hr, hnumber, htarget⟩

theorem Wired.targeted (hwired : Wired log) (h : Targeted log t) :
    ∃ p, pipeFor log t = some p := by
  obtain ⟨l, r, n, hl, hn, rfl⟩ := h
  obtain ⟨p, -, hp, -⟩ := hwired.last l r n hl hn
  exact ⟨p, hp⟩

/-- The command that reads the pipe of line `t` is the first one of that line. -/
theorem Wired.only (hwired : Wired log) (hnodup : (allPipes log).Nodup) {i : Nat} {c : Child}
    (hp : pipeFor log t = some p) (hm : log[m]? = some r) (hc : r.children[i]? = some c)
    (hstdin : c.stdin = some (.readEnd p)) : m = t ∧ i = 0 := by
  cases i with
  | zero =>
    obtain ⟨c', hc', hfirst⟩ := hwired.first m r hm
    rw [List.head?_eq_getElem?, hc, Option.some.injEq] at hc'
    subst hc'
    rw [hstdin] at hfirst
    cases hfor : pipeFor log m with
    | none => simp [hfor] at hfirst
    | some q =>
      obtain rfl : p = q := by simpa [hfor] using hfirst
      exact ⟨pipeFor_unique hnodup hfor hp, rfl⟩
  | succ i =>
    -- the pipe of the command before, which is not the last one of its line
    exfalso
    obtain ⟨hi, -⟩ := List.getElem?_eq_some_iff.mp hc
    have hbefore : r.children[i]? = some r.children[i] := List.getElem?_eq_getElem (by omega)
    have hpipe := hwired.later m r i _ c hm hbefore hc
    rw [hstdin, Option.some.injEq, File.readEnd.injEq] at hpipe
    obtain ⟨l, -, hlast⟩ := Option.bind_eq_some_iff.mp hp
    obtain ⟨r', hr', hlast⟩ := Option.bind_eq_some_iff.mp hlast
    obtain ⟨d, hd, hdp⟩ := lastPipe_eq_some.mp hlast
    obtain ⟨rfl, hlength⟩ := child_unique hnodup hm hr' hbefore hd (hpipe.symm.trans hdp.symm)
    rw [hm, Option.some.injEq] at hr'
    subst hr'
    omega

theorem Wired.delivered (hwired : Wired log) (hnodup : (allPipes log).Nodup) :
    Delivered log fun t => (pipeFor log t).getD 0 := by
  constructor
  · intro l r n hl hn
    obtain ⟨p, c, hp, hc, hstdout⟩ := hwired.last l r n hl hn
    refine ⟨c, hc, ?_⟩
    rw [hp]
    exact hstdout
  · intro t r ht hr
    obtain ⟨p, hp⟩ := hwired.targeted ht
    obtain ⟨c, hc, hstdin⟩ := hwired.first t r hr
    refine ⟨c, hc, ?_⟩
    rw [hstdin, hp]
    rfl
  · intro t m r i c ht hm hc hstdin
    obtain ⟨p, hp⟩ := hwired.targeted ht
    rw [hp] at hstdin
    exact hwired.only hnodup hp hm hc hstdin
  · intro t r ht hr
    obtain ⟨c, hc, hstdin⟩ := hwired.first t r hr
    refine ⟨c, hc, ?_⟩
    cases hfor : pipeFor log t with
    | none => rw [hstdin, hfor]; rfl
    | some p => exact absurd (pipeFor_targeted hfor) ht

/-- Numbered pipes are delivered over every run whose lines all fit. -/
theorem lines_delivered (sockfd : Int) (hsockfd : 2 < sockfd) (es : List Event) (st : Session)
    (hreturned : ∀ e ∈ es, e.Returned)
    (hfits : Meets (next sockfd) (Session.initial sockfd)
      (fun _ st e => Fits st.shell (lineOf e.chunk)) es)
    (hrun : exec (next sockfd) (Session.initial sockfd) es = some st) :
    ∃ pipeOf, Delivered st.log pipeOf := by
  have hinv := invariant_run hsockfd es st hreturned hfits hrun
  refine ⟨_, hinv.wired.delivered ?_⟩
  rw [hinv.pipes]
  exact List.nodup_range

/-- A call in which `malloc` returned the block of an earlier pair like its own. -/
def pairFrom (fd : Nat) : ParserCall :=
  ⟨(fd, fd + 1), BitVec.ofNat 64 (fd + (fd + 1) * 2 ^ 32)⟩

def event (chunk : String) (call : ParserCall) : Event := ⟨chunk.toList, fun _ => call⟩

theorem event_returned {chunk : String} {call : ParserCall} (h : call.getData = call.pipeFd) :
    (event chunk call).Returned := fun _ => h

def oneNumbered : List Event := [event "ls |1\n" (pairFrom 5), event "cat\n" (pairFrom 7)]

theorem lines_delivered_oneNumbered :
    ∃ st, exec (next 4) (Session.initial 4) oneNumbered = some st ∧
      ∃ pipeOf, Delivered st.log pipeOf := by
  have hsome : (exec (next 4) (Session.initial 4) oneNumbered).isSome := by decide +kernel
  have hrun := Option.eq_some_of_isSome hsome
  have hreturned : ∀ e ∈ oneNumbered, e.Returned := by
    intro e he
    simp only [oneNumbered, List.mem_cons, List.not_mem_nil, or_false] at he
    rcases he with rfl | rfl <;> exact event_returned (by decide)
  have hfits : Meets (next 4) (Session.initial 4)
      (fun _ st e => Fits st.shell (lineOf e.chunk)) oneNumbered := by decide +kernel
  exact ⟨_, hrun, lines_delivered 4 (by decide) oneNumbered _ hreturned hfits hrun⟩

/-- A built-in whose line is numbered, and a line with the same target. -/
def numberedBuiltin : List Event :=
  [event "printenv PATH |2\n" (pairFrom 5), event "ls |2\n" (pairFrom 5)]

/-- The output of `ls` goes to the descriptor of an entry that has no pipe. -/
theorem numbered_builtin_undelivered :
    ∃ st, exec (next 4) (Session.initial 4) numberedBuiltin = some st ∧
      (∀ e ∈ numberedBuiltin, e.Returned) ∧ ¬ ∃ pipeOf, Delivered st.log pipeOf := by
  have hlog : (exec (next 4) (Session.initial 4) numberedBuiltin).map Session.log =
      some [⟨"ls |2".toList,
        [⟨"ls ".toList, some .terminal, some .terminal, some .terminal, 0⟩]⟩] := by decide +kernel
  obtain ⟨st, hrun, hlog⟩ := Option.map_eq_some_iff.mp hlog
  refine ⟨st, hrun, ?_, ?_⟩
  · intro e he
    simp only [numberedBuiltin, List.mem_cons, List.not_mem_nil, or_false] at he
    rcases he with rfl | rfl <;> exact event_returned (by decide)
  · intro hdelivered
    obtain ⟨pipeOf, hdelivered⟩ := hdelivered
    rw [hlog] at hdelivered
    have hnumber : endNumber "ls |2".toList = some 2 := by decide +kernel
    obtain ⟨c, hc, hstdout⟩ := hdelivered.writes 0 _ 2 rfl hnumber
    simp only [List.getLast?_singleton, Option.some.injEq] at hc
    subst hc
    simp at hstdout

end NetworkProgramming.Simple
