import NetworkProgramming.Library.Descriptors
import NetworkProgramming.Single.Files
import NetworkProgramming.Single.Variables

/-! The calls of `dup2` in a child of `parser`, and the descriptors that its standard
input, output and error are in the end. -/
namespace NetworkProgramming.Single
open Library.CString Library.Descriptors CommandLine

/-- The calls of `dup2` in a child before the look at `<` and `>`, in their order. -/
def stageDups (args : ParserArgs) : Dups :=
  (args.sockfd, 1) ::
    if args.first ∧ ¬ args.last ∧ args.input = 0 then [(args.pipeFd.2, 1), (args.sockfd, 2)]
    else if ¬ args.first ∧ ¬ args.last ∧ args.input ≠ 0 then
      [(args.input, 0), (args.pipeFd.2, 1), (args.sockfd, 2)]
    else if args.first ∧ args.last ∧ args.getInput = 4 ∧ args.input = 0 then
      [(args.pipeFd.2, 1), (args.sockfd, 2)]
    else if args.first ∧ args.last ∧ args.getInput = 4 ∧ args.input ≠ 0 then
      [(args.input, 0), (args.pipeFd.2, 1), (args.sockfd, 2)]
    else if args.first ∧ ¬ args.last ∧ args.input ≠ 0 then
      [(args.input, 0), (args.pipeFd.2, 1), (args.sockfd, 2)]
    else [(args.input, 0), (args.output, 1), (args.output, 2)]

def errorDups (args : ParserArgs) : Dups :=
  if args.nPipeErr ∧ args.getInput ≠ 3 then [(args.pipeFd.2, 2)]
  else if args.nPipeErr ∧ args.getInput = 3 then [(args.output, 2)]
  else []

def enterDups (args : ParserArgs) : Dups := if args.enter then [(args.input, 0)] else []

def lastDups (args : ParserArgs) : Dups :=
  if args.last ∧ args.getInput = 4 then [(args.pipeFd.2, 1)]
  else if args.last ∧ args.getInput = 3 then [(args.output, 1)]
  else []

def childDups (args : ParserArgs) : Dups :=
  stageDups args ++ errorDups args ++ enterDups args ++ lastDups args

variable {t : Table} {args : ParserArgs} {s : Server}

theorem stageFiles_eq : stageFiles t args = dupAll t (stageDups args) := by
  unfold stageFiles stageDups
  dsimp only
  split_ifs <;> rfl

theorem errorFiles_eq : errorFiles t args = dupAll t (errorDups args) := by
  unfold errorFiles errorDups
  split_ifs <;> rfl

theorem enterFiles_eq : enterFiles t args = dupAll t (enterDups args) := by
  unfold enterFiles enterDups
  split_ifs <;> rfl

theorem lastFiles_eq : lastFiles t args = dupAll t (lastDups args) := by
  unfold lastFiles lastDups
  split_ifs <;> rfl

/-- A child without a `>` runs its program on the files these calls give it. -/
theorem childFiles_eq (hplain : '>' ∉ args.cmd) :
    childFiles s t args = some (dupAll t (childDups args)) := by
  have hpipes : pipesOut args.cmd = false := by
    rw [pipesOut, strchr_eq_none hplain]
  unfold childFiles redirect childDups
  rw [hpipes, if_neg (by decide), if_neg hplain, lastFiles_eq, enterFiles_eq, errorFiles_eq,
    stageFiles_eq, dupAll_append, dupAll_append, dupAll_append]

theorem source_append {dups more : Dups} {new : Int} : source (dups ++ more) new =
    more.foldl (fun fd d => if d.2 = new then d.1 else fd) (source dups new) := List.foldl_append

theorem source_stageDups_stdin : source (stageDups args) 0 = args.input := by
  unfold stageDups source
  split_ifs <;> simp <;> omega

theorem source_stageDups_stdout : source (stageDups args) 1 =
    if (args.last = false ∧ (args.first = true ∨ args.input ≠ 0)) ∨
      (args.first = true ∧ args.last = true ∧ args.getInput = 4) then args.pipeFd.2
    else args.output := by
  unfold stageDups source
  cases args.first <;> cases args.last <;> by_cases hinput : args.input = 0 <;>
    by_cases hget : args.getInput = 4 <;> simp [hinput, hget]

theorem source_stageDups_stderr : source (stageDups args) 2 =
    if (args.last = false ∧ (args.first = true ∨ args.input ≠ 0)) ∨
      (args.first = true ∧ args.last = true ∧ args.getInput = 4) then args.sockfd
    else args.output := by
  unfold stageDups source
  cases args.first <;> cases args.last <;> by_cases hinput : args.input = 0 <;>
    by_cases hget : args.getInput = 4 <;> simp [hinput, hget]

theorem source_stdin : source (childDups args) 0 = args.input := by
  unfold childDups
  rw [source_append, source_append, source_append, source_stageDups_stdin]
  unfold errorDups enterDups lastDups
  split_ifs <;> simp

theorem source_beforeLast_stdout :
    source (stageDups args ++ errorDups args ++ enterDups args) 1 = source (stageDups args) 1 := by
  rw [source_append, source_append]
  unfold errorDups enterDups
  split_ifs <;> rfl

theorem source_stdout : source (childDups args) 1 =
    if (args.last = false ∧ (args.first = true ∨ args.input ≠ 0)) ∨
      (args.last = true ∧ args.getInput = 4) then args.pipeFd.2
    else args.output := by
  unfold childDups
  rw [source_append, source_beforeLast_stdout, source_stageDups_stdout]
  cases hlast : args.last with
  | false => simp [lastDups, hlast]
  | true =>
    by_cases hnew : args.getInput = 4
    · simp [lastDups, hlast, hnew]
    · by_cases hmerged : args.getInput = 3 <;> simp [lastDups, hlast, hnew, hmerged]

theorem source_stderr : source (childDups args) 2 =
    if args.nPipeErr = true then if args.getInput = 3 then args.output else args.pipeFd.2
    else if (args.last = false ∧ (args.first = true ∨ args.input ≠ 0)) ∨
      (args.first = true ∧ args.last = true ∧ args.getInput = 4) then args.sockfd
    else args.output := by
  unfold childDups
  rw [source_append, source_append, source_append, source_stageDups_stderr]
  unfold errorDups enterDups lastDups
  cases args.nPipeErr <;> split_ifs <;> simp_all

theorem mem_childDups {d : Int × Int} (h : d ∈ childDups args) :
    (d.1 = args.input ∧ d.2 = 0) ∨
      (d.1 ∈ [args.sockfd, args.pipeFd.2, args.output] ∧ (d.2 = 1 ∨ d.2 = 2)) := by
  unfold childDups at h
  rw [List.mem_append, List.mem_append, List.mem_append] at h
  rcases h with ((h | h) | h) | h
  · unfold stageDups at h
    split_ifs at h <;> simp at h <;> grind
  · unfold errorDups at h
    split_ifs at h <;> simp at h <;> grind
  · unfold enterDups at h
    split_ifs at h <;> simp at h
    grind
  · unfold lastDups at h
    split_ifs at h <;> simp at h <;> grind

theorem childFiles_source (hplain : '>' ∉ args.cmd)
    (hinput : t args.input ≠ none ∧ (args.input = 0 ∨ 2 < args.input))
    (hothers : ∀ fd ∈ [args.sockfd, args.pipeFd.2, args.output], t fd ≠ none ∧ 2 < fd) :
    ∃ files, childFiles s t args = some files ∧
      ∀ new, files new = t (source (childDups args) new) := by
  refine ⟨dupAll t (childDups args), childFiles_eq hplain, fun new => ?_⟩
  apply dupAll_source
  intro d hd
  constructor
  · obtain ⟨hfd, -⟩ | ⟨hfd, -⟩ := mem_childDups hd
    · rw [hfd]
      exact hinput.1
    · exact (hothers _ hfd).1
  · intro e he heq
    obtain ⟨hfd, -⟩ | ⟨hfd, -⟩ := mem_childDups hd
    · obtain ⟨hinto, hzero⟩ | ⟨-, hnew⟩ := mem_childDups he <;> omega
    · have habove := (hothers _ hfd).2
      obtain ⟨-, hzero⟩ | ⟨-, hnew⟩ := mem_childDups he <;> omega

end NetworkProgramming.Single
