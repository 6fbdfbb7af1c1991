import NetworkProgramming.Library.Strcat
import NetworkProgramming.Single.Arguments
import NetworkProgramming.Single.Names

/-! The arrays of fixed size that the words of a line are put into, from `do_exec` down
to `execvp`: how much of each is written. -/
namespace NetworkProgramming.Single
open Library.CString Library.Run Library.Strcat CommandLine

def bufferSizeL : Nat := 4096

inductive Destination where
  | filename
  | operand
  | cmdDir
  | setenvEnv
  | tellEnv
  | yellEnv
  | name
  | nickname
  | key
  | value
  deriving DecidableEq, Repr

/-- In bytes, of `filename` and `operand` in entries. -/
def Destination.capacity : Destination → Nat
  | .filename => bufferSizeL
  | .operand => bufferSizeL
  | .cmdDir => 20
  | .setenvEnv => 512
  | .tellEnv => 512
  | .yellEnv => 1024
  | .name => 100
  | .nickname => 100
  | .key => 100
  | .value => 100

/-- So much of the array is in use after a store into it. -/
structure Store where
  destination : Destination
  size : Nat
  deriving DecidableEq, Repr

def Store.Fits (store : Store) : Prop := store.size ≤ store.destination.capacity

/-- `split_pipe` and `split_space`: the pieces and a NULL, and two entries at least. -/
def splitStore (destination : Destination) (pieces : List Text) : Store :=
  ⟨destination, max pieces.length 1 + 1⟩

/-- `strcpy` of the first piece, and `strcat` of the others. -/
def assemble (destination : Destination) (pieces : List Text) : List Store :=
  (sizes 0 pieces).map (Store.mk destination)

/-- An old entry gets a value only; without a value the key of a new one is stored. -/
def loadEnvStores (m : ClientMap) (sockfd : Int) (envStr : Text) : List Store :=
  match strtok '=' envStr with
  | [] => []
  | key :: rest =>
    let label := (m.indexOf sockfd).bind fun i => (m.env i).label key
    (if label.isSome then [] else assemble .key [key]) ++
      rest.head?.toList.flatMap fun val => assemble .value [val]

def setenvStores (m : ClientMap) (sockfd : Int) (operand : List Text) : List Store :=
  match operand[1]?, operand[2]? with
  | none, _ => []
  | some key, none => assemble .setenvEnv [key, ['=']]
  | some key, some val =>
    assemble .setenvEnv [key, ['='], val] ++ loadEnvStores m sockfd (key ++ '=' :: val)

def Absent (m : ClientMap) (receid : Int) : Prop :=
  (0 ≤ receid ∧ receid < maxUserNum) ∧ m.clientsFdSet receid.toNat = 0

instance (m : ClientMap) (receid : Int) : Decidable (Absent m receid) :=
  inferInstanceAs (Decidable (_ ∧ _))

def spaced : List Text → List Text
  | [] => []
  | first :: rest => first :: rest.flatMap fun word => [[' '], word]

def tellStores (m : ClientMap) (operand : List Text) : List Store :=
  match operand[1]? with
  | none => []
  | some word =>
    if Absent m (atoi word - 1) then [] else assemble .tellEnv (spaced (operand.drop 2))

def yellStores (operand : List Text) : List Store :=
  if operand.length ≤ 1 then [] else assemble .yellEnv (spaced (operand.drop 1) ++ [['\n']])

def nameStores (m : ClientMap) (fd : Int) (operand : List Text) : List Store :=
  match operand[1]? with
  | none => []
  | some name =>
    assemble .name [name] ++ if nameTaken m fd name then [] else assemble .nickname [name]

def builtinStores (m : ClientMap) (sockfd : Int) (cmd : Text) : Builtin → List Store
  | .printenv => [splitStore .operand (splitSpace cmd)]
  | .setenv => splitStore .operand (splitSpace cmd) :: setenvStores m sockfd (splitSpace cmd)
  | .exit => []
  | .who => []
  | .tell => splitStore .operand (splitSpace cmd) :: tellStores m (splitSpace cmd)
  | .yell => splitStore .operand (splitSpace cmd) :: yellStores (splitSpace cmd)
  | .name => splitStore .operand (splitSpace cmd) :: nameStores m sockfd (splitSpace cmd)

/-- The loop of the child over the directories of PATH, up to the first path that
`execvp` can run; the `strcat` of a missing word is its end too. -/
def cmdDirStores (runs : Text → Bool) (operand : List Text) : List Text → List Store
  | [] => []
  | dir :: dirs =>
    match operand with
    | [] => assemble .cmdDir [dir, ['/']]
    | word :: _ =>
      assemble .cmdDir [dir, ['/'], word] ++
        if runs (dir ++ '/' :: word) then [] else cmdDirStores runs operand dirs

/-- The value of PATH; an indeterminate one is no text. -/
def pathOf (s : Server) (sockfd : Int) : Option Text :=
  (doPrintenv s sockfd "PATH".toList).toOption.join

def parserStores (s : Server) (sockfd : Int) (runs : Text → Bool) (cmd : Text) : List Store :=
  splitStore .operand (splitSpace cmd) ::
    match pathOf s sockfd, childArguments s cmd sockfd with
    | some path, .ok (some operand) => cmdDirStores runs operand (splitEnv path)
    | _, _ => []

def reached (line : Line) (calls : Nat → ParserCall) :
    Nat → List Text → Round → List (Server × Text)
  | _, [], _ => []
  | i, cmd :: cmds, r =>
    ((takeDue r.server line.sockfd (i = 0)).1, cmd) ::
      match runCommand line (i = 0) cmds.isEmpty cmd (calls i) r with
      | .error _ => []
      | .ok r => reached line calls (i + 1) cmds r

/-- What `do_exec` has in hand when its loop begins; none when it does not come to that. -/
def begun (s : Server) (cmd : Text) (sockfd : Int) : Option (Reading × Line × Round) :=
  match readLine cmd with
  | none => none
  | some reading =>
    let (s, getInput, outputFd) := claimEntry s sockfd reading.pipeNumber
    match checkUserPipes s cmd sockfd with
    | .ok (s, _, .ok input) =>
      some (reading, ⟨sockfd, reading.pipeNumber.isNone, reading.pipeErrN, outputFd⟩,
        ⟨s, input, getInput, []⟩)
    | _ => none

/-- `runs` says of which paths `execvp` makes a program. -/
def doExecStores (s : Server) (cmd : Text) (sockfd : Int) (calls : Nat → ParserCall)
    (runs : Text → Bool) : List Store :=
  splitStore .filename (splitPipe cmd) ::
    match begun s cmd sockfd with
    | none => []
    | some (reading, line, r) =>
      match builtin reading.commands with
      | some b => builtinStores r.server.clientsMap sockfd (reading.commands.headD []) b
      | none =>
        (reached line calls 0 reading.commands r).flatMap fun c => parserStores c.1 sockfd runs c.2

/-- No store of the line goes beyond its array. -/
def TextsFit (s : Server) (cmd : Text) (sockfd : Int) (calls : Nat → ParserCall)
    (runs : Text → Bool) : Prop :=
  ∀ store ∈ doExecStores s cmd sockfd calls runs, store.Fits

structure SetenvFits (m : ClientMap) (sockfd : Int) (operand : List Text) : Prop where
  env : ∀ key, operand[1]? = some key → key.length + (operand[2]?.getD []).length + 1 < 512
  /-- The field of a key that the client does not have yet. -/
  key : ∀ key val field, operand[1]? = some key → operand[2]? = some val →
    (strtok '=' (key ++ '=' :: val))[0]? = some field →
    ((m.indexOf sockfd).bind fun i => (m.env i).label field) = none → field.length < 100
  value : ∀ key val field, operand[1]? = some key → operand[2]? = some val →
    (strtok '=' (key ++ '=' :: val))[1]? = some field → field.length < 100

def WordsFit (m : ClientMap) (sockfd : Int) (operand : List Text) : Builtin → Prop
  | .printenv => operand.length < bufferSizeL
  | .setenv => operand.length < bufferSizeL ∧ SetenvFits m sockfd operand
  | .exit => True
  | .who => True
  | .tell => operand.length < bufferSizeL ∧ ∀ word, operand[1]? = some word →
      ¬ Absent m (atoi word - 1) → (joinWords (operand.drop 2)).length < 512
  | .yell => operand.length < bufferSizeL ∧ (joinWords (operand.drop 1)).length + 1 < 1024
  | .name => operand.length < bufferSizeL ∧ ∀ name, operand[1]? = some name → name.length < 100

/-- The child comes to this directory: in none before it is the program. -/
def Tried (runs : Text → Bool) (operand dirs : List Text) (dir : Text) : Prop :=
  ∃ front back, dirs = front ++ dir :: back ∧
    ∀ d ∈ front, ∃ word, operand.head? = some word ∧ runs (d ++ '/' :: word) = false

structure CommandFits (child : Server) (path : Option Text) (sockfd : Int) (runs : Text → Bool)
    (cmd : Text) : Prop where
  words : (splitSpace cmd).length < bufferSizeL
  directories : ∀ text operand dir, path = some text →
    childArguments child cmd sockfd = .ok (some operand) →
    Tried runs operand (splitEnv text) dir → dir.length + (operand.headD []).length + 1 < 20

/-- The lengths that a line may have: of its parts, and, when `do_exec` comes to its loop, of
the words of its built-in, or of each command with the directories of PATH. -/
structure LengthsFit (s : Server) (cmd : Text) (sockfd : Int) (calls : Nat → ParserCall)
    (runs : Text → Bool) : Prop where
  pieces : (splitPipe cmd).length < bufferSizeL
  builtin : ∀ reading line r b, begun s cmd sockfd = some (reading, line, r) →
    builtin reading.commands = some b →
    WordsFit s.clientsMap sockfd (splitSpace (reading.commands.headD [])) b
  commands : ∀ reading line r, begun s cmd sockfd = some (reading, line, r) →
    Single.builtin reading.commands = none → ∀ c ∈ reached line calls 0 reading.commands r,
      CommandFits c.1 (pathOf s sockfd) sockfd runs c.2

variable {s s' : Server} {m : ClientMap} {sockfd : Int} {cmd : Text} {operand dirs : List Text}
  {runs : Text → Bool} {calls : Nat → ParserCall} {destination : Destination} {line : Line}
  {r r' : Round} {reading : Reading} {dir : Text} {cmds : List Text} {i : Nat}

theorem splitStore_fits_iff (h : destination.capacity = bufferSizeL) (pieces : List Text) :
    (splitStore destination pieces).Fits ↔ pieces.length < bufferSizeL := by
  unfold Store.Fits splitStore
  dsimp only
  rw [h]
  unfold bufferSizeL
  omega

theorem assemble_fits_iff (destination : Destination) (piece : Text) (pieces : List Text) :
    (∀ store ∈ assemble destination (piece :: pieces), store.Fits) ↔
      (piece :: pieces).flatten.length < destination.capacity := by
  have hsizes : (∀ size ∈ sizes 0 (piece :: pieces), size ≤ destination.capacity) ↔
      0 + (piece :: pieces).flatten.length < destination.capacity := sizes_bounded_iff 0 piece pieces
  rw [Nat.zero_add] at hsizes
  rw [← hsizes, assemble, List.forall_mem_map]
  rfl

theorem spaced_flatten (words : List Text) : (spaced words).flatten = joinWords words := by
  have hrest : ∀ rest : List Text, (rest.flatMap fun word => [[' '], word]).flatten =
      (rest.flatMap fun word => ' ' :: word) := by
    intro rest
    induction rest with
    | nil => rfl
    | cons word rest ih => simp [List.flatMap_cons, ih]
  cases words with
  | nil => rfl
  | cons first rest =>
    rw [spaced, List.flatten_cons, hrest, joinWords]
    induction rest generalizing first with
    | nil => simp
    | cons word rest ih =>
      rw [List.flatMap_cons, List.intercalate_cons_cons, ← ih word]
      simp

theorem assemble_one_fits_iff (destination : Destination) (text : Text) :
    (∀ store ∈ assemble destination [text], store.Fits) ↔ text.length < destination.capacity := by
  rw [assemble_fits_iff, List.flatten_singleton]

theorem loadEnv_fits_iff (envStr : Text) : (∀ store ∈ loadEnvStores m sockfd envStr, store.Fits) ↔
    (∀ field, (strtok '=' envStr)[0]? = some field →
      ((m.indexOf sockfd).bind fun i => (m.env i).label field) = none → field.length < 100) ∧
    ∀ field, (strtok '=' envStr)[1]? = some field → field.length < 100 := by
  unfold loadEnvStores
  cases strtok '=' envStr with
  | nil => simp
  | cons key rest =>
    dsimp only
    rw [List.forall_mem_append]
    simp only [List.getElem?_cons_zero, Option.some.injEq, forall_eq', List.getElem?_cons_succ]
    apply and_congr
    · cases (m.indexOf sockfd).bind fun i => (m.env i).label key with
      | none => simpa [Destination.capacity] using assemble_one_fits_iff .key key
      | some label => simp
    · cases rest with
      | nil => simp
      | cons val rest => simpa [Destination.capacity] using assemble_one_fits_iff .value val

theorem setenv_fits_iff : (∀ store ∈ setenvStores m sockfd operand, store.Fits) ↔
    SetenvFits m sockfd operand := by
  cases hkey : operand[1]? with
  | none =>
    have hnone : setenvStores m sockfd operand = [] := by rw [setenvStores, hkey]
    rw [hnone]
    refine iff_of_true (by simp) ⟨?_, ?_, ?_⟩ <;> simp [hkey]
  | some key =>
    cases hval : operand[2]? with
    | none =>
      have hhalf : setenvStores m sockfd operand = assemble .setenvEnv [key, ['=']] := by
        rw [setenvStores, hkey, hval]
      rw [hhalf, assemble_fits_iff]
      constructor
      · intro hlength
        constructor
        · simpa [hkey, hval, Destination.capacity] using hlength
        · simp [hval]
        · simp [hval]
      · intro h
        simpa [hval, Destination.capacity] using h.env key hkey
    | some val =>
      have hwhole : setenvStores m sockfd operand = assemble .setenvEnv [key, ['='], val] ++
          loadEnvStores m sockfd (key ++ '=' :: val) := by
        rw [setenvStores, hkey, hval]
      have henv : [key, ['='], val].flatten.length = key.length + val.length + 1 := by
        simp only [List.flatten_cons, List.flatten_nil, List.length_append, List.length_cons,
          List.length_nil]
        omega
      rw [hwhole, List.forall_mem_append, assemble_fits_iff, loadEnv_fits_iff, henv]
      constructor
      · rintro ⟨hlength, hfield, hvalue⟩
        constructor
        · simpa [hkey, hval, Destination.capacity] using hlength
        · intro key' val' field hkey' hval'
          obtain rfl := Option.some.inj (hkey.symm.trans hkey')
          obtain rfl := Option.some.inj (hval.symm.trans hval')
          exact hfield field
        · intro key' val' field hkey' hval'
          obtain rfl := Option.some.inj (hkey.symm.trans hkey')
          obtain rfl := Option.some.inj (hval.symm.trans hval')
          exact hvalue field
      · intro h
        have hlength := h.env key hkey
        rw [hval] at hlength
        exact ⟨hlength, fun field => h.key key val field hkey hval,
          fun field => h.value key val field hkey hval⟩

theorem tell_fits_iff : (∀ store ∈ tellStores m operand, store.Fits) ↔
    ∀ word, operand[1]? = some word → ¬ Absent m (atoi word - 1) →
      (joinWords (operand.drop 2)).length < 512 := by
  unfold tellStores
  cases hword : operand[1]? with
  | none => simp
  | some word =>
    dsimp only
    by_cases habsent : Absent m (atoi word - 1)
    · simp [habsent]
    · rw [if_neg habsent, ← spaced_flatten]
      simp only [Option.some.injEq, forall_eq', habsent, not_false_eq_true, forall_true_left]
      cases operand.drop 2 with
      | nil => simp [spaced, assemble, sizes]
      | cons first rest => exact assemble_fits_iff .tellEnv _ _

theorem yell_fits_iff : (∀ store ∈ yellStores operand, store.Fits) ↔
    (joinWords (operand.drop 1)).length + 1 < 1024 := by
  unfold yellStores
  by_cases hlength : operand.length ≤ 1
  · rw [if_pos hlength, List.drop_eq_nil_of_le hlength]
    simp [joinWords]
  · rw [if_neg hlength, ← spaced_flatten]
    cases hdrop : operand.drop 1 with
    | nil => exact absurd (List.drop_eq_nil_iff.mp hdrop) hlength
    | cons first rest =>
      rw [spaced, List.cons_append, assemble_fits_iff]
      simp [Destination.capacity, Nat.add_assoc]

theorem name_fits_iff : (∀ store ∈ nameStores m sockfd operand, store.Fits) ↔
    ∀ name, operand[1]? = some name → name.length < 100 := by
  unfold nameStores
  cases hname : operand[1]? with
  | none => simp
  | some name =>
    dsimp only
    rw [List.forall_mem_append, assemble_one_fits_iff]
    simp only [Option.some.injEq, forall_eq']
    constructor
    · exact And.left
    · intro hlength
      refine ⟨hlength, ?_⟩
      split
      next => simp
      next => exact (assemble_one_fits_iff .nickname name).mpr hlength

theorem builtin_fits_iff (m : ClientMap) (sockfd : Int) (cmd : Text) (b : Builtin) :
    (∀ store ∈ builtinStores m sockfd cmd b, store.Fits) ↔
      WordsFit m sockfd (splitSpace cmd) b := by
  have hoperand : Destination.operand.capacity = bufferSizeL := rfl
  have hwords := splitStore_fits_iff hoperand (splitSpace cmd)
  cases b with
  | printenv => rw [builtinStores, List.forall_mem_singleton, hwords, WordsFit]
  | setenv => rw [builtinStores, List.forall_mem_cons, hwords, setenv_fits_iff, WordsFit]
  | exit => simp [builtinStores, WordsFit]
  | who => simp [builtinStores, WordsFit]
  | tell => rw [builtinStores, List.forall_mem_cons, hwords, tell_fits_iff, WordsFit]
  | yell => rw [builtinStores, List.forall_mem_cons, hwords, yell_fits_iff, WordsFit]
  | name => rw [builtinStores, List.forall_mem_cons, hwords, name_fits_iff, WordsFit]

theorem tried_cons {d : Text} : Tried runs operand (d :: dirs) dir ↔
    dir = d ∨ (∃ word, operand.head? = some word ∧ runs (d ++ '/' :: word) = false) ∧
      Tried runs operand dirs dir := by
  constructor
  · rintro ⟨front, back, hdirs, hfront⟩
    cases front with
    | nil =>
      obtain ⟨rfl, -⟩ := List.cons.inj hdirs
      exact .inl rfl
    | cons first front =>
      obtain ⟨rfl, rfl⟩ := List.cons.inj hdirs
      rw [List.forall_mem_cons] at hfront
      exact .inr ⟨hfront.1, front, back, rfl, hfront.2⟩
  · rintro (rfl | ⟨hd, front, back, rfl, hfront⟩)
    · exact ⟨[], dirs, rfl, by simp⟩
    · exact ⟨d :: front, back, rfl, List.forall_mem_cons.mpr ⟨hd, hfront⟩⟩

theorem cmdDir_fits_iff : (∀ store ∈ cmdDirStores runs operand dirs, store.Fits) ↔
    ∀ dir, Tried runs operand dirs dir → dir.length + (operand.headD []).length + 1 < 20 := by
  induction dirs with
  | nil => simp [cmdDirStores, Tried]
  | cons d dirs ih =>
    simp only [tried_cons, or_imp, forall_and, forall_eq]
    cases operand with
    | nil =>
      rw [cmdDirStores, assemble_fits_iff]
      simp [Destination.capacity]
    | cons word words =>
      have hpath : [d, ['/'], word].flatten.length = d.length + word.length + 1 := by
        simp only [List.flatten_cons, List.flatten_nil, List.length_append, List.length_cons,
          List.length_nil]
        omega
      rw [cmdDirStores, List.forall_mem_append, assemble_fits_iff, hpath]
      apply and_congr_right
      intro _
      by_cases hruns : runs (d ++ '/' :: word) = true
      · simp [hruns]
      · rw [if_neg hruns, ih]
        simp [hruns]

theorem command_fits_iff (child : Server) (sockfd : Int) (runs : Text → Bool) (cmd : Text) :
    (∀ store ∈ parserStores child sockfd runs cmd, store.Fits) ↔
      CommandFits child (pathOf child sockfd) sockfd runs cmd := by
  have hoperand : Destination.operand.capacity = bufferSizeL := rfl
  have hwords := splitStore_fits_iff hoperand (splitSpace cmd)
  rw [parserStores, List.forall_mem_cons, hwords]
  constructor
  · rintro ⟨hlength, hstores⟩
    refine ⟨hlength, fun text operand dir hpath harguments htried => ?_⟩
    rw [hpath, harguments] at hstores
    exact cmdDir_fits_iff.mp hstores dir htried
  · intro h
    refine ⟨h.words, ?_⟩
    split
    next path operand hpath harguments =>
      exact cmdDir_fits_iff.mpr fun dir => h.directories path operand dir hpath harguments
    next => simp

theorem pathOf_same (h : s'.clientsMap = s.clientsMap) (sockfd : Int) :
    pathOf s' sockfd = pathOf s sockfd := by
  rw [pathOf, pathOf, doPrintenv, doPrintenv, h]

theorem begun_clientsMap (h : begun s cmd sockfd = some (reading, line, r)) :
    r.server.clientsMap = s.clientsMap := by
  unfold begun at h
  split at h
  next => contradiction
  next reading _ =>
    dsimp only at h
    split at h
    next hcheck =>
      cases h
      rw [checkUserPipes_clientsMap hcheck, (claimEntry_sameUsers _ _ _).clientsMap]
    next => contradiction

theorem reached_clientsMap {c : Server × Text} (h : c ∈ reached line calls i cmds r) :
    c.1.clientsMap = r.server.clientsMap := by
  induction cmds generalizing i r with
  | nil => contradiction
  | cons cmd cmds ih =>
    rw [reached, List.mem_cons] at h
    obtain rfl | h := h
    · exact (takeDue_sameUsers _ _ _).clientsMap
    · cases hround : runCommand line (i = 0) cmds.isEmpty cmd (calls i) r with
      | error fault =>
        rw [hround] at h
        contradiction
      | ok r' =>
        rw [hround] at h
        rw [ih h, (runCommand_silent hround).1]

theorem reached_all (h : runCommands line calls i cmds r = .ok r') :
    (reached line calls i cmds r).map Prod.snd = cmds := by
  induction cmds generalizing i r with
  | nil => rfl
  | cons cmd cmds ih =>
    rw [runCommands] at h
    rw [reached]
    cases hround : runCommand line (i = 0) cmds.isEmpty cmd (calls i) r with
    | error fault =>
      rw [hround] at h
      contradiction
    | ok r' =>
      rw [hround] at h
      rw [List.map_cons, ih h]

theorem child_fits_iff {c : Server × Text}
    (hbegun : begun s cmd sockfd = some (reading, line, r))
    (h : c ∈ reached line calls 0 reading.commands r) :
    (∀ store ∈ parserStores c.1 sockfd runs c.2, store.Fits) ↔
      CommandFits c.1 (pathOf s sockfd) sockfd runs c.2 := by
  have hsame := (reached_clientsMap h).trans (begun_clientsMap hbegun)
  rw [command_fits_iff, pathOf_same hsame]

theorem texts_fit_iff (s : Server) (cmd : Text) (sockfd : Int) (calls : Nat → ParserCall)
    (runs : Text → Bool) :
    TextsFit s cmd sockfd calls runs ↔ LengthsFit s cmd sockfd calls runs := by
  have hfilename : Destination.filename.capacity = bufferSizeL := rfl
  have hpieces := splitStore_fits_iff hfilename (splitPipe cmd)
  rw [TextsFit, doExecStores, List.forall_mem_cons, hpieces]
  cases hbegun : begun s cmd sockfd with
  | none =>
    constructor
    · rintro ⟨hlength, -⟩
      exact ⟨hlength, by simp [hbegun], by simp [hbegun]⟩
    · exact fun h => ⟨h.pieces, by simp⟩
  | some start =>
    obtain ⟨reading, line, r⟩ := start
    dsimp only
    cases hbuiltin : builtin reading.commands with
    | some b =>
      dsimp only
      rw [builtin_fits_iff, begun_clientsMap hbegun]
      constructor
      · rintro ⟨hlength, hfits⟩
        refine ⟨hlength, ?_, ?_⟩
        · intro reading' line' r' b' hbegun' hbuiltin'
          cases hbegun.symm.trans hbegun'
          cases hbuiltin.symm.trans hbuiltin'
          exact hfits
        · intro reading' line' r' hbegun' hbuiltin'
          cases hbegun.symm.trans hbegun'
          rw [hbuiltin] at hbuiltin'
          contradiction
      · exact fun h => ⟨h.pieces, h.builtin reading line r b hbegun hbuiltin⟩
    | none =>
      dsimp only
      simp only [List.mem_flatMap, forall_exists_index, and_imp]
      constructor
      · rintro ⟨hlength, hfits⟩
        refine ⟨hlength, ?_, ?_⟩
        · intro reading' line' r' b' hbegun' hbuiltin'
          cases hbegun.symm.trans hbegun'
          rw [hbuiltin] at hbuiltin'
          contradiction
        · intro reading' line' r' hbegun' hbuiltin' c hc
          cases hbegun.symm.trans hbegun'
          exact (child_fits_iff hbegun hc).mp fun store => hfits store c hc
      · intro h
        refine ⟨h.pieces, fun store c hc => ?_⟩
        exact (child_fits_iff hbegun hc).mpr (h.commands reading line r hbegun hbuiltin c hc) store

def delayedremovetag : TokenCommand where
  text := "delayedremovetag temp2.html".toList
  words := ["delayedremovetag".toList, "temp2.html".toList]
  nonempty := by decide
  plain := by decide
  tokens := .none
  split := by decide

/-- With the PATH of a new client, `bin/delayedremovetag` and its NUL take 21 bytes of 20. -/
theorem delayedremovetag_overflows : ∃ s,
    exec (next 30) Server.initial [.login 4 ⟨[127, 0, 0, 1], 4000⟩] = some s ∧
      pathOf s 4 = some "bin:.".toList ∧
      ∀ calls runs, ¬ TextsFit s delayedremovetag.text 4 calls runs := by
  have hfacts : (exec (next 30) Server.initial [.login 4 ⟨[127, 0, 0, 1], 4000⟩]).any (fun s =>
      decide (pathOf s 4 = some "bin:.".toList ∧ (begun s delayedremovetag.text 4).any (fun start =>
        start.1.commands = [delayedremovetag.text]) = true)) = true := by decide +kernel
  obtain ⟨s, hrun, hs⟩ := (Option.any_eq_true _ _).mp hfacts
  rw [decide_eq_true_eq] at hs
  obtain ⟨hpath, hbegun⟩ := hs
  obtain ⟨⟨reading, line, r⟩, hbegun, hcommands⟩ := (Option.any_eq_true _ _).mp hbegun
  rw [decide_eq_true_eq] at hcommands
  refine ⟨s, hrun, hpath, fun calls runs hfit => ?_⟩
  have hbuiltin : builtin reading.commands = none := by
    rw [hcommands]
    decide
  obtain ⟨c, hc, htext⟩ : ∃ c ∈ reached line calls 0 reading.commands r,
      c.2 = delayedremovetag.text := by
    rw [hcommands, reached]
    exact ⟨_, List.mem_cons_self, rfl⟩
  have hstores : ∀ store ∈ parserStores c.1 4 runs c.2, store.Fits := by
    intro store hstore
    apply hfit store
    simp only [doExecStores, hbegun, hbuiltin]
    exact List.mem_cons_of_mem _ (List.mem_flatMap.mpr ⟨c, hc, hstore⟩)
  have harguments : childArguments c.1 c.2 4 = .ok (some delayedremovetag.words) := by
    rw [htext]
    exact childArguments_none rfl
  have hlength := ((child_fits_iff hbegun hc).mp hstores).directories _ _ "bin".toList hpath
    harguments ⟨[], [".".toList], by decide, by simp⟩
  revert hlength
  decide

end NetworkProgramming.Single
