import NetworkProgramming.Library.CString

/-! The `sscanf` patterns of `npshell`. -/
namespace NetworkProgramming.Npshell
open Library.CString

/-- `[a-zA-Z0-9-\"\'.: ]` -/
def isWordChar (c : Char) : Bool :=
  c.isAlphanum || c == '-' || c == '"' || c == '\'' || c == '.' || c == ':' || c == ' '

/-- `%[...]`: the longest run of the set, if it has a character, and the rest. -/
def scanSet (set : Char → Bool) (str : Text) : Option (Text × Text) :=
  if str.takeWhile set = [] then none else some (str.takeWhile set, str.dropWhile set)

def unsigned : Text → Text
  | '-' :: digits => digits
  | '+' :: digits => digits
  | digits => digits

/-- `%d`: leading space, an optional sign, at least one digit. -/
def scanInt (str : Text) : Option Int :=
  if (unsigned (str.dropWhile isspace)).head?.any Char.isDigit then some (int32 (strtol str))
  else none

/-- What the patterns of `executeCMD` leave behind: the number of conversions,
and what was stored; a global buffer that was not written keeps its old text. -/
structure Reading where
  n : Int
  instruction : Option Text
  symbolMeth : Text
  numPipe : Int
  buf : Option Text
  deriving DecidableEq, Repr

def Reading.unmatched (cmdStr : Text) : Reading :=
  ⟨if cmdStr = [] then -1 else 0, none, [], 0, none⟩

/-- `"%[...]%[|!]%d\n"` -/
def readNumbered (cmdStr : Text) : Reading :=
  match scanSet isWordChar cmdStr with
  | none => .unmatched cmdStr
  | some (instruction, rest) =>
    match scanSet (fun c => c == '|' || c == '!') rest with
    | none => ⟨1, some instruction, [], 0, none⟩
    | some (symbolMeth, rest) =>
      match scanInt rest with
      | none => ⟨2, some instruction, symbolMeth, 0, none⟩
      | some numPipe => ⟨3, some instruction, symbolMeth, numPipe, none⟩

/-- `"%[...]%[|!>] %[^\n]"` -/
def readOrdinary (cmdStr : Text) : Reading :=
  match scanSet isWordChar cmdStr with
  | none => .unmatched cmdStr
  | some (instruction, rest) =>
    match scanSet (fun c => c == '|' || c == '!' || c == '>') rest with
    | none => ⟨1, some instruction, [], 0, none⟩
    | some (symbolMeth, rest) =>
      match scanSet (· != '\n') (rest.dropWhile isspace) with
      | none => ⟨2, some instruction, symbolMeth, 0, none⟩
      | some (buf, _) => ⟨3, some instruction, symbolMeth, 0, some buf⟩

def readCommand (cmdStr : Text) : Reading :=
  let reading := readNumbered cmdStr
  if reading.n = 3 then reading else readOrdinary cmdStr

/-- `%s`: leading space, then the longest run of other characters. -/
def scanWord (str : Text) : Text × Text :=
  let body := str.dropWhile isspace
  (body.takeWhile fun c => !isspace c, body.dropWhile fun c => !isspace c)

/-- `OP` and `arg` after `"%s %[...]\n"`; both start out empty. -/
def scanOperation (instruction : Text) : Text × Text :=
  let (op, rest) := scanWord instruction
  if op = [] then ([], [])
  else (op, ((scanSet isWordChar (rest.dropWhile isspace)).map Prod.fst).getD [])

/-- `var` and `value` after `"%s %s\n"`. -/
def scanSetting (arg : Text) : Text × Text :=
  let (var, rest) := scanWord arg
  (var, (scanWord rest).1)

end NetworkProgramming.Npshell
