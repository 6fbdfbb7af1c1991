import NetworkProgramming.Http.Host
import Mathlib.Logic.Function.Basic

/-! A session of `http_server`: from the bytes of its one read to the command that
it gives to `system`, and the environment which this command finds. -/
namespace NetworkProgramming.Http
open Library.CString Library.Find

def nul : Char := Char.ofNat 0

/-- `str.c_str()`, up to its first NUL. -/
def cStr (str : Text) : Text := str.takeWhile (· != nul)

/-- What a session does, as others can see it. -/
inductive Effect where
  | setenv (name value : Text)
  | send (text : Text)
  | system (command : Text)
  | cout (text : Text)
  | cerr (text : Text)
  | exit
  deriving DecidableEq, Repr

/-- The addresses and ports from which the constructor of `session` fills `env_`. -/
structure Ends where
  remoteAddress : Text
  remotePort : Nat
  localAddress : Text
  localPort : Nat
  remote_nul : nul ∉ remoteAddress
  local_nul : nul ∉ localAddress

/-- What the calls of the system come to: the error of `async_send`, and the one with
which `system` fails on a command. -/
structure Outcome where
  sendError : Option Text
  systemError : Text → Option Text

def maxLength : Nat := 1024

def setEnvironment (ends : Ends) (env : Env) : List Effect :=
  [("REQUEST_METHOD", env.REQUEST_METHOD), ("REQUEST_URI", env.REQUEST_URI),
    ("QUERY_STRING", env.QUERY_STRING), ("SERVER_PROTOCOL", env.SERVER_PROTOCOL),
    ("HTTP_HOST", env.HTTP_HOST), ("SERVER_ADDR", ends.localAddress),
    ("SERVER_PORT", decimal ends.localPort), ("REMOTE_ADDR", ends.remoteAddress),
    ("REMOTE_PORT", decimal ends.remotePort)].map fun entry =>
    .setenv entry.1.toList (cStr entry.2)

/-- The call that `panel` and `other` share, and what they do when it fails. -/
def call (out : Outcome) (source : Text) : List Effect :=
  .system (cStr source) ::
    match out.systemError (cStr source) with
    | none => []
    | some error => [.cerr (error ++ ['\n']), .exit]

def panel (out : Outcome) (source : Text) : List Effect :=
  call out ("python3 ".toList ++ source ++ [nul])

def console (out : Outcome) : List Effect :=
  .system "./console.cgi".toList ::
    match out.systemError "./console.cgi".toList with
    | none => []
    | some _ => [.system "python3 printenv.cgi".toList, .exit]

def other (out : Outcome) (source : Text) : List Effect :=
  call out ("./".toList ++ source ++ [nul])

def httpok : Text := "HTTP/1.1 200 OK\r\n".toList

def doWrite (out : Outcome) (source : Text) : List Effect :=
  .send httpok ::
    match out.sendError with
    | none =>
      if source = "panel.cgi".toList ∨ source = "printenv.cgi".toList then panel out source
      else if source = "console.cgi".toList then console out
      else other out source
    | some error => [.cout ("Error: ".toList ++ error ++ ['\n'])]

/-- The callback of `do_read`, with the bytes that are there to read. `none` is a
parser that does not come to its end. -/
def doRead (ends : Ends) (out : Outcome) (received : Text) : Option (List Effect) :=
  match parser ⟨[], [], [], [], [], []⟩ (received.take maxLength) with
  | some (env, true) => some (setEnvironment ends env ++ doWrite out env.source)
  | _ => none

/-- The variables of a process. -/
abbrev Environ := Text → Option Text

/-- The calls of `system`, each with the variables that its shell finds. -/
def systemCalls (environ : Environ) : List Effect → List (Text × Environ)
  | [] => []
  | .setenv name value :: effects => systemCalls (Function.update environ name (some value)) effects
  | .system command :: effects => (command, environ) :: systemCalls environ effects
  | _ :: effects => systemCalls environ effects

def outward : Effect → Bool
  | .setenv _ _ => false
  | _ => true

/-- The command for a path. It is a shell that reads it: a `;` or a `|` in the path is
the shell's. -/
def shellCommand (path : Text) : Text :=
  if path = "panel.cgi".toList ∨ path = "printenv.cgi".toList then "python3 ".toList ++ path
  else "./".toList ++ path

/-- What a command is told about the request and its connection. A request without a
query has its path there. -/
def cgiVariables (ends : Ends) (r : Request) : List (Text × Text) :=
  [("REQUEST_METHOD".toList, r.line.method),
    ("REQUEST_URI".toList, r.line.path ++ queryText r.line.query),
    ("QUERY_STRING".toList, r.line.query.getD r.line.path),
    ("SERVER_PROTOCOL".toList, r.line.proto), ("HTTP_HOST".toList, hostValue r.headers),
    ("SERVER_ADDR".toList, ends.localAddress), ("SERVER_PORT".toList, decimal ends.localPort),
    ("REMOTE_ADDR".toList, ends.remoteAddress), ("REMOTE_PORT".toList, decimal ends.remotePort)]

/-- The first header with the mark in it is the one named `Host`, and its value is all
characters of a host. -/
def NamesHost (headers : List Header) : Prop :=
  ∃ front behind host, headers = front ++ host :: behind ∧
    (∀ h ∈ front, find hostMark h.text = none) ∧ host.name = "Host".toList ∧
    ∀ c ∈ trim host.value, isHostChar c

/-- There is one call of `system`, behind the status line, with the command of the path, and
it finds the variables. -/
def Serves (ends : Ends) (out : Outcome) (environ : Environ) (r : Request) (body : Text) : Prop :=
  ∃ effects environ', doRead ends out (r.text ++ body) = some effects ∧
    effects.filter outward = [.send httpok, .system (shellCommand r.line.path)] ∧
    systemCalls environ effects = [(shellCommand r.line.path, environ')] ∧
    (∀ entry ∈ cgiVariables ends r, environ' entry.1 = some entry.2) ∧
    ∀ name ∉ (cgiVariables ends r).map Prod.fst, environ' name = environ name

variable {ends : Ends} {out : Outcome} {r : Request} {headers : List Header} {body str : Text}
  {environ : Environ} {entries : List (Text × Text)} {env : Env}

section Parser

theorem httpHost_body (h : NamesHost headers) (body : Text) :
    httpHost (headerText headers ++ body) = some (hostValue headers) := by
  obtain ⟨front, behind, host, rfl, hfront, hname, hchars⟩ := h
  obtain ⟨hzero, hvalue⟩ := find_host host hname
  obtain ⟨place, hfind, hdrop⟩ := find_headerText behind hfront hzero
  have hroom := mark_room hfind
  rw [httpHost_found (find_append hfind body), List.drop_append_of_le_length hroom, hdrop, hvalue,
    List.append_assoc, List.append_assoc, hostText_crlf, (hostText_eq_trim_iff host.value).mpr hchars,
    hostValue_front _ hfront, hostValue_named hname]

theorem parser_request (h : NamesHost r.headers) (env : Env) (body : Text) :
    parser env (r.text ++ body) = some (⟨r.line.method, r.line.path ++ queryText r.line.query,
      r.line.query.getD r.line.path, r.line.proto, hostValue r.headers, r.line.path⟩, true) := by
  have htext : r.text ++ body = r.line.text ++ (crlf ++ (headerText r.headers ++ body)) := by
    simp [Request.text]
  rw [htext, parser, requestLine_whole env (slicer_line r.line_whole _), Option.bind_eq_bind,
    Option.bind_some]
  dsimp only
  rw [httpHost_body h]

end Parser

section Environment

def Environ.set (environ : Environ) (entry : Text × Text) : Environ :=
  Function.update environ entry.1 (some entry.2)

theorem systemCalls_setenv (environ : Environ) (entries : List (Text × Text)) (rest : List Effect) :
    systemCalls environ (entries.map (fun entry => .setenv entry.1 entry.2) ++ rest) =
      systemCalls (entries.foldl Environ.set environ) rest := by
  induction entries generalizing environ with
  | nil => rfl
  | cons entry entries ih => exact ih (environ.set entry)

theorem set_not_mem {name : Text} (h : name ∉ entries.map Prod.fst) :
    entries.foldl Environ.set environ name = environ name := by
  induction entries generalizing environ with
  | nil => rfl
  | cons entry entries ih =>
    rw [List.map_cons, List.mem_cons, not_or] at h
    rw [List.foldl_cons, ih h.2, Environ.set, Function.update_of_ne h.1]

theorem set_mem (hnodup : (entries.map Prod.fst).Nodup) {entry : Text × Text}
    (h : entry ∈ entries) : entries.foldl Environ.set environ entry.1 = some entry.2 := by
  induction entries generalizing environ with
  | nil => contradiction
  | cons first entries ih =>
    rw [List.map_cons, List.nodup_cons] at hnodup
    rw [List.foldl_cons]
    rcases List.mem_cons.mp h with rfl | hmem
    · rw [set_not_mem hnodup.1, Environ.set, Function.update_self]
    · exact ih hnodup.2 hmem

theorem cStr_eq (h : nul ∉ str) : cStr str = str := by
  rw [cStr, List.takeWhile_eq_self_iff]
  intro c hc
  rw [bne_iff_ne]
  rintro rfl
  exact h hc

theorem nul_hostValue (h : NamesHost headers) : nul ∉ hostValue headers := by
  obtain ⟨front, behind, host, rfl, hfront, hname, hchars⟩ := h
  rw [hostValue_front _ hfront, hostValue_named hname]
  intro hmem
  exact absurd (hchars nul hmem) (by decide)

theorem nul_cgiVariables (ends : Ends) (h : NamesHost r.headers) (hnul : nul ∉ r.line.text) :
    ∀ entry ∈ cgiVariables ends r, nul ∉ entry.2 := by
  rw [r.line.text_eq] at hnul
  simp only [List.mem_append, List.mem_cons, not_or] at hnul
  obtain ⟨hmethod, -, ⟨-, hpath, hquery⟩, -, hproto⟩ := hnul
  have hquery' : nul ∉ r.line.query.getD r.line.path := by
    cases hcase : r.line.query with
    | none => exact hpath
    | some query =>
      rw [hcase] at hquery
      exact fun hmem => hquery (List.mem_cons_of_mem _ hmem)
  intro entry hentry
  simp only [cgiVariables, List.mem_cons, List.not_mem_nil, or_false] at hentry
  rcases hentry with rfl | rfl | rfl | rfl | rfl | rfl | rfl | rfl | rfl
  · exact hmethod
  · rw [List.mem_append, not_or]
    exact ⟨hpath, hquery⟩
  · exact hquery'
  · exact hproto
  · exact nul_hostValue h
  · exact ends.local_nul
  · exact not_mem_decimal (by decide)
  · exact ends.remote_nul
  · exact not_mem_decimal (by decide)

theorem cgiVariables_names (ends : Ends) (r : Request) :
    ((cgiVariables ends r).map Prod.fst).Nodup := by
  simp only [cgiVariables, List.map_cons, List.map_nil]
  decide

theorem setEnvironment_request (h : NamesHost r.headers) (hnul : nul ∉ r.line.text) :
    setEnvironment ends ⟨r.line.method, r.line.path ++ queryText r.line.query,
      r.line.query.getD r.line.path, r.line.proto, hostValue r.headers, r.line.path⟩ =
        (cgiVariables ends r).map fun entry => .setenv entry.1 entry.2 := by
  have hvalues := nul_cgiVariables ends h hnul
  have hmap : (cgiVariables ends r).map (fun entry => Effect.setenv entry.1 entry.2) =
      (cgiVariables ends r).map fun entry => .setenv entry.1 (cStr entry.2) := by
    apply List.map_congr_left
    intro entry hentry
    rw [cStr_eq (hvalues entry hentry)]
  rw [hmap]
  rfl

end Environment

section Dispatch

theorem call_ok (hsystem : ∀ command, out.systemError command = none) (hnul : nul ∉ str) :
    call out (str ++ [nul]) = [.system str] := by
  have hcut : cStr (str ++ [nul]) = str := by
    rw [cStr, takeWhile_append_delim hnul]
  rw [call, hcut, hsystem]

/-- All three branches call `system` with the command of the path. -/
theorem doWrite_ok (hsend : out.sendError = none)
    (hsystem : ∀ command, out.systemError command = none) {path : Text} (hnul : nul ∉ path) :
    doWrite out path = [.send httpok, .system (shellCommand path)] := by
  have hpanel : panel out path = [.system ("python3 ".toList ++ path)] :=
    call_ok hsystem (by
      rw [List.mem_append, not_or]
      exact ⟨by decide, hnul⟩)
  have hother : other out path = [.system ("./".toList ++ path)] :=
    call_ok hsystem (by
      rw [List.mem_append, not_or]
      exact ⟨by decide, hnul⟩)
  rw [doWrite, hsend]
  dsimp only
  rw [shellCommand]
  split
  next => rw [hpanel]
  next =>
    split
    next hconsole =>
      rw [console, hsystem, hconsole]
      rfl
    next => rw [hother]

end Dispatch

theorem nul_path (hnul : nul ∉ r.line.text) : nul ∉ r.line.path := by
  rw [r.line.text_eq] at hnul
  simp only [List.mem_append, List.mem_cons, not_or] at hnul
  exact hnul.2.2.1.2.1

theorem doRead_request (ends : Ends) (body : Text) (hlength : r.text.length ≤ maxLength)
    (hhost : NamesHost r.headers) (hnul : nul ∉ r.line.text) (hsend : out.sendError = none)
    (hsystem : ∀ command, out.systemError command = none) :
    doRead ends out (r.text ++ body) =
      some ((cgiVariables ends r).map (fun entry => .setenv entry.1 entry.2) ++
        [.send httpok, .system (shellCommand r.line.path)]) := by
  have hreceived : (r.text ++ body).take maxLength =
      r.text ++ body.take (maxLength - r.text.length) := by
    rw [List.take_append, List.take_of_length_le hlength]
  have hparser := parser_request hhost ⟨[], [], [], [], [], []⟩
    (body.take (maxLength - r.text.length))
  rw [doRead, hreceived, hparser]
  dsimp only
  rw [setEnvironment_request hhost hnul, doWrite_ok hsend hsystem (nul_path hnul)]

def Environ.cgi (environ : Environ) (ends : Ends) (r : Request) : Environ :=
  (cgiVariables ends r).foldl Environ.set environ

theorem systemCalls_request (ends : Ends) (r : Request) (environ : Environ) (command : Text) :
    systemCalls environ ((cgiVariables ends r).map (fun entry => .setenv entry.1 entry.2) ++
      [.send httpok, .system command]) = [(command, environ.cgi ends r)] := by
  rw [systemCalls_setenv]
  rfl

theorem cgi_mem {entry : Text × Text} (h : entry ∈ cgiVariables ends r) :
    environ.cgi ends r entry.1 = some entry.2 :=
  set_mem (cgiVariables_names ends r) h

theorem get_ne : "GET".toList ≠ [] := by decide

theorem get_space : ' ' ∉ "GET".toList := by decide

theorem http_ne : "HTTP/1.1".toList ≠ [] := by decide

theorem http_space : ' ' ∉ "HTTP/1.1".toList := by decide

theorem console_ne : "console.cgi".toList ≠ [] := by decide

theorem console_plain : ' ' ∉ "console.cgi".toList ∧ '?' ∉ "console.cgi".toList := by decide

theorem oneHost_space : ∀ q, some "h0=a".toList = some q → ' ' ∉ q := by simp

/-- `GET /console.cgi?h0=a HTTP/1.1` -/
def consoleLine : RequestLine where
  method := "GET".toList
  path := "console.cgi".toList
  query := some "h0=a".toList
  proto := "HTTP/1.1".toList
  method_ne := get_ne
  method_space := get_space
  path_ne := console_ne
  path_space := console_plain.1
  path_mark := console_plain.2
  query_space := oneHost_space
  proto_ne := http_ne
  proto_space := http_space

theorem consoleLine_whole : ¬ crlf <:+: consoleLine.text := by decide +kernel

theorem host_colon : ':' ∉ "Host".toList := by decide

theorem host_line : '\r' ∉ "Host".toList ∧ '\n' ∉ "Host".toList := by decide

theorem np1_line : '\r' ∉ "np1:8080".toList ∧ '\n' ∉ "np1:8080".toList := by decide

def consoleRequest : Request where
  line := consoleLine
  line_whole := consoleLine_whole
  headers := [⟨"Host".toList, "np1:8080".toList, host_colon, host_line, np1_line⟩]

def loopback : Ends := ⟨"127.0.0.1".toList, 50000, "127.0.0.1".toList, 8080, by decide, by decide⟩

end NetworkProgramming.Http
