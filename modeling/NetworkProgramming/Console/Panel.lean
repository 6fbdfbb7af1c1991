import NetworkProgramming.Console.Query
import NetworkProgramming.Http.Serving
import Mathlib.Data.List.FinRange

/-! From the form of a panel to the sessions of the console: the browser sends the form,
`http_server` runs the console behind its action, and `main` of the console starts a
session for each row. -/
namespace NetworkProgramming.Console
open Library.CString Http

structure ServerInfo where
  id : Text
  host : Text
  port : Text
  file : Text
  deriving DecidableEq, Repr

/-- `info_map[key]` -/
def infoMap (queries : Queries) (key : Text) : Text := (queries key).getD []

def headCell (host port : Text) : Text :=
  "<th scope=\"col\">".toList ++ host ++ ':' :: port ++ "</th>".toList

/-- The cells that `print_html` fills from the map. -/
def printHtml (queries : Queries) : List Text :=
  (List.range 5).map fun i =>
    headCell (infoMap queries ('h' :: decimal i)) (infoMap queries ('p' :: decimal i))

/-- The loop in `main`, which both consoles share. -/
def serverInfos (queries : Queries) : List ServerInfo :=
  (List.range 5).filterMap fun i =>
    let host := infoMap queries ('h' :: decimal i)
    let port := infoMap queries ('p' :: decimal i)
    let file := infoMap queries ('f' :: decimal i)
    if host ≠ [] ∧ port ≠ [] ∧ file ≠ [] then some ⟨'s' :: decimal i, host, port, file⟩ else none

/-- A page: its cells, and the sessions that are started for it. -/
structure Page (σ : Type) where
  heads : List Text
  sessions : List σ
  deriving DecidableEq, Repr

/-- `main` of the project 3 console. -/
def main (environ : Environ) : Option (Page ServerInfo) := do
  let queries ← parser (← environ "QUERY_STRING".toList)
  some ⟨printHtml queries, serverInfos queries⟩

/-- What `npshell` of project 4 is made from: the server, and the SOCKS server before it. -/
structure ShellInfo where
  info : ServerInfo
  sh : Text
  sp : Text
  deriving DecidableEq, Repr

/-- `main` of the project 4 console. -/
def mainSocks (environ : Environ) : Option (Page ShellInfo) := do
  let queries ← parser (← environ "QUERY_STRING".toList)
  some ⟨printHtml queries, (serverInfos queries).map fun info =>
    ⟨info, infoMap queries "sh".toList, infoMap queries "sp".toList⟩⟩

/-- The characters that a browser sends as they are. -/
def isPlain (c : Char) : Bool := c.isAlphanum || c == '*' || c == '-' || c == '.' || c == '_'

/-- What is filled in, or left empty. -/
abbrev Value := { value : Text // value.all isPlain }

structure Row where
  host : Value
  port : Value
  file : Value

/-- The form of `panel.cgi`, or with a row for the SOCKS server the one of
`panel_socks.cgi`. -/
structure Form where
  rows : Fin 5 → Row
  socks : Option (Value × Value)

/-- `FORM_ACTION` -/
def Form.action (form : Form) : Text :=
  if form.socks.isNone then "console.cgi".toList else "hw4.cgi".toList

theorem not_mem_value {c : Char} (h : isPlain c = false) (value : Value) : c ∉ value.1 := by
  intro hmem
  rw [List.all_eq_true.mp value.2 c hmem] at h
  contradiction

theorem not_mem_key {c d : Char} (hne : c ≠ d) (h : c.isDigit = false) (i : Nat) :
    c ∉ d :: decimal i := by
  rw [List.mem_cons, not_or]
  exact ⟨hne, not_mem_decimal h⟩

def rowPair (name : Char) (i : Nat) (value : Value) (hequals : '=' ≠ name) (hand : '&' ≠ name) :
    Pair where
  key := name :: decimal i
  value := value.1
  key_equals := not_mem_key hequals (by decide) i
  key_ampersand := not_mem_key hand (by decide) i
  value_ampersand := not_mem_value (by decide) value

def rowPairs (form : Form) (i : Fin 5) : List Pair :=
  [rowPair 'h' i (form.rows i).host (by decide) (by decide),
    rowPair 'p' i (form.rows i).port (by decide) (by decide),
    rowPair 'f' i (form.rows i).file (by decide) (by decide)]

def socksPairs : Option (Value × Value) → List Pair
  | none => []
  | some (host, port) =>
    [⟨"sh".toList, host.1, by decide, by decide, not_mem_value (by decide) host⟩,
      ⟨"sp".toList, port.1, by decide, by decide, not_mem_value (by decide) port⟩]

def Form.pairs (form : Form) : List Pair :=
  (List.finRange 5).flatMap (rowPairs form) ++ socksPairs form.socks

/-- The rows that are filled in, as sessions. -/
def Form.filled (form : Form) : List ServerInfo :=
  (List.finRange 5).filterMap fun i =>
    let row := form.rows i
    if row.host.1 ≠ [] ∧ row.port.1 ≠ [] ∧ row.file.1 ≠ [] then
      some ⟨'s' :: decimal i, row.host.1, row.port.1, row.file.1⟩
    else none

def Form.heads (form : Form) : List Text :=
  (List.finRange 5).map fun i => headCell (form.rows i).host.1 (form.rows i).port.1

variable {form : Form} {p : Pair} {i : Fin 5} {environ : Environ}

section Pairs

def fieldNames (socks : Bool) : List Text :=
  (List.finRange 5).flatMap (fun i => ['h', 'p', 'f'].map (· :: decimal i.val)) ++
    if socks then ["sh".toList, "sp".toList] else []

theorem pairs_keys (form : Form) : form.pairs.map Pair.key = fieldNames form.socks.isSome := by
  rw [Form.pairs, List.map_append, List.map_flatMap, fieldNames]
  congr 1
  cases form.socks <;> rfl

theorem pairs_nodup (form : Form) : (form.pairs.map Pair.key).Nodup := by
  have hnames : ∀ socks, (fieldNames socks).Nodup := by decide +kernel
  rw [pairs_keys]
  exact hnames _

theorem pairs_ne_nil (form : Form) : form.pairs ≠ [] := by
  have hnames : ∀ socks, fieldNames socks ≠ [] := by decide +kernel
  intro hnil
  apply hnames form.socks.isSome
  rw [← pairs_keys, hnil]
  rfl

theorem infoMap_pair (h : p ∈ form.pairs) : infoMap (lastValue form.pairs) p.key = p.value := by
  have hvalue := (lastValue_eq_some (pairs_nodup form) p.key p.value).mpr ⟨p, h, rfl, rfl⟩
  rw [infoMap, hvalue]
  rfl

theorem rowPairs_mem (h : p ∈ rowPairs form i) : p ∈ form.pairs :=
  List.mem_append_left _ (List.mem_flatMap.mpr ⟨i, List.mem_finRange i, h⟩)

theorem infoMap_host (form : Form) (i : Fin 5) :
    infoMap (lastValue form.pairs) ('h' :: decimal i) = (form.rows i).host.1 :=
  infoMap_pair (rowPairs_mem (i := i) (List.mem_cons_self))

theorem infoMap_port (form : Form) (i : Fin 5) :
    infoMap (lastValue form.pairs) ('p' :: decimal i) = (form.rows i).port.1 :=
  infoMap_pair (rowPairs_mem (i := i) (List.mem_cons_of_mem _ List.mem_cons_self))

theorem infoMap_file (form : Form) (i : Fin 5) :
    infoMap (lastValue form.pairs) ('f' :: decimal i) = (form.rows i).file.1 :=
  infoMap_pair (rowPairs_mem (i := i)
    (List.mem_cons_of_mem _ (List.mem_cons_of_mem _ List.mem_cons_self)))

theorem serverInfos_pairs (form : Form) : serverInfos (lastValue form.pairs) = form.filled := by
  rw [serverInfos, Form.filled, ← List.map_coe_finRange_eq_range, List.filterMap_map]
  apply List.filterMap_congr
  intro i _
  simp only [Function.comp_apply, infoMap_host, infoMap_port, infoMap_file]

theorem printHtml_pairs (form : Form) : printHtml (lastValue form.pairs) = form.heads := by
  rw [printHtml, Form.heads, ← List.map_coe_finRange_eq_range, List.map_map]
  apply List.map_congr_left
  intro i _
  simp only [Function.comp_apply, infoMap_host, infoMap_port]

end Pairs

section Request

theorem mem_queryString {pairs : List Pair} {c : Char} (h : c ∈ queryString pairs) :
    c = '&' ∨ c = '=' ∨ ∃ p ∈ pairs, c ∈ p.key ∨ c ∈ p.value := by
  induction pairs with
  | nil => contradiction
  | cons p pairs ih =>
    have hpair : c ∈ p.text → c = '=' ∨ c ∈ p.key ∨ c ∈ p.value := by
      rw [Pair.text, List.mem_append, List.mem_cons]
      rintro (hkey | hequals | hvalue)
      · exact .inr (.inl hkey)
      · exact .inl hequals
      · exact .inr (.inr hvalue)
    have hmem : c ∈ p.text ∨ c = '&' ∨ c ∈ queryString pairs := by
      by_cases hlast : pairs = []
      · rw [hlast] at h
        exact .inl (by simpa [queryString] using h)
      · rw [queryString_cons p hlast, List.mem_append, List.mem_cons] at h
        exact h
    rcases hmem with htext | hand | hrest
    · rcases hpair htext with hequals | hparts
      · exact .inr (.inl hequals)
      · exact .inr (.inr ⟨p, List.mem_cons_self, hparts⟩)
    · exact .inl hand
    · obtain hand | hequals | ⟨q, hq, hparts⟩ := ih hrest
      · exact .inl hand
      · exact .inr (.inl hequals)
      · exact .inr (.inr ⟨q, List.mem_cons_of_mem _ hq, hparts⟩)

theorem pairs_plain (h : p ∈ form.pairs) :
    p.key.all isPlain ∧ p.value.all isPlain := by
  constructor
  · have hnames : ∀ socks, (fieldNames socks).all (·.all isPlain) := by decide +kernel
    have hkeys := hnames form.socks.isSome
    rw [← pairs_keys] at hkeys
    exact List.all_eq_true.mp hkeys p.key (List.mem_map_of_mem h)
  · rcases List.mem_append.mp h with hrows | hsocks
    · obtain ⟨i, -, hrow⟩ := List.mem_flatMap.mp hrows
      simp only [rowPairs, List.mem_cons, List.not_mem_nil, or_false] at hrow
      rcases hrow with rfl | rfl | rfl
      · exact (form.rows i).host.2
      · exact (form.rows i).port.2
      · exact (form.rows i).file.2
    · cases hcase : form.socks with
      | none =>
        rw [hcase] at hsocks
        contradiction
      | some socks =>
        rw [hcase] at hsocks
        simp only [socksPairs, List.mem_cons, List.not_mem_nil, or_false] at hsocks
        rcases hsocks with rfl | rfl
        · exact socks.1.2
        · exact socks.2.2

theorem not_mem_query {c : Char} (hplain : isPlain c = false) (hand : c ≠ '&') (hequals : c ≠ '=')
    (form : Form) : c ∉ queryString form.pairs := by
  intro hmem
  obtain rfl | rfl | ⟨p, hp, hparts⟩ := mem_queryString hmem
  · contradiction
  · contradiction
  · have htrue : isPlain c := hparts.elim (List.all_eq_true.mp (pairs_plain hp).1 c)
      (List.all_eq_true.mp (pairs_plain hp).2 c)
    rw [hplain] at htrue
    contradiction

theorem action_chars (form : Form) :
    form.action ≠ [] ∧ form.action.all isPlain := by
  rw [Form.action]
  cases form.socks.isNone <;> decide +kernel

theorem not_mem_action {c : Char} (hplain : isPlain c = false) (form : Form) : c ∉ form.action :=
  fun hmem => by
    rw [List.all_eq_true.mp (action_chars form).2 c hmem] at hplain
    contradiction

def Form.line (form : Form) : RequestLine where
  method := "GET".toList
  path := form.action
  query := some (queryString form.pairs)
  proto := "HTTP/1.1".toList
  method_ne := Http.get_ne
  method_space := Http.get_space
  path_ne := (action_chars form).1
  path_space := not_mem_action (by decide) form
  path_mark := not_mem_action (by decide) form
  query_space := fun _ hquery =>
    Option.some.inj hquery ▸ not_mem_query (by decide) (by decide) (by decide) form
  proto_ne := Http.http_ne
  proto_space := Http.http_space

def fixedText : Text := "GET /?HTTP/1.1".toList

theorem mem_line {c : Char} (h : c ∈ form.line.text) :
    c ∈ form.action ∨ c ∈ queryString form.pairs ∨ c ∈ fixedText := by
  have hget : "GET".toList ⊆ fixedText := by decide
  have hproto : "HTTP/1.1".toList ⊆ fixedText := by decide
  change c ∈ "GET".toList ++ ' ' :: '/' :: (form.action ++ ('?' :: queryString form.pairs ++
    ' ' :: "HTTP/1.1".toList)) at h
  simp only [List.mem_append, List.mem_cons] at h
  rcases h with hmethod | rfl | rfl | haction | (rfl | hquery) | rfl | hversion
  · exact .inr (.inr (hget hmethod))
  · exact .inr (.inr (by decide))
  · exact .inr (.inr (by decide))
  · exact .inl haction
  · exact .inr (.inr (by decide))
  · exact .inr (.inl hquery)
  · exact .inr (.inr (by decide))
  · exact .inr (.inr (hproto hversion))

theorem not_mem_line {c : Char} (hplain : isPlain c = false) (hand : c ≠ '&') (hequals : c ≠ '=')
    (hfixed : c ∉ fixedText) (form : Form) : c ∉ form.line.text := by
  intro hmem
  rcases mem_line hmem with haction | hquery | hfix
  · exact not_mem_action hplain form haction
  · exact not_mem_query hplain hand hequals form hquery
  · exact hfixed hfix

def Form.request (form : Form) (headers : List Header) : Request where
  line := form.line
  line_whole := by
    rintro ⟨front, behind, heq⟩
    apply not_mem_line (c := '\r') (by decide) (by decide) (by decide) (by decide) form
    rw [← heq]
    simp [crlf]
  headers := headers

end Request

/-- The two ways to go on, from the variables that the console finds. -/
def Form.Started (form : Form) (environ : Environ) : Prop :=
  match form.socks with
  | none => main environ = some ⟨form.heads, form.filled⟩
  | some (sh, sp) =>
    mainSocks environ = some ⟨form.heads, form.filled.map fun info => ⟨info, sh.1, sp.1⟩⟩

theorem started_of_query (form : Form) (hshort : (queryString form.pairs).length < 2 ^ 31)
    (henviron : environ "QUERY_STRING".toList = some (queryString form.pairs)) :
    form.Started environ := by
  have hparser := (parser_queryString form.pairs (pairs_ne_nil form) hshort).1
  rw [Form.Started]
  split
  next =>
    rw [main, henviron, Option.bind_eq_bind, Option.bind_some, hparser, Option.bind_eq_bind,
      Option.bind_some, printHtml_pairs, serverInfos_pairs]
  next sh sp hsocks =>
    have hmem : ∀ p ∈ socksPairs (some (sh, sp)), infoMap (lastValue form.pairs) p.key = p.value :=
      fun p hp => infoMap_pair (List.mem_append_right _ (hsocks ▸ hp))
    have hsh : infoMap (lastValue form.pairs) "sh".toList = sh.1 := hmem _ List.mem_cons_self
    have hsp : infoMap (lastValue form.pairs) "sp".toList = sp.1 :=
      hmem _ (List.mem_cons_of_mem _ List.mem_cons_self)
    rw [mainSocks, henviron, Option.bind_eq_bind, Option.bind_some, hparser, Option.bind_eq_bind,
      Option.bind_some, printHtml_pairs, serverInfos_pairs, hsh, hsp]

/-- A form that is sent comes out as its sessions, when the request fits one read, has a
proper host, and `send` and `system` succeed: the server makes one call of `system`, for the
console behind the action, and this one starts the rows that are filled in, in order, with
their own places on the page, each as it stands in the form. -/
theorem form_started (form : Form) (headers : List Header) (ends : Ends) (out : Outcome)
    (environ : Environ) (body : Text)
    (hlength : (form.request headers).text.length ≤ maxLength) (hhost : NamesHost headers)
    (hsend : out.sendError = none) (hsystem : ∀ command, out.systemError command = none) :
    ∃ effects environ',
      doRead ends out ((form.request headers).text ++ body) = some effects ∧
        systemCalls environ effects = [("./".toList ++ form.action, environ')] ∧
          form.Started environ' := by
  have hnul : nul ∉ (form.request headers).line.text :=
    not_mem_line (by decide) (by decide) (by decide) (by decide) form
  have hread := doRead_request ends body hlength hhost hnul hsend hsystem
  have hcommand : shellCommand form.action = "./".toList ++ form.action := by
    rw [Form.action]
    cases form.socks.isNone <;> decide +kernel
  refine ⟨_, environ.cgi ends (form.request headers), hread, ?_, started_of_query form ?_ ?_⟩
  · rw [systemCalls_request, ← hcommand]
    rfl
  · have hquery : (queryString form.pairs).length ≤ (form.request headers).text.length := by
      change _ ≤ (form.line.text ++ _).length
      rw [List.length_append, RequestLine.text]
      simp only [Form.line, queryText, List.length_append, List.length_cons]
      omega
    have hmax : maxLength = 1024 := rfl
    omega
  · have hmem : ("QUERY_STRING".toList, queryString form.pairs) ∈
        cgiVariables ends (form.request headers) := by
      simp [cgiVariables, Form.request, Form.line]
    exact cgi_mem hmem

/-- `h0=np1&p0=9000&f0=t1.txt`, and the other rows left empty. -/
def oneRow : Form where
  rows i := if i = 0 then ⟨⟨"np1".toList, by decide⟩, ⟨"9000".toList, by decide⟩,
    ⟨"t1.txt".toList, by decide⟩⟩ else ⟨⟨[], rfl⟩, ⟨[], rfl⟩, ⟨[], rfl⟩⟩
  socks := none

theorem oneRow_started : ∃ effects environ',
    doRead loopback ⟨none, fun _ => none⟩
        ((oneRow.request consoleRequest.headers).text ++ []) = some effects ∧
      systemCalls (fun _ => none) effects = [("./".toList ++ oneRow.action, environ')] ∧
        oneRow.Started environ' :=
  form_started oneRow consoleRequest.headers loopback ⟨none, fun _ => none⟩ _ []
    (by decide +kernel) ⟨[], [], _, rfl, by simp, rfl,
      List.all_eq_true.mp (by decide +kernel)⟩ rfl fun _ => rfl

example : oneRow.filled = [⟨"s0".toList, "np1".toList, "9000".toList, "t1.txt".toList⟩] := by
  decide +kernel

end NetworkProgramming.Console
