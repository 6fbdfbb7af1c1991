import NetworkProgramming.Library.CString
import NetworkProgramming.Library.Find

/-! `http_server`: the parser of a request, and the environment that it sets for the
command behind it. -/
namespace NetworkProgramming.Http
open Library.CString Library.Find

/-- `_str.substr(pos)`; a start behind the end throws. -/
def substr (str : Text) (pos : Nat) : Option Text :=
  if pos ≤ str.length then some (str.drop pos) else none

/-- What is before `del`, and what `_str` is then. Without a `del` the position is -1,
and what is left begins at `-1 + del.length()`. -/
def slicer (str del : Text) : Option (Text × Text) :=
  match find del str with
  | some pos => (substr str (pos + del.length)).map fun rest => (str.take pos, rest)
  | none => (substr str (del.length - 1)).map fun rest => (str, rest)

/-- `reqURI.erase(reqURI.begin())`, for which there must be a character. -/
def eraseBegin : Text → Option Text
  | [] => none
  | _ :: rest => some rest

/-- The entries of `env_` that the parser sets, and `source`. -/
structure Env where
  REQUEST_METHOD : Text
  REQUEST_URI : Text
  QUERY_STRING : Text
  SERVER_PROTOCOL : Text
  HTTP_HOST : Text
  source : Text
  deriving DecidableEq, Repr

def crlf : Text := ['\r', '\n']

/-- The first lines of `parser`: the request line, and the text behind it. -/
def requestLine (env : Env) (str : Text) : Option (Env × Text) := do
  let (temp, str) ← slicer str crlf
  let (method, temp) ← slicer temp [' ']
  let (reqURI, temp) ← slicer temp [' ']
  let reqURI ← eraseBegin reqURI
  let (source, query) ← slicer reqURI ['?']
  some ({ env with
    REQUEST_METHOD := method
    REQUEST_URI := reqURI
    source := source
    QUERY_STRING := query
    SERVER_PROTOCOL := temp }, str)

def isHostChar (c : Char) : Bool := c.isAlphanum || c == '.' || c == ':'

/-- The rest of `parser`: the text behind `Host:` and its spaces. Without one `pos` is
`-1 + 5`, and a `pos` behind the end throws. -/
def httpHost (str : Text) : Option Text := do
  let pos := match find "Host:".toList str with
    | some pos => pos + 5
    | none => 4
  let rest ← substr str pos
  some ((rest.dropWhile (· == ' ')).takeWhile isHostChar)

/-- `parser`: the environment it leaves, and whether it comes to its end or throws
on the host. -/
def parser (env : Env) (str : Text) : Option (Env × Bool) := do
  let (env, rest) ← requestLine env str
  match httpHost rest with
  | some host => some ({ env with HTTP_HOST := host }, true)
  | none => some (env, false)

/-- The line that a request starts with. -/
structure RequestLine where
  method : Text
  path : Text
  query : Option Text
  proto : Text
  method_ne : method ≠ []
  method_space : ' ' ∉ method
  path_ne : path ≠ []
  path_space : ' ' ∉ path
  path_mark : '?' ∉ path
  query_space : ∀ q, query = some q → ' ' ∉ q
  proto_ne : proto ≠ []
  proto_space : ' ' ∉ proto

def queryText : Option Text → Text
  | none => []
  | some query => '?' :: query

def RequestLine.text (r : RequestLine) : Text :=
  r.method ++ ' ' :: '/' :: (r.path ++ (queryText r.query ++ ' ' :: r.proto))

/-- The environment has the parts of the line. -/
structure Sets (r : RequestLine) (env : Env) : Prop where
  method : env.REQUEST_METHOD = r.method
  source : env.source = r.path
  proto : env.SERVER_PROTOCOL = r.proto
  query : env.QUERY_STRING = r.query.getD []

variable {r : RequestLine} {env env' : Env} {str front rest temp left right left' right' : Text}
  {c : Char} {ended : Bool}

section Slicer

theorem slicer_mem (h : c ∉ front) : slicer (front ++ c :: rest) [c] = some (front, rest) := by
  rw [slicer, find_singleton h]
  dsimp only
  rw [substr, if_pos (by simp), List.take_left, List.length_singleton, ← List.drop_drop,
    List.drop_left]
  rfl

theorem slicer_not_mem (h : c ∉ str) : slicer str [c] = some (str, str) := by
  rw [slicer, find_singleton_none h]
  rfl

theorem slicer_eq_some (h : slicer str [c] = some (left, right)) :
    c ∉ left ∧ str = left ++ c :: right ∨ c ∉ str ∧ left = str ∧ right = str := by
  by_cases hc : c ∈ str
  · obtain ⟨front, behind, rfl, hfront⟩ := List.eq_append_cons_of_mem hc
    rw [slicer_mem hfront, Option.some.injEq, Prod.mk.injEq] at h
    obtain ⟨rfl, rfl⟩ := h
    exact .inl ⟨hfront, rfl⟩
  · rw [slicer_not_mem hc, Option.some.injEq, Prod.mk.injEq] at h
    exact .inr ⟨hc, h.1.symm, h.2.symm⟩

theorem cut_unique (h : left ++ c :: right = left' ++ c :: right') (hleft : c ∉ left)
    (hleft' : c ∉ left') : left = left' ∧ right = right' := by
  have hslicer : slicer (left ++ c :: right) [c] = some (left, right) := slicer_mem hleft
  rw [h, slicer_mem hleft', Option.some.injEq, Prod.mk.injEq] at hslicer
  exact ⟨hslicer.1.symm, hslicer.2.symm⟩

theorem slicer_crlf (line rest : Text) : ∃ temp behind,
    slicer (line ++ (crlf ++ rest)) crlf = some (temp, behind) ∧
      (¬ crlf <:+: line ∧ temp = line ∨ crlf <:+: line ∧ ∃ more, line = temp ++ '\r' :: more) := by
  have hfound : crlf <:+: line ++ (crlf ++ rest) := ⟨line, rest, by simp⟩
  obtain ⟨pos, hpos⟩ : ∃ pos, find crlf (line ++ (crlf ++ rest)) = some pos := by
    rw [← Option.ne_none_iff_exists', ne_eq, find_eq_none, not_not]
    exact hfound
  obtain ⟨hle, ⟨behind, hstart⟩, hbefore⟩ := find_eq_some.mp hpos
  have hpiece : pos ≤ line.length := by
    by_contra hlong
    apply hbefore line.length (by omega)
    rw [List.drop_left]
    exact ⟨rest, rfl⟩
  have hroom : pos + crlf.length ≤ (line ++ (crlf ++ rest)).length := by
    have hlength := congrArg List.length hstart
    rw [List.length_append, List.length_drop] at hlength
    omega
  refine ⟨line.take pos, (line ++ (crlf ++ rest)).drop (pos + crlf.length), ?_, ?_⟩
  · rw [slicer, hpos]
    dsimp only
    rw [substr, if_pos hroom, List.take_append_of_le_length hpiece]
    rfl
  · rw [List.drop_append_of_le_length hpiece] at hstart
    cases hdrop : line.drop pos with
    | nil =>
      have hlast : pos = line.length := by
        have hlong := List.drop_eq_nil_iff.mp hdrop
        omega
      refine .inl ⟨?_, by rw [hlast, List.take_length]⟩
      rintro ⟨before, after, heq⟩
      apply hbefore before.length
      · rw [hlast, ← heq, List.length_append, List.length_append]
        have htwo : crlf.length = 2 := rfl
        omega
      · rw [← heq, List.append_assoc, List.append_assoc, List.drop_left]
        exact ⟨_, rfl⟩
    | cons c more =>
      rw [hdrop] at hstart
      have hline : line = line.take pos ++ c :: more := by rw [← hdrop, List.take_append_drop]
      obtain ⟨hc, hmore⟩ := List.cons.inj hstart
      cases more with
      | nil =>
        have hnext := (List.cons.inj hmore).1
        contradiction
      | cons d more =>
        have hd := (List.cons.inj hmore).1
        subst hc hd
        refine .inr ⟨⟨line.take pos, more, ?_⟩, _, hline⟩
        conv_rhs => rw [hline]
        rw [List.append_assoc]
        rfl

end Slicer

theorem requestLine_eq_some (h : requestLine env str = some (env', rest)) : ∃ temp behind c uri,
    slicer str crlf = some (temp, rest) ∧ slicer temp [' '] = some (env'.REQUEST_METHOD, behind) ∧
      slicer behind [' '] = some (c :: uri, env'.SERVER_PROTOCOL) ∧
      slicer uri ['?'] = some (env'.source, env'.QUERY_STRING) := by
  unfold requestLine at h
  simp only [Option.bind_eq_bind, Option.bind_eq_some_iff, Prod.exists] at h
  obtain ⟨temp, rest', hline, method, behind, hmethod, uri, proto, huri, uri', herase, source, query,
    hsource, h⟩ := h
  cases uri with
  | nil => contradiction
  | cons c uri =>
    obtain rfl := Option.some.inj herase
    simp only [Option.some.injEq, Prod.mk.injEq] at h
    obtain ⟨rfl, rfl⟩ := h
    exact ⟨temp, behind, c, uri, hline, hmethod, huri, hsource⟩

theorem parser_eq_some (h : parser env str = some (env', ended)) : ∃ env₁ rest,
    requestLine env str = some (env₁, rest) ∧ ∀ r, Sets r env' ↔ Sets r env₁ := by
  unfold parser at h
  rw [Option.bind_eq_bind, Option.bind_eq_some_iff] at h
  obtain ⟨⟨env₁, rest⟩, hline, h⟩ := h
  refine ⟨env₁, rest, hline, fun r => ?_⟩
  dsimp only at h
  split at h
  next =>
    simp only [Option.some.injEq, Prod.mk.injEq] at h
    rw [← h.1]
    exact ⟨fun h => ⟨h.method, h.source, h.proto, h.query⟩,
      fun h => ⟨h.method, h.source, h.proto, h.query⟩⟩
  next =>
    simp only [Option.some.injEq, Prod.mk.injEq] at h
    rw [h.1]

theorem parser_of_requestLine (h : requestLine env str = some (env', rest)) :
    ∃ env'' ended, parser env str = some (env'', ended) := by
  unfold parser
  rw [h, Option.bind_eq_bind, Option.bind_some]
  dsimp only
  split <;> exact ⟨_, _, rfl⟩

theorem RequestLine.uri_space (r : RequestLine) : ' ' ∉ '/' :: (r.path ++ queryText r.query) := by
  intro hmem
  rcases List.mem_cons.mp hmem with hslash | hmem
  · contradiction
  rcases List.mem_append.mp hmem with hpath | hquery
  · exact r.path_space hpath
  · cases hcase : r.query with
    | none =>
      rw [hcase] at hquery
      contradiction
    | some query =>
      rw [hcase] at hquery
      rcases List.mem_cons.mp hquery with hmark | hquery
      · contradiction
      · exact r.query_space query hcase hquery

theorem RequestLine.text_eq (r : RequestLine) : r.text =
    r.method ++ ' ' :: (('/' :: (r.path ++ queryText r.query)) ++ ' ' :: r.proto) := by
  simp [RequestLine.text]

theorem query_behind_ne (query : Option Text) {proto more : Text} :
    queryText query ++ ' ' :: proto ≠ '\r' :: more := by
  intro h
  cases query with
  | none => exact absurd (List.cons.inj h).1 (by decide)
  | some query => exact absurd (List.cons.inj h).1 (by decide)

theorem not_sets_of_cut {more behind uri : Text} (hcut : r.text = temp ++ '\r' :: more)
    (hmethod : slicer temp [' '] = some (env.REQUEST_METHOD, behind))
    (huri : slicer behind [' '] = some (c :: uri, env.SERVER_PROTOCOL))
    (hsource : slicer uri ['?'] = some (env.source, env.QUERY_STRING)) : ¬ Sets r env := by
  intro h
  rw [h.method] at hmethod
  rw [h.proto] at huri
  rw [h.source, h.query] at hsource
  rw [r.text_eq] at hcut
  -- the CR is none of the characters that end a part
  obtain ⟨-, htemp⟩ | ⟨-, hwhole, -⟩ := slicer_eq_some hmethod
  · rw [htemp, List.append_assoc, List.append_cancel_left_eq] at hcut
    have hbody : '/' :: (r.path ++ queryText r.query) ++ ' ' :: r.proto = behind ++ '\r' :: more :=
      (List.cons.inj hcut).2
    obtain ⟨hspace, hbehind⟩ | ⟨-, hwhole, -⟩ := slicer_eq_some huri
    · rw [hbehind, List.append_assoc, List.cons_append] at hbody
      have hparts : r.proto = r.proto ++ '\r' :: more := (cut_unique hbody r.uri_space hspace).2
      have hlength := congrArg List.length hparts
      rw [List.length_append, List.length_cons] at hlength
      omega
    · rw [← hwhole, List.cons_append, List.cons_append, List.cons.injEq, List.append_assoc] at hbody
      have hpath := hbody.2
      obtain ⟨-, hquery⟩ | ⟨-, hwhole, -⟩ := slicer_eq_some hsource
      · rw [hquery, List.append_assoc, List.append_cancel_left_eq] at hpath
        cases hcase : r.query with
        | none =>
          rw [hcase] at hpath
          exact absurd (List.cons.inj hpath).1 (by decide)
        | some query =>
          rw [hcase] at hpath
          have hbehind : query ++ ' ' :: r.proto = query ++ '\r' :: more := (List.cons.inj hpath).2
          rw [List.append_cancel_left_eq] at hbehind
          exact absurd (List.cons.inj hbehind).1 (by decide)
      · rw [← hwhole, List.append_cancel_left_eq] at hpath
        exact absurd hpath (query_behind_ne r.query)
  · rw [← hwhole, List.append_cancel_left_eq] at hcut
    exact absurd (List.cons.inj hcut).1 (by decide)

/-- The environment of a line without a CR LF in it: without a `?` the query is the path. -/
theorem requestLine_whole (env : Env) (h : slicer str crlf = some (r.text, rest)) :
    requestLine env str = some ({ env with
      REQUEST_METHOD := r.method
      REQUEST_URI := r.path ++ queryText r.query
      source := r.path
      QUERY_STRING := r.query.getD r.path
      SERVER_PROTOCOL := r.proto }, rest) := by
  have hquery : slicer (r.path ++ queryText r.query) ['?'] = some (r.path, r.query.getD r.path) := by
    cases hcase : r.query with
    | none =>
      rw [queryText, List.append_nil, slicer_not_mem r.path_mark]
      rfl
    | some query => exact slicer_mem r.path_mark
  unfold requestLine
  rw [h, Option.bind_eq_bind, Option.bind_some]
  dsimp only
  rw [r.text_eq, slicer_mem r.method_space, Option.bind_eq_bind, Option.bind_some]
  dsimp only
  rw [slicer_mem r.uri_space, Option.bind_some]
  dsimp only
  rw [eraseBegin, Option.bind_some, hquery]
  rfl

/-- A request line comes out as it was sent exactly when it has a query, and no CR LF
inside. -/
theorem request_set_iff (r : RequestLine) (env : Env) (rest : Text) :
    (∃ env' ended, parser env (r.text ++ (crlf ++ rest)) = some (env', ended) ∧ Sets r env') ↔
      r.query.isSome ∧ ¬ crlf <:+: r.text := by
  obtain ⟨temp, behind, hslicer, hcases⟩ := slicer_crlf r.text rest
  constructor
  · rintro ⟨env', ended, hparser, hsets⟩
    obtain ⟨env₁, rest', hline, hsame⟩ := parser_eq_some hparser
    rw [hsame] at hsets
    obtain ⟨hnone, rfl⟩ | ⟨-, more, hcut⟩ := hcases
    · refine ⟨?_, hnone⟩
      rw [requestLine_whole env hslicer, Option.some.injEq, Prod.mk.injEq] at hline
      have hquery := hsets.query
      rw [← hline.1] at hquery
      cases hcase : r.query with
      | some query => rfl
      | none =>
        rw [hcase] at hquery
        exact absurd hquery r.path_ne
    · obtain ⟨temp', behind', c, uri, hline, hmethod, huri, hsource⟩ := requestLine_eq_some hline
      rw [hslicer, Option.some.injEq, Prod.mk.injEq] at hline
      obtain ⟨rfl, -⟩ := hline
      exact absurd hsets (not_sets_of_cut hcut hmethod huri hsource)
  · rintro ⟨hquery, hnone⟩
    obtain ⟨-, rfl⟩ | ⟨hinside, -⟩ := hcases
    · obtain ⟨query, hcase⟩ := Option.isSome_iff_exists.mp hquery
      have hline := requestLine_whole env hslicer
      obtain ⟨env', ended, hparser⟩ := parser_of_requestLine hline
      refine ⟨env', ended, hparser, ?_⟩
      obtain ⟨env₁, rest', hline', hsame⟩ := parser_eq_some hparser
      rw [hline, Option.some.injEq, Prod.mk.injEq] at hline'
      rw [hsame, ← hline'.1]
      exact ⟨rfl, rfl, rfl, by rw [hcase]; rfl⟩
    · exact absurd hinside hnone

/-- `GET /panel.cgi HTTP/1.1` -/
def panelLine : RequestLine where
  method := "GET".toList
  path := "panel.cgi".toList
  query := none
  proto := "HTTP/1.1".toList
  method_ne := by decide
  method_space := by decide
  path_ne := by decide
  path_space := by decide
  path_mark := by decide
  query_space := by simp
  proto_ne := by decide
  proto_space := by decide

/-- Without a `?` the path is taken for the query. -/
theorem path_taken_for_query : ∃ env', parser ⟨[], [], [], [], [], []⟩
      (panelLine.text ++ (crlf ++ "Host: nplinux1.cs.nctu.edu.tw\r\n\r\n".toList)) = some (env', true) ∧
    env'.QUERY_STRING = "panel.cgi".toList ∧ ¬ Sets panelLine env' := by
  refine ⟨_, rfl, rfl, fun h => ?_⟩
  have hquery := h.query
  contradiction

end NetworkProgramming.Http
