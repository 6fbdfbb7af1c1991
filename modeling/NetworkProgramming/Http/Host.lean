import NetworkProgramming.Http.Request
import Mathlib.Data.List.DropRight

/-! The `Host` header, as `parser` finds it among the header lines. -/
namespace NetworkProgramming.Http
open Library.CString Library.Find

def hostMark : Text := "Host:".toList

structure Header where
  name : Text
  value : Text
  name_colon : ':' ∉ name
  name_line : '\r' ∉ name ∧ '\n' ∉ name
  value_line : '\r' ∉ value ∧ '\n' ∉ value

/-- `Name: value` -/
def Header.text (h : Header) : Text := h.name ++ ':' :: ' ' :: h.value

/-- The header lines, and the empty line. -/
def headerText (headers : List Header) : Text := headers.flatMap (fun h => h.text ++ crlf) ++ crlf

/-- A request whose first line is one line. -/
structure Request where
  line : RequestLine
  line_whole : ¬ crlf <:+: line.text
  headers : List Header

def Request.text (r : Request) : Text := r.line.text ++ (crlf ++ headerText r.headers)

/-- A value without the spaces around it. -/
def trim (value : Text) : Text := (value.dropWhile (· == ' ')).rdropWhile (· == ' ')

def hostValue (headers : List Header) : Text :=
  ((headers.find? (·.name = "Host".toList)).map fun h => trim h.value).getD []

/-- The parser comes to its end inside the text, and the host is the one of the request. -/
def HostSet (env : Env) (r : Request) : Prop :=
  ∃ env', parser env r.text = some (env', true) ∧ env'.HTTP_HOST = hostValue r.headers

/-- Behind spaces `str` begins with `value`, all of it characters of a host, and the next
character is none of them. -/
def Leads (value str : Text) : Prop :=
  ∃ spaces rest, str = spaces ++ (value ++ rest) ∧ (∀ c ∈ spaces, c = ' ') ∧
    (value ++ rest).head? ≠ some ' ' ∧ (∀ c ∈ value, isHostChar c) ∧
    ∀ c, rest.head? = some c → ¬ isHostChar c

/-- The header lines on which the search finds the host. -/
inductive Finds (headers : List Header) : Prop
  /-- The mark stands first in front of the host, which has no other characters. -/
  | named (front behind : List Header) (host : Header) : headers = front ++ host :: behind →
    (∀ h ∈ front, find hostMark h.text = none) → host.name = "Host".toList →
    (∀ c ∈ trim host.value, isHostChar c) → Finds headers
  /-- There is no mark, and no host from the fifth character on. -/
  | absent : headers ≠ [] → (∀ h ∈ headers, find hostMark h.text = none) →
    Leads [] ((headerText headers).drop 4) → Finds headers
  /-- The mark stands first in another header, and the value of the right one, or nothing,
  stands behind it all the same. -/
  | coincidence (front behind : List Header) (other : Header) (pos : Nat) :
    headers = front ++ other :: behind → (∀ h ∈ front, find hostMark h.text = none) →
    other.name ≠ "Host".toList → find hostMark other.text = some pos →
    Leads (hostValue headers) (other.text.drop (pos + 5)) → Finds headers

/-- The characters that both loops leave in `HTTP_HOST`. -/
def hostText (str : Text) : Text := (str.dropWhile (· == ' ')).takeWhile isHostChar

variable {h : Header} {headers front behind : List Header} {r : Request} {env env' : Env}
  {str rest line : Text} {pos : Nat} {c : Char}

section Line

theorem slicer_line (hwhole : ¬ crlf <:+: line) (rest : Text) :
    slicer (line ++ (crlf ++ rest)) crlf = some (line, rest) := by
  have hfind : find crlf (line ++ (crlf ++ rest)) = some line.length := by
    rw [find_eq_some]
    refine ⟨by simp, ?_, ?_⟩
    · rw [List.drop_left]
      exact ⟨rest, rfl⟩
    · rintro j hj ⟨more, heq⟩
      rw [List.drop_append_of_le_length (by omega), List.drop_eq_getElem_cons hj] at heq
      obtain ⟨hr, hbehind⟩ := List.cons.inj heq
      -- the mark would end in the line, or its second character be a CR
      cases hdrop : line.drop (j + 1) with
      | nil =>
        rw [hdrop] at hbehind
        exact absurd (List.cons.inj hbehind).1 (by decide)
      | cons c after =>
        rw [hdrop] at hbehind
        have hn := (List.cons.inj hbehind).1
        refine hwhole ⟨line.take j, after, ?_⟩
        have hline := List.take_append_drop j line
        rw [List.drop_eq_getElem_cons hj, hdrop, ← hr, ← hn] at hline
        conv_rhs => rw [← hline]
        rw [List.append_assoc]
        rfl
  rw [slicer, hfind]
  dsimp only
  rw [substr, if_pos (by simp), List.take_left, ← List.drop_drop, List.drop_left]
  rfl

end Line

section Search

theorem find_crlf (front rest : Text) : find hostMark (front ++ (crlf ++ rest)) =
    (find hostMark front).or ((find hostMark rest).map (· + (front.length + 2))) := by
  change find hostMark (front ++ '\r' :: ('\n' :: rest)) = _
  have hinner : find hostMark ([] ++ '\n' :: rest) = (find hostMark rest).map (· + 1) :=
    find_append_cons (by decide) (by decide)
  rw [List.nil_append] at hinner
  rw [find_append_cons (by decide) (by decide), hinner, Option.map_map]
  congr 2
  funext n
  change n + 1 + (front.length + 1) = n + (front.length + 2)
  omega

theorem headerText_cons (h : Header) (headers : List Header) :
    headerText (h :: headers) = h.text ++ (crlf ++ headerText headers) := by
  simp [headerText]

theorem find_headerText_none (h : ∀ h ∈ headers, find hostMark h.text = none) :
    find hostMark (headerText headers) = none := by
  induction headers with
  | nil => rfl
  | cons first headers ih =>
    rw [headerText_cons, find_crlf, h first List.mem_cons_self,
      ih fun other hother => h other (List.mem_cons_of_mem _ hother)]
    rfl

theorem first_mark (headers : List Header) : (∀ h ∈ headers, find hostMark h.text = none) ∨
    ∃ front behind h pos, headers = front ++ h :: behind ∧
      (∀ g ∈ front, find hostMark g.text = none) ∧ find hostMark h.text = some pos := by
  induction headers with
  | nil => exact .inl (by simp)
  | cons first headers ih =>
    cases hfirst : find hostMark first.text with
    | some pos => exact .inr ⟨[], headers, first, pos, rfl, by simp, hfirst⟩
    | none =>
      obtain hnone | ⟨front, behind, h, pos, hheaders, hfront, hpos⟩ := ih
      · exact .inl (List.forall_mem_cons.mpr ⟨hfirst, hnone⟩)
      · refine .inr ⟨first :: front, behind, h, pos, ?_,
          List.forall_mem_cons.mpr ⟨hfirst, hfront⟩, hpos⟩
        rw [hheaders]
        rfl

theorem takeWhile_append_end {front rest : Text} (h : rest.takeWhile isHostChar = []) :
    (front ++ rest).takeWhile isHostChar = front.takeWhile isHostChar := by
  rw [List.takeWhile_append]
  split
  next hall =>
    rw [h, List.append_nil]
    exact ((List.takeWhile_prefix isHostChar).eq_of_length hall).symm
  next => rfl

theorem hostText_crlf (front rest : Text) :
    hostText (front ++ (crlf ++ rest)) = hostText front := by
  have hend : (crlf ++ rest).takeWhile isHostChar = [] := rfl
  have hspaces : (crlf ++ rest).dropWhile (· == ' ') = crlf ++ rest := rfl
  unfold hostText
  rw [List.dropWhile_append]
  split
  next hempty =>
    rw [hspaces, hend, List.isEmpty_iff.mp hempty]
    rfl
  next => exact takeWhile_append_end hend

theorem mark_room (h : find hostMark str = some pos) : pos + 5 ≤ str.length := by
  obtain ⟨-, hstart, -⟩ := find_eq_some.mp h
  have hlength : hostMark.length = 5 := rfl
  have hroom := hstart.length_le
  rw [List.length_drop, hlength] at hroom
  omega

theorem httpHost_found (h : find hostMark str = some pos) :
    httpHost str = some (hostText (str.drop (pos + 5))) := by
  have hfound : find "Host:".toList str = some pos := h
  rw [httpHost, hfound]
  dsimp only
  rw [substr, if_pos (mark_room h)]
  rfl

theorem httpHost_missing (h : find hostMark str = none) :
    httpHost str = (substr str 4).map hostText := by
  have hmissing : find "Host:".toList str = none := h
  rw [httpHost, hmissing]
  dsimp only
  cases substr str 4 <;> rfl

theorem find_headerText (behind : List Header) (hfront : ∀ h ∈ front, find hostMark h.text = none)
    (hpos : find hostMark h.text = some pos) :
    ∃ place, find hostMark (headerText (front ++ h :: behind)) = some place ∧
      (headerText (front ++ h :: behind)).drop (place + 5) =
        h.text.drop (pos + 5) ++ (crlf ++ headerText behind) := by
  induction front with
  | nil =>
    refine ⟨pos, ?_, ?_⟩
    · rw [List.nil_append, headerText_cons, find_crlf, hpos]
      rfl
    · rw [List.nil_append, headerText_cons, List.drop_append_of_le_length (mark_room hpos)]
  | cons first front ih =>
    obtain ⟨place, hfind, hdrop⟩ :=
      ih fun other hother => hfront other (List.mem_cons_of_mem _ hother)
    refine ⟨place + (first.text.length + 2), ?_, ?_⟩
    · rw [List.cons_append, headerText_cons, find_crlf, hfront first List.mem_cons_self, hfind]
      rfl
    · have hskip : place + (first.text.length + 2) + 5 = first.text.length + (2 + (place + 5)) := by
        omega
      rw [List.cons_append, headerText_cons, hskip, ← List.drop_drop, List.drop_left,
        ← List.drop_drop, ← hdrop]
      rfl

theorem httpHost_headers (hfront : ∀ h ∈ front, find hostMark h.text = none)
    (hpos : find hostMark h.text = some pos) :
    httpHost (headerText (front ++ h :: behind)) = some (hostText (h.text.drop (pos + 5))) := by
  obtain ⟨place, hfind, hdrop⟩ := find_headerText behind hfront hpos
  rw [httpHost_found hfind, hdrop, hostText_crlf]

end Search

section Host

theorem find_host (h : Header) (hname : h.name = "Host".toList) :
    find hostMark h.text = some 0 ∧ h.text.drop 5 = ' ' :: h.value := by
  rw [Header.text, hname]
  refine ⟨?_, rfl⟩
  rw [find_eq_some]
  exact ⟨Nat.zero_le _, ⟨' ' :: h.value, rfl⟩, by omega⟩

theorem hostValue_front (behind : List Header) (hfront : ∀ h ∈ front, find hostMark h.text = none) :
    hostValue (front ++ behind) = hostValue behind := by
  have hnone : front.find? (·.name = "Host".toList) = none := by
    rw [List.find?_eq_none]
    intro h hh hname
    have hmark := (find_host h (of_decide_eq_true hname)).1
    rw [hfront h hh] at hmark
    contradiction
  rw [hostValue, List.find?_append, hnone]
  rfl

theorem hostValue_none (hnone : ∀ h ∈ headers, find hostMark h.text = none) :
    hostValue headers = [] := by
  have happend := hostValue_front [] hnone
  rw [List.append_nil] at happend
  exact happend

theorem hostValue_named (hname : h.name = "Host".toList) :
    hostValue (h :: behind) = trim h.value := by
  rw [hostValue, List.find?_cons_of_pos (by simpa using hname)]
  rfl

theorem hostText_eq_trim_iff (value : Text) :
    hostText (' ' :: value) = trim value ↔ ∀ c ∈ trim value, isHostChar c := by
  let spaces := (value.dropWhile (· == ' ')).rtakeWhile (· == ' ')
  have hsplit : trim value ++ spaces = value.dropWhile (· == ' ') :=
    List.rdropWhile_append_rtakeWhile
  have hspaces : spaces.takeWhile isHostChar = [] := by
    cases hcons : spaces with
    | nil => rfl
    | cons c rest =>
      have hmem : c ∈ spaces := hcons ▸ List.mem_cons_self
      have hc : c = ' ' := eq_of_beq (List.mem_rtakeWhile_imp (p := (· == ' ')) hmem)
      rw [hc]
      rfl
  have htext : hostText (' ' :: value) = (value.dropWhile (· == ' ')).takeWhile isHostChar := rfl
  rw [htext, ← hsplit, takeWhile_append_end hspaces, List.takeWhile_eq_self_iff]

theorem hostText_of_leads {value : Text} (h : Leads value str) : hostText str = value := by
  obtain ⟨spaces, rest, rfl, hspaces, hspace, hvalue, hrest⟩ := h
  have hbehind : (value ++ rest).dropWhile (· == ' ') = value ++ rest := by
    cases hcons : value ++ rest with
    | nil => rfl
    | cons c more =>
      rw [hcons, List.head?_cons, ne_eq, Option.some.injEq] at hspace
      exact List.dropWhile_cons_of_neg (by simpa using hspace)
  have hend : rest.takeWhile isHostChar = [] := by
    cases rest with
    | nil => rfl
    | cons c more => exact List.takeWhile_cons_of_neg (hrest c rfl)
  rw [hostText, List.dropWhile_append_of_pos (fun c hc => by simp [hspaces c hc]), hbehind,
    List.takeWhile_append_of_pos hvalue, hend, List.append_nil]

theorem leads_hostText (str : Text) : Leads (hostText str) str := by
  let behind := str.dropWhile (· == ' ')
  have hbehind : hostText str ++ behind.dropWhile isHostChar = behind :=
    List.takeWhile_append_dropWhile
  refine ⟨str.takeWhile (· == ' '), behind.dropWhile isHostChar, ?_, ?_, ?_, ?_, ?_⟩
  · rw [hbehind]
    exact List.takeWhile_append_dropWhile.symm
  · exact fun c hc => eq_of_beq (List.mem_takeWhile_imp (p := (· == ' ')) hc)
  · rw [hbehind]
    intro hhead
    have hstop := List.head?_dropWhile_not (· == ' ') str
    rw [show (str.dropWhile (· == ' ')).head? = some ' ' from hhead] at hstop
    exact absurd hstop (by decide)
  · exact fun c hc => List.mem_takeWhile_imp hc
  · intro c hhead
    have hstop := List.head?_dropWhile_not isHostChar behind
    rw [hhead] at hstop
    simp [hstop]

theorem hostText_eq_iff {value : Text} : hostText str = value ↔ Leads value str := by
  constructor
  · rintro rfl
    exact leads_hostText str
  · exact hostText_of_leads

end Host

theorem hostSet_iff_httpHost (env : Env) (r : Request) :
    HostSet env r ↔ httpHost (headerText r.headers) = some (hostValue r.headers) := by
  have hline := requestLine_whole env (slicer_line r.line_whole (headerText r.headers))
  unfold HostSet parser
  rw [Request.text, hline, Option.bind_eq_bind, Option.bind_some]
  dsimp only
  cases httpHost (headerText r.headers) with
  | none => simp
  | some host => simp

theorem headerText_length (hne : headers ≠ []) : 4 ≤ (headerText headers).length := by
  cases headers with
  | nil => contradiction
  | cons first headers =>
    have hcrlf : crlf.length = 2 := rfl
    rw [headerText_cons, Header.text]
    simp only [List.length_append, List.length_cons, hcrlf]
    omega

/-- The host of a request comes out as it was sent exactly when the search finds it. -/
theorem hostSet_iff (env : Env) (r : Request) : HostSet env r ↔ Finds r.headers := by
  rw [hostSet_iff_httpHost]
  constructor
  · intro h
    obtain hnone | ⟨front, behind, other, pos, hheaders, hfront, hpos⟩ := first_mark r.headers
    · have hne : r.headers ≠ [] := by
        intro hnil
        rw [hnil] at h
        exact absurd h (by decide)
      rw [httpHost_missing (find_headerText_none hnone), substr, if_pos (headerText_length hne),
        hostValue_none hnone, Option.map_some, Option.some.injEq, hostText_eq_iff] at h
      exact .absent hne hnone h
    · have hvalue := h
      rw [hheaders, httpHost_headers hfront hpos, hostValue_front _ hfront,
        Option.some.injEq] at hvalue
      by_cases hname : other.name = "Host".toList
      · obtain ⟨hzero, hdrop⟩ := find_host other hname
        rw [hzero, Option.some.injEq] at hpos
        rw [← hpos, hdrop, hostValue_named hname, hostText_eq_trim_iff] at hvalue
        exact .named front behind other hheaders hfront hname hvalue
      · refine .coincidence front behind other pos hheaders hfront hname hpos ?_
        rw [← hostText_eq_iff, hvalue, hheaders, hostValue_front _ hfront]
  · intro h
    cases h with
    | named front behind host hheaders hfront hname hchars =>
      obtain ⟨hzero, hdrop⟩ := find_host host hname
      rw [hheaders, httpHost_headers hfront hzero, hostValue_front _ hfront, hostValue_named hname,
        hdrop, (hostText_eq_trim_iff host.value).mpr hchars]
    | absent hne hnone htext =>
      rw [httpHost_missing (find_headerText_none hnone), substr, if_pos (headerText_length hne),
        hostValue_none hnone, Option.map_some, hostText_eq_iff.mpr htext]
    | coincidence front behind other pos hheaders hfront _ hpos hsame =>
      rw [← hostText_eq_iff.mpr hsame, hheaders, httpHost_headers hfront hpos]

/-- `Host: np-linux1` -/
def hyphenRequest : Request where
  line := panelLine
  line_whole := by decide +kernel
  headers := [⟨"Host".toList, "np-linux1".toList, by decide, by decide, by decide⟩]

/-- A hyphen ends the host. -/
theorem host_cut : (∃ env', parser ⟨[], [], [], [], [], []⟩ hyphenRequest.text = some (env', true) ∧
      env'.HTTP_HOST = "np".toList) ∧ hostValue hyphenRequest.headers = "np-linux1".toList ∧
    ¬ HostSet ⟨[], [], [], [], [], []⟩ hyphenRequest := by
  have hvalue : hostValue hyphenRequest.headers = "np-linux1".toList := by decide +kernel
  have hread : httpHost (headerText hyphenRequest.headers) = some "np".toList := by decide +kernel
  refine ⟨⟨_, rfl, rfl⟩, hvalue, ?_⟩
  rw [hostSet_iff_httpHost, hread, hvalue]
  decide

end NetworkProgramming.Http
