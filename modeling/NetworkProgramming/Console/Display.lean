import NetworkProgramming.Console.Commands
import NetworkProgramming.Library.Buffer
import NetworkProgramming.Library.Run
import NetworkProgramming.Socks.Relay

/-! The project 4 console: the reply of the SOCKS server, and the shell output
that is read back from `data_` as a C string. -/
namespace NetworkProgramming.Console
open Library.CString Library.Buffer Library.Run Socks

/-- Where a byte of `data_` comes from. -/
inductive Origin where
  | old
  | stream (i : Nat)
  deriving DecidableEq, Repr

/-- A byte, with its place in the stream of the server. -/
structure Mark where
  origin : Origin
  byte : Byte
  deriving DecidableEq, Repr

/-- `data_`, of `max_length` bytes. -/
abbrev Data := Vector Mark 1024

inductive Stage where
  | opening
  | reading
  | closed
  deriving DecidableEq, Repr

structure Npshell where
  stage : Stage
  data : Data
  source : Text
  commands : Commands
  shown : List (List Mark)

inductive Event where
  | read (bytes : List Mark)
  | eof

/-- `string _str(data_)`; without a NUL the string leaves the array. -/
def cString (data : Data) : Option (List Mark) := scan (·.byte == 0) data 0

def percent : Byte := 37

/-- The callback of `do_open_test_case`. -/
def onOpened (s : Npshell) (bytes : List Mark) : Npshell :=
  let data := fill s.data bytes
  if data[1].byte = 90 then
    { s with stage := .reading, data, commands := ⟨testCase s.source, []⟩ }
  else { s with stage := .closed, data }

/-- The callback of `do_read`. -/
def onOutput (s : Npshell) (bytes : List Mark) : Option Npshell := do
  let data := fill s.data bytes
  let str ← cString data
  some { s with
    data
    commands := if str.any (·.byte == percent) then doWrite s.commands else s.commands
    shown := s.shown ++ [str] }

/-- One completed read. A read on a closed socket never completes. -/
def next (s : Npshell) : Event → Option Npshell
  | .read bytes =>
    match s.stage with
    | .opening => if 0 < bytes.length ∧ bytes.length ≤ 8 then some (onOpened s bytes) else none
    | .reading => if 0 < bytes.length ∧ bytes.length ≤ 1024 then onOutput s bytes else none
    | .closed => some s
  | .eof =>
    match s.stage with
    | .opening => some { s with stage := .closed }
    | .reading => (cString s.data).map fun str =>
        { s with stage := .closed, shown := s.shown ++ [str] }
    | .closed => some s

def marks (start : Nat) (bytes : List Byte) : List Mark :=
  bytes.mapIdx fun i b => ⟨.stream (start + i), b⟩

def Npshell.start (data : Vector Byte 1024) (source : Text) : Npshell :=
  ⟨.opening, data.map fun b => ⟨.old, b⟩, source, ⟨[], []⟩, []⟩

/-- The reads that bring the reply and the output, cut anywhere. -/
structure Delivery (reply : Vector Byte 8) (output : List Byte) (first : List Mark)
    (rest : List (List Mark)) : Prop where
  joined : first ++ rest.flatten = marks 0 (reply.toList ++ output)
  first : 0 < first.length ∧ first.length ≤ 8
  rest : ∀ c ∈ rest, 0 < c.length ∧ c.length ≤ 1024

def events (first : List Mark) (rest : List (List Mark)) (closes : Bool) : List Event :=
  .read first :: (rest.map .read ++ if closes then [.eof] else [])

/-- The console goes on exactly when the request is granted, and then it shows
the bytes behind the reply, each once and no others. -/
def Displays (s : Npshell) (reply : Vector Byte 8) (output : List Byte) (first : List Mark)
    (rest : List (List Mark)) (closes : Bool) : Prop :=
  ((onOpened s first).stage = .reading ↔ reply[1] = 90) ∧
    ((onOpened s first).stage = .reading → ∃ st,
      exec next s (events first rest closes) = some st ∧ st.shown.flatten = marks 8 output)

/-- The reads behind the first one, when `p` bytes have come: one that begins
inside the reply begins with a NUL and stays there; a later one is shorter than
the array and meets a NUL behind it; at the end the array begins with a NUL. -/
def Fits (closes : Bool) : Data → Nat → List (List Mark) → Prop
  | data, _, [] => closes = true → data[0].byte = 0
  | data, p, c :: cs =>
    (if p < 8 then (∃ m ∈ c.head?, m.byte = 0) ∧ p + c.length ≤ 8
      else ∃ h : c.length < 1024, data[c.length].byte = 0) ∧
    Fits closes (fill data c) (p + c.length) cs

/-- What the calls of `output_shell` show together. -/
def display (closes : Bool) : Data → List (List Mark) → Option (List Mark)
  | data, [] => if closes then cString data else some []
  | data, c :: cs => do
    let str ← cString (fill data c)
    let rest ← display closes (fill data c) cs
    some (str ++ rest)

section Display
variable {s : Npshell} (closes : Bool) {cs : List (List Mark)} {data : Data} {c stream : List Mark}
  {p : Nat}

theorem exec_display (hstage : s.stage = .reading)
    (hlength : ∀ c ∈ cs, 0 < c.length ∧ c.length ≤ 1024) :
    (exec next s (cs.map .read ++ if closes then [.eof] else [])).map (·.shown.flatten) =
      (display closes s.data cs).map (s.shown.flatten ++ ·) := by
  induction cs generalizing s with
  | nil =>
    cases closes with
    | false => simp [display]
    | true =>
      simp only [List.map_nil, List.nil_append, if_true, exec, next, hstage, display]
      cases cString s.data <;> simp
  | cons c cs ih =>
    obtain ⟨hc, hrest⟩ := List.forall_mem_cons.mp hlength
    simp only [List.map_cons, List.cons_append, exec, next, hstage, if_pos hc, display, onOutput]
    cases hstr : cString (fill s.data c) with
    | none => rfl
    | some str =>
      simp only [Option.bind_eq_bind, Option.bind_some]
      rw [ih rfl hrest]
      cases display closes (fill s.data c) cs <;> simp

/-- The stream of the server: its bytes know their places, and behind the reply
there is no NUL. -/
structure Streamed (stream : List Mark) : Prop where
  origin : ∀ (i : Nat) (m : Mark), stream[i]? = some m → m.origin = .stream i
  visible : ∀ (i : Nat) (m : Mark), 8 ≤ i → stream[i]? = some m → (m.byte == 0) = false
  long : 8 ≤ stream.length

/-- The array holds what was there before, and bytes that have come. -/
def Holds (data : Data) (p : Nat) : Prop :=
  ∀ m ∈ data.toList, m.origin = .old ∨ ∃ i < p, m.origin = .stream i

theorem Holds.fill (h : Holds data p) (hstream : Streamed stream)
    (hc : c = (stream.drop p).take c.length) (hlength : c.length ≤ 1024) :
    Holds (fill data c) (p + c.length) := by
  intro m hm
  rw [fill_toList data hlength, List.mem_append] at hm
  rcases hm with hm | hm
  · obtain ⟨i, hi⟩ := List.mem_iff_getElem?.mp hm
    have hlt := (List.getElem?_eq_some_iff.mp hi).1
    rw [hc, List.getElem?_take, if_pos hlt, List.getElem?_drop] at hi
    exact .inr ⟨p + i, by omega, hstream.origin _ m hi⟩
  · rcases h m (List.mem_of_mem_drop hm) with hold | ⟨i, hi, horigin⟩
    · exact .inl hold
    · exact .inr ⟨i, by omega, horigin⟩

theorem Streamed.head (h : Streamed stream) {m : Mark} (hm : (stream.drop p).head? = some m) :
    m.origin = .stream p := by
  rw [List.head?_drop] at hm
  exact h.origin p m hm

theorem fill_first (data : Data) {m : Mark} (hm : c.head? = some m) : (fill data c)[0] = m := by
  rw [fill_getElem, ← List.head?_eq_getElem?, hm, Option.getD_some]

theorem cString_output (hstream : Streamed stream) (hp : 8 ≤ p)
    (hc : c = (stream.drop p).take c.length) (hlength : c.length ≤ 1024) :
    cString (fill data c) = (scan (·.byte == 0) data c.length).map (c ++ ·) := by
  apply scan_fill hlength
  intro m hm
  obtain ⟨i, hi⟩ := List.mem_iff_getElem?.mp hm
  have hlt := (List.getElem?_eq_some_iff.mp hi).1
  rw [hc, List.getElem?_take, if_pos hlt, List.getElem?_drop] at hi
  exact hstream.visible (p + i) m (by omega) hi

/-- What a read that begins inside the reply shows, if it does not begin with a
NUL, is not the output. -/
theorem cString_reply {m : Mark} {str rest : List Mark} (hstream : Streamed stream) (hp : p ≠ 8)
    (hc : c.head? = some m) (hm : (stream.drop p).head? = some m) (hbyte : (m.byte == 0) = false)
    (hstr : cString (fill data c) = some str) : str ++ rest ≠ stream.drop 8 := by
  have hfirst := fill_first data hc
  have hhead : str.head? = some m := by
    rw [← hfirst]
    apply scan_head hstr (by decide)
    rw [hfirst]
    exact hbyte
  intro heq
  obtain ⟨tail, rfl⟩ := List.head?_eq_some_iff.mp hhead
  have hplace := hstream.head (m := m) (p := 8) (by rw [← heq]; rfl)
  rw [hstream.head hm, Origin.stream.injEq] at hplace
  exact hp hplace

theorem cString_nil {m : Mark} (hm : data[0] = m) (hbyte : m.byte = 0) :
    cString data = some [] := by
  rw [cString, scan_nil_iff]
  exact ⟨by decide, by rw [hm, beq_iff_eq, hbyte]⟩

theorem display_late (hstream : Streamed stream) (hfirst : data[0].byte = 0) (hp : 8 < p)
    (hbound : p ≤ stream.length) (hcs : cs.flatten = stream.drop p)
    (hlength : ∀ c ∈ cs, 0 < c.length ∧ c.length ≤ 1024) :
    display closes data cs ≠ some (stream.drop 8) := by
  intro h
  cases cs with
  | nil =>
    have hnil : display closes data [] = some [] := by
      rw [display]
      cases closes with
      | false => rfl
      | true => exact cString_nil rfl hfirst
    rw [hnil, Option.some.injEq] at h
    have hlong := List.drop_eq_nil_iff.mp h.symm
    omega
  | cons c cs =>
    obtain ⟨m, tail, hc⟩ := List.exists_cons_of_length_pos (hlength c (List.mem_cons_self ..)).1
    have hhead : c.head? = some m := by rw [hc]; rfl
    have hplace : (stream.drop p).head? = some m := by
      rw [← hcs, List.flatten_cons, hc]
      rfl
    have hbyte : (m.byte == 0) = false := by
      rw [List.head?_drop] at hplace
      exact hstream.visible p m (by omega) hplace
    rw [display] at h
    obtain ⟨str, hstr, h⟩ := Option.bind_eq_some_iff.mp h
    obtain ⟨rest, -, heq⟩ := Option.bind_eq_some_iff.mp h
    rw [Option.some.injEq] at heq
    exact cString_reply hstream (by omega) hhead hplace hbyte hstr heq

theorem display_output (hstream : Streamed stream) (hdata : Holds data p) (hp : 8 ≤ p)
    (hc : c = (stream.drop p).take c.length) (hlength : c.length ≤ 1024)
    (hsplit : stream.drop p = c ++ stream.drop (p + c.length)) :
    display closes data (c :: cs) = some (stream.drop p) ↔
      (∃ h : c.length < 1024, data[c.length].byte = 0) ∧
        display closes (fill data c) cs = some (stream.drop (p + c.length)) := by
  have hnil : (∃ h : c.length < 1024, data[c.length].byte = 0) ↔
      scan (·.byte == 0) data c.length = some [] := by
    rw [scan_nil_iff]
    simp only [beq_iff_eq]
  rw [display, cString_output hstream hp hc hlength, hnil]
  constructor
  · intro h
    obtain ⟨str, hstr, h⟩ := Option.bind_eq_some_iff.mp h
    obtain ⟨extra, hextra, rfl⟩ := Option.map_eq_some_iff.mp hstr
    obtain ⟨rest, hdisplay, heq⟩ := Option.bind_eq_some_iff.mp h
    rw [Option.some.injEq, hsplit, List.append_assoc, List.append_cancel_left_eq] at heq
    cases extra with
    | nil => exact ⟨hextra, by rw [hdisplay, ← heq]; rfl⟩
    | cons m tail =>
      -- a byte behind the read is an old one, or came earlier
      have hplace := hstream.head (m := m) (p := p + c.length) (by rw [← heq]; rfl)
      rcases hdata m (scan_mem hextra (List.mem_cons_self ..)) with hold | ⟨i, hi, horigin⟩
      · rw [hold] at hplace
        contradiction
      · rw [horigin, Origin.stream.injEq] at hplace
        omega
  · rintro ⟨hscan, hdisplay⟩
    rw [hscan, hdisplay, hsplit]
    simp

theorem display_reply {m : Mark} (hstream : Streamed stream) (hp : p < 8)
    (hc : c.head? = some m) (hplace : (stream.drop p).head? = some m)
    (hbound : p + c.length ≤ stream.length) (hcs : cs.flatten = stream.drop (p + c.length))
    (hlength : ∀ c ∈ cs, 0 < c.length ∧ c.length ≤ 1024) :
    display closes data (c :: cs) = some (stream.drop 8) ↔
      ((∃ m ∈ c.head?, m.byte = 0) ∧ p + c.length ≤ 8) ∧
        display closes (fill data c) cs = some (stream.drop 8) := by
  have hfirst := fill_first data hc
  constructor
  · intro h
    rw [display] at h
    obtain ⟨str, hstr, h⟩ := Option.bind_eq_some_iff.mp h
    obtain ⟨rest, hdisplay, heq⟩ := Option.bind_eq_some_iff.mp h
    rw [Option.some.injEq] at heq
    by_cases hbyte : m.byte = 0
    · rw [cString_nil hfirst hbyte, Option.some.injEq] at hstr
      rw [← hstr, List.nil_append] at heq
      rw [heq] at hdisplay
      refine ⟨⟨⟨m, hc, hbyte⟩, ?_⟩, hdisplay⟩
      by_contra hlate
      exact display_late closes hstream (by rw [hfirst, hbyte]) (by omega) hbound hcs hlength hdisplay
    · exact absurd heq (cString_reply hstream (by omega) hc hplace (by simpa using hbyte) hstr)
  · rintro ⟨⟨⟨m', hm', hbyte⟩, -⟩, hdisplay⟩
    rw [Option.mem_def, hc, Option.some.injEq] at hm'
    rw [display, cString_nil hfirst (hm' ▸ hbyte), hdisplay]
    rfl

theorem display_iff (hstream : Streamed stream) (hdata : Holds data p)
    (hcs : cs.flatten = stream.drop p) (hp : p ≤ stream.length)
    (hlength : ∀ c ∈ cs, 0 < c.length ∧ c.length ≤ 1024) :
    display closes data cs = some (stream.drop (max p 8)) ↔ Fits closes data p cs := by
  induction cs generalizing data p with
  | nil =>
    have hnil : stream.drop p = [] := hcs.symm
    have hlong := hstream.long
    rw [List.drop_eq_nil_iff] at hnil
    have hend : stream.drop (max p 8) = [] := by
      rw [List.drop_eq_nil_iff]
      omega
    rw [hend, display, Fits]
    cases closes with
    | false => simp
    | true =>
      rw [if_pos rfl, cString, scan_nil_iff]
      simp
  | cons c cs ih =>
    obtain ⟨⟨hpos, hshort⟩, hrest⟩ := List.forall_mem_cons.mp hlength
    rw [List.flatten_cons] at hcs
    have hc : c = (stream.drop p).take c.length := by
      rw [← hcs, List.take_left]
    have hbehind : cs.flatten = stream.drop (p + c.length) := by
      rw [← List.drop_drop, ← hcs, List.drop_left]
    have hbound : p + c.length ≤ stream.length := by
      have hlen := congrArg List.length hcs
      rw [List.length_append, List.length_drop] at hlen
      omega
    obtain ⟨m, hm⟩ : ∃ m, c.head? = some m := by
      obtain ⟨m, tail, rfl⟩ := List.exists_cons_of_length_pos hpos
      exact ⟨m, rfl⟩
    have hplace : (stream.drop p).head? = some m := by
      rw [← hcs, List.head?_append, hm]
      rfl
    have hnext := ih (hdata.fill hstream hc hshort) hbehind hbound hrest
    rw [Fits]
    by_cases hreply : p < 8
    · rw [if_pos hreply, Nat.max_eq_right (by omega),
        display_reply closes hstream hreply hm hplace hbound hbehind hrest]
      apply and_congr_right
      intro hinside
      rw [← hnext, Nat.max_eq_right hinside.2]
    · have hsplit : stream.drop p = c ++ stream.drop (p + c.length) := by
        rw [← hbehind, hcs]
      rw [Nat.max_eq_left (by omega)] at hnext
      rw [if_neg hreply, Nat.max_eq_left (by omega),
        display_output closes hstream hdata (by omega) hc hshort hsplit, hnext]

end Display

theorem marks_getElem? (start : Nat) (bytes : List Byte) (i : Nat) :
    (marks start bytes)[i]? = bytes[i]?.map fun b => ⟨.stream (start + i), b⟩ := by
  simp [marks]

theorem marks_drop (first second : List Byte) :
    (marks 0 (first ++ second)).drop first.length = marks first.length second := by
  apply List.ext_getElem?
  intro i
  rw [List.getElem?_drop, marks_getElem?, marks_getElem?, List.getElem?_append_right (by omega)]
  simp

theorem streamed (reply : Vector Byte 8) {output : List Byte} (h : 0 ∉ output) :
    Streamed (marks 0 (reply.toList ++ output)) := by
  have hreply : reply.toList.length = 8 := Vector.length_toList
  constructor
  · intro i m hm
    rw [marks_getElem?, Option.map_eq_some_iff] at hm
    obtain ⟨b, -, rfl⟩ := hm
    rw [Nat.zero_add]
  · intro i m hi hm
    rw [marks_getElem?, Option.map_eq_some_iff] at hm
    obtain ⟨b, hb, rfl⟩ := hm
    rw [List.getElem?_append_right (by omega)] at hb
    rw [beq_eq_false_iff_ne]
    rintro rfl
    exact h (List.mem_of_getElem? hb)
  · simp [marks]

variable {reply : Vector Byte 8} {output : List Byte} {first : List Mark} {rest : List (List Mark)}

/-- Whether the console goes on is decided by the reply, unless only its first
byte has come and the old one behind it says something else. -/
theorem Delivery.opened (h : Delivery reply output first rest) (data : Vector Byte 1024)
    (source : Text) : ((onOpened (Npshell.start data source) first).stage = .reading ↔ reply[1] = 90) ↔
      (2 ≤ first.length ∨ (data[1] = 90 ↔ reply[1] = 90)) := by
  have hstage : (onOpened (Npshell.start data source) first).stage = .reading ↔
      (fill (Npshell.start data source).data first)[1].byte = 90 := by
    unfold onOpened
    dsimp only
    split
    next h90 => exact iff_of_true rfl h90
    next h90 => exact iff_of_false (by simp) h90
  rw [hstage, fill_getElem]
  by_cases hlong : 2 ≤ first.length
  · have hget : first[1]? = some ⟨.stream 1, reply[1]⟩ := by
      have hjoined := congrArg (·[1]?) h.joined
      simp only [List.getElem?_append_left (show 1 < first.length by omega), marks_getElem?] at hjoined
      rw [hjoined, List.getElem?_append_left (by simp), List.getElem?_eq_getElem (by simp),
        Vector.getElem_toList]
      rfl
    rw [hget]
    exact iff_of_true Iff.rfl (.inl hlong)
  · rw [List.getElem?_eq_none (by omega), Option.getD_none, or_iff_right hlong, Npshell.start,
      Vector.getElem_map]

theorem holds_start (data : Vector Byte 1024) (source : Text) :
    Holds (Npshell.start data source).data 0 := by
  intro m hm
  rw [Npshell.start, Vector.toList_map, List.mem_map] at hm
  obtain ⟨b, -, rfl⟩ := hm
  exact .inl rfl

theorem Delivery.shown (h : Delivery reply output first rest) (hnul : 0 ∉ output)
    (data : Vector Byte 1024) (source : Text) (closes : Bool)
    (hstage : (onOpened (Npshell.start data source) first).stage = .reading) :
    (∃ st, exec next (Npshell.start data source) (events first rest closes) = some st ∧
        st.shown.flatten = marks 8 output) ↔
      Fits closes (fill (Npshell.start data source).data first) first.length rest := by
  have hstream := streamed reply hnul
  have hfirst : first = ((marks 0 (reply.toList ++ output)).drop 0).take first.length := by
    rw [List.drop_zero, ← h.joined, List.take_left]
  have hrest : rest.flatten = (marks 0 (reply.toList ++ output)).drop first.length := by
    rw [← h.joined, List.drop_left]
  have hbound : first.length ≤ (marks 0 (reply.toList ++ output)).length := by
    rw [← h.joined, List.length_append]
    omega
  have hshort := h.first.2
  have hdata := (holds_start data source).fill hstream hfirst (by omega)
  rw [Nat.zero_add] at hdata
  have houtput : (marks 0 (reply.toList ++ output)).drop 8 = marks 8 output := by
    have hdrop := marks_drop reply.toList output
    rwa [Vector.length_toList] at hdrop
  have hdisplay := display_iff closes hstream hdata hrest hbound h.rest
  rw [Nat.max_eq_right hshort, houtput] at hdisplay
  have hopened : (onOpened (Npshell.start data source) first).data =
        fill (Npshell.start data source).data first ∧
      (onOpened (Npshell.start data source) first).shown = [] := by
    unfold onOpened
    dsimp only
    split <;> exact ⟨rfl, rfl⟩
  have hexec := exec_display closes hstage h.rest
  rw [hopened.1, hopened.2] at hexec
  simp only [List.flatten_nil, List.nil_append, Option.map_id_fun', id_eq] at hexec
  rw [← hdisplay, ← hexec, Option.map_eq_some_iff]
  have hstep : next (Npshell.start data source) (.read first) =
      some (onOpened (Npshell.start data source) first) := if_pos h.first
  rw [events, exec, hstep, Option.bind_some]

/-- The console shows the stream behind the reply exactly when its reads fit. -/
theorem output_displayed_iff (reply : Vector Byte 8) (output : List Byte) (first : List Mark)
    (rest : List (List Mark)) (h : Delivery reply output first rest) (hnul : 0 ∉ output)
    (data : Vector Byte 1024) (source : Text) (closes : Bool) :
    Displays (Npshell.start data source) reply output first rest closes ↔
      (2 ≤ first.length ∨ (data[1] = 90 ↔ reply[1] = 90)) ∧
        (reply[1] = 90 →
          Fits closes (fill (Npshell.start data source).data first) first.length rest) := by
  rw [Displays, h.opened data source]
  apply and_congr_right
  intro hfirst
  have hopened := (h.opened data source).mpr hfirst
  constructor
  · intro hshown h90
    exact (h.shown hnul data source closes (hopened.mpr h90)).mp (hshown (hopened.mpr h90))
  · intro hfits hstage
    exact (h.shown hnul data source closes hstage).mpr (hfits (hopened.mp hstage))

def granted : Vector Byte 8 := #v[0, 90, 0, 0, 0, 0, 0, 0]

/-- The prompt arrives in one read of an array that was cleared. -/
theorem output_displayed_iff_prompt :
    Displays (Npshell.start (Vector.replicate 1024 0) []) granted [37, 32]
        (marks 0 granted.toList) [marks 8 [37, 32]] false ↔
      (2 ≤ (marks 0 granted.toList).length ∨
          ((Vector.replicate 1024 (0 : Byte))[1] = 90 ↔ granted[1] = 90)) ∧
        (granted[1] = 90 →
          Fits false (fill (Npshell.start (Vector.replicate 1024 0) []).data
            (marks 0 granted.toList)) (marks 0 granted.toList).length [marks 8 [37, 32]]) := by
  apply output_displayed_iff
  · constructor
    · rfl
    · decide
    · intro c hc
      rw [List.mem_singleton] at hc
      rw [hc]
      decide
  · decide

/-- A short read leaves the end of the read before it in the array. -/
theorem earlier_read_shown_again :
    Delivery granted [97, 98, 99] (marks 0 granted.toList) [marks 8 [97, 98], marks 10 [99]] ∧
      ¬ Displays (Npshell.start (Vector.replicate 1024 0) []) granted [97, 98, 99]
        (marks 0 granted.toList) [marks 8 [97, 98], marks 10 [99]] false := by
  have hrun : ((exec next (Npshell.start (Vector.replicate 1024 0) [])
      (events (marks 0 granted.toList) [marks 8 [97, 98], marks 10 [99]] false)).map
        fun st => st.shown.flatten.map Mark.byte) = some [97, 98, 99, 98] := by
    decide +kernel
  have hopened : (onOpened (Npshell.start (Vector.replicate 1024 0) [])
      (marks 0 granted.toList)).stage = .reading := by decide +kernel
  constructor
  · constructor
    · rfl
    · decide
    · decide
  · rintro ⟨-, hshown⟩
    obtain ⟨st, hst, hflatten⟩ := hshown hopened
    rw [hst, Option.map_some, hflatten] at hrun
    exact absurd hrun (by decide)

end NetworkProgramming.Console
