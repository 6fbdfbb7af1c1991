import NetworkProgramming.Console.Display
import NetworkProgramming.Console.Request
import NetworkProgramming.Socks.Answer

/-! The project 4 console and the session of `socks_server` that it has asked: the two
with the bytes between them, in any order of their steps. -/
namespace NetworkProgramming.Console.Handshake
open Library.CString Library.Buffer Library.Run Socks

/-- What the console asks for, and all that the two sides find: the old bytes of both
arrays, the resolver, `socks.conf`, and the port of a bind. -/
structure Setting where
  endpoint : Endpoint
  old : Parser.Data
  data : Vector Byte 1024
  source : Text
  resolve : Text → Text → Option Text
  content : Text
  bindPort : Nat

/-- The session, the bytes that it has sent and the console has not read, and how many
the console has read. -/
structure World where
  server : Answer.State
  wire : List Byte
  console : Npshell
  position : Nat

/-- The session has read the request in one piece. -/
def start (g : Setting) : World where
  server := Answer.onRead g.resolve g.content g.bindPort
    (fill g.old (requestBytes g.endpoint).toList)
  wire := []
  console := Npshell.start g.data g.source
  position := 0

inductive Event where
  | server (e : Answer.Event)
  | read (length : Nat)
  | eof

def deliveredTo : Answer.Work → List Byte
  | .bridge b => b.relay.delivered .client
  | .bind b => b.relay.delivered .client
  | _ => []

def emitted (before after : Answer.State) : Answer.Event → List Byte
  | .refused (some n) =>
    match before.acts with
    | [.reply bytes] => bytes.toList.take n
    | _ => []
  | .refused none => []
  | _ => (deliveredTo after.work).drop (deliveredTo before.work).length

/-- A read takes what is on the wire; the end of the stream comes behind it. -/
def step (w : World) : Event → Option World
  | .server e => (Answer.step w.server e).map fun server =>
      { w with server, wire := w.wire ++ emitted w.server server e }
  | .read length =>
    if length ≤ w.wire.length then
      (next w.console (.read (marks w.position (w.wire.take length)))).map fun console =>
        { w with console, wire := w.wire.drop length, position := w.position + length }
    else none
  | .eof =>
    if w.wire = [] then (next w.console .eof).map fun console => { w with console } else none

/-- `socks.conf` lets the console through. -/
def Setting.Permitted (g : Setting) : Prop :=
  Session.firewall ⟨['1'], g.endpoint.address⟩ g.content = true

instance (g : Setting) : Decidable g.Permitted :=
  inferInstanceAs (Decidable (Session.firewall ⟨['1'], g.endpoint.address⟩ g.content = true))

/-- The session has become a bridge whose other end is connected. -/
def Bridged (w : World) : Prop :=
  ∃ b, w.server.work = .bridge b ∧ b.stage = .relaying

def Passed (s : Npshell) : Prop := s.stage = .reading ∨ s.commands ≠ ⟨[], []⟩

/-- Where the two are, and what is between them. -/
inductive Phase (g : Setting) (w : World) : Prop
  | waiting (b : Bridge.SocksBridge) : g.Permitted → w.server.work = .bridge b →
    b.stage ≠ .relaying → b.relay = Relay.initial → w.wire = [] → ¬ Passed w.console → Phase g w
  | bridged : g.Permitted → Bridged w → Phase g w
  | refusing (port : Nat) : ¬ g.Permitted →
    w.server = ⟨.refusing, [.reply (Answer.socksrpy 4 91 port)]⟩ → w.wire = [] →
    ¬ Passed w.console → (w.console.stage = .opening → (w.console.data.get 1).byte ≠ 90) → Phase g w
  | refused (port : Nat) : ¬ g.Permitted → w.server.work = .ended → ¬ Passed w.console →
    (w.console.stage = .opening → (w.console.data.get 1).byte ≠ 90 ∧
      w.wire <+: (Answer.socksrpy 4 91 port).toList) → Phase g w

variable {g : Setting} {w w' : World} {e : Event} {s s' : Npshell}

section Start

end Start

section Server

theorem relaying_step {b after : Bridge.SocksBridge} {e : Bridge.Event} (h : b.stage = .relaying)
    (hstep : Bridge.step b e = some after) : after.stage = .relaying := by
  cases e with
  | resolved ok => simp [Bridge.step, Bridge.onResolved, h] at hstep
  | connected ok => simp [Bridge.step, Bridge.onConnected, h] at hstep
  | replied sent => cases sent <;> simp [Bridge.step, Bridge.onReplied, h] at hstep
  | read FROM bytes =>
    obtain ⟨relay, -, rfl⟩ := Option.map_eq_some_iff.mp hstep
    exact h
  | sent TO length =>
    cases length with
    | none =>
      obtain ⟨relay, -, rfl⟩ := Option.map_eq_some_iff.mp hstep
      exact h
    | some n =>
      obtain ⟨relay, -, rfl⟩ := Option.map_eq_some_iff.mp hstep
      exact h

theorem waiting_step {b after : Bridge.SocksBridge} {e : Bridge.Event}
    (hrelay : b.relay = Relay.initial) (hstep : Bridge.step b e = some after) :
    (after.stage = .relaying ∧ ∃ n, e = .replied (some n) ∧
        after.relay.delivered .client = b.reply.toList.take n) ∨
      after.stage ≠ .relaying ∧ after.relay = Relay.initial ∧ after.reply = b.reply := by
  have hidle : b.relay.Idle := hrelay ▸ Relay.initial_idle
  obtain ⟨ok, rfl⟩ | ⟨ok, rfl⟩ | ⟨sent, rfl⟩ := Answer.relay_idle hidle hstep
  · simp only [Bridge.step, Bridge.onResolved] at hstep
    split at hstep
    next =>
      cases hstep
      exact .inr ⟨by cases ok <;> simp, hrelay, rfl⟩
    next => contradiction
  · simp only [Bridge.step, Bridge.onConnected] at hstep
    split at hstep
    next =>
      cases hstep
      exact .inr ⟨by cases ok <;> simp, hrelay, rfl⟩
    next => contradiction
  · cases sent with
    | none =>
      simp only [Bridge.step, Bridge.onReplied] at hstep
      split at hstep
      next =>
        cases hstep
        exact .inr ⟨by simp, hrelay, rfl⟩
      next => contradiction
    | some n =>
      simp only [Bridge.step, Bridge.onReplied] at hstep
      split at hstep
      next =>
        cases hstep
        refine .inl ⟨rfl, n, rfl, ?_⟩
        rw [hrelay]
        simp [Relay.doRead, Relay.deliver, Relay.initial]
      next => contradiction

theorem Phase.server (h : Phase g w) {a : Answer.Event} {server : Answer.State}
    (hstep : Answer.step w.server a = some server) :
    Phase g { w with server, wire := w.wire ++ emitted w.server server a } := by
  cases h with
  | waiting b hpermitted hwork hstage hrelay hwire hquiet =>
    cases a with
    | refused sent => simp [Answer.step, hwork] at hstep
    | bind a => simp [Answer.step, hwork] at hstep
    | bridge a =>
      simp only [Answer.step, hwork] at hstep
      obtain ⟨after, hafter, rfl⟩ := Option.map_eq_some_iff.mp hstep
      obtain ⟨hrelaying, -⟩ | ⟨hnot, hsame, -⟩ := waiting_step hrelay hafter
      · exact .bridged hpermitted ⟨after, rfl, hrelaying⟩
      · refine .waiting after hpermitted rfl hnot hsame ?_ hquiet
        simp only [emitted, deliveredTo, hwork, hwire, hrelay, hsame]
        rfl
  | bridged hpermitted hbridged =>
    obtain ⟨b, hwork, hstage⟩ := hbridged
    cases a with
    | refused sent => simp [Answer.step, hwork] at hstep
    | bind a => simp [Answer.step, hwork] at hstep
    | bridge a =>
      simp only [Answer.step, hwork] at hstep
      obtain ⟨after, hafter, rfl⟩ := Option.map_eq_some_iff.mp hstep
      exact .bridged hpermitted ⟨after, rfl, relaying_step hstage hafter⟩
  | refusing port hrefused hserver hwire hquiet hdata =>
    rw [hserver] at hstep ⊢
    cases a with
    | bridge a => contradiction
    | bind a => contradiction
    | refused sent =>
      cases hstep
      refine .refused port hrefused rfl hquiet fun hopening => ⟨hdata hopening, ?_⟩
      rw [hwire, List.nil_append]
      cases sent with
      | none => exact List.nil_prefix
      | some n => exact List.take_prefix n _
  | refused port hrefused hwork hquiet hwire =>
    cases a <;> simp [Answer.step, hwork] at hstep

end Server

section Console

theorem next_quiet {e : Console.Event} (h : ¬ Passed s) (hnext : next s e = some s') :
    s' = s ∧ s.stage = .closed ∨ s' = { s with stage := .closed } ∨
      ∃ bytes, e = .read bytes ∧ s.stage = .opening ∧ 0 < bytes.length ∧ s' = onOpened s bytes := by
  rw [Passed, not_or, not_not] at h
  cases hstage : s.stage with
  | reading => exact absurd hstage h.1
  | closed =>
    refine .inl ⟨?_, rfl⟩
    cases e <;> simp only [next, hstage] at hnext <;> exact (Option.some.inj hnext).symm
  | opening =>
    cases e with
    | eof =>
      simp only [next, hstage] at hnext
      exact .inr (.inl (Option.some.inj hnext).symm)
    | read bytes =>
      simp only [next, hstage] at hnext
      split at hnext
      next hlength => exact .inr (.inr ⟨bytes, rfl, rfl, hlength.1, (Option.some.inj hnext).symm⟩)
      next => contradiction

theorem closed_quiet (h : ¬ Passed s) : ¬ Passed { s with stage := .closed } := by
  rw [Passed, not_or, not_not] at h ⊢
  exact ⟨by simp, h.2⟩

theorem next_none {e : Console.Event} (h : ¬ Passed s) (hnext : next s e = some s')
    (he : e = .eof ∨ e = .read []) : ¬ Passed s' ∧ s'.stage ≠ .opening := by
  obtain ⟨rfl, hclosed⟩ | rfl | ⟨bytes, rfl, -, hlength, -⟩ := next_quiet h hnext
  · exact ⟨h, by simp [hclosed]⟩
  · exact ⟨closed_quiet h, by simp⟩
  · obtain heof | hread := he
    · contradiction
    · rw [Console.Event.read.inj hread] at hlength
      exact absurd hlength (by decide)

theorem next_rejected (port : Nat) {bytes : List Byte} {position : Nat} (h : ¬ Passed s)
    (hdata : s.stage = .opening → (s.data.get 1).byte ≠ 90 ∧
      bytes <+: (Answer.socksrpy 4 91 port).toList)
    (hnext : next s (.read (marks position bytes)) = some s') :
    ¬ Passed s' ∧ s'.stage ≠ .opening := by
  obtain ⟨rfl, hclosed⟩ | rfl | ⟨read, hread, hopening, -, hopened⟩ := next_quiet h hnext
  · exact ⟨h, by simp [hclosed]⟩
  · exact ⟨closed_quiet h, by simp⟩
  · obtain ⟨hold, more, hreply⟩ := hdata hopening
    rw [hopened, ← Console.Event.read.inj hread]
    have hbyte : (fill s.data (marks position bytes))[1].byte ≠ 90 := by
      rw [fill_getElem, marks_getElem?]
      cases hget : bytes[1]? with
      | none => exact hold
      | some b =>
        have hlength : 1 < bytes.length := (List.getElem?_eq_some_iff.mp hget).1
        have hb := congrArg (·[1]?) hreply
        rw [List.getElem?_append_left hlength, hget] at hb
        have h91 : (Answer.socksrpy 4 91 port).toList[1]? = some 91 := by
          simp [Answer.socksrpy]
        rw [h91] at hb
        have hbyte : (91 : Byte) ≠ 90 := by decide
        rw [Option.some.inj hb]
        exact hbyte
    rw [onOpened, if_neg hbyte]
    rw [Passed, not_or, not_not] at h ⊢
    exact ⟨⟨by simp, h.2⟩, by simp⟩

theorem Phase.step (h : Phase g w) (hstep : Handshake.step w e = some w') : Phase g w' := by
  cases e with
  | server a =>
    obtain ⟨server, hserver, rfl⟩ := Option.map_eq_some_iff.mp hstep
    exact h.server hserver
  | read length =>
    simp only [Handshake.step] at hstep
    split at hstep
    next hlength =>
      obtain ⟨console, hconsole, rfl⟩ := Option.map_eq_some_iff.mp hstep
      cases h with
      | waiting b hpermitted hwork hstage hrelay hwire hquiet =>
        rw [hwire, List.take_nil] at hconsole
        have hnone := next_none hquiet hconsole (.inr rfl)
        exact .waiting b hpermitted hwork hstage hrelay (by simp [hwire]) hnone.1
      | bridged hpermitted hbridged => exact .bridged hpermitted hbridged
      | refusing port hrefused hserver hwire hquiet hdata =>
        rw [hwire, List.take_nil] at hconsole
        have hnone := next_none hquiet hconsole (.inr rfl)
        exact .refusing port hrefused hserver (by simp [hwire]) hnone.1
          fun hopening => absurd hopening hnone.2
      | refused port hrefused hwork hquiet hwire =>
        have hnone := next_rejected port hquiet (fun hopening =>
          ⟨(hwire hopening).1, (List.take_prefix _ _).trans (hwire hopening).2⟩) hconsole
        exact .refused port hrefused hwork hnone.1 fun hopening => absurd hopening hnone.2
    next => contradiction
  | eof =>
    simp only [Handshake.step] at hstep
    split at hstep
    next hempty =>
      obtain ⟨console, hconsole, rfl⟩ := Option.map_eq_some_iff.mp hstep
      cases h with
      | waiting b hpermitted hwork hstage hrelay hwire hquiet =>
        exact .waiting b hpermitted hwork hstage hrelay hwire
          (next_none hquiet hconsole (.inl rfl)).1
      | bridged hpermitted hbridged => exact .bridged hpermitted hbridged
      | refusing port hrefused hserver hwire hquiet hdata =>
        have hnone := next_none hquiet hconsole (.inl rfl)
        exact .refusing port hrefused hserver hwire hnone.1
          fun hopening => absurd hopening hnone.2
      | refused port hrefused hwork hquiet hwire =>
        have hnone := next_none hquiet hconsole (.inl rfl)
        exact .refused port hrefused hwork hnone.1 fun hopening => absurd hopening hnone.2
    next => contradiction

end Console

section Granted

/-- A step with nothing cut off: the reply is sent whole, the console reads two bytes of it
at least, and nobody hangs up. -/
def Smooth : Event → Prop
  | .server (.bridge (.replied sent)) => sent = some 8
  | .server _ => True
  | .read length => 2 ≤ length
  | .eof => False

instance : DecidablePred Smooth := by
  intro e
  unfold Smooth
  split <;> infer_instance

inductive Granting (w : World) : Prop
  | waiting (b : Bridge.SocksBridge) (port : Nat) : w.server.work = .bridge b →
    b.stage ≠ .relaying → b.relay = Relay.initial → b.reply = Answer.socksrpy 0 90 port →
    w.wire = [] → w.console.stage = .opening → Granting w
  | sent : Bridged w → w.console.stage = .opening → [0, 90] <+: w.wire → Granting w
  | arrived : Bridged w → w.console.stage = .reading → Granting w

theorem bridged_step {a : Answer.Event} {server : Answer.State} (h : Bridged w)
    (hstep : Answer.step w.server a = some server) :
    ∃ b, server.work = .bridge b ∧ b.stage = .relaying := by
  obtain ⟨b, hwork, hstage⟩ := h
  cases a with
  | refused sent => simp [Answer.step, hwork] at hstep
  | bind a => simp [Answer.step, hwork] at hstep
  | bridge a =>
    simp only [Answer.step, hwork] at hstep
    obtain ⟨after, hafter, rfl⟩ := Option.map_eq_some_iff.mp hstep
    exact ⟨after, rfl, relaying_step hstage hafter⟩

theorem opened_grant {bytes : List Byte} (position : Nat) (hlength : 2 ≤ bytes.length)
    (h : [0, 90] <+: bytes) : (onOpened s (marks position bytes)).stage = .reading := by
  have hbyte : (fill s.data (marks position bytes))[1].byte = 90 := by
    obtain ⟨more, rfl⟩ := h
    rw [fill_getElem, marks_getElem?]
    rfl
  rw [onOpened, if_pos hbyte]

theorem reading_next {e : Console.Event} (h : s.stage = .reading) (hnext : next s e = some s')
    (he : ∃ bytes, e = .read bytes) : s'.stage = .reading := by
  obtain ⟨bytes, rfl⟩ := he
  simp only [next, h] at hnext
  split at hnext
  next =>
    rw [onOutput] at hnext
    obtain ⟨str, -, hstr⟩ := Option.bind_eq_some_iff.mp hnext
    rw [← Option.some.inj hstr]
    exact h
  next => contradiction

theorem Granting.step (h : Granting w) (hsmooth : Smooth e)
    (hstep : Handshake.step w e = some w') : Granting w' := by
  cases e with
  | eof => contradiction
  | server a =>
    obtain ⟨server, hserver, rfl⟩ := Option.map_eq_some_iff.mp hstep
    cases h with
    | waiting b port hwork hstage hrelay hreply hwire hopening =>
      cases a with
      | refused sent => simp [Answer.step, hwork] at hserver
      | bind a => simp [Answer.step, hwork] at hserver
      | bridge a =>
        simp only [Answer.step, hwork] at hserver
        obtain ⟨after, hafter, rfl⟩ := Option.map_eq_some_iff.mp hserver
        obtain ⟨hrelaying, n, rfl, hdelivered⟩ | ⟨hnot, hsame, hkept⟩ := waiting_step hrelay hafter
        · refine .sent ⟨after, rfl, hrelaying⟩ hopening ?_
          obtain rfl : n = 8 := Option.some.inj hsmooth
          simp only [emitted, deliveredTo, hwork, hwire, hrelay, hdelivered, hreply]
          exact ⟨_, rfl⟩
        · refine .waiting after port rfl hnot hsame (hkept.trans hreply) ?_ hopening
          simp only [emitted, deliveredTo, hwork, hwire, hrelay, hsame]
          rfl
    | sent hbridged hopening hwire =>
      exact .sent (bridged_step hbridged hserver) hopening
        (hwire.trans (List.prefix_append _ _))
    | arrived hbridged hreading => exact .arrived (bridged_step hbridged hserver) hreading
  | read length =>
    simp only [Handshake.step] at hstep
    split at hstep
    next hlength =>
      obtain ⟨console, hconsole, rfl⟩ := Option.map_eq_some_iff.mp hstep
      have htwo : 2 ≤ length := hsmooth
      cases h with
      | waiting b port hwork hstage hrelay hreply hwire hopening =>
        rw [hwire, List.length_nil] at hlength
        omega
      | sent hbridged hopening hwire =>
        have hbytes : 2 ≤ (w.wire.take length).length := by
          rw [List.length_take]
          omega
        have hgrant : [0, 90] <+: w.wire.take length :=
          List.prefix_of_prefix_length_le hwire (List.take_prefix _ _) hbytes
        simp only [next, hopening] at hconsole
        split at hconsole
        next =>
          have hreading := opened_grant (s := w.console) w.position hbytes hgrant
          rw [Option.some.inj hconsole] at hreading
          exact .arrived hbridged hreading
        next => contradiction
      | arrived hbridged hreading =>
        exact .arrived hbridged (reading_next hreading hconsole ⟨_, rfl⟩)
    next => contradiction

end Granted

end NetworkProgramming.Console.Handshake
