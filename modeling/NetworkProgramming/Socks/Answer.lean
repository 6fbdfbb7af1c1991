import NetworkProgramming.Socks.Bind
import NetworkProgramming.Socks.Bridge
import NetworkProgramming.Socks.Parser

/-! `session::do_read` and `do_work`, with the object that goes on with the
socket: what a client is answered on every path. -/
namespace NetworkProgramming.Socks.Answer
open Library.CString Library.Buffer Library.Run Socks.Parser

/-- What can be seen of a session from outside; sends count when they start. -/
inductive Act where
  | reply (bytes : Vector Byte 8)
  | connected
  | relay (TO : Side) (bytes : List Byte)
  deriving DecidableEq

/-- Who holds the socket after `do_work`. A session that refuses keeps it until
its reply is sent; `ended` is one that nobody holds. -/
inductive Work where
  | refusing
  | bridge (b : Bridge.SocksBridge)
  | bind (b : Bind.SocksBind)
  | ended

structure State where
  work : Work
  acts : List Act

/-- A completed operation of the session, of its bridge or of its bind. -/
inductive Event where
  | refused (sent : Option Nat)
  | bridge (e : Bridge.Event)
  | bind (e : Bind.Event)

/-- `socksrpy` with its first two bytes and the port. -/
def socksrpy (first second : Byte) (DSTPORT : Nat) : Vector Byte 8 :=
  #v[first, second, UInt8.ofNat (DSTPORT / 256), UInt8.ofNat (DSTPORT % 256), 0, 0, 0, 0]

/-- The fields that `firewall` looks at. -/
def firewallInfo (info : SocksInfo) : Session.SocksInfo := ⟨info.CD, info.DSTIP⟩

/-- `do_work`, with the content of `socks.conf` and the port that a bind would be
given. A `stoi` that throws ends the process. -/
def doWork (content : Text) (bindPort : Nat) (info : SocksInfo) : State :=
  match stoi info.DSTPORT with
  | none => ⟨.ended, []⟩
  | some port =>
    let DSTPORT := (port % 2 ^ 16).toNat
    if Session.firewall (firewallInfo info) content then
      if info.CD.head? = some '1' then ⟨.bridge (Bridge.start (socksrpy 0 90 DSTPORT)), []⟩
      else if info.CD.head? = some '2' then
        let b := Bind.start (socksrpy 0 90 DSTPORT) bindPort
        ⟨.bind b, [.reply b.reply]⟩
      else ⟨.ended, []⟩
    else ⟨.refusing, [.reply (socksrpy 4 91 DSTPORT)]⟩

/-- The callback of `do_read`: the resolver that `SOCKS4_parser` calls throws
when it finds nothing, and that ends the process too. -/
def onRead (resolve : Text → Text → Option Text) (content : Text) (bindPort : Nat) (data : Data) :
    State :=
  match SOCKS4Parser resolve data with
  | none => ⟨.ended, []⟩
  | some info => doWork content bindPort info

/-- `do_reply` follows a connection, `do_write` a read. -/
def bridgeActs (b : Bridge.SocksBridge) : Bridge.Event → List Act
  | .connected true => [.connected, .reply b.reply]
  | .read FROM (some bytes) => [.relay FROM.other bytes]
  | _ => []

def bindActs (b : Bind.SocksBind) : Bind.Event → List Act
  | .accepted true => [.connected, .reply b.reply]
  | .read FROM (some bytes) => [.relay FROM.other bytes]
  | _ => []

def step (s : State) : Event → Option State
  | .refused _ => match s.work with
    | .refusing => some { s with work := .ended }
    | _ => none
  | .bridge e => match s.work with
    | .bridge b => (Bridge.step b e).map fun next => ⟨.bridge next, s.acts ++ bridgeActs b e⟩
    | _ => none
  | .bind e => match s.work with
    | .bind b => (Bind.step b e).map fun next => ⟨.bind next, s.acts ++ bindActs b e⟩
    | _ => none

/-- A request as it was decoded, with what the resolver, `socks.conf` and the
system say to it. -/
structure Request where
  data : Data
  info : SocksInfo
  decoded : decode data = some info
  resolve : Text → Text → Option Text
  content : Text
  bindPort : Nat

def Request.resolved (r : Request) : Option Text := r.resolve r.info.host r.info.DSTPORT

def Request.start (r : Request) : State := onRead r.resolve r.content r.bindPort r.data

def Request.Connect (r : Request) : Prop := r.info.CD = ['1']

/-- The firewall sees the address that the resolver gave. -/
def Request.Refused (r : Request) : Prop :=
  ∃ address, r.resolved = some address ∧
    Session.firewall ⟨r.info.CD, address⟩ r.content = false

def failure : Event → Bool
  | .bridge (.resolved ok) => !ok
  | .bridge (.connected ok) => !ok
  | _ => false

def success : Event → Bool
  | .bridge (.connected ok) => ok
  | _ => false

/-- One of the two resolutions, or the connection, has failed. -/
def Request.Unreached (r : Request) (es : List Event) : Prop :=
  r.Connect ∧ (r.resolved = none ∨ es.any failure)

/-- The rejecting answer: one reply and nothing else. -/
def Rejected (acts : List Act) : Prop :=
  ∃ bytes : Vector Byte 8, acts = [.reply bytes] ∧ bytes.toList.take 2 = [0, 91]

/-- The accepting answer: connected, then one reply, then relayed bytes only. -/
def Accepted (acts : List Act) : Prop :=
  ∃ (bytes : Vector Byte 8) (relays : List (Side × List Byte)),
    acts = .connected :: .reply bytes :: relays.map (fun (TO, sent) => Act.relay TO sent) ∧
      bytes.toList.take 2 = [0, 90]

/-- The client has the answer that is due to it after `es`. -/
structure Request.Answered (r : Request) (es : List Event) (acts : List Act) : Prop where
  rejected : r.Refused ∨ r.Unreached es → Rejected acts
  accepted : es.any success → Accepted acts

variable {r : Request} {es : List Event} {s next : State} {acts : List Act}

theorem decode_port {data : Data} {info : SocksInfo} (h : decode data = some info) :
    ∃ port, port < 2 ^ 16 ∧ info.DSTPORT = decimal port := by
  rw [decode, Option.bind_eq_bind, Option.bind_eq_some_iff] at h
  obtain ⟨user, -, h⟩ := h
  obtain ⟨domain, -, h⟩ := Option.bind_eq_some_iff.mp h
  have hhigh := data[2].toNat_lt
  have hlow := data[3].toNat_lt
  rw [Option.some.injEq] at h
  subst h
  exact ⟨data[2].toNat * 256 + data[3].toNat, by omega, rfl⟩

theorem allows_command {info : Session.SocksInfo} {config : Text}
    (h : Session.allows info config = true) : info.CD = ['1'] ∨ info.CD = ['2'] := by
  simp only [Session.allows, Bool.and_eq_true, Bool.or_eq_true, decide_eq_true_eq] at h
  obtain ⟨⟨-, hcommand⟩ | ⟨-, hcommand⟩, -⟩ := h
  · exact .inl hcommand
  · exact .inr hcommand

theorem firewallLoop_command {info : Session.SocksInfo} (fuel : Nat) (content : Text)
    (h : Session.firewallLoop info fuel content = true) :
    info.CD = ['1'] ∨ info.CD = ['2'] := by
  induction fuel generalizing content with
  | zero => simp [Session.firewallLoop] at h
  | succ fuel ih =>
    rw [Session.firewallLoop] at h
    split at h
    next => contradiction
    next config rest _ =>
      split at h
      next hallows => exact allows_command hallows
      next => exact ih rest h

/-- What `do_read` leaves behind, by the outcome of the resolver and the firewall. -/
inductive Opening (r : Request) : State → Prop
  | unresolved (h : r.resolved = none) : Opening r ⟨.ended, []⟩
  | refused (h : r.Refused) (port : Nat) :
      Opening r ⟨.refusing, [.reply (socksrpy 4 91 port)]⟩
  | connect (h : r.resolved ≠ none) (hserved : ¬ r.Refused) (hconnect : r.Connect) (port : Nat) :
      Opening r ⟨.bridge (Bridge.start (socksrpy 0 90 port)), []⟩
  | bind (hserved : ¬ r.Refused) (hconnect : ¬ r.Connect) (b : Bind.SocksBind) (acts : List Act) :
      Opening r ⟨.bind b, acts⟩

theorem Request.opening (r : Request) : Opening r r.start := by
  obtain ⟨port, hport, hdecimal⟩ := decode_port r.decoded
  have hparser : SOCKS4Parser r.resolve r.data =
      r.resolved.map fun address => { r.info with DSTIP := address } := by
    rw [SOCKS4Parser, r.decoded, Option.bind_eq_bind, Option.bind_some]
    cases hresolve : r.resolve r.info.host r.info.DSTPORT <;> simp [Request.resolved, hresolve]
  rw [Request.start, onRead, hparser]
  cases haddress : r.resolved with
  | none => exact .unresolved haddress
  | some address =>
    have hstoi : stoi r.info.DSTPORT = some (port : Int) := by
      rw [hdecimal]
      exact stoi_decimal (by omega)
    rw [Option.map_some]
    dsimp only [doWork]
    rw [hstoi]
    dsimp only
    cases hfirewall : Session.firewall ⟨r.info.CD, address⟩ r.content with
    | false =>
      rw [firewallInfo, hfirewall]
      exact .refused ⟨address, haddress, hfirewall⟩ _
    | true =>
      have hserved : ¬ r.Refused := by
        rintro ⟨other, hother, hreject⟩
        rw [haddress, Option.some.injEq] at hother
        rw [← hother, hfirewall] at hreject
        contradiction
      have hcommand : r.info.CD = ['1'] ∨ r.info.CD = ['2'] := firewallLoop_command _ _ hfirewall
      rw [firewallInfo, hfirewall, if_pos rfl]
      obtain hcommand | hcommand := hcommand
      · rw [if_pos (by rw [hcommand]; rfl)]
        exact .connect (by simp [haddress]) hserved hcommand _
      · rw [if_neg (by rw [hcommand]; decide), if_pos (by rw [hcommand]; rfl)]
        apply Opening.bind hserved
        intro hconnect
        rw [Request.Connect, hcommand] at hconnect
        exact absurd hconnect (by decide)

structure Waiting (b : Bridge.SocksBridge) : Prop where
  stage : b.stage = .resolving ∨ b.stage = .connecting
  idle : b.relay.Idle

structure Lost (b : Bridge.SocksBridge) : Prop where
  stage : b.stage = .failed
  idle : b.relay.Idle

section Bridge

variable {b after : Bridge.SocksBridge} {e : Bridge.Event}

theorem relay_idle (h : b.relay.Idle) (hstep : Bridge.step b e = some after) :
    (∃ ok, e = .resolved ok) ∨ (∃ ok, e = .connected ok) ∨ ∃ sent, e = .replied sent := by
  cases e with
  | resolved ok => exact .inl ⟨ok, rfl⟩
  | connected ok => exact .inr (.inl ⟨ok, rfl⟩)
  | replied sent => exact .inr (.inr ⟨sent, rfl⟩)
  | read FROM bytes =>
    rw [Bridge.step, h.onRead] at hstep
    contradiction
  | sent TO length =>
    cases length with
    | none =>
      rw [Bridge.step, Bridge.onSent, h.onSendError] at hstep
      contradiction
    | some n =>
      rw [Bridge.step, Bridge.onSent, h.onSent] at hstep
      contradiction

theorem replied_stage {sent : Option Nat} (hstep : Bridge.step b (.replied sent) = some after) :
    b.stage = .replying := by
  cases sent with
  | none =>
    simp only [Bridge.step, Bridge.onReplied] at hstep
    split at hstep
    · assumption
    · contradiction
  | some n =>
    simp only [Bridge.step, Bridge.onReplied] at hstep
    split at hstep
    next h => exact h.1
    next => contradiction

theorem Waiting.step (h : Waiting b) (hstep : Bridge.step b e = some after) :
    (Waiting after ∧ after.reply = b.reply ∧ bridgeActs b e = [] ∧
        failure (.bridge e) = false ∧ success (.bridge e) = false) ∨
      (Lost after ∧ bridgeActs b e = [] ∧ failure (.bridge e) = true ∧
        success (.bridge e) = false) ∨
      (after.stage = .replying ∧ bridgeActs b e = [.connected, .reply b.reply] ∧
        failure (.bridge e) = false ∧ success (.bridge e) = true) := by
  obtain ⟨ok, rfl⟩ | ⟨ok, rfl⟩ | ⟨sent, rfl⟩ := relay_idle h.idle hstep
  · simp only [Bridge.step, Bridge.onResolved] at hstep
    split at hstep
    next =>
      cases hstep
      cases ok with
      | true => exact .inl ⟨⟨.inr rfl, h.idle⟩, rfl, rfl, rfl, rfl⟩
      | false => exact .inr (.inl ⟨⟨rfl, h.idle⟩, rfl, rfl, rfl⟩)
    next => contradiction
  · simp only [Bridge.step, Bridge.onConnected] at hstep
    split at hstep
    next =>
      cases hstep
      cases ok with
      | true => exact .inr (.inr ⟨rfl, rfl, rfl, rfl⟩)
      | false => exact .inr (.inl ⟨⟨rfl, h.idle⟩, rfl, rfl, rfl⟩)
    next => contradiction
  · have hreplying := replied_stage hstep
    obtain hstage | hstage := h.stage
    · rw [hstage] at hreplying
      contradiction
    · rw [hstage] at hreplying
      contradiction

theorem Lost.step (h : Lost b) : Bridge.step b e = none := by
  rw [Option.eq_none_iff_forall_ne_some]
  intro after hstep
  obtain ⟨ok, rfl⟩ | ⟨ok, rfl⟩ | ⟨sent, rfl⟩ := relay_idle h.idle hstep
  · simp [Bridge.step, Bridge.onResolved, h.stage] at hstep
  · simp [Bridge.step, Bridge.onConnected, h.stage] at hstep
  · have hreplying := replied_stage hstep
    rw [h.stage] at hreplying
    contradiction

def Connected (b : Bridge.SocksBridge) : Prop := b.stage ≠ .resolving ∧ b.stage ≠ .connecting

theorem Connected.step (h : Connected b) (hstep : Bridge.step b e = some after) :
    Connected after ∧ failure (.bridge e) = false ∧ success (.bridge e) = false ∧
      ∃ relays : List (Side × List Byte),
        bridgeActs b e = relays.map fun (TO, sent) => Act.relay TO sent := by
  cases e with
  | resolved ok => simp [Bridge.step, Bridge.onResolved, h.1] at hstep
  | connected ok => simp [Bridge.step, Bridge.onConnected, h.2] at hstep
  | replied sent =>
    refine ⟨?_, rfl, rfl, [], rfl⟩
    cases sent with
    | none =>
      simp only [Bridge.step, Bridge.onReplied] at hstep
      split at hstep
      · cases hstep
        simp [Connected]
      · contradiction
    | some n =>
      simp only [Bridge.step, Bridge.onReplied] at hstep
      split at hstep
      · cases hstep
        simp [Connected]
      · contradiction
  | read FROM bytes =>
    obtain ⟨relay, -, rfl⟩ := Option.map_eq_some_iff.mp hstep
    refine ⟨h, rfl, rfl, ?_⟩
    cases bytes with
    | none => exact ⟨[], rfl⟩
    | some chunk => exact ⟨[(FROM.other, chunk)], rfl⟩
  | sent TO length =>
    refine ⟨?_, rfl, rfl, [], rfl⟩
    cases length with
    | none =>
      obtain ⟨relay, -, rfl⟩ := Option.map_eq_some_iff.mp hstep
      exact h
    | some n =>
      obtain ⟨relay, -, rfl⟩ := Option.map_eq_some_iff.mp hstep
      exact h

end Bridge

theorem Accepted.relay (h : Accepted acts) (relays : List (Side × List Byte)) :
    Accepted (acts ++ relays.map fun (TO, sent) => Act.relay TO sent) := by
  obtain ⟨bytes, sofar, rfl, hstart⟩ := h
  refine ⟨bytes, sofar ++ relays, ?_, hstart⟩
  rw [List.map_append, List.cons_append, List.cons_append]

/-- Where a session is after `es`. -/
inductive Progress (r : Request) (es : List Event) : State → Prop
  | unresolved (h : r.resolved = none) (hnone : es.any success = false) :
      Progress r es ⟨.ended, []⟩
  | refused (h : r.Refused) (work : Work) (hwork : work = .refusing ∨ work = .ended) (port : Nat) :
      Progress r es ⟨work, [.reply (socksrpy 4 91 port)]⟩
  | waiting (h : r.resolved ≠ none) (hserved : ¬ r.Refused) (hconnect : r.Connect)
      (b : Bridge.SocksBridge) (hb : Waiting b) (port : Nat) (hreply : b.reply = socksrpy 0 90 port)
      (hfailure : es.any failure = false) (hsuccess : es.any success = false) :
      Progress r es ⟨.bridge b, []⟩
  | lost (hconnect : r.Connect) (b : Bridge.SocksBridge) (hb : Lost b)
      (hfailure : es.any failure = true) : Progress r es ⟨.bridge b, []⟩
  | connected (h : r.resolved ≠ none) (hserved : ¬ r.Refused) (b : Bridge.SocksBridge)
      (hb : Connected b) (acts : List Act) (hacts : Accepted acts)
      (hfailure : es.any failure = false) (hsuccess : es.any success = true) :
      Progress r es ⟨.bridge b, acts⟩
  | bind (hserved : ¬ r.Refused) (hconnect : ¬ r.Connect) (b : Bind.SocksBind) (acts : List Act)
      (hsuccess : es.any success = false) : Progress r es ⟨.bind b, acts⟩

theorem Opening.progress (h : Opening r s) : Progress r [] s := by
  cases h with
  | unresolved h => exact .unresolved h rfl
  | refused h port => exact .refused h _ (.inl rfl) port
  | connect h hserved hconnect port =>
    exact .waiting h hserved hconnect _ ⟨.inl rfl, Relay.initial_idle⟩ port rfl rfl rfl
  | bind hserved hconnect b acts => exact .bind hserved hconnect b acts rfl

theorem Progress.step {e : Event} (h : Progress r es s) (hstep : step s e = some next) :
    Progress r (es ++ [e]) next := by
  cases h with
  | unresolved =>
    cases e <;> contradiction
  | refused h work hwork port =>
    obtain rfl | rfl := hwork
    · cases e with
      | refused sent =>
        cases hstep
        exact .refused h _ (.inr rfl) port
      | bridge e => contradiction
      | bind e => contradiction
    · cases e <;> contradiction
  | waiting h hserved hconnect b hb port hreply hfailure hsuccess =>
    cases e with
    | refused sent => contradiction
    | bind e => contradiction
    | bridge e =>
      obtain ⟨after, hafter, rfl⟩ := Option.map_eq_some_iff.mp hstep
      obtain ⟨hwaiting, hkept, hacts, hfine, hnot⟩ | ⟨hlost, hacts, hfailed, -⟩ |
        ⟨hstage, hacts, hfine, hdone⟩ := hb.step hafter
      · rw [hacts]
        apply Progress.waiting h hserved hconnect after hwaiting port (hkept.trans hreply)
        · simp [hfailure, hfine]
        · simp [hsuccess, hnot]
      · rw [hacts]
        apply Progress.lost hconnect after hlost
        simp [hfailed]
      · rw [hacts, hreply]
        apply Progress.connected h hserved after
        · simp [Connected, hstage]
        · exact ⟨socksrpy 0 90 port, [], rfl, rfl⟩
        · simp [hfailure, hfine]
        · simp [hdone]
  | lost hconnect b hb hfailure =>
    cases e with
    | refused sent => contradiction
    | bind e => contradiction
    | bridge e =>
      obtain ⟨after, hafter, rfl⟩ := Option.map_eq_some_iff.mp hstep
      rw [hb.step] at hafter
      contradiction
  | connected h hserved b hb acts hacts hfailure hsuccess =>
    cases e with
    | refused sent => contradiction
    | bind e => contradiction
    | bridge e =>
      obtain ⟨after, hafter, rfl⟩ := Option.map_eq_some_iff.mp hstep
      obtain ⟨hconnected, hfine, hnot, relays, hrelays⟩ := hb.step hafter
      rw [hrelays]
      apply Progress.connected h hserved after hconnected _ (hacts.relay relays)
      · simp [hfailure, hfine]
      · simp [hsuccess]
  | bind hserved hconnect b acts hsuccess =>
    cases e with
    | refused sent => contradiction
    | bridge e => contradiction
    | bind e =>
      obtain ⟨after, -, rfl⟩ := Option.map_eq_some_iff.mp hstep
      apply Progress.bind hserved hconnect
      simp [hsuccess, success]

theorem progress (hrun : exec step r.start es = some s) : Progress r es s := by
  apply invariant_always (I := Progress r) _ _ es s hrun
  · exact r.opening.progress
  · intro es s e next _ hprogress hstep
    exact hprogress.step hstep

theorem not_rejected_refusal (port : Nat) : ¬ Rejected [.reply (socksrpy 4 91 port)] := by
  rintro ⟨bytes, hacts, hstart⟩
  rw [List.cons.injEq, Act.reply.injEq] at hacts
  rw [← hacts.1] at hstart
  exact absurd (List.head_eq_of_cons_eq hstart) (by decide)

theorem not_rejected_nil : ¬ Rejected [] := by
  rintro ⟨bytes, hacts, -⟩
  contradiction

theorem iff_unanswered (hdue : r.Refused ∨ r.Unreached es) (h : ¬ Rejected acts) :
    r.Answered es acts ↔ ¬ r.Refused ∧ ¬ r.Unreached es := by
  apply iff_of_false
  · exact fun hanswered => h (hanswered.rejected hdue)
  · rintro ⟨hserved, hreached⟩
    exact hdue.elim hserved hreached

theorem iff_answered (hserved : ¬ r.Refused) (hreached : ¬ r.Unreached es)
    (h : es.any success = true → Accepted acts) :
    r.Answered es acts ↔ ¬ r.Refused ∧ ¬ r.Unreached es :=
  iff_of_true ⟨fun hdue => absurd hdue (not_or_intro hserved hreached), h⟩ ⟨hserved, hreached⟩

/-- A client has its answer exactly when the firewall lets the request pass and,
for CONNECT, both resolutions and the connection succeed. -/
theorem answered_iff (r : Request) (es : List Event) (s : State)
    (hrun : exec step r.start es = some s) :
    r.Answered es s.acts ↔ ¬ r.Refused ∧ ¬ r.Unreached es := by
  cases progress hrun with
  | unresolved h hnone =>
    by_cases hconnect : r.Connect
    · exact iff_unanswered (.inr ⟨hconnect, .inl h⟩) not_rejected_nil
    · apply iff_answered
      · rintro ⟨address, haddress, -⟩
        rw [h] at haddress
        contradiction
      · exact fun hunreached => hconnect hunreached.1
      · simp [hnone]
  | refused h work hwork port => exact iff_unanswered (.inl h) (not_rejected_refusal port)
  | waiting h hserved hconnect b hb port hreply hfailure hsuccess =>
    apply iff_answered hserved
    · simp [Request.Unreached, h, hfailure]
    · simp [hsuccess]
  | lost hconnect b hb hfailure =>
    exact iff_unanswered (.inr ⟨hconnect, .inr hfailure⟩) not_rejected_nil
  | connected h hserved b hb acts hacts hfailure hsuccess =>
    apply iff_answered hserved
    · simp [Request.Unreached, h, hfailure]
    · exact fun _ => hacts
  | bind hserved hconnect b acts hsuccess =>
    apply iff_answered hserved
    · exact fun hunreached => hconnect hunreached.1
    · simp [hsuccess]

theorem decode_plainRequest : decode (fill (Vector.replicate 1024 0) plainRequest.bytes) =
    some ⟨['1'], ['8', '0'], address 1 2 3 4, [], []⟩ := by
  have hdomain : scan (· == 0) (fill (Vector.replicate 1024 0) plainRequest.bytes)
      (8 + plainRequest.user.length + 1) = some [] := by
    rw [scan_nil_iff]
    exact ⟨by decide, by simp [fill_getElem, plainRequest, Parser.Request.bytes]; rfl⟩
  rw [plainRequest.decode_eq _ (by decide), hdomain]
  rfl

def plain (content : Text) : Request where
  data := fill (Vector.replicate 1024 0) plainRequest.bytes
  info := ⟨['1'], ['8', '0'], address 1 2 3 4, [], []⟩
  decoded := decode_plainRequest
  resolve := fun host _ => some host
  content := content
  bindPort := 0

theorem plain_start (content : Text) : (plain content).start =
    doWork content 0 ⟨['1'], ['8', '0'], address 1 2 3 4, [], []⟩ := by
  rw [Request.start, onRead, SOCKS4Parser, (plain content).decoded]
  rfl

def permitAll : Text := "permit c *.*.*.*".toList

def served : List Event :=
  [.bridge (.resolved true), .bridge (.connected true), .bridge (.replied (some 8)),
    .bridge (.read .server (some [7]))]

def unreachable : List Event := [.bridge (.resolved true), .bridge (.connected false)]

theorem answered_iff_served : ∃ s, exec step (plain permitAll).start served = some s ∧
    ((plain permitAll).Answered served s.acts ↔
      ¬ (plain permitAll).Refused ∧ ¬ (plain permitAll).Unreached served) := by
  have hrun : ∃ work, exec step (plain permitAll).start served = some
      ⟨work, [.connected, .reply #v[0, 90, 0, 80, 0, 0, 0, 0], .relay .client [7]]⟩ :=
    ⟨_, by rw [plain_start]; rfl⟩
  obtain ⟨work, hwork⟩ := hrun
  exact ⟨_, hwork, answered_iff _ _ _ hwork⟩

/-- The rejecting reply begins with 4, and a connection that fails gets none. -/
theorem rejection_misversioned :
    (∃ s, exec step (plain []).start [] = some s ∧ ¬ (plain []).Answered [] s.acts) ∧
      ∃ s, exec step (plain permitAll).start unreachable = some s ∧ s.acts = [] ∧
        ¬ (plain permitAll).Answered unreachable s.acts := by
  refine ⟨⟨_, rfl, ?_⟩, ⟨⟨_, []⟩, by rw [plain_start]; rfl, rfl, ?_⟩⟩
  · rw [plain_start]
    intro hanswered
    have hrefused : (plain []).Refused := ⟨address 1 2 3 4, rfl, rfl⟩
    exact not_rejected_refusal 80 (hanswered.rejected (.inl hrefused))
  · intro hanswered
    have hunreached : (plain permitAll).Unreached unreachable := ⟨rfl, .inr rfl⟩
    exact not_rejected_nil (hanswered.rejected (.inr hunreached))

end NetworkProgramming.Socks.Answer
