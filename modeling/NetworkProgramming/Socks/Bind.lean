import NetworkProgramming.Socks.Relay

/-! `socks_bind`, the BIND relay, as a step function over its callbacks. -/
namespace NetworkProgramming.Socks.Bind
open Library Library.CopyLoop Library.Run

inductive Stage where
  | replying (isFirstReply : Bool)
  | accepting
  | relaying
  | failed
  deriving DecidableEq, Repr

structure SocksBind where
  stage : Stage
  reply : Vector Byte 8
  accepted : Bool
  relay : Relay

/-- A completed operation: its success flag, its length, or its bytes; `none`
is an error. -/
inductive Event where
  | replied (sent : Option Nat)
  | accepted (ok : Bool)
  | read (FROM : Side) (bytes : Option (List Byte))
  | sent (TO : Side) (length : Option Nat)

/-- `do_bind` puts the port it was given into the reply, once. -/
def bindReply (reply : Vector Byte 8) (bindPort : Nat) : Vector Byte 8 :=
  (reply.set 2 (UInt8.ofNat (bindPort / 256))).set 3 (UInt8.ofNat (bindPort % 256))

/-- `start` has called `do_bind`, and that `do_reply(true)`. -/
def start (reply : Vector Byte 8) (bindPort : Nat) : SocksBind :=
  ⟨.replying true, bindReply reply bindPort, false, Relay.initial⟩

/-- `do_write` after a send that fell short sends the remaining length again,
from the start of the same buffer. -/
def resume (length sent : Nat) : Phase :=
  if sent = length then .reading else .sending (length - sent)

def onReplied (b : SocksBind) : Option Nat → Option SocksBind
  | some n =>
    if 0 < n ∧ n ≤ 8 then
      let relay := b.relay.deliver .client (b.reply.toList.take n)
      match b.stage with
      | .replying true => some { b with stage := .accepting, relay }
      | .replying false =>
        some { b with stage := .relaying, relay := (relay.doRead .client).doRead .server }
      | _ => none
    else none
  | none =>
    match b.stage with
    | .replying _ => some { b with stage := .failed, relay := b.relay.close }
    | _ => none

def onAccepted (b : SocksBind) (ok : Bool) : Option SocksBind :=
  if b.stage = .accepting then
    if ok then some { b with stage := .replying false, accepted := true }
    else some { b with stage := .failed }
  else none

def onSent (b : SocksBind) (TO : Side) : Option Nat → Option SocksBind
  | some n => (b.relay.onSent resume TO n).map fun relay => { b with relay }
  | none => (b.relay.onSendError TO).map fun relay => { b with relay := relay.close }

def step (b : SocksBind) : Event → Option SocksBind
  | .replied sent => onReplied b sent
  | .accepted ok => onAccepted b ok
  | .read FROM bytes => (b.relay.onRead FROM bytes).map fun relay => { b with relay }
  | .sent TO length => onSent b TO length

def Sends (TO : Side) : Event → Prop
  | .replied (some _) => TO = .client
  | .sent side (some _) => TO = side
  | _ => False

def FallsShort (b : SocksBind) (TO : Side) : Event → Prop
  | .replied (some n) => TO = .client ∧ n < 8
  | .sent side (some n) => TO = side ∧ b.relay.short side n
  | _ => False

instance (TO : Side) (e : Event) : Decidable (Sends TO e) := by
  unfold Sends
  split <;> infer_instance

instance (b : SocksBind) (TO : Side) (e : Event) : Decidable (FallsShort b TO e) := by
  unfold FallsShort
  split <;> infer_instance

/-- The client gets the reply, the same reply once a peer was accepted, then
the peer's bytes; the peer gets the client's. -/
def InOrder (b : SocksBind) : Prop :=
  b.relay.delivered .server <+: b.relay.received .client ∧
    b.relay.delivered .client <+:
      b.reply.toList ++ b.reply.toList ++ b.relay.received .server ∧
    (8 < (b.relay.delivered .client).length → b.accepted)

instance (b : SocksBind) : Decidable (InOrder b) := by
  unfold InOrder
  infer_instance

variable {reply : Vector Byte 8} {bindPort : Nat} {es : List Event} {b : SocksBind}

abbrev Unbroken (reply : Vector Byte 8) (bindPort : Nat) (TO : Side) (es : List Event) : Prop :=
  Whole step (start reply bindPort) FallsShort TO es

def preface (reply : Vector Byte 8) : Side → List Byte
  | .client => reply.toList ++ reply.toList
  | .server => []

/-- Before the second reply only `bytes` has been written, to the client. -/
structure Quiet (r : Relay) (bytes : List Byte) : Prop where
  idle : r.Idle
  received : ∀ side, r.received side = []
  server : r.delivered .server = []
  client : r.delivered .client = bytes

theorem Quiet.initial : Quiet Relay.initial [] :=
  ⟨Relay.initial_idle, fun _ => rfl, rfl, rfl⟩

theorem Quiet.deliver {r : Relay} {bytes : List Byte} (h : Quiet r bytes) (more : List Byte) :
    Quiet (r.deliver .client more) (bytes ++ more) :=
  ⟨h.idle, h.received, by simp [Relay.deliver, h.server], by simp [Relay.deliver, h.client]⟩

theorem Quiet.close {r : Relay} {bytes : List Byte} (h : Quiet r bytes) : Quiet r.close bytes :=
  ⟨h.idle, h.received, h.server, h.client⟩

inductive Progress (es : List Event) (reply : Vector Byte 8) (bindPort : Nat) :
    Stage → Bool → Relay → Prop
  | first {r : Relay} (h : Quiet r []) : Progress es reply bindPort (.replying true) false r
  | accepting {r : Relay} {n : Nat}
      (h : Quiet r ((bindReply reply bindPort).toList.take n))
      (hwhole : Unbroken reply bindPort .client es → n = 8) :
      Progress es reply bindPort .accepting false r
  | second {r : Relay} {n : Nat}
      (h : Quiet r ((bindReply reply bindPort).toList.take n))
      (hwhole : Unbroken reply bindPort .client es → n = 8) :
      Progress es reply bindPort (.replying false) true r
  | relaying {r : Relay}
      (h : Tracks r (preface (bindReply reply bindPort)) fun TO => Unbroken reply bindPort TO es) :
      Progress es reply bindPort .relaying true r
  | failed {r : Relay} {n : Nat} {accepted : Bool}
      (h : Quiet r ((bindReply reply bindPort).toList.take n)) :
      Progress es reply bindPort .failed accepted r

structure Invariant (reply : Vector Byte 8) (bindPort : Nat) (es : List Event) (b : SocksBind) :
    Prop where
  reply_eq : b.reply = bindReply reply bindPort
  progress : Progress es reply bindPort b.stage b.accepted b.relay

theorem invariant_start (reply : Vector Byte 8) (bindPort : Nat) :
    Invariant reply bindPort [] (start reply bindPort) :=
  ⟨rfl, .first .initial⟩

theorem take_all (reply : Vector Byte 8) : reply.toList.take 8 = reply.toList :=
  List.take_of_length_le (by simp)

theorem replied_short {n : Nat} (hrun : exec step (start reply bindPort) es = some b)
    (hw : Unbroken reply bindPort .client (es ++ [.replied (some n)])) : 8 ≤ n := by
  simpa [FallsShort] using hw.last hrun

theorem progress_replied {n : Nat} {next : SocksBind} (hn : 0 < n ∧ n ≤ 8)
    (hrun : exec step (start reply bindPort) es = some b) (hI : Invariant reply bindPort es b)
    (hwhole : Unbroken reply bindPort .client es) (hstep : onReplied b (some n) = some next) :
    Invariant reply bindPort (es ++ [.replied (some n)]) next := by
  obtain ⟨hreply, hprogress⟩ := hI
  obtain ⟨stage, rep, accepted, r⟩ := b
  subst hreply
  cases hprogress with
  | first h =>
    simp only [onReplied, hn, and_self, if_true] at hstep
    cases hstep
    refine ⟨rfl, .accepting (by simpa using h.deliver _) fun hw => ?_⟩
    have hlong := replied_short hrun hw
    omega
  | second h hall =>
    simp only [onReplied, hn, and_self, if_true] at hstep
    cases hstep
    obtain rfl := hall hwhole
    have hquiet := h.deliver ((bindReply reply bindPort).toList.take n)
    rw [take_all] at hquiet
    refine ⟨rfl, .relaying ?_⟩
    apply tracks_doRead
    · exact ⟨hquiet.server, hquiet.received _, rfl⟩
    · exact hquiet.received _
    · rw [hquiet.client]
      exact (List.prefix_append_right_inj _).mpr (List.take_prefix n _)
    · intro hw
      have hlong := replied_short hrun hw
      rw [hquiet.client, List.take_of_length_le (by simpa using hlong)]
      rfl
  | accepting => simp [onReplied] at hstep
  | relaying => simp [onReplied] at hstep
  | failed => simp [onReplied] at hstep

theorem progress_reply_failed {next : SocksBind} {e : Event} (hI : Invariant reply bindPort es b)
    (hstep : onReplied b none = some next) : Invariant reply bindPort (es ++ [e]) next := by
  obtain ⟨hreply, hprogress⟩ := hI
  obtain ⟨stage, rep, accepted, r⟩ := b
  subst hreply
  cases hprogress with
  | first h =>
    cases hstep
    exact ⟨rfl, .failed (n := 0) h.close⟩
  | second h _ =>
    cases hstep
    exact ⟨rfl, .failed h.close⟩
  | accepting => simp [onReplied] at hstep
  | relaying => simp [onReplied] at hstep
  | failed => simp [onReplied] at hstep

theorem progress_accepted {next : SocksBind} {ok : Bool} {e : Event}
    (hI : Invariant reply bindPort es b) (hstep : onAccepted b ok = some next) :
    Invariant reply bindPort (es ++ [e]) next := by
  obtain ⟨hreply, hprogress⟩ := hI
  obtain ⟨stage, rep, accepted, r⟩ := b
  subst hreply
  cases hprogress with
  | accepting h hall =>
    cases ok with
    | true =>
      cases hstep
      exact ⟨rfl, .second h fun hw => hall hw.before⟩
    | false =>
      cases hstep
      exact ⟨rfl, .failed h⟩
  | first => simp [onAccepted] at hstep
  | second => simp [onAccepted] at hstep
  | relaying => simp [onAccepted] at hstep
  | failed => simp [onAccepted] at hstep

theorem Progress.idle_or_relaying {stage : Stage} {accepted : Bool} {r : Relay}
    (h : Progress es reply bindPort stage accepted r) :
    r.Idle ∨ stage = .relaying ∧ accepted = true ∧
      Tracks r (preface (bindReply reply bindPort)) fun TO => Unbroken reply bindPort TO es := by
  cases h with
  | first h => exact .inl h.idle
  | accepting h => exact .inl h.idle
  | second h => exact .inl h.idle
  | relaying h => exact .inr ⟨rfl, rfl, h⟩
  | failed h => exact .inl h.idle

theorem Invariant.relay_step {r : Relay} {e : Event}
    (hI : Invariant reply bindPort es b) (hbusy : ¬ b.relay.Idle)
    (htracks : Tracks b.relay (preface (bindReply reply bindPort))
        (fun TO => Unbroken reply bindPort TO es) →
      Tracks r (preface (bindReply reply bindPort))
        fun TO => Unbroken reply bindPort TO (es ++ [e])) :
    Invariant reply bindPort (es ++ [e]) { b with relay := r } := by
  obtain hidle | ⟨hstage, haccepted, h⟩ := hI.progress.idle_or_relaying
  · exact absurd hidle hbusy
  · refine ⟨hI.reply_eq, ?_⟩
    dsimp only
    rw [hstage, haccepted]
    exact .relaying (htracks h)

theorem invariant_step (reply : Vector Byte 8) (bindPort : Nat) (es : List Event) (b : SocksBind)
    (e : Event) (next : SocksBind) (hrun : exec step (start reply bindPort) es = some b)
    (hI : Invariant reply bindPort es b)
    (hlast : ∀ TO ∈ [Side.client, Side.server], Sends TO e → Unbroken reply bindPort TO es)
    (hstep : step b e = some next) : Invariant reply bindPort (es ++ [e]) next := by
  have hmono : ∀ {r : Relay} {p : Side → List Byte},
      Tracks r p (fun TO => Unbroken reply bindPort TO es) →
        Tracks r p fun TO => Unbroken reply bindPort TO (es ++ [e]) :=
    fun h => h.mono fun TO => Whole.before
  cases e with
  | replied sent =>
    cases sent with
    | some n =>
      have hn : 0 < n ∧ n ≤ 8 := by
        by_contra hn
        simp [step, onReplied, hn] at hstep
      exact progress_replied hn hrun hI (hlast .client (by simp) rfl) hstep
    | none => exact progress_reply_failed hI hstep
  | accepted ok => exact progress_accepted hI hstep
  | read FROM bytes =>
    obtain ⟨relay, hread, rfl⟩ := Option.map_eq_some_iff.mp hstep
    apply hI.relay_step
    · intro hidle
      simp [hidle.onRead] at hread
    · exact fun h => hmono (h.onRead hread)
  | sent TO length =>
    cases length with
    | some n =>
      obtain ⟨relay, hsent, rfl⟩ := Option.map_eq_some_iff.mp hstep
      have hwhole : Unbroken reply bindPort TO es := hlast TO (by cases TO <;> simp) rfl
      apply hI.relay_step
      · intro hidle
        simp [hidle.onSent] at hsent
      · intro h
        apply (h.onSent (fun length => by simp [resume]) hwhole hsent).mono
        intro side hside
        refine ⟨hside.before, ?_⟩
        rintro rfl
        have hlong := hside.last hrun
        simpa only [FallsShort, true_and] using hlong
    | none =>
      obtain ⟨relay, herror, rfl⟩ := Option.map_eq_some_iff.mp hstep
      apply hI.relay_step
      · intro hidle
        simp [hidle.onSendError] at herror
      · exact fun h => hmono (h.onSendError herror).close

theorem Quiet.inOrder {n : Nat} (h : Quiet b.relay (b.reply.toList.take n)) :
    InOrder b := by
  refine ⟨?_, ?_, fun hlong => ?_⟩
  · simp [h.server]
  · rw [h.client, List.append_assoc]
    exact (List.take_prefix n _).trans (List.prefix_append _ _)
  · rw [h.client] at hlong
    simp at hlong

theorem Invariant.inOrder (h : Invariant reply bindPort es b) : InOrder b := by
  obtain ⟨hreply, hprogress⟩ := h
  obtain ⟨stage, rep, accepted, r⟩ := b
  subst hreply
  cases hprogress with
  | first h => exact Quiet.inOrder (n := 0) h
  | accepting h => exact Quiet.inOrder h
  | second h => exact Quiet.inOrder h
  | failed h => exact Quiet.inOrder h
  | relaying h =>
    refine ⟨?_, ?_, fun _ => rfl⟩
    · simpa [preface, Side.other] using (h .server).in_order
    · simpa [preface, Side.other] using (h .client).in_order

/-- As long as a short send is the last one on its socket, the replies and both
streams stay in order, in every state the run reaches. -/
theorem bound_in_order (reply : Vector Byte 8) (bindPort : Nat) (es : List Event) (b : SocksBind)
    (hlast : ShortSendsLast step (start reply bindPort) Sends FallsShort es)
    (hrun : exec step (start reply bindPort) es = some b) : InOrder b :=
  (Run.invariant (invariant_start reply bindPort) (invariant_step reply bindPort) es hlast b
    hrun).inOrder

def quietRun : List Event :=
  [.replied (some 8), .accepted true, .replied (some 8), .read .client (some [1, 2]),
    .sent .server (some 2), .read .server (some [3]), .sent .client (some 1)]

theorem bound_in_order_quietRun :
    ∃ b, exec step (start (Vector.replicate 8 0) 2021) quietRun = some b ∧ InOrder b :=
  ⟨_, rfl, bound_in_order _ 2021 quietRun _ (by decide) rfl⟩

def shortRun : List Event :=
  [.replied (some 8), .accepted true, .replied (some 8), .read .client (some [1, 2]),
    .sent .server (some 1), .sent .server (some 1)]

theorem short_send_repeats_bytes :
    ∃ b, exec step (start (Vector.replicate 8 0) 2021) shortRun = some b ∧ ¬ InOrder b :=
  ⟨_, rfl, by decide⟩

end NetworkProgramming.Socks.Bind
