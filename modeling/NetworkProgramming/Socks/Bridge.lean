import NetworkProgramming.Socks.Relay

/-! `socks_bridge`, the CONNECT relay, as a step function over its callbacks. -/
namespace NetworkProgramming.Socks.Bridge
open Library Library.CopyLoop Library.Run

inductive Stage where
  | resolving
  | connecting
  | replying
  | relaying
  | failed
  deriving DecidableEq, Repr

structure SocksBridge where
  stage : Stage
  reply : Vector Byte 8
  relay : Relay

/-- A completed operation: its success flag, its bytes, or its length; `none`
is an error. -/
inductive Event where
  | resolved (ok : Bool)
  | connected (ok : Bool)
  | replied (sent : Option Nat)
  | read (FROM : Side) (bytes : Option (List Byte))
  | sent (TO : Side) (length : Option Nat)

/-- `start` has called `do_resolve`. -/
def start (reply : Vector Byte 8) : SocksBridge := ⟨.resolving, reply, Relay.initial⟩

/-- `do_write` reads again whatever length was sent. -/
def resume (_length _sent : Nat) : Phase := .reading

def onResolved (b : SocksBridge) (ok : Bool) : Option SocksBridge :=
  if b.stage = .resolving then
    some { b with stage := if ok then .connecting else .failed }
  else none

def onConnected (b : SocksBridge) (ok : Bool) : Option SocksBridge :=
  if b.stage = .connecting then
    some { b with stage := if ok then .replying else .failed }
  else none

/-- The callback of `do_reply`; the reported length is not looked at. -/
def onReplied (b : SocksBridge) : Option Nat → Option SocksBridge
  | some n =>
    if b.stage = .replying ∧ 0 < n ∧ n ≤ 8 then
      some { b with
        stage := .relaying
        relay := ((b.relay.deliver .client (b.reply.toList.take n)).doRead .client).doRead .server }
    else none
  | none => if b.stage = .replying then some { b with stage := .failed } else none

def onSent (b : SocksBridge) (TO : Side) : Option Nat → Option SocksBridge
  | some n => (b.relay.onSent resume TO n).map fun relay => { b with relay }
  | none => (b.relay.onSendError TO).map fun relay => { b with relay }

def step (b : SocksBridge) : Event → Option SocksBridge
  | .resolved ok => onResolved b ok
  | .connected ok => onConnected b ok
  | .replied sent => onReplied b sent
  | .read FROM bytes => (b.relay.onRead FROM bytes).map fun relay => { b with relay }
  | .sent TO length => onSent b TO length

/-- `e` is a successful send on the socket of `TO`. -/
def Sends (TO : Side) : Event → Prop
  | .replied (some _) => TO = .client
  | .sent side (some _) => TO = side
  | _ => False

/-- `e` reports fewer bytes than the send on the socket of `TO` was given. -/
def FallsShort (b : SocksBridge) (TO : Side) : Event → Prop
  | .replied (some n) => TO = .client ∧ n < 8
  | .sent side (some n) => TO = side ∧ b.relay.short side n
  | _ => False

instance (TO : Side) (e : Event) : Decidable (Sends TO e) := by
  unfold Sends
  split <;> infer_instance

instance (b : SocksBridge) (TO : Side) (e : Event) : Decidable (FallsShort b TO e) := by
  unfold FallsShort
  split <;> infer_instance

abbrev Unbroken (reply : Vector Byte 8) (TO : Side) (es : List Event) : Prop :=
  Whole step (start reply) FallsShort TO es

/-- Nothing lost in the middle, duplicated or reordered, in either direction;
the client's stream begins with the reply. -/
def InOrder (b : SocksBridge) : Prop :=
  b.relay.delivered .server <+: b.relay.received .client ∧
    b.relay.delivered .client <+: b.reply.toList ++ b.relay.received .server

instance (b : SocksBridge) : Decidable (InOrder b) := by
  unfold InOrder
  infer_instance

def preface (reply : Vector Byte 8) : Side → List Byte
  | .client => reply.toList
  | .server => []

/-- Before the reply is sent nothing has moved; after it both directions are
tracked; a bridge that failed relays nothing more. -/
structure Invariant (reply : Vector Byte 8) (es : List Event) (b : SocksBridge) : Prop where
  reply_eq : b.reply = reply
  quiet : b.stage ≠ .relaying → b.relay = Relay.initial
  tracks : b.stage = .relaying →
    Tracks b.relay (preface reply) fun TO => Unbroken reply TO es

theorem invariant_start (reply : Vector Byte 8) : Invariant reply [] (start reply) :=
  ⟨rfl, fun _ => rfl, fun h => by simp [start] at h⟩

theorem Invariant.staged {reply : Vector Byte 8} {es : List Event} {b : SocksBridge}
    (hI : Invariant reply es b) (hstage : b.stage ≠ .relaying) (e : Event) {stage : Stage}
    (hnext : stage ≠ .relaying) : Invariant reply (es ++ [e]) { b with stage } :=
  ⟨hI.reply_eq, fun _ => hI.quiet hstage, fun h => absurd h hnext⟩

theorem invariant_step (reply : Vector Byte 8) (es : List Event) (b : SocksBridge) (e : Event)
    (next : SocksBridge) (hrun : exec step (start reply) es = some b) (hI : Invariant reply es b)
    (hlast : ∀ TO ∈ [Side.client, Side.server], Sends TO e → Unbroken reply TO es)
    (hstep : step b e = some next) : Invariant reply (es ++ [e]) next := by
  have hmono : ∀ {r : Relay}, Tracks r (preface reply) (fun TO => Unbroken reply TO es) →
      Tracks r (preface reply) fun TO => Unbroken reply TO (es ++ [e]) :=
    fun h => h.mono fun TO => Whole.before
  cases e with
  | resolved ok =>
    simp only [step, onResolved] at hstep
    split at hstep
    next hstage =>
      cases hstep
      exact hI.staged (by simp [hstage]) _ (by cases ok <;> simp)
    next => contradiction
  | connected ok =>
    simp only [step, onConnected] at hstep
    split at hstep
    next hstage =>
      cases hstep
      exact hI.staged (by simp [hstage]) _ (by cases ok <;> simp)
    next => contradiction
  | replied sent =>
    cases sent with
    | some n =>
      simp only [step, onReplied] at hstep
      split at hstep
      next hstage =>
        cases hstep
        have hrelay := hI.quiet (by simp [hstage.1])
        refine ⟨hI.reply_eq, fun h => absurd rfl h, fun _ => ?_⟩
        rw [hrelay, hI.reply_eq]
        apply tracks_doRead
        · simp [Relay.initial, Relay.deliver, preface]
        · rfl
        · simpa [Relay.initial, Relay.deliver, preface] using List.take_prefix n _
        · intro hw
          have hlong : 8 ≤ n := by simpa [FallsShort] using hw.last hrun
          simp [Relay.initial, Relay.deliver, preface, List.take_of_length_le, hlong]
      next => contradiction
    | none =>
      simp only [step, onReplied] at hstep
      split at hstep
      next hstage =>
        cases hstep
        exact hI.staged (by simp [hstage]) _ (by simp)
      next => contradiction
  | read FROM bytes =>
    obtain ⟨relay, hread, rfl⟩ := Option.map_eq_some_iff.mp hstep
    have hstage : b.stage = .relaying := by
      by_contra hquiet
      rw [hI.quiet hquiet, Relay.initial_idle.onRead] at hread
      contradiction
    exact ⟨hI.reply_eq, fun h => absurd hstage h,
      fun _ => hmono ((hI.tracks hstage).onRead hread)⟩
  | sent TO length =>
    cases length with
    | some n =>
      obtain ⟨relay, hsent, rfl⟩ := Option.map_eq_some_iff.mp hstep
      have hstage : b.stage = .relaying := by
        by_contra hquiet
        rw [hI.quiet hquiet, Relay.initial_idle.onSent] at hsent
        contradiction
      refine ⟨hI.reply_eq, fun h => absurd hstage h, fun _ => ?_⟩
      have hwhole : Unbroken reply TO es := hlast TO (by cases TO <;> simp) rfl
      apply ((hI.tracks hstage).onSent (fun _ => rfl) hwhole hsent).mono
      intro side hside
      refine ⟨hside.before, ?_⟩
      rintro rfl
      have hlong := hside.last hrun
      simpa only [FallsShort, true_and] using hlong
    | none =>
      obtain ⟨relay, herror, rfl⟩ := Option.map_eq_some_iff.mp hstep
      have hstage : b.stage = .relaying := by
        by_contra hquiet
        rw [hI.quiet hquiet, Relay.initial_idle.onSendError] at herror
        contradiction
      exact ⟨hI.reply_eq, fun h => absurd hstage h,
        fun _ => hmono ((hI.tracks hstage).onSendError herror)⟩

theorem Invariant.inOrder {reply : Vector Byte 8} {es : List Event} {b : SocksBridge}
    (h : Invariant reply es b) : InOrder b := by
  by_cases hstage : b.stage = .relaying
  · have htracks := h.tracks hstage
    refine ⟨?_, ?_⟩
    · simpa [preface, Side.other] using (htracks .server).in_order
    · simpa [preface, Side.other, h.reply_eq] using (htracks .client).in_order
  · simp [InOrder, h.quiet hstage, Relay.initial]

/-- As long as a short send is the last one on its socket, both streams stay in
order, in every state the run reaches. -/
theorem relayed_in_order (reply : Vector Byte 8) (es : List Event) (b : SocksBridge)
    (hlast : ShortSendsLast step (start reply) Sends FallsShort es)
    (hrun : exec step (start reply) es = some b) : InOrder b :=
  (Run.invariant (invariant_start reply) (invariant_step reply) es hlast b hrun).inOrder

/-- A connection with a complete send each way. -/
def quietRun : List Event :=
  [.resolved true, .connected true, .replied (some 8), .read .client (some [1, 2]),
    .sent .server (some 2), .read .server (some [3]), .sent .client (some 1)]

theorem relayed_in_order_quietRun : ∃ b, exec step (start (Vector.replicate 8 0)) quietRun = some b ∧
    InOrder b :=
  ⟨_, rfl, relayed_in_order _ quietRun _ (by decide) rfl⟩

def shortRun : List Event :=
  [.resolved true, .connected true, .replied (some 8), .read .client (some [1, 2]),
    .sent .server (some 1), .read .client (some [3]), .sent .server (some 1)]

theorem short_send_loses_bytes :
    ∃ b, exec step (start (Vector.replicate 8 0)) shortRun = some b ∧ ¬ InOrder b :=
  ⟨_, rfl, by decide⟩

end NetworkProgramming.Socks.Bridge
