import NetworkProgramming.Socks.Bridge

/-! A client and a server with `socks_bridge` between them, against the two on one
connection: what they do through the bridge they could do without it. -/
namespace NetworkProgramming.Socks.Transparent
open Library.CopyLoop Library.Run

/-- What a program does on its socket. The end of the stream, which it sees when the bridge
closes, is no act. -/
inductive Act where
  | send (bytes : List Byte)
  | recv (bytes : List Byte)
  deriving DecidableEq, Repr

/-- The programs at the two ends, and the bytes under way to each of them. -/
structure Direct (σ : Type u) where
  state : Side → σ
  wire : Side → List Byte

/-- The same with the bridge between them: the bytes of each program that the bridge has
not read, and those that it has sent and the program has not received. -/
structure Bridged (σ : Type u) where
  state : Side → σ
  bridge : Bridge.SocksBridge
  inbound : Side → List Byte
  outbound : Side → List Byte

inductive Event where
  | act (side : Side) (a : Act)
  | bridge (e : Bridge.Event)

def Event.acts : Event → List (Side × Act)
  | .act side a => [(side, a)]
  | .bridge _ => []

def Event.callbacks : Event → List Bridge.Event
  | .act _ _ => []
  | .bridge e => [e]

def put (wire : Side → List Byte) (side : Side) (bytes : List Byte) : Side → List Byte :=
  Function.update wire side (wire side ++ bytes)

def take (wire : Side → List Byte) (side : Side) (bytes : List Byte) : Option (Side → List Byte) :=
  if bytes <+: wire side then some (Function.update wire side ((wire side).drop bytes.length))
  else none

section Systems

variable {σ : Type u} (program : Side → σ → Act → Option σ)

def Direct.start (reply : Vector Byte 8) (state : Side → σ) : Direct σ :=
  ⟨state, Bridge.preface reply⟩

def Direct.step (d : Direct σ) : Side × Act → Option (Direct σ)
  | (side, .send bytes) => (program side (d.state side) (.send bytes)).map fun s =>
      ⟨Function.update d.state side s, put d.wire side.other bytes⟩
  | (side, .recv bytes) => (program side (d.state side) (.recv bytes)).bind fun s =>
      (take d.wire side bytes).map fun wire => ⟨Function.update d.state side s, wire⟩

def Bridged.start (reply : Vector Byte 8) (state : Side → σ) : Bridged σ :=
  ⟨state, Bridge.start reply, fun _ => [], fun _ => []⟩

def Bridged.advance (w : Bridged σ) (inbound : Side → List Byte) (b : Bridge.SocksBridge) :
    Bridged σ :=
  { w with
    bridge := b
    inbound
    outbound := fun TO =>
      w.outbound TO ++ (b.relay.delivered TO).drop (w.bridge.relay.delivered TO).length }

def Bridged.callback (w : Bridged σ) (e : Bridge.Event) : Option (Bridged σ) :=
  (Bridge.step w.bridge e).bind fun b =>
    match e with
    | .read FROM (some chunk) => (take w.inbound FROM chunk).map fun inbound => w.advance inbound b
    | _ => some (w.advance w.inbound b)

def Bridged.step (w : Bridged σ) : Event → Option (Bridged σ)
  | .act side (.send bytes) => (program side (w.state side) (.send bytes)).map fun s =>
      { w with state := Function.update w.state side s, inbound := put w.inbound side bytes }
  | .act side (.recv bytes) => (program side (w.state side) (.recv bytes)).bind fun s =>
      (take w.outbound side bytes).map fun outbound =>
        { w with state := Function.update w.state side s, outbound }
  | .bridge e => w.callback e

end Systems

/-- No send has fallen short. -/
def Unbroken (reply : Vector Byte 8) (es : List Event) : Prop :=
  ∀ TO, Bridge.Unbroken reply TO (es.flatMap Event.callbacks)

abbrev LastShort (reply : Vector Byte 8) (es : List Event) : Prop :=
  ShortSendsLast Bridge.step (Bridge.start reply) Bridge.Sends Bridge.FallsShort
    (es.flatMap Event.callbacks)

variable {σ : Type u} {program : Side → σ → Act → Option σ} {reply : Vector Byte 8}
  {es : List Event} {w w' : Bridged σ} {d : Direct σ} {state : Side → σ} {side TO : Side}
  {bytes chunk : List Byte} {wire wire' : Side → List Byte} {b b' : Bridge.SocksBridge}
  {r r' : Relay} {callbacks : List Bridge.Event}

section Wires

@[simp] theorem put_self : put wire side bytes side = wire side ++ bytes :=
  Function.update_self _ _ _

theorem put_of_ne (h : TO ≠ side) : put wire side bytes TO = wire TO :=
  Function.update_of_ne h _ _

theorem take_eq_some (h : take wire side bytes = some wire') :
    wire side = bytes ++ wire' side ∧ ∀ TO, TO ≠ side → wire' TO = wire TO := by
  unfold take at h
  split at h
  next hprefix =>
    cases h
    obtain ⟨rest, hrest⟩ := hprefix
    refine ⟨?_, fun TO hside => Function.update_of_ne hside _ _⟩
    rw [Function.update_self, ← hrest, List.drop_left]
  next => contradiction

theorem take_of_prefix (h : bytes <+: wire side) :
    take wire side bytes =
      some (Function.update wire side ((wire side).drop bytes.length)) := if_pos h

end Wires

section Bridge

def readFrom (FROM : Side) : Bridge.Event → List Byte
  | .read side (some chunk) => if side = FROM then chunk else []
  | _ => []

structure Adds (r r' : Relay) (read : Side → List Byte) : Prop where
  received : ∀ side, r'.received side = r.received side ++ read side
  delivered : ∀ side, r.delivered side <+: r'.delivered side

theorem Adds.same (hreceived : r'.received = r.received) (hdelivered : r'.delivered = r.delivered) :
    Adds r r' fun _ => [] :=
  ⟨fun side => by rw [hreceived, List.append_nil], fun side => by rw [hdelivered]⟩

theorem deliver_adds (r : Relay) (TO : Side) (bytes : List Byte) :
    Adds r (r.deliver TO bytes) fun _ => [] := by
  constructor
  · intro side
    rw [List.append_nil]
    rfl
  · intro side
    by_cases hside : side = TO
    · subst hside
      simp [Relay.deliver]
    · simp [Relay.deliver, Function.update_of_ne hside]

theorem onRead_adds {FROM : Side} {result : Option (List Byte)} (h : r.onRead FROM result = some r') :
    Adds r r' fun side => readFrom side (.read FROM result) := by
  cases result with
  | none =>
    simp only [Relay.onRead] at h
    split at h
    next =>
      cases h
      exact Adds.same rfl rfl
    next => contradiction
  | some chunk =>
    obtain ⟨pump, -, rfl⟩ := Option.map_eq_some_iff.mp h
    refine ⟨fun side => ?_, fun side => List.prefix_refl _⟩
    by_cases hside : FROM = side
    · subst hside
      simp [readFrom]
    · simp [readFrom, hside, Function.update_of_ne (Ne.symm hside)]

theorem onSendError_adds (h : r.onSendError TO = some r') : Adds r r' fun _ => [] := by
  unfold Relay.onSendError at h
  split at h
  next =>
    cases h
    exact Adds.same rfl rfl
  next => contradiction

theorem onSent_adds {resume : Nat → Nat → Phase} {n : Nat}
    (h : r.onSent resume TO n = some r') : Adds r r' fun _ => [] := by
  obtain ⟨⟨pump, bytes⟩, -, rfl⟩ := Option.map_eq_some_iff.mp h
  exact ⟨(deliver_adds r TO bytes).received, (deliver_adds r TO bytes).delivered⟩

theorem bridge_adds {e : Bridge.Event} (h : Bridge.step b e = some b') :
    Adds b.relay b'.relay fun side => readFrom side e := by
  cases e with
  | resolved ok =>
    simp only [Bridge.step, Bridge.onResolved] at h
    split at h
    next =>
      cases h
      exact Adds.same rfl rfl
    next => contradiction
  | connected ok =>
    simp only [Bridge.step, Bridge.onConnected] at h
    split at h
    next =>
      cases h
      exact Adds.same rfl rfl
    next => contradiction
  | replied sent =>
    cases sent with
    | none =>
      simp only [Bridge.step, Bridge.onReplied] at h
      split at h
      next =>
        cases h
        exact Adds.same rfl rfl
      next => contradiction
    | some n =>
      simp only [Bridge.step, Bridge.onReplied] at h
      split at h
      next =>
        cases h
        have hadds := deliver_adds b.relay .client (b.reply.toList.take n)
        exact ⟨hadds.received, hadds.delivered⟩
      next => contradiction
  | read FROM result =>
    obtain ⟨relay, hread, rfl⟩ := Option.map_eq_some_iff.mp h
    exact onRead_adds hread
  | sent TO length =>
    cases length with
    | none =>
      obtain ⟨relay, herror, rfl⟩ := Option.map_eq_some_iff.mp h
      exact onSendError_adds herror
    | some n =>
      obtain ⟨relay, hsent, rfl⟩ := Option.map_eq_some_iff.mp h
      exact onSent_adds hsent

end Bridge

section Mirrors

/-- Toward each side the bytes that the program has seen come first, then what is under
way; on one connection that is all of it. -/
structure Mirrors (reply : Vector Byte 8) (es : List Event) (w : Bridged σ) (d : Direct σ) :
    Prop where
  run : exec Bridge.step (Bridge.start reply) (es.flatMap Event.callbacks) = some w.bridge
  bridge : Bridge.Invariant reply (es.flatMap Event.callbacks) w.bridge
  state : d.state = w.state
  streams : ∀ TO, ∃ seen, w.bridge.relay.delivered TO = seen ++ w.outbound TO ∧
    Bridge.preface reply TO ++ w.bridge.relay.received TO.other ++ w.inbound TO.other =
      seen ++ d.wire TO

theorem mirrors_start (reply : Vector Byte 8) (state : Side → σ) :
    Mirrors reply [] (Bridged.start reply state) (Direct.start reply state) :=
  ⟨rfl, Bridge.invariant_start reply, rfl, fun TO => ⟨[], rfl, by
    simp [Bridged.start, Direct.start, Bridge.start, Relay.initial]⟩⟩

theorem delivered_inOrder (h : Bridge.Invariant reply callbacks b) (TO : Side) :
    b.relay.delivered TO <+: Bridge.preface reply TO ++ b.relay.received TO.other := by
  have horder := h.inOrder
  cases TO with
  | client =>
    rw [← h.reply_eq]
    exact horder.2
  | server => exact horder.1

theorem Mirrors.outbound (h : Mirrors reply es w d) (TO : Side) : w.outbound TO <+: d.wire TO := by
  obtain ⟨seen, hseen, hwire⟩ := h.streams TO
  have hprefix := (delivered_inOrder h.bridge TO).trans (List.prefix_append _ (w.inbound TO.other))
  rw [hwire, hseen] at hprefix
  exact (List.prefix_append_right_inj seen).mp hprefix

theorem Mirrors.act {a : Act} (h : Mirrors reply es w d)
    (hstep : w.step program (.act side a) = some w') :
    ∃ d', d.step program (side, a) = some d' ∧ Mirrors reply (es ++ [.act side a]) w' d' := by
  have hcallbacks : (es ++ [Event.act side a]).flatMap Event.callbacks = es.flatMap Event.callbacks := by
    simp [Event.callbacks]
  cases a with
  | send bytes =>
    obtain ⟨s, hs, rfl⟩ := Option.map_eq_some_iff.mp hstep
    refine ⟨⟨Function.update d.state side s, put d.wire side.other bytes⟩, ?_, ?_, ?_, ?_, ?_⟩
    · rw [Direct.step, h.state, hs]
      rfl
    · rw [hcallbacks]
      exact h.run
    · rw [hcallbacks]
      exact h.bridge
    · rw [h.state]
    · intro TO
      obtain ⟨seen, hseen, hwire⟩ := h.streams TO
      refine ⟨seen, hseen, ?_⟩
      dsimp only
      by_cases hside : TO = side.other
      · subst hside
        rw [Side.other_other, put_self, put_self, ← List.append_assoc, ← List.append_assoc]
        rw [Side.other_other] at hwire
        rw [hwire]
      · have hother : TO.other ≠ side := by
          rintro rfl
          exact hside TO.other_other.symm
        rw [put_of_ne hside, put_of_ne hother]
        exact hwire
  | recv bytes =>
    obtain ⟨s, hs, hmap⟩ := Option.bind_eq_some_iff.mp hstep
    obtain ⟨outbound, htake, rfl⟩ := Option.map_eq_some_iff.mp hmap
    obtain ⟨hnext, hothers⟩ := take_eq_some htake
    have hprefix : bytes <+: d.wire side :=
      (hnext ▸ List.prefix_append bytes _).trans (h.outbound side)
    refine ⟨⟨Function.update d.state side s,
      Function.update d.wire side ((d.wire side).drop bytes.length)⟩, ?_, ?_, ?_, ?_, ?_⟩
    · rw [Direct.step, h.state, hs, Option.bind_some, take_of_prefix hprefix]
      rfl
    · rw [hcallbacks]
      exact h.run
    · rw [hcallbacks]
      exact h.bridge
    · rw [h.state]
    · intro TO
      obtain ⟨seen, hseen, hwire⟩ := h.streams TO
      by_cases hside : TO = side
      · subst hside
        obtain ⟨rest, hrest⟩ := hprefix
        refine ⟨seen ++ bytes, ?_, ?_⟩
        · rw [hseen, hnext, List.append_assoc]
        · dsimp only
          rw [Function.update_self, hwire, ← hrest, List.drop_left, List.append_assoc]
      · refine ⟨seen, ?_, ?_⟩
        · dsimp only
          rw [hseen, hothers TO hside]
        · dsimp only
          rw [Function.update_of_ne hside]
          exact hwire

theorem callback_eq {e : Bridge.Event} (h : w.callback e = some w') :
    ∃ b inbound, Bridge.step w.bridge e = some b ∧
      (∀ side, w.inbound side = readFrom side e ++ inbound side) ∧ w' = w.advance inbound b := by
  obtain ⟨b, hb, hnext⟩ := Option.bind_eq_some_iff.mp h
  cases e with
  | read FROM result =>
    cases result with
    | none =>
      cases hnext
      exact ⟨b, w.inbound, hb, fun _ => rfl, rfl⟩
    | some chunk =>
      obtain ⟨inbound, htake, rfl⟩ := Option.map_eq_some_iff.mp hnext
      obtain ⟨hread, hothers⟩ := take_eq_some htake
      refine ⟨b, inbound, hb, fun side => ?_, rfl⟩
      by_cases hside : FROM = side
      · subst hside
        rw [readFrom, if_pos rfl]
        exact hread
      · rw [readFrom, if_neg hside, hothers side (Ne.symm hside), List.nil_append]
  | _ =>
    cases hnext
    exact ⟨b, w.inbound, hb, fun _ => rfl, rfl⟩

theorem Mirrors.callback {e : Bridge.Event} (h : Mirrors reply es w d)
    (hlast : ∀ TO ∈ [Side.client, Side.server], Bridge.Sends TO e →
      Bridge.Unbroken reply TO (es.flatMap Event.callbacks))
    (hstep : w.callback e = some w') : Mirrors reply (es ++ [.bridge e]) w' d := by
  obtain ⟨b, inbound, hb, hread, rfl⟩ := callback_eq hstep
  have hadds := bridge_adds hb
  have hcallbacks : (es ++ [Event.bridge e]).flatMap Event.callbacks =
      es.flatMap Event.callbacks ++ [e] := by
    simp [Event.callbacks]
  constructor
  · rw [hcallbacks, exec_concat, h.run]
    exact hb
  · rw [hcallbacks]
    exact Bridge.invariant_step reply _ w.bridge e b h.run h.bridge hlast hb
  · exact h.state
  · intro TO
    obtain ⟨seen, hseen, hwire⟩ := h.streams TO
    refine ⟨seen, ?_, ?_⟩
    · obtain ⟨more, hmore⟩ := hadds.delivered TO
      simp only [Bridged.advance]
      rw [← hmore, List.drop_left, ← List.append_assoc, ← hseen]
    · simp only [Bridged.advance]
      rw [hadds.received, ← hwire, hread TO.other]
      simp only [List.append_assoc]

theorem lastShort_before {e : Event} (h : LastShort reply (es ++ [e])) : LastShort reply es := by
  rw [LastShort, List.flatMap_append] at h
  exact Meets.left h

theorem mirrored (hlast : LastShort reply es)
    (hrun : exec (Bridged.step program) (Bridged.start reply state) es = some w) :
    ∃ d, exec (Direct.step program) (Direct.start reply state) (es.flatMap Event.acts) = some d ∧
      Mirrors reply es w d := by
  refine exec_simulation (P := LastShort reply) (fun es e h => lastShort_before h)
    (mirrors_start reply state) ?_ es hlast w hrun
  intro es w e next d hP _ hmirrors hstep
  cases e with
  | act side a =>
    obtain ⟨d', hd, hnext⟩ := hmirrors.act hstep
    refine ⟨d', ?_, hnext⟩
    rw [Event.acts, exec, hd]
    rfl
  | bridge e =>
    refine ⟨d, rfl, hmirrors.callback ?_ hstep⟩
    rw [LastShort, List.flatMap_append] at hP
    exact Meets.last hP hmirrors.run

end Mirrors

section Results

/-- As long as a short send is the last one on its socket: whatever the two programs do
through the bridge they can do on one connection with the reply of the bridge on it, and
what the bridge has sent is what comes next there. -/
theorem bridge_transparent (program : Side → σ → Act → Option σ) (reply : Vector Byte 8)
    (state : Side → σ) (es : List Event) (w : Bridged σ) (hlast : LastShort reply es)
    (hrun : exec (Bridged.step program) (Bridged.start reply state) es = some w) :
    ∃ d, exec (Direct.step program) (Direct.start reply state) (es.flatMap Event.acts) = some d ∧
      d.state = w.state ∧ ∀ TO, w.outbound TO <+: d.wire TO := by
  obtain ⟨d, hd, hmirrors⟩ := mirrored hlast hrun
  exact ⟨d, hd, hmirrors.state, hmirrors.outbound⟩

def collect (_ : Side) (log : List Byte) : Act → Option (List Byte)
  | .send _ => some log
  | .recv bytes => some (log ++ bytes)

/-- A request to the server, of which the bridge has sent the first two bytes. -/
def requestUnderway : List Event :=
  [.bridge (.resolved true), .bridge (.connected true), .act .client (.send [1, 2]),
    .bridge (.replied (some 8)), .bridge (.read .client (some [1, 2])),
    .act .client (.send [3, 4, 5]), .bridge (.sent .server (some 2)),
    .act .server (.recv [1]), .bridge (.read .client (some [3, 4]))]

theorem requestUnderway_transparent : ∃ w d,
    exec (Bridged.step collect) (Bridged.start (Vector.replicate 8 0) fun _ => []) requestUnderway =
      some w ∧
    exec (Direct.step collect) (Direct.start (Vector.replicate 8 0) fun _ => [])
      (requestUnderway.flatMap Event.acts) = some d ∧
    d.state = w.state ∧ ∀ TO, w.outbound TO <+: d.wire TO := by
  have hlast : LastShort (Vector.replicate 8 0) requestUnderway := by decide
  obtain ⟨d, hd⟩ := bridge_transparent collect _ _ requestUnderway _ hlast rfl
  exact ⟨_, d, rfl, hd⟩

end Results

section Drain

def Awake (b : Bridge.SocksBridge) : Prop :=
  b.stage = .relaying → ∀ side, (b.relay.pump side).phase = .reading ∨
    (b.relay.pump side).phase = .stopped ∨
      ∃ n, 0 < n ∧ (b.relay.pump side).phase = .sending n

theorem Awake.update {relay : Relay} {pump : Pump Byte} (h : Awake b)
    (hpump : pump.phase = .reading ∨ pump.phase = .stopped ∨
      ∃ n, 0 < n ∧ pump.phase = .sending n)
    (hrelay : relay.pump = Function.update b.relay.pump side pump) :
    Awake { b with relay } := by
  intro hstage other
  dsimp only
  rw [hrelay]
  by_cases hside : other = side
  · subst hside
    rw [Function.update_self]
    exact hpump
  · rw [Function.update_of_ne hside]
    exact h hstage other

theorem awake_step {e : Bridge.Event} (h : Awake b) (hstep : Bridge.step b e = some b') :
    Awake b' := by
  cases e with
  | resolved ok =>
    simp only [Bridge.step, Bridge.onResolved] at hstep
    split at hstep
    next =>
      cases hstep
      cases ok <;> exact fun hstage => absurd hstage (by simp)
    next => contradiction
  | connected ok =>
    simp only [Bridge.step, Bridge.onConnected] at hstep
    split at hstep
    next =>
      cases hstep
      cases ok <;> exact fun hstage => absurd hstage (by simp)
    next => contradiction
  | replied sent =>
    cases sent with
    | none =>
      simp only [Bridge.step, Bridge.onReplied] at hstep
      split at hstep
      next =>
        cases hstep
        exact fun hstage => absurd hstage (by simp)
      next => contradiction
    | some n =>
      simp only [Bridge.step, Bridge.onReplied] at hstep
      split at hstep
      next =>
        cases hstep
        intro _ side
        left
        cases side <;> simp [Relay.doRead, Pump.startRead]
      next => contradiction
  | read FROM result =>
    obtain ⟨relay, hread, rfl⟩ := Option.map_eq_some_iff.mp hstep
    cases result with
    | none =>
      simp only [Relay.onRead] at hread
      split at hread
      next =>
        cases hread
        exact h.update (.inr (.inl rfl)) rfl
      next => contradiction
    | some chunk =>
      obtain ⟨pump, hpump, rfl⟩ := Option.map_eq_some_iff.mp hread
      unfold Pump.read at hpump
      split at hpump
      next hchunk =>
        cases hpump
        refine h.update (.inr (.inr ⟨chunk.length, ?_, rfl⟩)) rfl
        exact List.length_pos_iff.mpr hchunk.2.1
      next => contradiction
  | sent TO length =>
    cases length with
    | none =>
      obtain ⟨relay, herror, rfl⟩ := Option.map_eq_some_iff.mp hstep
      unfold Relay.onSendError at herror
      split at herror
      next =>
        cases herror
        exact h.update (.inr (.inl rfl)) rfl
      next => contradiction
    | some n =>
      obtain ⟨relay, hsent, rfl⟩ := Option.map_eq_some_iff.mp hstep
      obtain ⟨⟨pump, bytes⟩, hpump, rfl⟩ := Option.map_eq_some_iff.mp hsent
      unfold Pump.send at hpump
      split at hpump
      next =>
        split at hpump
        next =>
          cases hpump
          exact h.update (.inl rfl) rfl
        next => contradiction
      next => contradiction

theorem awake_run (hrun : exec Bridge.step (Bridge.start reply) callbacks = some b) : Awake b := by
  refine invariant_always (I := fun _ b => Awake b) ?_ ?_ callbacks b hrun
  · exact fun hstage => absurd hstage (by simp [Bridge.start])
  · intro _ b e b' _ hI hstep
    exact awake_step hI hstep

/-- A bridge at work, with both sockets open, that no send has cut short. -/
structure Live (reply : Vector Byte 8) (es : List Event) (w : Bridged σ) (d : Direct σ) : Prop where
  mirrors : Mirrors reply es w d
  unbroken : Unbroken reply es
  stage : w.bridge.stage = .relaying
  opened : w.bridge.relay.closed = false

theorem Unbroken.concat {e : Bridge.Event} (h : Unbroken reply es)
    (hrun : exec Bridge.step (Bridge.start reply) (es.flatMap Event.callbacks) = some b)
    (hlast : ∀ TO, ¬ Bridge.FallsShort b TO e) : Unbroken reply (es ++ [.bridge e]) := by
  intro TO
  have hcallbacks : (es ++ [Event.bridge e]).flatMap Event.callbacks =
      es.flatMap Event.callbacks ++ [e] := by
    simp [Event.callbacks]
  rw [Bridge.Unbroken, hcallbacks]
  apply Meets.concat (h TO)
  intro b' hb'
  rw [hrun] at hb'
  cases hb'
  exact hlast TO

theorem Live.callback {e : Bridge.Event} (h : Live reply es w d) (hstep : w.callback e = some w')
    (hlast : ∀ TO, ¬ Bridge.FallsShort w.bridge TO e)
    (hstage : w'.bridge.stage = w.bridge.stage)
    (hclosed : w'.bridge.relay.closed = w.bridge.relay.closed) :
    Live reply (es ++ [.bridge e]) w' d :=
  ⟨h.mirrors.callback (fun TO _ _ => h.unbroken TO) hstep,
    h.unbroken.concat h.mirrors.run hlast, hstage.trans h.stage, hclosed.trans h.opened⟩

theorem sent_whole {n : Nat} (hphase : (b.relay.pump TO.other).phase = .sending n) (hn : 0 < n) :
    ∃ b', Bridge.step b (.sent TO (some n)) = some b' ∧ b'.stage = b.stage ∧
      b'.relay.closed = b.relay.closed ∧ (b'.relay.pump TO.other).phase = .reading := by
  have hsend : (b.relay.pump TO.other).send Bridge.resume n =
      some ({ b.relay.pump TO.other with phase := .reading },
        (b.relay.pump TO.other).buffer.take n) := by
    simp [Pump.send, hphase, hn, Bridge.resume]
  have hstep : Bridge.step b (.sent TO (some n)) = some { b with
      relay := { b.relay.deliver TO ((b.relay.pump TO.other).buffer.take n) with
        pump := Function.update b.relay.pump TO.other
          { b.relay.pump TO.other with phase := .reading } } } := by
    rw [Bridge.step, Bridge.onSent, Relay.onSent, hsend]
    rfl
  exact ⟨_, hstep, rfl, rfl, by simp⟩

theorem read_next (hphase : (b.relay.pump side).phase = .reading) (hne : chunk ≠ [])
    (hlength : chunk.length ≤ maxLength) :
    ∃ b', Bridge.step b (.read side (some chunk)) = some b' ∧ b'.stage = b.stage ∧
      b'.relay.closed = b.relay.closed ∧ (b'.relay.pump side).phase = .sending chunk.length := by
  have hread : (b.relay.pump side).read maxLength chunk = some
      ⟨.sending chunk.length, chunk ++ (b.relay.pump side).buffer.drop chunk.length⟩ :=
    if_pos ⟨hphase, hne, hlength⟩
  have hstep : Bridge.step b (.read side (some chunk)) = some { b with
      relay := { b.relay with
        pump := Function.update b.relay.pump side
          ⟨.sending chunk.length, chunk ++ (b.relay.pump side).buffer.drop chunk.length⟩
        received := Function.update b.relay.received side (b.relay.received side ++ chunk) } } := by
    rw [Bridge.step, Relay.onRead, hread]
    rfl
  exact ⟨_, hstep, rfl, rfl, by simp⟩

theorem Live.send {n : Nat} (h : Live reply es w d)
    (hphase : (w.bridge.relay.pump TO.other).phase = .sending n) (hn : 0 < n) :
    ∃ w', w.callback (.sent TO (some n)) = some w' ∧
      Live reply (es ++ [.bridge (.sent TO (some n))]) w' d ∧ w'.inbound = w.inbound ∧
      (w'.bridge.relay.pump TO.other).phase = .reading := by
  obtain ⟨b', hstep, hstage, hclosed, hreading⟩ := sent_whole hphase hn
  have hcallback : w.callback (.sent TO (some n)) = some (w.advance w.inbound b') := by
    rw [Bridged.callback, hstep]
    rfl
  refine ⟨_, hcallback, h.callback hcallback ?_ hstage hclosed, rfl, hreading⟩
  rintro side ⟨rfl, hshort⟩
  simp [Relay.short, Pump.short, hphase] at hshort

theorem Live.read (h : Live reply es w d)
    (hphase : (w.bridge.relay.pump side).phase = .reading) (hne : chunk ≠ [])
    (hlength : chunk.length ≤ maxLength) (hchunk : chunk <+: w.inbound side) :
    ∃ w', w.callback (.read side (some chunk)) = some w' ∧
      Live reply (es ++ [.bridge (.read side (some chunk))]) w' d ∧
      w'.inbound side = (w.inbound side).drop chunk.length ∧
      (w'.bridge.relay.pump side).phase = .sending chunk.length := by
  obtain ⟨b', hstep, hstage, hclosed, hsending⟩ := read_next hphase hne hlength
  have hcallback : w.callback (.read side (some chunk)) = some (w.advance
      (Function.update w.inbound side ((w.inbound side).drop chunk.length)) b') := by
    rw [Bridged.callback, hstep]
    simp only [Option.bind_some, take_of_prefix hchunk, Option.map_some]
  refine ⟨_, hcallback, h.callback hcallback (fun _ => id) hstage hclosed, ?_, hsending⟩
  exact Function.update_self _ _ _

def Serves (TO : Side) (e : Event) : Prop :=
  (∃ chunk, e = .bridge (.read TO.other (some chunk))) ∨ ∃ n, e = .bridge (.sent TO (some n))

/-- A read of at most `max_length` bytes and its send, as often as it takes. -/
theorem Live.empties (program : Side → σ → Act → Option σ) (rounds : Nat) (h : Live reply es w d)
    (hphase : (w.bridge.relay.pump TO.other).phase = .reading)
    (hlength : (w.inbound TO.other).length ≤ rounds * maxLength) :
    ∃ more w', (∀ e ∈ more, Serves TO e) ∧ more.length ≤ 2 * rounds ∧
      exec (Bridged.step program) w more = some w' ∧ Live reply (es ++ more) w' d ∧
      w'.inbound TO.other = [] ∧ (w'.bridge.relay.pump TO.other).phase = .reading := by
  induction rounds generalizing es w with
  | zero =>
    have hnone : w.inbound TO.other = [] := by
      rw [Nat.zero_mul, Nat.le_zero] at hlength
      exact List.length_eq_zero_iff.mp hlength
    exact ⟨[], w, by simp, le_refl _, rfl, by rwa [List.append_nil], hnone, hphase⟩
  | succ rounds ih =>
    by_cases hnone : w.inbound TO.other = []
    · exact ⟨[], w, by simp, Nat.zero_le _, rfl, by rwa [List.append_nil], hnone, hphase⟩
    · have hne : (w.inbound TO.other).take maxLength ≠ [] := by
        rw [ne_eq, List.take_eq_nil_iff]
        simp [hnone, maxLength]
      have hpos := List.length_pos_iff.mpr hne
      obtain ⟨w₁, hread, hlive₁, hrest, hsending⟩ := h.read hphase hne
        (List.length_take_le _ _) (List.take_prefix _ _)
      obtain ⟨w₂, hsend, hlive₂, hsame, hreading⟩ := hlive₁.send hsending hpos
      have hlength₂ : (w₂.inbound TO.other).length ≤ rounds * maxLength := by
        rw [hsame, hrest, List.length_drop, List.length_take]
        rw [Nat.succ_mul] at hlength
        omega
      obtain ⟨more, w', hserves, hcount, hrun, hlive, hempty, hphase'⟩ :=
        ih hlive₂ hreading hlength₂
      refine ⟨.bridge (.read TO.other (some ((w.inbound TO.other).take maxLength))) ::
        .bridge (.sent TO (some ((w.inbound TO.other).take maxLength).length)) :: more, w',
        ?_, ?_, ?_, ?_, hempty, hphase'⟩
      · intro e he
        rw [List.mem_cons, List.mem_cons] at he
        rcases he with rfl | rfl | he
        · exact .inl ⟨_, rfl⟩
        · exact .inr ⟨_, rfl⟩
        · exact hserves e he
      · simp only [List.length_cons]
        omega
      · rw [exec, Bridged.step, hread, Option.bind_some, exec, Bridged.step, hsend,
          Option.bind_some]
        exact hrun
      · rw [List.append_assoc, List.append_assoc] at hlive
        exact hlive

theorem Live.flushed (h : Live reply es w d)
    (hphase : (w.bridge.relay.pump TO.other).phase = .reading) (hempty : w.inbound TO.other = []) :
    w.outbound TO = d.wire TO := by
  obtain ⟨seen, hseen, hwire⟩ := h.mirrors.streams TO
  have hcopies := h.mirrors.bridge.tracks h.stage TO
  have hall := hcopies.complete (h.unbroken TO) (by simp [hphase])
  rw [Pump.owed, hphase, List.append_nil] at hall
  rw [hempty, List.append_nil, ← hall, hseen] at hwire
  exact List.append_cancel_left hwire

theorem Unbroken.lastShort (h : Unbroken reply es) : LastShort reply es := by
  intro before e after s heq _ TO _ _
  have hwhole := h TO
  rw [Bridge.Unbroken, heq] at hwhole
  exact Meets.left hwhole

theorem Live.drains (program : Side → σ → Act → Option σ) (h : Live reply es w d)
    (hlive : (w.bridge.relay.pump TO.other).phase ≠ .stopped) :
    ∃ more w', (∀ e ∈ more, Serves TO e) ∧
      more.length ≤ 1 + 2 * (((w.inbound TO.other).length + 1023) / 1024) ∧
      exec (Bridged.step program) w more = some w' ∧ w'.bridge.relay.closed = false ∧
      w'.state = w.state ∧ w'.outbound TO = d.wire TO := by
  have hrounds : (w.inbound TO.other).length ≤
      ((w.inbound TO.other).length + 1023) / 1024 * maxLength := by
    rw [maxLength]
    omega
  rcases awake_run h.mirrors.run h.stage TO.other with hphase | hphase | ⟨n, hn, hphase⟩
  · obtain ⟨more, w', hserves, hcount, hrun, hend, hempty, hphase'⟩ :=
      h.empties program _ hphase hrounds
    refine ⟨more, w', hserves, by omega, hrun, hend.opened, ?_, hend.flushed hphase' hempty⟩
    rw [← hend.mirrors.state, h.mirrors.state]
  · exact absurd hphase hlive
  · obtain ⟨w₁, hsend, hlive₁, hsame, hreading⟩ := h.send hphase hn
    rw [← hsame] at hrounds
    obtain ⟨more, w', hserves, hcount, hrun, hend, hempty, hphase'⟩ :=
      hlive₁.empties program _ hreading hrounds
    refine ⟨.bridge (.sent TO (some n)) :: more, w', ?_, ?_, ?_, hend.opened, ?_,
      hend.flushed hphase' hempty⟩
    · intro e he
      obtain rfl | he := List.mem_cons.mp he
      · exact .inr ⟨n, rfl⟩
      · exact hserves e he
    · rw [List.length_cons, ← hsame]
      omega
    · rw [exec, Bridged.step, hsend]
      exact hrun
    · rw [← hend.mirrors.state, h.mirrors.state]

/-- When no send has fallen short, a relaying bridge with its sockets open hands over all that
is under way to a side whose loop goes on, in two callbacks for each 1024 bytes, and the
programs notice nothing of it. -/
theorem bridge_drains (program : Side → σ → Act → Option σ) (reply : Vector Byte 8)
    (state : Side → σ) (es : List Event) (w : Bridged σ) (hwhole : Unbroken reply es)
    (hrun : exec (Bridged.step program) (Bridged.start reply state) es = some w)
    (hstage : w.bridge.stage = .relaying) (hopen : w.bridge.relay.closed = false) (TO : Side)
    (hlive : (w.bridge.relay.pump TO.other).phase ≠ .stopped) :
    ∃ d more w',
      exec (Direct.step program) (Direct.start reply state) (es.flatMap Event.acts) = some d ∧
      (∀ e ∈ more, Serves TO e) ∧
      more.length ≤ 1 + 2 * (((w.inbound TO.other).length + 1023) / 1024) ∧
      exec (Bridged.step program) w more = some w' ∧ w'.bridge.relay.closed = false ∧
      w'.state = w.state ∧ w'.outbound TO = d.wire TO := by
  obtain ⟨d, hd, hmirrors⟩ := mirrored hwhole.lastShort hrun
  have hwork : Live reply es w d := ⟨hmirrors, hwhole, hstage, hopen⟩
  obtain ⟨more, w', hdrains⟩ := hwork.drains program hlive
  exact ⟨d, more, w', hd, hdrains⟩

theorem requestUnderway_drains : ∃ w d more w',
    exec (Bridged.step collect) (Bridged.start (Vector.replicate 8 0) fun _ => []) requestUnderway =
      some w ∧
    exec (Direct.step collect) (Direct.start (Vector.replicate 8 0) fun _ => [])
      (requestUnderway.flatMap Event.acts) = some d ∧
    (∀ e ∈ more, Serves .server e) ∧
    more.length ≤ 1 + 2 * (((w.inbound .client).length + 1023) / 1024) ∧
    exec (Bridged.step collect) w more = some w' ∧ w'.bridge.relay.closed = false ∧
    w'.state = w.state ∧ w'.outbound .server = d.wire .server := by
  have hwhole : Unbroken (Vector.replicate 8 0) requestUnderway := by
    intro TO
    cases TO <;> decide
  obtain ⟨d, more, w', hdrains⟩ :=
    bridge_drains collect _ (fun _ => []) requestUnderway _ hwhole rfl rfl rfl .server nofun
  exact ⟨_, d, more, w', rfl, hdrains⟩

end Drain

end NetworkProgramming.Socks.Transparent
