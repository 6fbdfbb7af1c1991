import NetworkProgramming.Library.CopyLoop
import NetworkProgramming.Library.Run
import Mathlib.Logic.Function.Basic

/-! The part that `socks_bridge` and `socks_bind` share: two sockets, a buffer
for each direction, and the callbacks of `async_read_some` and `async_send`. -/
namespace NetworkProgramming.Socks
open Library.CopyLoop Library.Run

abbrev Byte := UInt8

/-- A socket: `FROM_CLIENT` and `TO_CLIENT` are 1, `FROM_SERVER` and
`TO_SERVER` are 2. -/
inductive Side where
  | client
  | server
  deriving DecidableEq, Repr

def Side.other : Side → Side
  | .client => .server
  | .server => .client

@[simp] theorem Side.other_other (side : Side) : side.other.other = side := by
  cases side <;> rfl

def maxLength : Nat := 1024

/-- `pump FROM` reads from that side: its buffer is `upstream_data` for the
client and `downstream_data` for the server. The last two fields record what
the sockets have seen. -/
structure Relay where
  pump : Side → Pump Byte
  closed : Bool
  received : Side → List Byte
  delivered : Side → List Byte

def Relay.initial : Relay :=
  ⟨fun _ => Library.CopyLoop.initial, false, fun _ => [], fun _ => []⟩

def Relay.doRead (r : Relay) (FROM : Side) : Relay :=
  { r with pump := Function.update r.pump FROM (r.pump FROM).startRead }

/-- `downstream.close(); upstream.close()`. A callback that was already due may
still run, and the other loop is not held back: no run of the code is left out. -/
def Relay.close (r : Relay) : Relay := { r with closed := true }

def Relay.stop (r : Relay) (FROM : Side) : Relay :=
  { r with pump := Function.update r.pump FROM (r.pump FROM).stop }

def Relay.deliver (r : Relay) (TO : Side) (bytes : List Byte) : Relay :=
  { r with delivered := Function.update r.delivered TO (r.delivered TO ++ bytes) }

/-- The callback of `do_read`: the bytes read, or an error, on which both
sockets are closed. -/
def Relay.onRead (r : Relay) (FROM : Side) : Option (List Byte) → Option Relay
  | some chunk => ((r.pump FROM).read maxLength chunk).map fun pump =>
      { r with
        pump := Function.update r.pump FROM pump
        received := Function.update r.received FROM (r.received FROM ++ chunk) }
  | none => if (r.pump FROM).phase = .reading then some (r.stop FROM).close else none

/-- The callback of `do_write` after `n` bytes were sent; `resume` is the
relay's own reaction to the requested and the reported length. -/
def Relay.onSent (resume : Nat → Nat → Phase) (r : Relay) (TO : Side) (n : Nat) : Option Relay :=
  ((r.pump TO.other).send resume n).map fun (pump, bytes) =>
    { r.deliver TO bytes with pump := Function.update r.pump TO.other pump }

/-- The callback of `do_write` with an error. -/
def Relay.onSendError (r : Relay) (TO : Side) : Option Relay :=
  match (r.pump TO.other).phase with
  | .sending _ => some (r.stop TO.other)
  | _ => none

def Relay.Idle (r : Relay) : Prop := ∀ side, (r.pump side).phase = .idle

theorem Relay.initial_idle : Relay.initial.Idle := fun _ => rfl

theorem Relay.Idle.onRead {r : Relay} (h : r.Idle) (FROM : Side) (bytes : Option (List Byte)) :
    r.onRead FROM bytes = none := by
  cases bytes <;> simp [Relay.onRead, Pump.read, h FROM]

theorem Relay.Idle.onSent {r : Relay} (h : r.Idle) (resume : Nat → Nat → Phase) (TO : Side)
    (n : Nat) : r.onSent resume TO n = none := by
  simp [Relay.onSent, Pump.send, h TO.other]

theorem Relay.Idle.onSendError {r : Relay} (h : r.Idle) (TO : Side) :
    r.onSendError TO = none := by
  simp [Relay.onSendError, h TO.other]

/-- Toward each side, what was delivered is a copy of what was promised:
`preface TO`, then the bytes read from the other side. -/
def Tracks (r : Relay) (preface : Side → List Byte) (whole : Side → Prop) : Prop :=
  ∀ TO, Copies (r.pump TO.other) (preface TO ++ r.received TO.other) (r.delivered TO) (whole TO)

theorem Tracks.mono {r : Relay} {preface : Side → List Byte} {whole whole' : Side → Prop}
    (h : Tracks r preface whole) (hwhole : ∀ TO, whole' TO → whole TO) :
    Tracks r preface whole' :=
  fun TO => (h TO).mono (hwhole TO)

theorem Tracks.close {r : Relay} {preface : Side → List Byte} {whole : Side → Prop}
    (h : Tracks r preface whole) : Tracks r.close preface whole := h

theorem Tracks.stop {r : Relay} {preface : Side → List Byte} {whole : Side → Prop}
    (h : Tracks r preface whole) (FROM : Side) : Tracks (r.stop FROM) preface whole := by
  intro TO
  by_cases hside : TO.other = FROM
  · subst hside
    simpa [Relay.stop] using (h TO).stop
  · simpa [Relay.stop, Function.update_of_ne hside] using h TO

theorem Tracks.onRead {r next : Relay} {preface : Side → List Byte} {whole : Side → Prop}
    (h : Tracks r preface whole) {FROM : Side} {result : Option (List Byte)}
    (hread : r.onRead FROM result = some next) : Tracks next preface whole := by
  cases result with
  | none =>
    simp only [Relay.onRead] at hread
    split at hread
    · cases hread
      exact (h.stop FROM).close
    · contradiction
  | some chunk =>
    obtain ⟨pump, hpump, rfl⟩ := Option.map_eq_some_iff.mp hread
    intro TO
    by_cases hside : TO.other = FROM
    · subst hside
      simpa using (h TO).read hpump
    · simpa [Function.update_of_ne hside] using h TO

theorem Tracks.onSendError {r next : Relay} {preface : Side → List Byte} {whole : Side → Prop}
    (h : Tracks r preface whole) {TO : Side} (herror : r.onSendError TO = some next) :
    Tracks next preface whole := by
  unfold Relay.onSendError at herror
  split at herror
  · cases herror
    exact h.stop TO.other
  · contradiction

theorem tracks_doRead {r : Relay} {preface : Side → List Byte} {whole : Side → Prop}
    (hserver : r.delivered .server = [] ∧ r.received .client = [] ∧ preface .server = [])
    (hreceived : r.received .server = [])
    (hupto : r.delivered .client <+: preface .client)
    (hwhole : whole .client → r.delivered .client = preface .client) :
    Tracks ((r.doRead .client).doRead .server) preface whole := by
  intro TO
  cases TO with
  | client =>
    refine ⟨?_, fun hw _ => ?_⟩
    · simpa [Relay.doRead, Side.other, hreceived] using hupto
    · simp [Relay.doRead, Side.other, hreceived, Pump.owed, Pump.startRead, hwhole hw]
  | server =>
    refine ⟨?_, fun _ _ => ?_⟩
    · simp [Relay.doRead, hserver]
    · simp [Relay.doRead, Side.other, hserver, Pump.owed, Pump.startRead]

theorem Side.other_injective {a b : Side} (h : a.other = b.other) : a = b := by
  rw [← Side.other_other a, h, Side.other_other]

/-- The send in progress toward `TO` will report fewer bytes than requested. -/
def Relay.short (r : Relay) (TO : Side) (n : Nat) : Prop := (r.pump TO.other).short n

instance (r : Relay) (TO : Side) (n : Nat) : Decidable (r.short TO n) := by
  unfold Relay.short
  infer_instance

theorem Tracks.onSent {r next : Relay} {preface : Side → List Byte} {whole : Side → Prop}
    {resume : Nat → Nat → Phase} (hresume : ∀ length, resume length length = .reading)
    (h : Tracks r preface whole) {TO : Side} (hwhole : whole TO) {n : Nat}
    (hsent : r.onSent resume TO n = some next) :
    Tracks next preface fun side => whole side ∧ (side = TO → ¬ r.short TO n) := by
  obtain ⟨⟨pump, bytes⟩, hpump, rfl⟩ := Option.map_eq_some_iff.mp hsent
  intro side
  by_cases hside : side = TO
  · subst hside
    have hcopies := ((h side).send hwhole hresume hpump).mono
      fun (hboth : whole side ∧ (side = side → ¬ r.short side n)) => hboth.2 rfl
    simpa [Relay.deliver] using hcopies
  · have hother : side.other ≠ TO.other := fun heq => hside (Side.other_injective heq)
    simpa [Relay.deliver, Function.update_of_ne hother, Function.update_of_ne hside] using
      (h side).mono fun hboth => hboth.1

section Runs

variable {σ : Type u} {ε : Type v} (step : σ → ε → Option σ) (start : σ)
  (sends : Side → ε → Prop) (fallsShort : σ → Side → ε → Prop)

/-- No send on the socket of `TO` took less than it was given. -/
def Whole (TO : Side) (es : List ε) : Prop :=
  Meets step start (fun _ s e => ¬ fallsShort s TO e) es

/-- A send completes on a socket only while every earlier send on it took all
it was given: a short send is the last one. -/
def ShortSendsLast (es : List ε) : Prop :=
  Meets step start
    (fun before _ e => ∀ TO ∈ [Side.client, Side.server], sends TO e →
      Whole step start fallsShort TO before) es

variable {step start sends fallsShort}

instance [∀ s TO e, Decidable (fallsShort s TO e)] (TO : Side) (es : List ε) :
    Decidable (Whole step start fallsShort TO es) := by
  unfold Whole
  infer_instance

instance [∀ TO e, Decidable (sends TO e)] [∀ s TO e, Decidable (fallsShort s TO e)]
    (es : List ε) : Decidable (ShortSendsLast step start sends fallsShort es) := by
  unfold ShortSendsLast
  infer_instance

theorem Whole.before {TO : Side} {es : List ε} {e : ε}
    (h : Whole step start fallsShort TO (es ++ [e])) : Whole step start fallsShort TO es :=
  Meets.before h

theorem Whole.last {TO : Side} {es : List ε} {e : ε} {s : σ}
    (h : Whole step start fallsShort TO (es ++ [e])) (hs : exec step start es = some s) :
    ¬ fallsShort s TO e :=
  Meets.last h hs

end Runs

end NetworkProgramming.Socks
