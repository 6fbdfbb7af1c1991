import Mathlib.Data.List.Infix

/-! One direction of a relay with a single buffer: a chunk is read into it and
then sent from its start. How the loop goes on after a send that may have taken
only part of what it was given is a parameter. -/
namespace NetworkProgramming.Library.CopyLoop

variable {α : Type u}

inductive Phase where
  | idle
  | reading
  | sending (length : Nat)
  | stopped
  deriving DecidableEq, Repr

structure Pump (α : Type u) where
  phase : Phase
  buffer : List α

def initial : Pump α := ⟨.idle, []⟩

def Pump.startRead (p : Pump α) : Pump α := { p with phase := .reading }

def Pump.stop (p : Pump α) : Pump α := { p with phase := .stopped }

def Pump.read (p : Pump α) (capacity : Nat) (chunk : List α) : Option (Pump α) :=
  if p.phase = .reading ∧ chunk ≠ [] ∧ chunk.length ≤ capacity then
    some ⟨.sending chunk.length, chunk ++ p.buffer.drop chunk.length⟩
  else none

/-- A send reports `n` elements; `resume` says what is started next. The
elements sent are those at the start of the buffer. -/
def Pump.send (p : Pump α) (resume : Nat → Nat → Phase) (n : Nat) : Option (Pump α × List α) :=
  match p.phase with
  | .sending length =>
    if 0 < n ∧ n ≤ length then some ({ p with phase := resume length n }, p.buffer.take n)
    else none
  | _ => none

def Pump.short (p : Pump α) (n : Nat) : Prop :=
  match p.phase with
  | .sending length => n < length
  | _ => False

instance (p : Pump α) (n : Nat) : Decidable (p.short n) := by
  unfold Pump.short
  split <;> infer_instance

def Pump.owed (p : Pump α) : List α :=
  match p.phase with
  | .sending length => p.buffer.take length
  | _ => []

/-- `sink` is a copy of `source` so far and, as long as no send fell short
(`whole`), all that is missing from it is what the buffer still owes. -/
structure Copies (p : Pump α) (source sink : List α) (whole : Prop) : Prop where
  in_order : sink <+: source
  complete : whole → p.phase ≠ .stopped → sink ++ p.owed = source

theorem Copies.mono {p : Pump α} {source sink : List α} {whole whole' : Prop}
    (h : Copies p source sink whole) (hwhole : whole' → whole) : Copies p source sink whole' :=
  ⟨h.in_order, fun hw => h.complete (hwhole hw)⟩

theorem Copies.stop {p : Pump α} {source sink : List α} {whole : Prop}
    (h : Copies p source sink whole) : Copies p.stop source sink whole :=
  ⟨h.in_order, fun _ hlive => absurd rfl hlive⟩

theorem Copies.read {p next : Pump α} {source sink chunk : List α} {whole : Prop}
    {capacity : Nat} (h : Copies p source sink whole)
    (hread : p.read capacity chunk = some next) : Copies next (source ++ chunk) sink whole := by
  unfold Pump.read at hread
  split at hread
  next hphase =>
    cases hread
    refine ⟨h.in_order.trans (List.prefix_append _ _), fun hw _ => ?_⟩
    have hsource : sink ++ p.owed = source := h.complete hw (by simp [hphase.1])
    have howed : p.owed = [] := by simp [Pump.owed, hphase.1]
    rw [← hsource, howed]
    simp [Pump.owed]
  next => contradiction

/-- A send made while every earlier one was complete delivers the next elements
in order; if it falls short, nothing is promised about later ones. -/
theorem Copies.send {p next : Pump α} {source sink sent : List α} {whole : Prop}
    {resume : Nat → Nat → Phase} {n : Nat} (h : Copies p source sink whole) (hw : whole)
    (hresume : ∀ length, resume length length = .reading)
    (hsend : p.send resume n = some (next, sent)) :
    Copies next source (sink ++ sent) (¬ p.short n) := by
  unfold Pump.send at hsend
  split at hsend
  next length hphase =>
    split at hsend
    next hn =>
      cases hsend
      have hsource : sink ++ p.buffer.take length = source := by
        have hcomplete := h.complete hw (by simp [hphase])
        simpa only [Pump.owed, hphase] using hcomplete
      refine ⟨?_, fun hlong _ => ?_⟩
      · rw [← hsource, List.prefix_append_right_inj]
        exact List.take_prefix_take_left hn.2
      · have hfull : n = length := by
          simp only [Pump.short, hphase] at hlong
          omega
        simp [Pump.owed, hfull, hresume, hsource]
    next => contradiction
  next => contradiction

end NetworkProgramming.Library.CopyLoop
