import NetworkProgramming.Single.Names

/-! Who hears what: over every run of `np_single_proc`, a text for all reaches each client
once, a told one its one receiver, and the others the client that has asked. -/
namespace NetworkProgramming.Single
open Library.CString Library.Run Library.SlotTable CommandLine

/-- What a text is about. -/
inductive Topic where
  | reply
  | told
  | received
  | piped
  | yelled
  | named
  | entered
  | left
  deriving DecidableEq, Repr

def Message.topic : Message → Topic
  | .told .. => .told
  | .justReceived .. => .received
  | .justPiped .. => .piped
  | .yelled .. => .yelled
  | .named .. => .named
  | .entered .. => .entered
  | .left .. => .left
  | _ => .reply

/-- The sockets that a text is sent to, in order. -/
def receivers (effects : List Effect) (message : Message) : List Int :=
  effects.filterMap fun effect =>
    match effect with
    | .send fd other => if other = message then some fd else none
    | _ => none

/-- The receivers of a text are those that it is for. -/
def Reached (own : Int) (present : Finset Int) (fds : List Int) : Topic → Prop
  | .reply => ∀ fd ∈ fds, fd = own
  | .told => fds = [] ∨ ∃ fd ∈ present, fds = [fd]
  | _ => fds = [] ∨ fds.Nodup ∧ ∀ fd, fd ∈ fds ↔ fd ∈ present

def Event.socket : Event → Int
  | .login ssock _ => ssock
  | .line fd _ _ => fd

structure Piece (own : Int) (present : Topic → Finset Int) (topics : List Topic)
    (effects : List Effect) : Prop where
  reached : ∀ message, Reached own (present message.topic) (receivers effects message) message.topic
  topics : ∀ fd message, .send fd message ∈ effects → message.topic ∈ topics

variable {s s' : Server} {own fd : Int} {present : Topic → Finset Int} {topics more : List Topic}
  {effects others : List Effect} {message : Message}

section Piece

theorem mem_receivers : fd ∈ receivers effects message ↔ .send fd message ∈ effects := by
  rw [receivers, List.mem_filterMap]
  constructor
  · rintro ⟨effect, heffect, hsome⟩
    cases effect with
    | send fd' other =>
      simp only [Option.ite_none_right_eq_some, Option.some.injEq] at hsome
      rw [← hsome.1, ← hsome.2]
      exact heffect
    | fork => contradiction
    | close => contradiction
  · intro hsend
    exact ⟨_, hsend, if_pos rfl⟩

theorem receivers_append (effects others : List Effect) (message : Message) :
    receivers (effects ++ others) message = receivers effects message ++ receivers others message :=
  List.filterMap_append

theorem Piece.receivers_nil (h : Piece own present topics effects)
    (htopic : message.topic ∉ topics) : receivers effects message = [] := by
  rw [List.eq_nil_iff_forall_not_mem]
  intro fd hfd
  exact htopic (h.topics fd message (mem_receivers.mp hfd))

theorem Piece.append (h : Piece own present topics effects) (hmore : Piece own present more others)
    (hshared : ∀ t ∈ topics, t ∈ more → t = .reply) :
    Piece own present (topics ++ more) (effects ++ others) := by
  constructor
  · intro message
    have hfirst := h.reached message
    have hsecond := hmore.reached message
    rw [receivers_append]
    by_cases hreply : message.topic = .reply
    · rw [hreply] at hfirst hsecond ⊢
      intro fd hfd
      exact (List.mem_append.mp hfd).elim (hfirst fd) (hsecond fd)
    · by_cases htopic : message.topic ∈ topics
      · have hnone := hmore.receivers_nil fun hmem => hreply (hshared _ htopic hmem)
        rw [hnone, List.append_nil]
        exact hfirst
      · rw [h.receivers_nil htopic, List.nil_append]
        exact hsecond
  · intro fd message hsend
    rw [List.mem_append] at hsend ⊢
    exact hsend.imp (h.topics fd message) (hmore.topics fd message)

theorem Piece.mono (h : Piece own present topics effects) (hsub : topics ⊆ more) :
    Piece own present more effects :=
  ⟨h.reached, fun fd message hsend => hsub (h.topics fd message hsend)⟩

theorem reached_nil (own : Int) (present : Finset Int) (topic : Topic) :
    Reached own present [] topic := by
  cases topic
  case reply => simp [Reached]
  all_goals exact .inl rfl

theorem Piece.silent (h : ∀ fd message, Effect.send fd message ∉ effects) :
    Piece own present [] effects := by
  have hnone : ∀ message, receivers effects message = [] := by
    intro message
    rw [List.eq_nil_iff_forall_not_mem]
    exact fun fd hfd => h fd message (mem_receivers.mp hfd)
  constructor
  · intro message
    rw [hnone]
    exact reached_nil _ _ _
  · intro fd message hsend
    exact absurd hsend (h fd message)

theorem Piece.replies (h : ∀ fd message, Effect.send fd message ∈ effects →
    fd = own ∧ message.topic = .reply) : Piece own present [.reply] effects := by
  constructor
  · intro message
    by_cases hreply : message.topic = .reply
    · rw [hreply]
      exact fun fd hfd => (h fd message (mem_receivers.mp hfd)).1
    · have hnone : receivers effects message = [] := by
        rw [List.eq_nil_iff_forall_not_mem]
        exact fun fd hfd => hreply (h fd message (mem_receivers.mp hfd)).2
      rw [hnone]
      exact reached_nil _ _ _
  · intro fd message hsend
    rw [(h fd message hsend).2]
    exact List.mem_singleton_self _

theorem Piece.reply (htopic : message.topic = .reply) :
    Piece own present [.reply] [.send own message] := by
  apply Piece.replies
  intro client other hsend
  rw [List.mem_singleton, Effect.send.injEq] at hsend
  rw [hsend.1, hsend.2]
  exact ⟨rfl, htopic⟩

theorem receivers_map (fds : List Int) (message other : Message) :
    receivers (fds.map fun fd => .send fd message) other = if message = other then fds else [] := by
  rw [receivers, List.filterMap_map]
  by_cases h : message = other
  · rw [if_pos h]
    simp [h]
  · rw [if_neg h]
    simp [h]

theorem Piece.texts {fds : List Int} {t : Topic} (htopic : message.topic = t)
    (h : Reached own (present t) fds t) :
    Piece own present [t] (fds.map fun fd => .send fd message) := by
  constructor
  · intro other
    rw [receivers_map]
    split
    next hsame =>
      rw [← hsame, htopic]
      exact h
    next => exact reached_nil _ _ _
  · intro fd other hsend
    obtain ⟨fd', -, heq⟩ := List.mem_map.mp hsend
    rw [Effect.send.injEq] at heq
    rw [← heq.2, htopic]
    exact List.mem_singleton_self _

end Piece

section Everyone

theorem mem_everyone (hwell : s.table.Wellformed 0) :
    fd ∈ s.clientsMap.everyone ↔ fd ∈ s.allset := by
  have hused := hwell.mem_used fd
  simp only [ClientMap.everyone, List.mem_filter, List.mem_map, List.mem_range, bne_iff_ne]
  constructor
  · rintro ⟨⟨i, -, hslot⟩, hzero⟩
    exact hused.mpr ⟨hzero, i, hslot⟩
  · intro hfd
    obtain ⟨hzero, i, hslot⟩ := hused.mp hfd
    have htaken : s.table.slot i ≠ 0 := hslot ▸ hzero
    have hlt : i < s.clientsMap.size := hwell.lt_size htaken
    exact ⟨⟨i, hlt, hslot⟩, hzero⟩

theorem nodup_sockets (hwell : s.table.Wellformed 0) (indices : List Nat) (hnodup : indices.Nodup) :
    ((indices.map s.clientsMap.clientsFdSet).filter (· != 0)).Nodup := by
  induction indices with
  | nil => simp
  | cons i indices ih =>
    rw [List.nodup_cons] at hnodup
    rw [List.map_cons, List.filter_cons]
    split
    next hzero =>
      rw [List.nodup_cons]
      refine ⟨?_, ih hnodup.2⟩
      rw [List.mem_filter, List.mem_map]
      rintro ⟨⟨j, hj, hsame⟩, -⟩
      have htaken : s.table.slot i ≠ 0 := bne_iff_ne.mp hzero
      have hij := hwell.distinct i j htaken hsame.symm
      exact hnodup.1 (hij ▸ hj)
    next => exact ih hnodup.2

theorem everyone_nodup (hwell : s.table.Wellformed 0) : s.clientsMap.everyone.Nodup :=
  nodup_sockets hwell _ List.nodup_range

theorem reached_everyone {fds : List Int} {used : Finset Int} {t : Topic}
    (htopic : t ≠ .reply ∧ t ≠ .told) (hnodup : fds.Nodup) (hmem : ∀ fd, fd ∈ fds ↔ fd ∈ used) :
    Reached own used fds t := by
  cases t
  case reply => exact absurd rfl htopic.1
  case told => exact absurd rfl htopic.2
  all_goals exact .inr ⟨hnodup, hmem⟩

theorem Piece.announce {t : Topic} (htopic : message.topic = t) (hall : t ≠ .reply ∧ t ≠ .told)
    (hwell : s.table.Wellformed 0) (hpresent : present t = s.allset) :
    Piece own present [t] (s.announce message) := by
  apply Piece.texts htopic
  rw [hpresent]
  exact reached_everyone hall (everyone_nodup hwell) fun fd => mem_everyone hwell

end Everyone

section Line

variable {line cmd : Text} {input : Int} {o : Outcome}

def Present (s : Server) (present : Topic → Finset Int) : Prop :=
  ∀ t, t ≠ .entered → t ≠ .left → present t = s.allset

theorem Present.same (h : Present s present) (hsame : s'.allset = s.allset) : Present s' present :=
  fun t hentered hleft => (h t hentered hleft).trans hsame.symm

end Line

section Sessions

end Sessions

end NetworkProgramming.Single
