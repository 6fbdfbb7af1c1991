import Mathlib.Data.List.Basic
import Mathlib.Data.List.Induction
import Mathlib.Data.Fintype.Basic
import Mathlib.Data.Option.Basic

/-! Finite runs of a partial deterministic step. A run is its list of events:
`exec` replays it, and an invariant may speak of the events already replayed. -/
namespace NetworkProgramming.Library.Run

variable {σ : Type u} {ε : Type v}

/-- Replay a list of events; `none` once some event has no successor. -/
def exec (step : σ → ε → Option σ) (start : σ) : List ε → Option σ
  | [] => some start
  | e :: es => (step start e).bind fun next => exec step next es

@[simp] theorem exec_nil (step : σ → ε → Option σ) (start : σ) :
    exec step start [] = some start := rfl

theorem exec_append (step : σ → ε → Option σ) (start : σ) (before after : List ε) :
    exec step start (before ++ after) =
      (exec step start before).bind fun middle => exec step middle after := by
  induction before generalizing start with
  | nil => rfl
  | cons e es ih =>
    simp only [List.cons_append, exec]
    cases step start e with
    | none => rfl
    | some next => exact ih next

theorem exec_map {δ : Type w} (step : σ → ε → Option σ) (f : δ → ε) (start : σ) (ds : List δ) :
    exec (fun s d => step s (f d)) start ds = exec step start (ds.map f) := by
  induction ds generalizing start with
  | nil => rfl
  | cons d ds ih =>
    simp only [List.map_cons, exec]
    congr 1
    funext next
    exact ih next

theorem exec_concat (step : σ → ε → Option σ) (start : σ) (es : List ε) (e : ε) :
    exec step start (es ++ [e]) = (exec step start es).bind fun s => step s e := by
  rw [exec_append]
  congr 1
  funext s
  simp only [exec]
  cases step s e <;> rfl

theorem exec_concat_eq_some {step : σ → ε → Option σ} {start finish : σ} {es : List ε} {e : ε}
    (h : exec step start (es ++ [e]) = some finish) :
    ∃ s, exec step start es = some s ∧ step s e = some finish := by
  rw [exec_concat] at h
  exact Option.bind_eq_some_iff.mp h

theorem getElem?_concat_eq_some {l : List ε} {a b : ε} {i : Nat}
    (h : (l ++ [a])[i]? = some b) : i < l.length ∧ l[i]? = some b ∨ i = l.length ∧ a = b := by
  by_cases hi : i < l.length
  · rw [List.getElem?_append_left hi] at h
    exact .inl ⟨hi, h⟩
  · rw [List.getElem?_append_right (by omega), List.getElem?_singleton] at h
    split at h
    next => exact .inr ⟨by omega, Option.some.inj h⟩
    next => contradiction

/-- Every step of the run meets a condition on the events before it, the state
it leaves and its own event. -/
def Meets (step : σ → ε → Option σ) (start : σ) (condition : List ε → σ → ε → Prop)
    (es : List ε) : Prop :=
  ∀ before e after s, es = before ++ e :: after → exec step start before = some s →
    condition before s e

theorem Meets.nil {step : σ → ε → Option σ} {start : σ} {condition : List ε → σ → ε → Prop} :
    Meets step start condition [] := by
  intro before e after s h _
  simp at h

theorem Meets.before {step : σ → ε → Option σ} {start : σ}
    {condition : List ε → σ → ε → Prop} {es : List ε} {e : ε}
    (h : Meets step start condition (es ++ [e])) : Meets step start condition es := by
  intro before e' after s heq hs
  exact h before e' (after ++ [e]) s (by simp [heq]) hs

theorem Meets.left {step : σ → ε → Option σ} {start : σ}
    {condition : List ε → σ → ε → Prop} {es after : List ε}
    (h : Meets step start condition (es ++ after)) : Meets step start condition es := by
  intro before e rest s heq hs
  exact h before e (rest ++ after) s (by simp [heq]) hs

theorem Meets.right {step : σ → ε → Option σ} {start s : σ}
    {condition : List ε → σ → ε → Prop} {es after : List ε}
    (h : Meets step start condition (es ++ after)) (hs : exec step start es = some s) :
    Meets step s (fun more => condition (es ++ more)) after := by
  intro before e rest t heq ht
  apply h (es ++ before) e rest t
  · rw [heq, List.append_assoc]
  · rw [exec_append, hs]
    exact ht

theorem Meets.and {step : σ → ε → Option σ} {start : σ}
    {condition other : List ε → σ → ε → Prop} {es : List ε} (h : Meets step start condition es)
    (hother : Meets step start other es) :
    Meets step start (fun before s e => condition before s e ∧ other before s e) es :=
  fun before e after s heq hs => ⟨h before e after s heq hs, hother before e after s heq hs⟩

theorem Meets.last {step : σ → ε → Option σ} {start s : σ}
    {condition : List ε → σ → ε → Prop} {es : List ε} {e : ε}
    (h : Meets step start condition (es ++ [e])) (hs : exec step start es = some s) :
    condition es s e :=
  h es e [] s (by simp) hs

theorem Meets.concat {step : σ → ε → Option σ} {start : σ}
    {condition : List ε → σ → ε → Prop} {es : List ε} {e : ε}
    (h : Meets step start condition es)
    (hlast : ∀ s, exec step start es = some s → condition es s e) :
    Meets step start condition (es ++ [e]) := by
  intro before e' after s heq hs
  rcases List.eq_nil_or_concat after with rfl | ⟨rest, last, rfl⟩
  · obtain ⟨rfl, he⟩ := List.append_inj' heq rfl
    cases he
    exact hlast s hs
  · rw [List.concat_eq_append, ← List.cons_append, ← List.append_assoc] at heq
    obtain ⟨rfl, -⟩ := List.append_inj' heq rfl
    exact h before e' rest s (by simp) hs

/-- The run rule: what holds of the start and is kept by every step that meets
the condition holds after every run whose steps meet it. -/
theorem invariant {step : σ → ε → Option σ} {start : σ}
    {condition : List ε → σ → ε → Prop} {I : List ε → σ → Prop}
    (hstart : I [] start)
    (hstep : ∀ es s e next, exec step start es = some s → I es s → condition es s e →
      step s e = some next → I (es ++ [e]) next)
    (es : List ε) (hmeets : Meets step start condition es) (finish : σ)
    (hrun : exec step start es = some finish) : I es finish := by
  induction es using List.reverseRecOn generalizing finish with
  | nil =>
    cases hrun
    exact hstart
  | append_singleton es e ih =>
    obtain ⟨s, hs, he⟩ := exec_concat_eq_some hrun
    exact hstep es s e finish hs (ih hmeets.before s hs) (hmeets.last hs) he

theorem meets_iff_take {step : σ → ε → Option σ} {start : σ}
    {condition : List ε → σ → ε → Prop} {es : List ε} :
    Meets step start condition es ↔
      ∀ i : Fin es.length, ∀ s, exec step start (es.take i) = some s →
        condition (es.take i) s es[i] := by
  constructor
  · intro h i s hs
    exact h (es.take i) es[i] (es.drop (i + 1)) s (by simp) hs
  · rintro h before e after s rfl hs
    have hi : before.length < (before ++ e :: after).length := by simp
    have hmeets := h ⟨before.length, hi⟩ s
    simp only [List.take_left] at hmeets
    simpa using hmeets hs

/-- A condition on steps can be checked on a given run. -/
instance {step : σ → ε → Option σ} {start : σ} {condition : List ε → σ → ε → Prop}
    [∀ es s e, Decidable (condition es s e)] (es : List ε) :
    Decidable (Meets step start condition es) :=
  decidable_of_iff (∀ i : Fin es.length, ∀ s ∈ exec step start (es.take i),
      condition (es.take i) s es[i]) meets_iff_take.symm

theorem Meets.always {step : σ → ε → Option σ} {start : σ} (es : List ε) :
    Meets step start (fun _ _ _ => True) es :=
  fun _ _ _ _ _ _ => trivial

/-- The run rule without a condition on the steps. -/
theorem invariant_always {step : σ → ε → Option σ} {start : σ} {I : List ε → σ → Prop}
    (hstart : I [] start)
    (hstep : ∀ es s e next, exec step start es = some s → I es s →
      step s e = some next → I (es ++ [e]) next)
    (es : List ε) (finish : σ) (hrun : exec step start es = some finish) : I es finish :=
  invariant hstart (fun es s e next hs hI _ => hstep es s e next hs hI) es (Meets.always es)
    finish hrun

/-- Forward simulation: when each step of one system is matched by steps of another one,
under a condition that the beginnings of a run inherit, so is each of its runs. -/
theorem exec_simulation {σ : Type u} {τ : Type w} {ε : Type v} {δ : Type w'}
    {step : σ → ε → Option σ} {step' : τ → δ → Option τ} {start : σ} {start' : τ}
    {matched : ε → List δ} {P : List ε → Prop} {R : List ε → σ → τ → Prop}
    (hbefore : ∀ es e, P (es ++ [e]) → P es) (hstart : R [] start start')
    (hstep : ∀ es s e next t, P (es ++ [e]) → exec step start es = some s → R es s t →
      step s e = some next → ∃ t', exec step' t (matched e) = some t' ∧ R (es ++ [e]) next t')
    (es : List ε) (hP : P es) (finish : σ) (hrun : exec step start es = some finish) :
    ∃ t, exec step' start' (es.flatMap matched) = some t ∧ R es finish t := by
  induction es using List.reverseRecOn generalizing finish with
  | nil =>
    cases hrun
    exact ⟨start', rfl, hstart⟩
  | append_singleton es e ih =>
    obtain ⟨s, hs, he⟩ := exec_concat_eq_some hrun
    obtain ⟨t, ht, hR⟩ := ih (hbefore es e hP) s hs
    obtain ⟨t', ht', hR'⟩ := hstep es s e finish t hP hs hR he
    refine ⟨t', ?_, hR'⟩
    rw [List.flatMap_append, exec_append, ht, List.flatMap_singleton]
    exact ht'

/-- In a run whose steps meet the condition, what holds now and not at the start began to
hold at some event; a value that no step changes while it holds is still the one it had
then. -/
theorem exec_since_meets {β : Type w} {step : σ → ε → Option σ} {start : σ}
    {condition : List ε → σ → ε → Prop} {p : σ → Prop} {f : σ → β} (hstart : ¬ p start)
    (hkeep : ∀ es s e next, Meets step start condition (es ++ [e]) →
      exec step start es = some s → step s e = some next → p s → p next → f next = f s)
    (es : List ε) (hmeets : Meets step start condition es) (s : σ)
    (hrun : exec step start es = some s) (hp : p s) :
    ∃ before e after t, es = before ++ e :: after ∧ exec step start before = some t ∧ ¬ p t ∧
      ∀ middle rest v, after = middle ++ rest →
        exec step start (before ++ e :: middle) = some v → p v ∧ f v = f s := by
  induction es using List.reverseRecOn generalizing s with
  | nil =>
    cases hrun
    exact absurd hp hstart
  | append_singleton es e ih =>
    obtain ⟨t, ht, hstep⟩ := exec_concat_eq_some hrun
    by_cases hpt : p t
    · obtain ⟨before, e', after, u, rfl, hu, hpu, hsince⟩ := ih hmeets.before t ht hpt
      refine ⟨before, e', after ++ [e], u, by simp, hu, hpu, ?_⟩
      intro middle rest v heq hv
      rcases List.eq_nil_or_concat rest with rfl | ⟨rest, last, rfl⟩
      · -- the whole run: its last state is the present one
        rw [List.append_nil] at heq
        subst heq
        have hsame : before ++ e' :: (after ++ [e]) = before ++ e' :: after ++ [e] := by simp
        rw [hsame, hrun] at hv
        cases hv
        exact ⟨hp, rfl⟩
      · rw [List.concat_eq_append, ← List.append_assoc] at heq
        obtain ⟨rfl, -⟩ := List.append_inj' heq rfl
        obtain ⟨hpv, hfv⟩ := hsince middle rest v rfl hv
        exact ⟨hpv, hfv.trans (hkeep _ t e s hmeets ht hstep hpt hp).symm⟩
    · refine ⟨es, e, [], t, rfl, ht, hpt, ?_⟩
      intro middle rest v heq hv
      obtain ⟨rfl, -⟩ := List.append_eq_nil_iff.mp heq.symm
      rw [hrun] at hv
      cases hv
      exact ⟨hp, rfl⟩

theorem exec_since {β : Type w} {step : σ → ε → Option σ} {start : σ} {p : σ → Prop} {f : σ → β}
    (hstart : ¬ p start)
    (hkeep : ∀ es s e next, exec step start es = some s → step s e = some next →
      p s → p next → f next = f s)
    (es : List ε) (s : σ) (hrun : exec step start es = some s) (hp : p s) :
    ∃ before e after t, es = before ++ e :: after ∧ exec step start before = some t ∧ ¬ p t ∧
      ∀ middle rest v, after = middle ++ rest →
        exec step start (before ++ e :: middle) = some v → p v ∧ f v = f s :=
  exec_since_meets hstart (fun es s e next _ => hkeep es s e next) es (Meets.always es) s hrun hp

def checks (step : σ → ε → Option σ) (condition : σ → ε → Prop)
    [∀ s e, Decidable (condition s e)] : σ → List ε → Bool
  | _, [] => true
  | s, e :: es =>
    decide (condition s e) && ((step s e).all fun next => checks step condition next es)

theorem meets_of_checks {step : σ → ε → Option σ} {start : σ} {condition : σ → ε → Prop}
    [∀ s e, Decidable (condition s e)] {es : List ε} (h : checks step condition start es = true) :
    Meets step start (fun _ => condition) es := by
  induction es generalizing start with
  | nil => exact .nil
  | cons e es ih =>
    rw [checks, Bool.and_eq_true, decide_eq_true_eq] at h
    intro before e' after s heq hs
    cases before with
    | nil =>
      rw [List.nil_append, List.cons.injEq] at heq
      cases hs
      rw [← heq.1]
      exact h.1
    | cons first before =>
      rw [List.cons_append, List.cons.injEq] at heq
      rw [← heq.1, exec] at hs
      obtain ⟨next, hnext, hs⟩ := Option.bind_eq_some_iff.mp hs
      have hrest := h.2
      rw [hnext, Option.all_some] at hrest
      exact ih hrest before e' after s heq.2 hs

end NetworkProgramming.Library.Run
