import Mathlib.Data.List.Basic
import Mathlib.Data.List.Induction
import Mathlib.Logic.Function.Basic

/-! The environment of a process: strings `name=value`, of which the first one with a name
counts. A setting writes over that one, or comes behind the others. -/
namespace NetworkProgramming.Library.Environ

variable {α : Type u} [DecidableEq α] (equals : α)

def entry (name value : List α) : List α := name ++ equals :: value

def valueOf (name str : List α) : Option (List α) :=
  if name ++ [equals] <+: str then some (str.drop (name.length + 1)) else none

def getenv (environ : List (List α)) (name : List α) : Option (List α) :=
  if name = [] then none else environ.findSome? (valueOf equals name)

def put (name value : List α) : List (List α) → List (List α)
  | [] => [entry equals name value]
  | str :: rest =>
    if (valueOf equals name str).isSome then entry equals name value :: rest
    else str :: put name value rest

/-- `setenv(name, value, 1)`; a name that is empty or has a `=` is refused. -/
def setenv (environ : List (List α)) (name value : List α) : List (List α) :=
  if name = [] ∨ equals ∈ name then environ else put equals name value environ

def latest (settings : List (List α × List α)) (name : List α) : Option (List α) :=
  (settings.reverse.find? (·.1 = name)).map Prod.snd

def setAll (environ : List (List α)) (settings : List (List α × List α)) : List (List α) :=
  settings.foldl (fun environ s => setenv equals environ s.1 s.2) environ

variable {equals : α} {name other value str : List α} {environ : List (List α)}
  {settings : List (List α × List α)}

theorem valueOf_eq_some :
    valueOf equals name str = some value ↔ str = entry equals name value := by
  unfold valueOf entry
  constructor
  · intro h
    split at h
    next hprefix =>
      obtain ⟨rest, rfl⟩ := hprefix
      simp only [List.append_assoc, List.singleton_append, Option.some.injEq] at h ⊢
      rw [List.drop_append, List.drop_eq_nil_of_le (by omega)] at h
      rw [← h]
      simp
    next => contradiction
  · rintro rfl
    rw [if_pos ⟨value, by simp⟩, List.drop_append, List.drop_eq_nil_of_le (by omega)]
    simp

theorem valueOf_other (hname : equals ∉ name) (hother : equals ∉ other) (hne : name ≠ other)
    (h : (valueOf equals name str).isSome) : valueOf equals other str = none := by
  obtain ⟨value, hvalue⟩ := Option.isSome_iff_exists.mp h
  rw [Option.eq_none_iff_forall_ne_some]
  intro value' hvalue'
  rw [valueOf_eq_some] at hvalue hvalue'
  have htake := congrArg (List.takeWhile (· != equals)) (hvalue.symm.trans hvalue')
  have hstop : ∀ {text rest : List α}, equals ∉ text →
      (entry equals text rest).takeWhile (· != equals) = text := by
    intro text rest htext
    rw [entry, List.takeWhile_append_of_pos, List.takeWhile_cons_of_neg (by simp), List.append_nil]
    intro a ha
    rw [bne_iff_ne]
    rintro rfl
    exact htext ha
  rw [hstop hname, hstop hother] at htake
  exact hne htake

theorem findSome_put (name value : List α) (environ : List (List α)) :
    (put equals name value environ).findSome? (valueOf equals name) = some value := by
  have hentry : valueOf equals name (entry equals name value) = some value :=
    valueOf_eq_some.mpr rfl
  induction environ with
  | nil => rw [put, List.findSome?_cons, hentry]
  | cons str rest ih =>
    rw [put]
    split
    next => rw [List.findSome?_cons, hentry]
    next hnone =>
      rw [Option.not_isSome_iff_eq_none] at hnone
      rw [List.findSome?_cons, hnone]
      exact ih

theorem findSome_put_other (hname : equals ∉ name) (hother : equals ∉ other) (hne : name ≠ other)
    (value : List α) (environ : List (List α)) :
    (put equals name value environ).findSome? (valueOf equals other) =
      environ.findSome? (valueOf equals other) := by
  have hentry : valueOf equals other (entry equals name value) = none := by
    apply valueOf_other hname hother hne
    rw [valueOf_eq_some.mpr rfl]
    rfl
  induction environ with
  | nil => rw [put, List.findSome?_cons, hentry]
  | cons str rest ih =>
    rw [put]
    split
    next hsame =>
      rw [List.findSome?_cons, List.findSome?_cons, hentry, valueOf_other hname hother hne hsame]
    next =>
      rw [List.findSome?_cons, List.findSome?_cons, ih]

theorem getenv_setenv (hother : equals ∉ other) :
    getenv equals (setenv equals environ name value) other =
      if name = other ∧ name ≠ [] then some value else getenv equals environ other := by
  unfold setenv
  split
  next hrefused =>
    rw [if_neg]
    rintro ⟨rfl, hne⟩
    exact hrefused.elim hne hother
  next hset =>
    rw [not_or] at hset
    unfold getenv
    by_cases hsame : name = other
    · subst hsame
      rw [if_neg hset.1, if_pos ⟨rfl, hset.1⟩, findSome_put]
    · have hnot : ¬ (name = other ∧ name ≠ []) := fun h => hsame h.1
      rw [if_neg hnot, findSome_put_other hset.2 hother hsame]

theorem setAll_append (more : List (List α × List α)) :
    setAll equals environ (settings ++ more) = setAll equals (setAll equals environ settings) more :=
  List.foldl_append

theorem getenv_setAll (hother : equals ∉ other) (hne : other ≠ []) :
    getenv equals (setAll equals environ settings) other =
      (latest settings other).or (getenv equals environ other) := by
  induction settings using List.reverseRecOn with
  | nil => rfl
  | append_singleton settings s ih =>
    have hlast : setAll equals environ (settings ++ [s]) =
        setenv equals (setAll equals environ settings) s.1 s.2 := setAll_append [s]
    rw [hlast, getenv_setenv hother, ih, latest, latest, List.reverse_append,
      List.reverse_singleton, List.singleton_append, List.find?_cons]
    by_cases hname : s.1 = other
    · rw [if_pos ⟨hname, hname ▸ hne⟩]
      simp [hname]
    · rw [if_neg (fun h => hname h.1)]
      simp [hname]

end NetworkProgramming.Library.Environ
