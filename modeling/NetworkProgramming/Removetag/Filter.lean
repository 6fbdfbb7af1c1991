import NetworkProgramming.Library.CString
import Mathlib.Data.List.Basic

/-! `removetag` and `removetag0`: the loops over the characters of the input. -/
namespace NetworkProgramming.Removetag
open Library.CString

/-- `in_tag`, and what has been written to standard output. -/
structure State where
  inTag : Bool
  out : Text
  deriving DecidableEq, Repr

/-- The switch of `removetag`. -/
def step (s : State) (c : Char) : State :=
  if c = '<' then { s with inTag := true }
  else if c = '>' then { s with inTag := false }
  else if s.inTag then s
  else { s with out := s.out ++ [c] }

def removetag (input : Text) : Text := (input.foldl step ⟨false, []⟩).out

/-- The variables of `removetag0`, its standard output and the lines of its standard
error. -/
structure State0 where
  inTag : Bool
  isIllegal : Bool
  tagName : Text
  out : Text
  reports : List Text
  deriving DecidableEq, Repr

/-- `isalpha(c) || c == '/'` -/
def isTagChar (c : Char) : Bool := c.isAlpha || c == '/'

/-- The line that `removetag0` writes to standard error. -/
def illegalTag (tagName : Text) : Text :=
  "Error: illegal tag \"".toList ++ (tagName ++ "\"\n".toList)

/-- The switch of `removetag0`. -/
def step0 (s : State0) (c : Char) : State0 :=
  if c = '<' then { s with inTag := true }
  else if c = '>' then { s with inTag := false }
  else if s.inTag then
    { s with tagName := s.tagName ++ [c], isIllegal := s.isIllegal || !isTagChar c }
  else
    { s with
      isIllegal := false
      out := s.out ++ [c]
      reports := if s.isIllegal then s.reports ++ [illegalTag s.tagName] else s.reports }

def start0 : State0 := ⟨false, false, [], [], []⟩

def removetag0 (input : Text) : State0 := input.foldl step0 start0

/-- A character that neither opens nor closes a tag. -/
def Plain (c : Char) : Prop := c ≠ '<' ∧ c ≠ '>'

instance : DecidablePred Plain := fun c => by
  unfold Plain
  infer_instance

/-- Place `i` is behind a `<` without a `>` in between. -/
def InTag (input : Text) (i : Nat) : Prop :=
  ∃ j < i, input[j]? = some '<' ∧ ∀ k < i, j < k → input[k]? ≠ some '>'

instance (input : Text) : DecidablePred (InTag input) := fun i => by
  unfold InTag
  infer_instance

/-- The places of the other characters outside any tag. -/
def places (input : Text) : List Nat :=
  (List.range input.length).filter fun i => input[i]?.any (Plain ·) ∧ ¬ InTag input i

variable {s : State} {s0 : State0} {input : Text} {c : Char}

theorem step_opening : step s '<' = { s with inTag := true } := rfl

theorem step_closing : step s '>' = { s with inTag := false } := rfl

theorem step_plain (h : Plain c) :
    step s c = if s.inTag then s else { s with out := s.out ++ [c] } := by
  rw [step, if_neg h.1, if_neg h.2]

theorem step0_inside (h : Plain c) (hin : s0.inTag = true) : step0 s0 c =
    { s0 with tagName := s0.tagName ++ [c], isIllegal := s0.isIllegal || !isTagChar c } := by
  rw [step0, if_neg h.1, if_neg h.2, if_pos hin]

theorem step0_outside (h : Plain c) (hout : s0.inTag = false) : step0 s0 c =
    { s0 with
      isIllegal := false
      out := s0.out ++ [c]
      reports := if s0.isIllegal then s0.reports ++ [illegalTag s0.tagName] else s0.reports } := by
  rw [step0, if_neg h.1, if_neg h.2, if_neg (by simp [hout])]

theorem char_cases (c : Char) : c = '<' ∨ c = '>' ∨ Plain c := by
  by_cases hopening : c = '<'
  · exact .inl hopening
  · by_cases hclosing : c = '>'
    · exact .inr (.inl hclosing)
    · exact .inr (.inr ⟨hopening, hclosing⟩)

section Agreement

structure Agree (s : State) (s0 : State0) : Prop where
  inTag : s.inTag = s0.inTag
  out : s.out = s0.out

theorem Agree.step (h : Agree s s0) (c : Char) : Agree (step s c) (step0 s0 c) := by
  rcases char_cases c with rfl | rfl | hplain
  · exact ⟨rfl, h.out⟩
  · exact ⟨rfl, h.out⟩
  · rw [step_plain hplain]
    cases hin : s0.inTag with
    | true =>
      rw [step0_inside hplain hin, if_pos (h.inTag.trans hin)]
      exact ⟨h.inTag, h.out⟩
    | false =>
      rw [step0_outside hplain hin, if_neg (by simp [h.inTag, hin])]
      exact ⟨h.inTag, by rw [h.out]⟩

theorem Agree.run (h : Agree s s0) (input : Text) :
    Agree (input.foldl Removetag.step s) (input.foldl step0 s0) := by
  induction input generalizing s s0 with
  | nil => exact h
  | cons c input ih => exact ih (h.step c)

theorem removetag0_out (input : Text) : (removetag0 input).out = removetag input :=
  ((⟨rfl, rfl⟩ : Agree ⟨false, []⟩ start0).run input).out.symm

end Agreement

section Places

theorem inTag_append {i : Nat} (h : i ≤ input.length) (more : Text) :
    InTag (input ++ more) i ↔ InTag input i := by
  have hsame : ∀ j < i, (input ++ more)[j]? = input[j]? := by
    intro j hj
    exact List.getElem?_append_left (by omega)
  unfold InTag
  refine exists_congr fun j => and_congr_right fun hj => ?_
  rw [hsame j hj]
  refine and_congr_right fun _ => forall_congr' fun k => forall_congr' fun hk => ?_
  rw [hsame k hk]

theorem inTag_opening (input : Text) : InTag (input ++ ['<']) (input.length + 1) :=
  ⟨input.length, by omega, List.getElem?_concat_length, fun k hk hlt => by omega⟩

theorem not_inTag_closing (input : Text) : ¬ InTag (input ++ ['>']) (input.length + 1) := by
  rintro ⟨j, hj, hopening, hnone⟩
  by_cases hlast : j = input.length
  · rw [hlast, List.getElem?_concat_length] at hopening
    exact absurd hopening (by decide)
  · exact hnone input.length (by omega) (by omega) List.getElem?_concat_length

theorem inTag_plain (h : Plain c) :
    InTag (input ++ [c]) (input.length + 1) ↔ InTag input input.length := by
  rw [← inTag_append (Nat.le_refl _) [c]]
  constructor
  · rintro ⟨j, hj, hopening, hnone⟩
    have hlast : j ≠ input.length := by
      rintro rfl
      rw [List.getElem?_concat_length, Option.some.injEq] at hopening
      exact h.1 hopening
    exact ⟨j, by omega, hopening, fun k hk => hnone k (by omega)⟩
  · rintro ⟨j, hj, hopening, hnone⟩
    refine ⟨j, by omega, hopening, fun k hk hlt => ?_⟩
    by_cases hlast : k = input.length
    · rw [hlast, List.getElem?_concat_length, ne_eq, Option.some.injEq]
      exact h.2
    · exact hnone k (by omega) hlt

theorem places_append (input : Text) (c : Char) : places (input ++ [c]) =
    places input ++ if Plain c ∧ ¬ InTag input input.length then [input.length] else [] := by
  have hold : (List.range input.length).filter (fun i =>
      (input ++ [c])[i]?.any (Plain ·) ∧ ¬ InTag (input ++ [c]) i) = places input := by
    apply List.filter_congr
    intro i hi
    have hlt := List.mem_range.mp hi
    rw [List.getElem?_append_left hlt, decide_eq_decide, inTag_append (by omega)]
  rw [places, List.length_append, List.length_singleton, List.range_succ, List.filter_append, hold,
    List.filter_singleton, List.getElem?_concat_length]
  simp [inTag_append (Nat.le_refl input.length) [c]]

/-- The state of the loop of `removetag` behind a text. -/
structure Reached (input : Text) (s : State) : Prop where
  inTag : s.inTag = true ↔ InTag input input.length
  out : s.out = (places input).filterMap (input[·]?)

theorem filterMap_places (input : Text) (c : Char) :
    (places input).filterMap ((input ++ [c])[·]?) = (places input).filterMap (input[·]?) := by
  apply List.filterMap_congr
  intro i hi
  have hlt := List.mem_range.mp (List.mem_of_mem_filter hi)
  exact List.getElem?_append_left hlt

theorem Reached.step (h : Reached input s) (c : Char) : Reached (input ++ [c]) (step s c) := by
  have hout : ∀ more : List Nat, (places input ++ more).filterMap ((input ++ [c])[·]?) =
      s.out ++ more.filterMap ((input ++ [c])[·]?) := by
    intro more
    rw [List.filterMap_append, filterMap_places, h.out]
  have hlength : (input ++ [c]).length = input.length + 1 := by simp
  rcases char_cases c with rfl | rfl | hplain
  · constructor
    · rw [step_opening, hlength]
      exact iff_of_true rfl (inTag_opening input)
    · rw [step_opening, places_append, if_neg (by simp [Plain]), hout]
      simp
  · constructor
    · rw [step_closing, hlength]
      exact iff_of_false (by simp) (not_inTag_closing input)
    · rw [step_closing, places_append, if_neg (by simp [Plain]), hout]
      simp
  · rw [step_plain hplain]
    by_cases hin : s.inTag = true
    · rw [if_pos hin]
      constructor
      · rw [hlength, inTag_plain hplain]
        exact h.inTag
      · rw [places_append, if_neg (by simp [h.inTag.mp hin]), hout]
        simp
    · rw [if_neg hin]
      constructor
      · rw [hlength, inTag_plain hplain]
        exact h.inTag
      · rw [places_append, if_pos ⟨hplain, fun hplace => hin (h.inTag.mpr hplace)⟩, hout]
        simp

theorem reached (input : Text) : Reached input (input.foldl step ⟨false, []⟩) := by
  induction input using List.reverseRecOn with
  | nil => exact ⟨by simp [InTag], rfl⟩
  | append_singleton input c ih =>
    rw [List.foldl_append]
    exact ih.step c

theorem removetag_eq (input : Text) : removetag input = (places input).filterMap (input[·]?) :=
  (reached input).out

end Places

theorem plain_of_mem (h : c ∈ removetag input) : Plain c := by
  rw [removetag_eq] at h
  obtain ⟨i, hi, hc⟩ := List.mem_filterMap.mp h
  have hplace := (List.mem_filter.mp hi).2
  rw [hc] at hplace
  simp only [Option.any_some, decide_eq_true_eq] at hplace
  exact hplace.1

theorem foldl_plain (h : ∀ c ∈ input, Plain c) (out : Text) :
    input.foldl step ⟨false, out⟩ = ⟨false, out ++ input⟩ := by
  induction input generalizing out with
  | nil => rw [List.append_nil]; rfl
  | cons c input ih =>
    have hstep : step ⟨false, out⟩ c = ⟨false, out ++ [c]⟩ := step_plain (h c List.mem_cons_self)
    rw [List.foldl_cons, hstep, ih fun d hd => h d (List.mem_cons_of_mem _ hd), List.append_assoc]
    rfl

theorem removetag_plain (h : ∀ c ∈ input, Plain c) : removetag input = input := by
  rw [removetag, foldl_plain h]
  rfl

theorem removetag_sublist (input : Text) : (removetag input).Sublist input := by
  induction input using List.reverseRecOn with
  | nil => exact List.Sublist.refl _
  | append_singleton input c ih =>
    rw [removetag_eq, places_append, List.filterMap_append, filterMap_places, ← removetag_eq]
    refine ih.append ?_
    split
    · simp
    · exact List.nil_sublist _

/-- Both programs write the same: the ordinary characters outside any tag, in their order.
There is no bracket among them, and nothing is left to remove from them. -/
theorem filters_agree (input : Text) : (removetag0 input).out = removetag input ∧
    '<' ∉ removetag input ∧ '>' ∉ removetag input ∧
    (removetag input).Sublist input ∧ removetag input = (places input).filterMap (input[·]?) ∧
    removetag (removetag input) = removetag input ∧
    (removetag0 (removetag0 input).out).out = (removetag0 input).out := by
  have hagain : removetag (removetag input) = removetag input :=
    removetag_plain fun c hc => plain_of_mem hc
  refine ⟨removetag0_out input, fun h => (plain_of_mem h).1 rfl, fun h => (plain_of_mem h).2 rfl,
    removetag_sublist input, removetag_eq input, hagain, ?_⟩
  rw [removetag0_out, removetag0_out, hagain]

example : removetag "a<b>c<d<e>f>g<h".toList = "acfg".toList := by decide

end NetworkProgramming.Removetag
