import NetworkProgramming.Removetag.Filter
import Mathlib.Data.List.TakeWhile

/-! What `removetag0` reports, against the tags of its input. -/
namespace NetworkProgramming.Removetag
open Library.CString

/-- The text up to the next bracket. -/
def untilBracket (str : Text) : Text := str.takeWhile (Plain ·)

def closes (str : Text) : Bool := (str.dropWhile (Plain ·)).head? = some '>'

/-- The texts between a `<` and the next `>`, without a `<` inside. -/
def tags : Text → List Text
  | [] => []
  | c :: rest => if c = '<' ∧ closes rest then untilBracket rest :: tags rest else tags rest

def opens (str : Text) : Bool := (str.dropWhile (Plain ·)).head? = some '<'

/-- The texts between a `<` and another one, without a `>` in between: no tags. -/
def dropped : Text → List Text
  | [] => []
  | c :: rest => if c = '<' ∧ opens rest then untilBracket rest :: dropped rest else dropped rest

/-- Only letters and `/`. -/
def legal (text : Text) : Bool := text.all isTagChar

def illegalTags (input : Text) : List Text := (tags input).filter (!legal ·)

/-- The program reports the illegal tags, each once and by its own text. -/
def Reported (input : Text) : Prop :=
  (removetag0 input).reports = (illegalTags input).map illegalTag

/-- The text inside brackets, closed or not, in front of each ordinary character outside:
what has come since the one before it. -/
def stretchesFrom (inTag : Bool) (text : Text) : Text → List Text
  | [] => []
  | c :: rest =>
    if c = '<' then stretchesFrom true text rest
    else if c = '>' then stretchesFrom false text rest
    else if inTag then stretchesFrom true (text ++ [c]) rest
    else text :: stretchesFrom false [] rest

def stretches (input : Text) : List Text := stretchesFrom false [] input

/-- All text inside brackets up to the end of each stretch that is not legal. -/
def heaped (front : Text) : List Text → List Text
  | [] => []
  | text :: rest =>
    if legal text then heaped (front ++ text) rest
    else (front ++ text) :: heaped (front ++ text) rest

/-- Inputs on which the reports are right. -/
inductive Orderly (input : Text) : Prop
  /-- No tag is illegal, and neither is any other text in front of an ordinary character. -/
  | clean : (∀ text ∈ stretches input, legal text) → illegalTags input = [] → Orderly input
  /-- The one illegal tag reads as the first text inside brackets, an ordinary character
  comes before there is more, and all later text in front of one is legal. -/
  | single (front behind : List Text) (tag : Text) :
    stretches input = front ++ tag :: behind → front.flatten = [] → legal tag = false →
    (∀ text ∈ behind, legal text) → illegalTags input = [tag] → Orderly input

variable {input rest text front : Text} {c : Char} {s : State0}

section Run

theorem stretchesFrom_plain (h : Plain c) (inTag : Bool) (text rest : Text) :
    stretchesFrom inTag text (c :: rest) =
      if inTag then stretchesFrom true (text ++ [c]) rest
      else text :: stretchesFrom false [] rest := by
  rw [stretchesFrom, if_neg h.1, if_neg h.2]

theorem legal_concat (text : Text) (c : Char) :
    legal (text ++ [c]) = (legal text && isTagChar c) := by
  simp [legal]

/-- The collected name, and whether the text of this stretch is illegal. -/
structure Collected (s : State0) (front text : Text) : Prop where
  name : s.tagName = front ++ text
  flag : s.isIllegal = !legal text

theorem Collected.inside (h : Collected s front text) (hplain : Plain c) (hin : s.inTag = true) :
    Collected (step0 s c) front (text ++ [c]) := by
  rw [step0_inside hplain hin]
  constructor
  · simp only [h.name, List.append_assoc]
  · simp only [h.flag, legal_concat, Bool.not_and]

theorem Collected.outside (h : Collected s front text) (hplain : Plain c) (hout : s.inTag = false) :
    Collected (step0 s c) (front ++ text) [] := by
  rw [step0_outside hplain hout]
  exact ⟨by simp only [h.name, List.append_nil], rfl⟩

theorem reports_run (h : Collected s front text) (input : Text) :
    (input.foldl step0 s).reports =
      s.reports ++ (heaped front (stretchesFrom s.inTag text input)).map illegalTag := by
  induction input generalizing s front text with
  | nil => simp [stretchesFrom, heaped]
  | cons c input ih =>
    rw [List.foldl_cons]
    rcases char_cases c with rfl | rfl | hplain
    · exact ih (s := step0 s '<') ⟨h.name, h.flag⟩
    · exact ih (s := step0 s '>') ⟨h.name, h.flag⟩
    · rw [stretchesFrom_plain hplain]
      cases hin : s.inTag with
      | true =>
        rw [if_pos rfl, ih (h.inside hplain hin), step0_inside hplain hin]
        dsimp only
        rw [hin]
      | false =>
        rw [if_neg Bool.false_ne_true, ih (h.outside hplain hin), step0_outside hplain hin, heaped]
        dsimp only
        rw [hin, h.flag, h.name]
        cases legal text <;> simp

theorem removetag0_reports (input : Text) :
    (removetag0 input).reports = (heaped [] (stretches input)).map illegalTag :=
  reports_run (s := start0) ⟨rfl, rfl⟩ input

theorem illegalTag_inj {tagName tagName' : Text} (h : illegalTag tagName = illegalTag tagName') :
    tagName = tagName' := by
  unfold illegalTag at h
  exact List.append_cancel_right (List.append_cancel_left h)

theorem reported_iff_heaped (input : Text) :
    Reported input ↔ illegalTags input = heaped [] (stretches input) := by
  have hinjective : Function.Injective illegalTag := fun _ _ => illegalTag_inj
  rw [Reported, removetag0_reports, List.map_inj_right (fun _ _ h => hinjective h)]
  exact eq_comm

end Run

section Heaps

theorem heaped_legal {texts : List Text} (h : ∀ text ∈ texts, legal text) (front : Text) :
    heaped front texts = [] := by
  induction texts generalizing front with
  | nil => rfl
  | cons text texts ih =>
    rw [heaped, if_pos (h text List.mem_cons_self)]
    exact ih (fun other hother => h other (List.mem_cons_of_mem _ hother)) _

theorem heaped_append {texts more : List Text} (h : ∀ text ∈ texts, legal text) (front : Text) :
    heaped front (texts ++ more) = heaped (front ++ texts.flatten) more := by
  induction texts generalizing front with
  | nil => simp
  | cons text texts ih =>
    rw [List.cons_append, heaped, if_pos (h text List.mem_cons_self),
      ih (fun other hother => h other (List.mem_cons_of_mem _ hother)), List.flatten_cons,
      List.append_assoc]

theorem legal_of_flatten_nil {texts : List Text} (h : texts.flatten = []) :
    ∀ text ∈ texts, legal text := by
  intro text htext
  rw [List.flatten_eq_nil_iff.mp h text htext]
  rfl

theorem reported_of_orderly (h : Orderly input) : Reported input := by
  rw [reported_iff_heaped]
  cases h with
  | clean hlegal hnone => rw [hnone, heaped_legal hlegal]
  | single front behind tag hcut hempty hillegal hlegal hone =>
    rw [hone, hcut, heaped_append (legal_of_flatten_nil hempty), hempty, List.nil_append, heaped,
      if_neg (by simp [hillegal]), heaped_legal hlegal, List.nil_append]

end Heaps

section Groups

/-- Whether there is a bracket. -/
def ended (str : Text) : Bool := str.dropWhile (Plain ·) ≠ []

/-- The texts between a `<` and the next bracket: tags, and what is dropped. -/
def pieces : Text → List Text
  | [] => []
  | c :: rest => if c = '<' ∧ ended rest then untilBracket rest :: pieces rest else pieces rest

theorem bracket_cases (str : Text) :
    (ended str = false ∧ closes str = false ∧ opens str = false) ∨
      (ended str = true ∧ closes str = true ∧ opens str = false) ∨
      ended str = true ∧ closes str = false ∧ opens str = true := by
  have hstop := List.head?_dropWhile_not (Plain ·) str
  unfold ended closes opens
  cases hdrop : str.dropWhile (Plain ·) with
  | nil => exact .inl ⟨rfl, rfl, rfl⟩
  | cons c more =>
    rw [hdrop] at hstop
    rcases char_cases c with rfl | rfl | hplain
    · exact .inr (.inr ⟨rfl, rfl, rfl⟩)
    · exact .inr (.inl ⟨rfl, rfl, rfl⟩)
    · exact absurd hplain (by simpa using hstop)

theorem filter_pieces (h : ∀ text ∈ dropped input, legal text) :
    (pieces input).filter (!legal ·) = illegalTags input := by
  unfold illegalTags
  induction input with
  | nil => rfl
  | cons c rest ih =>
    unfold dropped at h
    unfold pieces tags
    by_cases hopening : c = '<'
    · obtain ⟨hended, hcloses, hopens⟩ | ⟨hended, hcloses, hopens⟩ | ⟨hended, hcloses, hopens⟩ :=
        bracket_cases rest
      · rw [if_neg (by simp [hopens])] at h
        rw [if_neg (by simp [hended]), if_neg (by simp [hcloses])]
        exact ih h
      · rw [if_neg (by simp [hopens])] at h
        rw [if_pos ⟨hopening, hended⟩, if_pos ⟨hopening, hcloses⟩, List.filter_cons,
          List.filter_cons, ih h]
      · rw [if_pos ⟨hopening, hopens⟩, List.forall_mem_cons] at h
        rw [if_pos ⟨hopening, hended⟩, if_neg (by simp [hcloses]),
          List.filter_cons_of_neg (by simp [h.1])]
        exact ih h.2
    · rw [if_neg (fun hboth => hopening hboth.1)] at h
      rw [if_neg (fun hboth => hopening hboth.1), if_neg (fun hboth => hopening hboth.1)]
      exact ih h

theorem untilBracket_plain (h : Plain c) (rest : Text) :
    untilBracket (c :: rest) = c :: untilBracket rest := by
  rw [untilBracket, List.takeWhile_cons_of_pos (by simpa using h)]
  rfl

theorem ended_plain (h : Plain c) (rest : Text) : ended (c :: rest) = ended rest := by
  rw [ended, List.dropWhile_cons_of_pos (by simpa using h)]
  rfl

/-- The pieces of a rest, when it starts inside one with the text `opened`. -/
def piecesFrom (opened : Option Text) (rest : Text) : List Text :=
  match opened with
  | some text => if ended rest then (text ++ untilBracket rest) :: pieces rest else pieces rest
  | none => pieces rest

theorem piecesFrom_bracket (opened : Option Text) (h : ¬ Plain c) (rest : Text) :
    piecesFrom opened (c :: rest) = opened.toList ++ pieces (c :: rest) := by
  cases opened with
  | none => rfl
  | some text =>
    have hended : ended (c :: rest) = true := by
      rw [ended, List.dropWhile_cons_of_neg (by simpa using h)]
      simp
    have hnothing : untilBracket (c :: rest) = [] :=
      List.takeWhile_cons_of_neg (by simpa using h)
    rw [piecesFrom, if_pos hended, hnothing, List.append_nil]
    rfl

theorem piecesFrom_opening (opened : Option Text) (rest : Text) :
    piecesFrom opened ('<' :: rest) = opened.toList ++ piecesFrom (some []) rest := by
  have hpieces : pieces ('<' :: rest) = piecesFrom (some []) rest := by
    rw [pieces, piecesFrom, List.nil_append]
    exact if_congr (and_iff_right rfl) rfl rfl
  rw [piecesFrom_bracket opened (by simp [Plain]), hpieces]

theorem pieces_of_ne (h : c ≠ '<') (rest : Text) : pieces (c :: rest) = pieces rest := by
  rw [pieces, if_neg (fun hopening => h hopening.1)]

theorem piecesFrom_closing (opened : Option Text) (rest : Text) :
    piecesFrom opened ('>' :: rest) = opened.toList ++ piecesFrom none rest := by
  rw [piecesFrom_bracket opened (by simp [Plain]), pieces_of_ne (by decide)]
  rfl

theorem piecesFrom_plain (h : Plain c) (opened : Option Text) (rest : Text) :
    piecesFrom opened (c :: rest) = piecesFrom (opened.map (· ++ [c])) rest := by
  cases opened with
  | none => exact pieces_of_ne h.1 rest
  | some text =>
    simp only [piecesFrom, Option.map_some, ended_plain h, untilBracket_plain h,
      pieces_of_ne h.1, List.append_assoc, List.singleton_append]

theorem flatten_opened (opened : Option Text) (closed : List Text) :
    (closed ++ opened.toList).flatten = closed.flatten ++ opened.getD [] := by
  cases opened <;> simp

/-- Every stretch is the text of its own pieces: `closed` are those of the stretch so far. -/
theorem grouped (opened : Option Text) (closed : List Text) (rest : Text) :
    ∃ (groups : List (List Text)) (last : List Text),
      closed ++ piecesFrom opened rest = groups.flatten ++ last ∧
        stretchesFrom opened.isSome (closed.flatten ++ opened.getD []) rest =
          groups.map List.flatten := by
  induction rest generalizing opened closed with
  | nil => exact ⟨[], closed ++ piecesFrom opened [], rfl, rfl⟩
  | cons c rest ih =>
    rcases char_cases c with rfl | rfl | hplain
    · have hgroups := ih (some []) (closed ++ opened.toList)
      rw [List.append_assoc, ← piecesFrom_opening, Option.getD_some, List.append_nil,
        flatten_opened] at hgroups
      exact hgroups
    · have hgroups := ih none (closed ++ opened.toList)
      rw [List.append_assoc, ← piecesFrom_closing, Option.getD_none, List.append_nil,
        flatten_opened] at hgroups
      exact hgroups
    · rw [piecesFrom_plain hplain, stretchesFrom_plain hplain]
      cases opened with
      | some text =>
        have hgroups := ih (some (text ++ [c])) closed
        simpa using hgroups
      | none =>
        obtain ⟨groups, last, hpieces, hstretches⟩ := ih none []
        refine ⟨closed :: groups, last, ?_, ?_⟩
        · rw [List.flatten_cons, List.append_assoc, ← hpieces]
          rfl
        · simpa using hstretches

theorem stretches_grouped (input : Text) : ∃ (groups : List (List Text)) (last : List Text),
    pieces input = groups.flatten ++ last ∧ stretches input = groups.map List.flatten :=
  grouped none [] input

theorem filter_eq_nil {group : List Text} :
    group.filter (!legal ·) = [] ↔ legal group.flatten = true := by
  have hall : legal group.flatten = group.all legal := List.all_flatten
  rw [hall, List.filter_eq_nil_iff, List.all_eq_true]
  exact forall_congr' fun piece => imp_congr_right fun _ => by simp

theorem illegal_piece {group : List Text} (h : legal group.flatten = false) :
    ∃ piece more, group.filter (!legal ·) = piece :: more := by
  apply List.exists_cons_of_ne_nil
  intro hnone
  rw [filter_eq_nil.mp hnone] at h
  contradiction

theorem length_le_flatten {group : List Text} {piece : Text} (h : piece ∈ group) :
    piece.length ≤ group.flatten.length := by
  obtain ⟨front, behind, rfl⟩ := List.append_of_mem h
  simp only [List.flatten_append, List.flatten_cons, List.length_append]
  omega

theorem heaped_behind {groups : List (List Text)} {last : List Text} (hfront : front ≠ [])
    (h : (groups.flatten ++ last).filter (!legal ·) = heaped front (groups.map List.flatten)) :
    (∀ text ∈ groups.map List.flatten, legal text) ∧
      (groups.flatten ++ last).filter (!legal ·) = [] := by
  induction groups generalizing front with
  | nil => exact ⟨by simp, h⟩
  | cons group groups ih =>
    rw [List.flatten_cons, List.append_assoc, List.filter_append, List.map_cons, heaped] at h
    rw [List.map_cons, List.forall_mem_cons, List.flatten_cons, List.append_assoc,
      List.filter_append]
    by_cases hlegal : legal group.flatten = true
    · rw [filter_eq_nil.mpr hlegal, List.nil_append, if_pos hlegal] at h
      rw [filter_eq_nil.mpr hlegal, List.nil_append]
      obtain ⟨hall, hnone⟩ := ih (by simp [hfront]) h
      exact ⟨⟨hlegal, hall⟩, hnone⟩
    · rw [Bool.not_eq_true] at hlegal
      rw [if_neg (by simp [hlegal])] at h
      obtain ⟨piece, more, hcons⟩ := illegal_piece hlegal
      have hmem : piece ∈ group := List.mem_of_mem_filter (hcons ▸ List.mem_cons_self)
      rw [hcons, List.cons_append, List.cons.injEq] at h
      have hlength := length_le_flatten hmem
      have hpos := List.length_pos_of_ne_nil hfront
      rw [h.1, List.length_append] at hlength
      omega

theorem filter_eq_singleton {group more : List Text} {piece : Text}
    (hcons : group.filter (!legal ·) = piece :: more) (htext : piece = group.flatten) :
    more = [] := by
  obtain ⟨front, behind, rfl, -, -, hmore⟩ := List.filter_eq_cons_iff.mp hcons
  have hlength := congrArg List.length htext
  rw [List.flatten_append, List.flatten_cons, List.length_append, List.length_append] at hlength
  have hnil : behind.flatten = [] := List.eq_nil_of_length_eq_zero (by omega)
  rw [← hmore]
  rw [filter_eq_nil, hnil]
  rfl

/-- The first report has the text of a piece only when that is the first text, and it is
then the only one. -/
theorem heaped_first {groups : List (List Text)} {last : List Text}
    (h : (groups.flatten ++ last).filter (!legal ·) = heaped [] (groups.map List.flatten)) :
    ((∀ text ∈ groups.map List.flatten, legal text) ∧
        (groups.flatten ++ last).filter (!legal ·) = []) ∨
      ∃ (front behind : List Text) (tag : Text),
        groups.map List.flatten = front ++ tag :: behind ∧ front.flatten = [] ∧ legal tag = false ∧
          (∀ text ∈ behind, legal text) ∧ (groups.flatten ++ last).filter (!legal ·) = [tag] := by
  induction groups with
  | nil => exact .inl ⟨by simp, h⟩
  | cons group groups ih =>
    rw [List.flatten_cons, List.append_assoc, List.filter_append, List.map_cons, heaped,
      List.nil_append] at h
    rw [List.map_cons, List.forall_mem_cons, List.flatten_cons, List.append_assoc,
      List.filter_append]
    by_cases hlegal : legal group.flatten = true
    · rw [filter_eq_nil.mpr hlegal, List.nil_append, if_pos hlegal] at h
      rw [filter_eq_nil.mpr hlegal, List.nil_append]
      by_cases hempty : group.flatten = []
      · rw [hempty] at h hlegal ⊢
        obtain ⟨hall, hnone⟩ | ⟨front, behind, tag, hcut, hfront, hrest⟩ := ih h
        · exact .inl ⟨⟨hlegal, hall⟩, hnone⟩
        · refine .inr ⟨[] :: front, behind, tag, ?_, ?_, hrest⟩
          · rw [hcut]
            rfl
          · exact hfront
      · obtain ⟨hall, hnone⟩ := heaped_behind hempty h
        exact .inl ⟨⟨hlegal, hall⟩, hnone⟩
    · rw [Bool.not_eq_true] at hlegal
      rw [if_neg (by simp [hlegal])] at h
      obtain ⟨tag, more, hcons⟩ := illegal_piece hlegal
      rw [hcons, List.cons_append, List.cons.injEq] at h
      have hmore : more = [] := filter_eq_singleton hcons h.1
      subst hmore
      have hne : group.flatten ≠ [] := by
        intro hnil
        rw [hnil] at hlegal
        contradiction
      obtain ⟨hall, hnone⟩ := heaped_behind hne h.2
      refine .inr ⟨[], _, group.flatten, rfl, rfl, hlegal, hall, ?_⟩
      rw [hcons, hnone, h.1]
      rfl

end Groups

/-- On these inputs the reports are right, and when all text between two `<` is legal on no
others. -/
theorem orderly_reported (input : Text) : (Orderly input → Reported input) ∧
    ((∀ text ∈ dropped input, legal text) → Reported input → Orderly input) := by
  refine ⟨reported_of_orderly, fun hdropped h => ?_⟩
  obtain ⟨groups, last, hpieces, hstretches⟩ := stretches_grouped input
  have hillegal := filter_pieces hdropped
  rw [reported_iff_heaped, ← hillegal, hpieces, hstretches] at h
  rw [hpieces] at hillegal
  obtain ⟨hall, hnone⟩ | ⟨front, behind, tag, hcut, hfront, htag, hbehind, hone⟩ := heaped_first h
  · exact .clean (hstretches ▸ hall) (hillegal.symm.trans hnone)
  · exact .single front behind tag (hstretches.trans hcut) hfront htag hbehind
      (hillegal.symm.trans hone)

theorem orderly_reported_first : Orderly "<b1>x".toList ∧ Reported "<b1>x".toList ∧
    ∀ text ∈ dropped "<b1>x".toList, legal text := by
  have horderly : Orderly "<b1>x".toList :=
    .single [] [] "b1".toList (by decide) rfl (by decide) (by simp) (by decide)
  have hdropped : ∀ text ∈ dropped "<b1>x".toList, legal text := by decide
  have hreported := (orderly_reported "<b1>x".toList).1 horderly
  exact ⟨(orderly_reported "<b1>x".toList).2 hdropped hreported, hreported, hdropped⟩

/-- Else reports of text that is no tag may read as tags that come later. -/
example : Reported "<?<>x<?>y<??>".toList ∧ ∃ text ∈ dropped "<?<>x<?>y<??>".toList, ¬ legal text :=
  ⟨by rw [Reported]; decide +kernel, by decide +kernel⟩

/-- The name of a tag that was legal stands in front of the one that is not. -/
theorem names_heaped : (removetag0 "<b>x<h1>y".toList).reports = [illegalTag "bh1".toList] ∧
    illegalTags "<b>x<h1>y".toList = ["h1".toList] ∧ ¬ Reported "<b>x<h1>y".toList := by
  have hreports : (removetag0 "<b>x<h1>y".toList).reports = [illegalTag "bh1".toList] := by
    decide +kernel
  have htags : illegalTags "<b>x<h1>y".toList = ["h1".toList] := by decide +kernel
  refine ⟨hreports, htags, fun h => ?_⟩
  rw [Reported, hreports, htags] at h
  exact absurd h (by decide +kernel)

end NetworkProgramming.Removetag
