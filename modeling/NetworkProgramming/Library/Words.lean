import NetworkProgramming.Library.CString

/-! The pieces of a text between delimiters: how `strtok` cuts a text that is put
together from pieces, and what the pieces say about the text. -/
namespace NetworkProgramming.Library.Words
open Library.CString

variable {delim : Char} {piece rest str needle : Text}

theorem pieces_induction {motive : Text → Prop} (delim : Char)
    (last : ∀ piece, delim ∉ piece → motive piece)
    (cons : ∀ piece rest, delim ∉ piece → motive rest → motive (piece ++ delim :: rest))
    (str : Text) : motive str := by
  by_cases hmem : delim ∈ str
  · obtain ⟨piece, rest, rfl, hpiece⟩ := List.eq_append_cons_of_mem hmem
    exact cons piece rest hpiece (pieces_induction delim last cons rest)
  · exact last str hmem
termination_by str.length

theorem strtok_nil : strtok delim [] = [] := rfl

theorem strtok_append (h : delim ∉ piece) :
    strtok delim (piece ++ delim :: rest) = strtok delim piece ++ strtok delim rest := by
  rw [strtok, List.splitOn_append_cons_self_of_not_mem h, ← List.singleton_append,
    List.filter_append, strtok, strtok, List.splitOn_eq_singleton h]

theorem strtok_delim (delim : Char) (rest : Text) :
    strtok delim (delim :: rest) = strtok delim rest := by
  have hcut : strtok delim ([] ++ delim :: rest) = strtok delim [] ++ strtok delim rest :=
    strtok_append List.not_mem_nil
  rwa [List.nil_append, strtok_nil, List.nil_append] at hcut

theorem strtok_dropWhile (delim : Char) (str : Text) :
    strtok delim (str.dropWhile (· == delim)) = strtok delim str := by
  induction str with
  | nil => rfl
  | cons c str ih =>
    by_cases hc : c = delim
    · subst hc
      rw [List.dropWhile_cons_of_pos (by simp), ih, strtok_delim]
    · rw [List.dropWhile_cons_of_neg (by simpa using hc)]

theorem strtok_flatten (delim : Char) (str : Text) :
    (strtok delim str).flatten = str.filter (· != delim) := by
  have hpiece : ∀ piece : Text, delim ∉ piece → (strtok delim piece).flatten = piece ∧
      piece.filter (· != delim) = piece := by
    intro piece h
    constructor
    · by_cases hnil : piece = []
      · rw [hnil, strtok_nil, List.flatten_nil]
      · rw [strtok_word hnil h, List.flatten_singleton]
    · rw [List.filter_eq_self]
      intro c hc
      have hne : c ≠ delim := fun heq => h (heq ▸ hc)
      simpa using hne
  induction str using pieces_induction delim with
  | last piece h => rw [(hpiece piece h).1, (hpiece piece h).2]
  | cons piece rest h ih =>
    rw [strtok_append h, List.flatten_append, ih, (hpiece piece h).1, List.filter_append,
      (hpiece piece h).2, List.filter_cons_of_neg (by simp)]

theorem prefix_append_delim (hneedle : delim ∉ needle) (h : needle <+: piece ++ delim :: rest) :
    needle <+: piece := by
  induction piece generalizing needle with
  | nil =>
    cases needle with
    | nil => exact List.nil_prefix
    | cons c needle =>
      rw [List.nil_append, List.cons_prefix_cons] at h
      rw [h.1] at hneedle
      exact absurd List.mem_cons_self hneedle
  | cons d piece ih =>
    cases needle with
    | nil => exact List.nil_prefix
    | cons c needle =>
      rw [List.cons_append, List.cons_prefix_cons] at h
      rw [List.cons_prefix_cons]
      exact ⟨h.1, ih (fun hmem => hneedle (List.mem_cons_of_mem _ hmem)) h.2⟩

theorem infix_append_delim (hneedle : delim ∉ needle) :
    needle <:+: piece ++ delim :: rest ↔ needle <:+: piece ∨ needle <:+: rest := by
  constructor
  · intro h
    induction piece with
    | nil =>
      rw [List.nil_append, List.infix_cons_iff] at h
      rcases h with h | h
      · have hstart : needle <+: [] := prefix_append_delim hneedle h
        exact .inl hstart.isInfix
      · exact .inr h
    | cons c piece ih =>
      rw [List.cons_append, List.infix_cons_iff] at h
      rw [List.infix_cons_iff]
      rcases h with h | h
      · have hstart : needle <+: c :: piece := prefix_append_delim hneedle h
        exact .inl (.inl hstart)
      · rcases ih h with h | h
        · exact .inl (.inr h)
        · exact .inr h
  · rintro (h | h)
    · exact List.infix_append_of_infix_left h
    · apply List.infix_append_of_infix_right
      exact List.infix_cons_iff.mpr (.inr h)

theorem infix_iff_piece (hne : needle ≠ []) (hneedle : delim ∉ needle) :
    needle <:+: str ↔ ∃ piece ∈ strtok delim str, needle <:+: piece := by
  induction str using pieces_induction delim with
  | last str hstr =>
    by_cases hnil : str = []
    · simp [hnil, strtok_nil, hne]
    · simp [strtok_word hnil hstr]
  | cons front rest hfront ih =>
    rw [infix_append_delim hneedle, ih, strtok_append hfront]
    simp only [List.mem_append, or_and_right, exists_or]
    by_cases hnil : front = []
    · simp [hnil, strtok_nil, hne]
    · simp [strtok_word hnil hfront]

theorem strstr_iff_piece (hne : needle ≠ []) (hneedle : delim ∉ needle) :
    strstr str needle = true ↔ ∃ piece ∈ strtok delim str, needle <:+: piece := by
  rw [strstr, decide_eq_true_iff, infix_iff_piece hne hneedle]

theorem mem_iff_piece {c : Char} (hc : c ≠ delim) :
    c ∈ str ↔ ∃ piece ∈ strtok delim str, c ∈ piece := by
  have hneedle : delim ∉ [c] := by
    rw [List.mem_singleton]
    exact Ne.symm hc
  rw [← List.singleton_infix_iff, infix_iff_piece (List.cons_ne_nil c []) hneedle]
  simp only [List.singleton_infix_iff]

/-- What is around a piece of a text: the pieces before and after it, between
delimiters. -/
structure Around (delim : Char) (front back : List Text) (left right : Text) : Prop where
  before : ∀ c ∈ left, c = delim ∨ ∃ piece ∈ front, c ∈ piece
  after : strtok delim right = back
  stop : right = [] ∨ ∃ rest, right = delim :: rest

theorem strtok_around {front back : List Text} (h : strtok delim str = front ++ piece :: back) :
    ∃ left right, str = left ++ (piece ++ right) ∧ Around delim front back left right := by
  induction str using pieces_induction delim generalizing front with
  | last str hstr =>
    by_cases hnil : str = []
    · rw [hnil, strtok_nil] at h
      exact absurd h.symm (by simp)
    · rw [strtok_word hnil hstr] at h
      cases front with
      | nil =>
        obtain ⟨rfl, rfl⟩ : str = piece ∧ [] = back := by simpa using h
        exact ⟨[], [], by simp, by simp, rfl, .inl rfl⟩
      | cons first front => simp at h
  | cons first rest hfirst ih =>
    rw [strtok_append hfirst] at h
    by_cases hnil : first = []
    · rw [hnil, strtok_nil, List.nil_append] at h
      obtain ⟨left, right, hrest, haround⟩ := ih h
      refine ⟨delim :: left, right, by simp [hnil, hrest], ?_, haround.after, haround.stop⟩
      intro c hc
      rcases List.mem_cons.mp hc with rfl | hc
      · exact .inl rfl
      · exact haround.before c hc
    · rw [strtok_word hnil hfirst, List.singleton_append] at h
      cases front with
      | nil =>
        obtain ⟨rfl, hback⟩ : first = piece ∧ strtok delim rest = back := by simpa using h
        refine ⟨[], delim :: rest, by simp, by simp, ?_, .inr ⟨rest, rfl⟩⟩
        rw [strtok_delim, hback]
      | cons other front =>
        obtain ⟨rfl, hback⟩ : first = other ∧ strtok delim rest = front ++ piece :: back := by
          simpa using h
        obtain ⟨left, right, hrest, haround⟩ := ih hback
        refine ⟨first ++ delim :: left, right, by simp [hrest], ?_, haround.after, haround.stop⟩
        intro c hc
        rw [List.mem_append, List.mem_cons] at hc
        rcases hc with hc | rfl | hc
        · exact .inr ⟨first, List.mem_cons_self, hc⟩
        · exact .inl rfl
        · obtain rfl | ⟨piece, hmem, hc⟩ := haround.before c hc
          · exact .inl rfl
          · exact .inr ⟨piece, List.mem_cons_of_mem _ hmem, hc⟩

theorem strtok_intercalate {pieces : List Text}
    (h : ∀ piece ∈ pieces, piece ≠ [] ∧ delim ∉ piece) :
    strtok delim ([delim].intercalate pieces) = pieces := by
  induction pieces with
  | nil => rfl
  | cons piece pieces ih =>
    obtain ⟨hne, hpiece⟩ := h piece List.mem_cons_self
    cases pieces with
    | nil => rw [List.intercalate_singleton, strtok_word hne hpiece]
    | cons next pieces =>
      rw [List.intercalate_cons_cons, List.append_assoc, List.singleton_append,
        strtok_word_cons hne hpiece, ih fun piece hmem => h piece (List.mem_cons_of_mem _ hmem)]

theorem intercalate_append {pieces : List Text} :
    [delim].intercalate (pieces ++ [piece]) ++ rest =
      [delim].intercalate (pieces ++ [piece ++ rest]) := by
  induction pieces with
  | nil => simp
  | cons front pieces ih =>
    rw [List.cons_append, List.cons_append, List.intercalate_cons_of_ne_nil (by simp),
      List.intercalate_cons_of_ne_nil (by simp), List.append_assoc, ih]

theorem intercalate_concat {pieces : List Text} (hne : pieces ≠ []) :
    [delim].intercalate (pieces ++ [piece]) = [delim].intercalate pieces ++ delim :: piece := by
  induction pieces with
  | nil => contradiction
  | cons front pieces ih =>
    cases pieces with
    | nil => simp
    | cons next pieces =>
      rw [List.cons_append, List.cons_append, List.intercalate_cons_cons, List.intercalate_cons_cons,
        ← List.cons_append, ih (List.cons_ne_nil _ _)]
      simp only [List.append_assoc]

end NetworkProgramming.Library.Words
