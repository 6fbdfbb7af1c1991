import NetworkProgramming.Npshell.Pipeline

/-! What the `sscanf` patterns find in a text, and which texts are refused. -/
namespace NetworkProgramming.Npshell
open Library.CString

def isSymbol (c : Char) : Bool := c == '|' || c == '!' || c == '>'

structure Longest (set : Char → Bool) (run rest : Text) : Prop where
  ne_nil : run ≠ []
  chars : ∀ c ∈ run, set c = true
  stop : ∀ c, rest.head? = some c → set c = false

inductive Scanned : Text → Reading → Prop
  | nothing : Scanned [] ⟨-1, none, [], 0, none⟩
  | unread (c : Char) (rest : Text) (hc : isWordChar c = false) :
      Scanned (c :: rest) ⟨0, none, [], 0, none⟩
  | alone (command rest : Text) (hcommand : Longest isWordChar command rest)
      (hrest : ∀ c, rest.head? = some c → isSymbol c = false) :
      Scanned (command ++ rest) ⟨1, some command, [], 0, none⟩
  | bare (command symbols rest : Text) (hcommand : Longest isWordChar command (symbols ++ rest))
      (hsymbols : Longest isSymbol symbols rest) :
      Scanned (command ++ (symbols ++ rest)) ⟨2, some command, symbols, 0, none⟩
  | number (command symbols rest : Text) (n : Int)
      (hcommand : Longest isWordChar command (symbols ++ rest))
      (hsymbols : Longest (fun c => c == '|' || c == '!') symbols rest)
      (hn : scanInt rest = some n) :
      Scanned (command ++ (symbols ++ rest)) ⟨3, some command, symbols, n, none⟩
  | ordinary (command symbols rest body more : Text)
      (hcommand : Longest isWordChar command (symbols ++ rest))
      (hsymbols : Longest isSymbol symbols rest)
      (hbody : Longest (· != '\n') body more) (hrest : rest.dropWhile isspace = body ++ more)
      (hn : '>' ∉ symbols → scanInt rest = none) :
      Scanned (command ++ (symbols ++ rest)) ⟨3, some command, symbols, 0, some body⟩

variable {set : Char → Bool} {text rest run : Text} {c : Char}

theorem scanSet_none (h : scanSet set text = none) : ∀ c, text.head? = some c → set c = false := by
  unfold scanSet at h
  split at h
  next hnil =>
    intro c hc
    cases text with
    | nil => contradiction
    | cons d text =>
      obtain rfl : d = c := by simpa using hc
      by_contra hd
      rw [List.takeWhile_cons_of_pos (by simpa using hd)] at hnil
      contradiction
  next => contradiction

theorem scanSet_longest (h : scanSet set text = some (run, rest)) :
    text = run ++ rest ∧ Longest set run rest := by
  unfold scanSet at h
  split at h
  next => contradiction
  next hne =>
    simp only [Option.some.injEq, Prod.mk.injEq] at h
    obtain ⟨rfl, rfl⟩ := h
    refine ⟨List.takeWhile_append_dropWhile.symm, hne, fun c hc => List.mem_takeWhile_imp hc, ?_⟩
    intro c hc
    have hhead := List.head?_dropWhile_not set text
    rw [hc] at hhead
    simpa using hhead

theorem Longest.scanSet (h : Longest set run rest) :
    Npshell.scanSet set (run ++ rest) = some (run, rest) :=
  scanSet_append h.ne_nil h.chars h.stop

theorem Longest.takeWhile (h : Longest set run rest) : (run ++ rest).takeWhile set = run := by
  have hscan := h.scanSet
  unfold Npshell.scanSet at hscan
  split at hscan
  next => contradiction
  next =>
    simp only [Option.some.injEq, Prod.mk.injEq] at hscan
    exact hscan.1

theorem Longest.dropWhile (h : Longest set run rest) : (run ++ rest).dropWhile set = rest := by
  have hsplit := List.takeWhile_append_dropWhile (p := set) (l := run ++ rest)
  rw [h.takeWhile] at hsplit
  exact List.append_cancel_left hsplit

theorem readOrdinary_scanned (hn : (readNumbered text).n ≠ 3) :
    Scanned text (readOrdinary text) := by
  unfold readOrdinary
  split
  next hnone =>
    cases text with
    | nil => exact .nothing
    | cons c rest => exact .unread c rest (scanSet_none hnone c rfl)
  next command rest hcommand =>
    obtain ⟨rfl, hcommandRun⟩ := scanSet_longest hcommand
    split
    next hnone => exact .alone command rest hcommandRun (scanSet_none hnone)
    next symbols behind hsymbols =>
      obtain ⟨rfl, hsymbolsRun⟩ := scanSet_longest hsymbols
      split
      next => exact .bare command symbols behind hcommandRun hsymbolsRun
      next body more hbody =>
        obtain ⟨hrest, hbodyRun⟩ := scanSet_longest hbody
        refine .ordinary command symbols behind body more hcommandRun hsymbolsRun hbodyRun hrest ?_
        intro hgreater
        have hrun : Longest (fun c => c == '|' || c == '!') symbols behind := by
          refine ⟨hsymbolsRun.ne_nil, ?_, ?_⟩
          · intro c hc
            have hsymbol := hsymbolsRun.chars c hc
            have hne : c ≠ '>' := fun heq => hgreater (heq ▸ hc)
            simpa only [isSymbol, beq_eq_false_iff_ne.mpr hne, Bool.or_false] using hsymbol
          · intro c hc
            have hstop := hsymbolsRun.stop c hc
            simp only [Bool.or_eq_false_iff] at hstop
            rw [hstop.1.1, hstop.1.2, Bool.or_false]
        by_contra hsome
        obtain ⟨n, hint⟩ := Option.ne_none_iff_exists'.mp hsome
        apply hn
        simp only [readNumbered, hcommand, hrun.scanSet, hint]

theorem readCommand_scanned (text : Text) : Scanned text (readCommand text) := by
  unfold readCommand
  dsimp only
  split
  next hn =>
    unfold readNumbered at hn ⊢
    split at hn
    next =>
      unfold Reading.unmatched at hn
      split at hn <;> simp at hn
    next command rest hcommand =>
      obtain ⟨rfl, hcommandRun⟩ := scanSet_longest hcommand
      split at hn
      next => simp at hn
      next symbols behind hsymbols =>
        obtain ⟨rfl, hsymbolsRun⟩ := scanSet_longest hsymbols
        split at hn
        next => simp at hn
        next n hint => exact .number command symbols behind n hcommandRun hsymbolsRun hint
  next hn => exact readOrdinary_scanned hn

theorem readCommand_zero (h : (readCommand text).n ≠ 3) : (readCommand text).numPipe = 0 := by
  have hscanned := readCommand_scanned text
  generalize readCommand text = r at hscanned h
  cases hscanned with
  | number => exact absurd rfl h
  | _ => rfl

/-- The branch behind the symbols has nothing to do: `!` without a number that counts. -/
def Unmarked (r : Reading) : Prop :=
  r.numPipe = 0 ∧ r.symbolMeth.head? ≠ some '|' ∧ r.symbolMeth.head? ≠ some '>'

instance (r : Reading) : Decidable (Unmarked r) := by
  unfold Unmarked
  infer_instance

/-- The texts that `executeCMD` answers with `input Error~`. -/
def Refuses (text : Text) : Prop :=
  (readCommand text).n = 0 ∨ (readCommand text).n = 2 ∨
    ((readCommand text).n = 3 ∧ Unmarked (readCommand text))

instance (text : Text) : Decidable (Refuses text) := by
  unfold Refuses
  infer_instance

theorem scanInt_range {n : Int} (h : scanInt text = some n) : -2 ^ 31 ≤ n ∧ n < 2 ^ 31 := by
  unfold scanInt at h
  split at h
  next =>
    obtain rfl := Option.some.inj h
    have hlow := Int.le_bmod (x := strtol text) (m := 2 ^ 32) (by decide)
    refine ⟨?_, int32_lt _⟩
    unfold int32
    omega
  next => contradiction

theorem numPipe_range (text : Text) :
    -2 ^ 31 ≤ (readCommand text).numPipe ∧ (readCommand text).numPipe < 2 ^ 31 := by
  have hscanned := readCommand_scanned text
  generalize readCommand text = r at hscanned
  cases hscanned with
  | number command symbols rest n hcommand hsymbols hn => exact scanInt_range hn
  | _ =>
    dsimp only
    decide

end NetworkProgramming.Npshell
