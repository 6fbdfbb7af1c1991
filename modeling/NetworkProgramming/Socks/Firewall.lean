import NetworkProgramming.Socks.Session
import Mathlib.Data.Fin.VecNotation
import Mathlib.Data.Fintype.Basic

/-! What the rules of `socks.conf` mean, and where the matcher departs from it. -/
namespace NetworkProgramming.Socks.Firewall
open Library.CString Session

inductive Method where
  | c
  | b
  deriving DecidableEq, Repr

def Method.text : Method → Text
  | .c => ['c']
  | .b => ['b']

/-- The method that governs a request command: CONNECT is 1, BIND is 2. -/
def methodOf : Nat → Option Method
  | 1 => some .c
  | 2 => some .b
  | _ => none

def dotted (part : Fin 4 → Text) : Text :=
  part 0 ++ '.' :: (part 1 ++ '.' :: (part 2 ++ '.' :: part 3))

abbrev Address := Fin 4 → Nat

/-- A component of a pattern; `none` is `*`. -/
abbrev Pattern := Fin 4 → Option Nat

def component : Option Nat → Text
  | none => ['*']
  | some n => decimal n

def Address.text (address : Address) : Text := dotted fun i => decimal (address i)

/-- One line `<word> c|b p1.p2.p3.p4`. -/
structure Rule where
  word : Text
  method : Method
  pattern : Pattern
  word_no_space : ' ' ∉ word
  word_no_newline : '\n' ∉ word

def Rule.text (rule : Rule) : Text :=
  rule.word ++ ' ' :: (rule.method.text ++ ' ' :: dotted fun i => component (rule.pattern i))

def conf (rules : List Rule) (last : Option Rule) : Text :=
  rules.flatMap (fun rule => rule.text ++ ['\n']) ++ last.elim [] Rule.text

def request (CD : Nat) (address : Address) : SocksInfo :=
  ⟨decimal CD, address.text⟩

def Rule.matchesAt (rule : Rule) (address : Address) (i : Fin 4) : Prop :=
  rule.pattern i = none ∨ rule.pattern i = some (address i)

instance (rule : Rule) (address : Address) (i : Fin 4) :
    Decidable (rule.matchesAt address i) := by
  unfold Rule.matchesAt
  infer_instance

def Rule.permits (rule : Rule) (CD : Nat) (address : Address) : Prop :=
  methodOf CD = some rule.method ∧ ∀ i, rule.matchesAt address i

/-- What the matcher tests: the last component is left out. -/
def Rule.permitsPrefix (rule : Rule) (CD : Nat) (address : Address) : Prop :=
  methodOf CD = some rule.method ∧ ∀ i, i ≠ 3 → rule.matchesAt address i

theorem Rule.permits.permitsPrefix {rule : Rule} {CD : Nat} {address : Address}
    (h : rule.permits CD address) : rule.permitsPrefix CD address :=
  ⟨h.1, fun i _ => h.2 i⟩

theorem not_mem_component {c : Char} (hdigit : c.isDigit = false) (hstar : c ≠ '*')
    (value : Option Nat) : c ∉ component value := by
  cases value with
  | none => simpa [component] using hstar
  | some n => exact not_mem_decimal hdigit

theorem component_ne_nil (value : Option Nat) : component value ≠ [] := by
  cases value with
  | none => simp [component]
  | some n => exact decimal_ne_nil n

theorem round_iff (n : Nat) (value : Option Nat) :
    (decimal n = component value ∨ component value = ['*']) ↔ (value = none ∨ value = some n) := by
  cases value with
  | none => simp [component]
  | some m =>
    have hstar : decimal m ≠ ['*'] := by
      intro heq
      have hmem : '*' ∈ decimal m := by simp [heq]
      exact not_mem_decimal rfl hmem
    simp [component, hstar, eq_comm]

theorem dotted_ne_nil_append (first rest : Text) : first ++ '.' :: rest ≠ [] := by simp

theorem forall_ne_last_iff (p : Fin 4 → Prop) : (∀ i, i ≠ 3 → p i) ↔ p 0 ∧ p 1 ∧ p 2 := by
  constructor
  · intro h
    exact ⟨h 0 (by decide), h 1 (by decide), h 2 (by decide)⟩
  · rintro ⟨h0, h1, h2⟩ i hi
    match i, hi with
    | 0, _ => exact h0
    | 1, _ => exact h1
    | 2, _ => exact h2
    | 3, h => exact absurd rfl h

theorem matchIP_iff (info : SocksInfo) (address : Address) (pattern : Pattern)
    (hinfo : info.DSTIP = address.text) :
    matchIP info (dotted fun i => component (pattern i)) = true ↔
      ∀ i, i ≠ 3 → pattern i = none ∨ pattern i = some (address i) := by
  have hfirst : ∀ i, '.' ∉ decimal (address i) := fun i => not_mem_decimal rfl
  have hsecond : ∀ i, '.' ∉ component (pattern i) := fun i => not_mem_component rfl (by decide) _
  have hlength : (decimal (address 1) ++ '.' :: (decimal (address 2) ++
      '.' :: decimal (address 3))).length + 1 =
      ((decimal (address 1)).length + (decimal (address 2)).length +
        (decimal (address 3)).length) + 3 := by
    simp only [List.length_append, List.length_cons]
    omega
  rw [forall_ne_last_iff]
  unfold matchIP
  rw [hinfo]
  simp only [Address.text, dotted, slicer_append (hfirst 0), slicer_append (hsecond 0), hlength]
  -- three rounds at most: the third takes the last piece and the loop stops without testing it
  simp only [matchLoop, round_iff, slicer_append (hfirst 1), slicer_append (hsecond 1),
    slicer_append (hfirst 2), slicer_append (hsecond 2), slicer_last (hfirst 3),
    slicer_last (hsecond 3), decimal_ne_nil, component_ne_nil, dotted_ne_nil_append]
  by_cases h0 : pattern 0 = none ∨ pattern 0 = some (address 0)
  · by_cases h1 : pattern 1 = none ∨ pattern 1 = some (address 1)
    · by_cases h2 : pattern 2 = none ∨ pattern 2 = some (address 2)
      · simp [h0, h1, h2]
      · simp [h0, h1, h2]
    · simp [h0, h1]
  · simp [h0]

theorem space_not_mem_dotted (pattern : Pattern) :
    ' ' ∉ dotted fun i => component (pattern i) := by
  have hpart : ∀ i, ' ' ∉ component (pattern i) := fun i => not_mem_component rfl (by decide) _
  simp [dotted, hpart]

theorem newline_not_mem_text (rule : Rule) : '\n' ∉ rule.text := by
  have hpart : ∀ i, '\n' ∉ component (rule.pattern i) :=
    fun i => not_mem_component rfl (by decide) _
  cases h : rule.method <;> simp [Rule.text, dotted, hpart, h, Method.text, rule.word_no_newline]

theorem method_test_iff (CD : Nat) (method : Method) :
    (((method.text = ['c'] ∧ decimal CD = ['1']) ∨ (method.text = ['b'] ∧ decimal CD = ['2'])) ↔
      methodOf CD = some method) := by
  have hone : decimal CD = ['1'] ↔ CD = 1 := decimal_inj (n := 1)
  have htwo : decimal CD = ['2'] ↔ CD = 2 := decimal_inj (n := 2)
  rw [hone, htwo]
  cases method <;> simp only [Method.text, methodOf] <;> split <;> simp_all

theorem allows_iff (rule : Rule) (CD : Nat) (address : Address) :
    allows (request CD address) rule.text = true ↔ rule.permitsPrefix CD address := by
  have hmethod : ' ' ∉ rule.method.text := by cases rule.method <;> simp [Method.text]
  unfold allows Rule.text
  simp only [slicer_append rule.word_no_space, slicer_append hmethod,
    slicer_last (space_not_mem_dotted rule.pattern), Bool.and_eq_true, Bool.or_eq_true,
    decide_eq_true_eq]
  rw [matchIP_iff _ address rule.pattern rfl]
  exact and_congr (method_test_iff CD rule.method) Iff.rfl

theorem getline_terminated {line : Text} (h : '\n' ∉ line) (rest : Text) :
    getline (line ++ '\n' :: rest) = some (line, rest) := by
  simp [getline, takeWhile_append_delim h, dropWhile_append_delim h]

theorem getline_unterminated {line : Text} (h : '\n' ∉ line) (hne : line ≠ []) :
    getline line = some (line, []) := by
  simp [getline, takeWhile_without_delim h, dropWhile_without_delim h, hne]

theorem text_ne_nil (rule : Rule) : rule.text ≠ [] := by simp [Rule.text]

theorem firewallLoop_last (info : SocksInfo) (fuel : Nat) (last : Option Rule)
    (hfuel : (last.elim [] Rule.text).length ≤ fuel) :
    firewallLoop info fuel (last.elim [] Rule.text) = last.any fun rule => allows info rule.text := by
  cases last with
  | none => cases fuel <;> rfl
  | some rule =>
    have hpos : 0 < rule.text.length := List.length_pos_iff.mpr (text_ne_nil rule)
    obtain ⟨fuel, rfl⟩ : ∃ n, fuel = n + 1 := ⟨fuel - 1, by simp at hfuel; omega⟩
    have hend : firewallLoop info fuel [] = false := by cases fuel <;> rfl
    simp [firewallLoop, getline_unterminated (newline_not_mem_text rule) (text_ne_nil rule), hend]

theorem firewallLoop_eq (info : SocksInfo) (rules : List Rule) (last : Option Rule) (fuel : Nat)
    (hfuel : (conf rules last).length ≤ fuel) :
    firewallLoop info fuel (conf rules last) =
      (rules ++ last.toList).any fun rule => allows info rule.text := by
  induction rules generalizing fuel with
  | nil =>
    have hlast := firewallLoop_last info fuel last (by simpa [conf] using hfuel)
    cases last <;> simpa [conf] using hlast
  | cons rule rules ih =>
    have hsplit : conf (rule :: rules) last = rule.text ++ '\n' :: conf rules last := by
      simp [conf]
    rw [hsplit] at hfuel ⊢
    simp only [List.length_append, List.length_cons] at hfuel
    obtain ⟨fuel, rfl⟩ : ∃ n, fuel = n + 1 := ⟨fuel - 1, by omega⟩
    simp only [firewallLoop, getline_terminated (newline_not_mem_text rule)]
    rw [ih fuel (by omega)]
    cases h : allows info rule.text <;> simp [h]

theorem firewall_iff (rules : List Rule) (last : Option Rule) (CD : Nat) (address : Address) :
    firewall (request CD address) (conf rules last) = true ↔
      ∃ rule ∈ rules ++ last.toList, rule.permitsPrefix CD address := by
  unfold firewall
  rw [firewallLoop_eq _ _ _ _ le_rfl, List.any_eq_true]
  simp only [allows_iff]

def Decides (rules : List Rule) (last : Option Rule) (CD : Nat) (address : Address) : Prop :=
  firewall (request CD address) (conf rules last) = true ↔
    ∃ rule ∈ rules ++ last.toList, rule.permits CD address

/-- A line for the request's command that agrees with the address in its first
three components only is in the file next to one that permits the request. -/
def LastComponentHarmless (rules : List Rule) (last : Option Rule) (CD : Nat)
    (address : Address) : Prop :=
  ∀ rule ∈ rules ++ last.toList, rule.permitsPrefix CD address → ¬ rule.matchesAt address 3 →
    ∃ other ∈ rules ++ last.toList, other.permits CD address

theorem Rule.permits_of_last {rule : Rule} {CD : Nat} {address : Address}
    (h : rule.permitsPrefix CD address) (hlast : rule.matchesAt address 3) :
    rule.permits CD address := by
  refine ⟨h.1, fun i => ?_⟩
  by_cases hi : i = 3
  · exact hi ▸ hlast
  · exact h.2 i hi

/-- The loop stops before it compares the last component, and that is all that
can make the decision wrong. -/
theorem firewall_decides_iff (rules : List Rule) (last : Option Rule) (CD : Nat)
    (address : Address) :
    Decides rules last CD address ↔ LastComponentHarmless rules last CD address := by
  unfold Decides LastComponentHarmless
  rw [firewall_iff]
  constructor
  · intro h rule hmem hupto _
    exact h.mp ⟨rule, hmem, hupto⟩
  · intro h
    refine ⟨?_, fun ⟨rule, hmem, hpermits⟩ => ⟨rule, hmem, hpermits.permitsPrefix⟩⟩
    rintro ⟨rule, hmem, hupto⟩
    by_cases hlast : rule.matchesAt address 3
    · exact ⟨rule, hmem, Rule.permits_of_last hupto hlast⟩
    · exact h rule hmem hupto hlast

/-- `p c 1.2.3.9` lets a CONNECT to `1.2.3.4` through. -/
theorem firewall_accepts_other_host :
    ¬ Decides [⟨['p'], .c, ![some 1, some 2, some 3, some 9], by decide, by decide⟩] none 1
      ![1, 2, 3, 4] := by
  unfold Decides Rule.permits
  decide

end NetworkProgramming.Socks.Firewall
