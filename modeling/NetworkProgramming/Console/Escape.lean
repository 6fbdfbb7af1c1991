import NetworkProgramming.Socks.Parser

/-! What both consoles insert into the page: each byte as a numeric character reference. -/
namespace NetworkProgramming.Console
open Library.CString Socks Socks.Parser

/-- `int(content[i])`; a `char` is signed. -/
def charValue (b : Byte) : Int := b.toInt8.toInt

/-- `to_string` of an `int`. -/
def numeral (n : Int) : Text := if n < 0 then '-' :: decimal n.natAbs else decimal n.natAbs

def escapeByte (b : Byte) : Text := "&#".toList ++ (numeral (charValue b) ++ [';'])

def escape (content : List Byte) : Text := content.flatMap escapeByte

/-- The line of `output_shell` and `output_command`, around what they insert. -/
def scriptLine (session literal : Text) : Text :=
  "<script>document.getElementById('".toList ++ session ++ "').innerHTML += '".toList ++ literal ++
    "';</script>\n".toList

def outputShell (session : Text) (content : List Byte) : Text :=
  scriptLine session (escape content)

def outputCommand (session : Text) (content : List Byte) : Text :=
  scriptLine session ("<b>".toList ++ (escape content ++ "</b>".toList))

/-- Quotes, angle brackets, the backslash and line breaks. -/
def breaking : Text := "\"'<>\\\n\r".toList

/-- What ends a string literal of the script, or is another character inside it. -/
def ending : Text := "'\\\n\r".toList

def reference : Text → Option (Nat × Nat)
  | '&' :: '#' :: rest =>
    let digits := rest.takeWhile Char.isDigit
    if digits ≠ [] ∧ (rest.drop digits.length).head? = some ';' then
      some (Nat.ofDigitChars 10 digits 0, digits.length + 3)
    else none
  | _ => none

/-- Each reference replaced by its character, `skip` characters further on. -/
def unescapeFrom : Nat → Text → Text
  | _, [] => []
  | skip + 1, _ :: rest => unescapeFrom skip rest
  | 0, c :: rest =>
    match reference (c :: rest) with
    | some (code, length) => Char.ofNat code :: unescapeFrom (length - 1) rest
    | none => c :: unescapeFrom 0 rest

def unescape (str : Text) : Text := unescapeFrom 0 str

/-- The line inserts one literal that shows `text`, and nothing in it ends it. -/
def Inserts (line session text : Text) : Prop :=
  ∃ literal, line = scriptLine session literal ∧ (∀ c ∈ literal, c ∉ ending) ∧
    unescape literal = text

/-- The page shows the bytes that were received. -/
structure Escapes (content : List Byte) : Prop where
  plain : ∀ c ∈ escape content, c ∉ breaking
  back : unescape (escape content) = chars content
  shell : ∀ session, Inserts (outputShell session content) session (chars content)
  command : ∀ session, Inserts (outputCommand session content) session
    ("<b>".toList ++ (chars content ++ "</b>".toList))

variable {content : List Byte} {b : Byte} {c : Char} {rest tail : Text} {n : Nat}

theorem charValue_small (h : b < 128) : charValue b = b.toNat := by
  have hlt : b.toNat < 128 := UInt8.lt_iff_toNat_lt.mp h
  rw [charValue, Int8.toInt, UInt8.toBitVec_toInt8, BitVec.toInt_eq_toNat_of_lt]
  · rfl
  · rw [UInt8.toNat_toBitVec]
    omega

theorem charValue_neg (h : ¬ b < 128) : charValue b < 0 := by
  have hge : 128 ≤ b.toNat := by
    rw [UInt8.lt_iff_toNat_lt] at h
    exact Nat.le_of_not_lt h
  rw [charValue, Int8.toInt, UInt8.toBitVec_toInt8, BitVec.toInt_neg_iff, UInt8.toNat_toBitVec]
  omega

theorem escapeByte_small (h : b < 128) :
    escapeByte b = "&#".toList ++ (decimal b.toNat ++ [';']) := by
  rw [escapeByte, numeral, charValue_small h, if_neg (by omega), Int.natAbs_natCast]

theorem escapeByte_neg (h : ¬ b < 128) :
    escapeByte b = "&#-".toList ++ (decimal (charValue b).natAbs ++ [';']) := by
  rw [escapeByte, numeral, if_pos (charValue_neg h)]
  rfl

section Plain

def isReferenceChar (c : Char) : Bool :=
  c.isDigit || c == '&' || c == '#' || c == ';' || c == '-'

theorem isReferenceChar_numeral {n : Int} (h : c ∈ numeral n) : isReferenceChar c := by
  unfold numeral at h
  split at h
  next =>
    rcases List.mem_cons.mp h with rfl | hdigit
    · rfl
    · simp [isReferenceChar, isDigit_of_mem_decimal hdigit]
  next => simp [isReferenceChar, isDigit_of_mem_decimal h]

theorem isReferenceChar_escape (h : c ∈ escape content) : isReferenceChar c := by
  obtain ⟨b, -, hbyte⟩ := List.mem_flatMap.mp h
  simp only [escapeByte, List.mem_append, List.mem_singleton] at hbyte
  rcases hbyte with hfront | hnumeral | rfl
  · have hcases : c = '&' ∨ c = '#' := by simpa using hfront
    rcases hcases with rfl | rfl <;> rfl
  · exact isReferenceChar_numeral hnumeral
  · rfl

theorem not_mem_breaking (h : isReferenceChar c) : c ∉ breaking := by
  intro hmem
  have hall : breaking.all (!isReferenceChar ·) = true := by decide
  have hc := List.all_eq_true.mp hall c hmem
  rw [h] at hc
  contradiction

theorem escape_plain (h : c ∈ escape content) : c ∉ breaking :=
  not_mem_breaking (isReferenceChar_escape h)

theorem ending_sublist : ending.Sublist breaking := by decide

end Plain

section Unescape

theorem unescapeFrom_eq (skip : Nat) (str : Text) :
    unescapeFrom skip str = unescape (str.drop skip) := by
  induction skip generalizing str with
  | zero => rfl
  | succ skip ih =>
    cases str with
    | nil => rfl
    | cons c rest =>
      rw [unescapeFrom, ih]
      rfl

theorem unescape_of_ne (h : c ≠ '&') (rest : Text) :
    unescape (c :: rest) = c :: unescape rest := by
  have hnone : reference (c :: rest) = none := by
    unfold reference
    split
    next heq => exact absurd (List.cons.inj heq).1 h
    next => rfl
  rw [unescape, unescapeFrom, hnone]
  rfl

theorem unescape_plain (h : '&' ∉ rest) (tail : Text) :
    unescape (rest ++ tail) = rest ++ unescape tail := by
  induction rest with
  | nil => rfl
  | cons c rest ih =>
    rw [List.mem_cons, not_or] at h
    rw [List.cons_append, unescape_of_ne (Ne.symm h.1), ih h.2]
    rfl

theorem reference_decimal (n : Nat) (rest : Text) :
    reference ("&#".toList ++ (decimal n ++ ';' :: rest)) = some (n, (decimal n).length + 3) := by
  have hdigits : (decimal n ++ ';' :: rest).takeWhile Char.isDigit = decimal n := by
    rw [List.takeWhile_append_of_pos (fun c hc => isDigit_of_mem_decimal hc),
      List.takeWhile_cons_of_neg (by decide), List.append_nil]
  have hvalue : Nat.ofDigitChars 10 (decimal n) 0 = n := Nat.ofDigitChars_ten_toDigits
  change reference ('&' :: '#' :: (decimal n ++ ';' :: rest)) = _
  rw [reference, hdigits, List.drop_left, if_pos ⟨decimal_ne_nil n, rfl⟩, hvalue]

theorem unescape_reference (n : Nat) (rest : Text) :
    unescape ("&#".toList ++ (decimal n ++ ';' :: rest)) = Char.ofNat n :: unescape rest := by
  have href := reference_decimal n rest
  change reference ('&' :: '#' :: (decimal n ++ ';' :: rest)) = _ at href
  change unescapeFrom 0 ('&' :: '#' :: (decimal n ++ ';' :: rest)) = _
  rw [unescapeFrom, href]
  dsimp only
  have hbehind : ('#' :: (decimal n ++ ';' :: rest)).drop ((decimal n).length + 3 - 1) = rest := by
    have hlength : (decimal n).length + 3 - 1 = (decimal n).length + 1 + 1 := by omega
    rw [hlength, List.drop_succ_cons, ← List.drop_drop, List.drop_left]
    rfl
  rw [unescapeFrom_eq, hbehind]

theorem unescape_sign (rest : Text) :
    unescape ("&#-".toList ++ rest) = '&' :: unescape ("#-".toList ++ rest) := rfl

theorem ofNat_ne_ampersand (h : ¬ b < 128) : Char.ofNat b.toNat ≠ '&' := by
  have hge : 128 ≤ b.toNat := by
    rw [UInt8.lt_iff_toNat_lt] at h
    exact Nat.le_of_not_lt h
  have hlt := b.toNat_lt
  have hvalid : b.toNat.isValidChar := .inl (by omega)
  have hchar : Char.ofNat b.toNat = Char.ofNatAux b.toNat hvalid := dif_pos hvalid
  intro heq
  have hcode : b.toNat = 38 := congrArg Char.toNat (hchar.symm.trans heq)
  omega

theorem unescape_escape_iff (content : List Byte) (tail : Text) :
    unescape (escape content ++ tail) = chars content ++ unescape tail ↔
      ∀ b ∈ content, b < 128 := by
  induction content with
  | nil => simp [escape, chars]
  | cons b content ih =>
    have hescape : escape (b :: content) ++ tail = escapeByte b ++ (escape content ++ tail) := by
      simp [escape]
    have hchars : chars (b :: content) ++ unescape tail =
        Char.ofNat b.toNat :: (chars content ++ unescape tail) := rfl
    rw [List.forall_mem_cons, ← ih, hescape, hchars]
    by_cases hb : b < 128
    · rw [escapeByte_small hb, List.append_assoc, List.append_assoc, List.singleton_append,
        unescape_reference, List.cons.injEq, and_iff_right rfl, and_iff_right hb]
    · rw [escapeByte_neg hb, List.append_assoc, unescape_sign, List.cons.injEq]
      exact iff_of_false (fun h => ofNat_ne_ampersand hb h.1.symm) (fun h => hb h.1)

end Unescape

theorem not_mem_ending (h : c ∈ escape content) : c ∉ ending :=
  fun hmem => escape_plain h (ending_sublist.mem hmem)

theorem inserts_shell (session : Text)
    (hback : unescape (escape content) = chars content) :
    Inserts (outputShell session content) session (chars content) :=
  ⟨escape content, rfl, fun _ => not_mem_ending, hback⟩

theorem inserts_command (session : Text) (hsmall : ∀ b ∈ content, b < 128) :
    Inserts (outputCommand session content) session
      ("<b>".toList ++ (chars content ++ "</b>".toList)) := by
  refine ⟨_, rfl, ?_, ?_⟩
  · intro c hc
    rcases List.mem_append.mp hc with hfront | hc
    · have hall : "<b>".toList.all (· ∉ ending) = true := by decide
      simpa using List.all_eq_true.mp hall c hfront
    · rcases List.mem_append.mp hc with hmiddle | hback
      · exact not_mem_ending hmiddle
      · have hall : "</b>".toList.all (· ∉ ending) = true := by decide
        simpa using List.all_eq_true.mp hall c hback
  · rw [unescape_plain (by decide), (unescape_escape_iff content _).mpr hsmall]
    rfl

/-- The page shows the bytes as they were received exactly when each is below 128. -/
theorem escapes_iff (content : List Byte) : Escapes content ↔ ∀ b ∈ content, b < 128 := by
  have hback : unescape (escape content) = chars content ↔ ∀ b ∈ content, b < 128 := by
    have htail := unescape_escape_iff content []
    rwa [List.append_nil, show unescape [] = [] from rfl, List.append_nil] at htail
  constructor
  · exact fun h => hback.mp h.back
  · intro hsmall
    have hsame := hback.mpr hsmall
    exact ⟨fun _ => escape_plain, hsame, fun session => inserts_shell session hsame,
      fun session => inserts_command session hsmall⟩

/-- The first byte of an `é` comes out as `&#-61;`, which is no reference. -/
theorem accent_not_shown : escape [195, 169] = "&#-61;&#-87;".toList ∧
    unescape (escape [195, 169]) = "&#-61;&#-87;".toList ∧ ¬ Escapes [195, 169] := by
  have hescape : escape [195, 169] = "&#-61;&#-87;".toList := by decide +kernel
  have hsame : unescape "&#-61;&#-87;".toList = "&#-61;&#-87;".toList := by decide +kernel
  refine ⟨hescape, by rw [hescape, hsame], fun h => ?_⟩
  have hback := h.back
  rw [hescape, hsame] at hback
  exact absurd hback (by decide +kernel)

end NetworkProgramming.Console
