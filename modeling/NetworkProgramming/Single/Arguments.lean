import NetworkProgramming.Single.Dispatch
import NetworkProgramming.Single.Reading
import NetworkProgramming.Single.Tokens

/-! The arguments that a child of `parser` gives to its program: the words of the
command, after the loops that take the tokens of user pipes out. -/
namespace NetworkProgramming.Single
open Library.CString Library.Run Library.Words CommandLine

/-- The loop that puts a NULL in place of the first word with `c`. The array is
its part in front of the NULL; `strchr` of that NULL is an error. -/
def cutAt (c : Char) : List Text → Except Fault (List Text)
  | [] => .error .nullPointer
  | word :: words => if c ∈ word then .ok [] else (cutAt c words).map (word :: ·)

/-- `order = 1`: both kinds of tokens, and the suffix from `<` is not the shorter. -/
def sendsBehind (cmd : Text) : Bool :=
  pipesOut cmd && match strchr cmd '>', strchr cmd '<' with
    | some more, some less => more.length ≤ less.length
    | _, _ => false

/-- The first and the last of the three loops. -/
def cutLess (cmd : Text) (operand : List Text) : Except Fault (List Text) :=
  if '<' ∈ cmd ∧ sendsBehind cmd = false then cutAt '<' operand else .ok operand

/-- The loop for `>`; `none` when the child returns from `parser` instead. -/
def cutMore (s : Server) (cmd : Text) (sockfd : Int) (operand : List Text) :
    Except Fault (Option (List Text)) :=
  if pipesOut cmd then
    match userId '>' cmd with
    | none => .error .nullPointer
    | some recvid =>
      if s.present recvid then
        match s.ownId sockfd with
        | .error fault => .error fault
        | .ok sendid =>
          if (s.userPipe sendid recvid.toNat).flag = 1 then .ok none
          else (cutAt '>' operand).map some
      else .ok none
  else if '>' ∈ cmd then (cutAt '>' operand).map some
  else .ok (some operand)

/-- The array for `execvp`; `s` is the child's copy of the tables. -/
def childArguments (s : Server) (cmd : Text) (sockfd : Int) : Except Fault (Option (List Text)) :=
  match cutLess cmd (splitSpace cmd) with
  | .error fault => .error fault
  | .ok operand =>
    match cutMore s cmd sockfd operand with
    | .error fault => .error fault
    | .ok none => .ok none
    | .ok (some operand) => (cutLess cmd operand).map some

inductive Tokens where
  | none
  | receive (n : Digits)
  | send (r : Digits)
  | receiveSend (n r : Digits)
  | sendReceive (r n : Digits)

def receiveToken (n : Digits) : Text := '<' :: n.text

def sendToken (r : Digits) : Text := '>' :: r.text

def Tokens.texts : Tokens → List Text
  | .none => []
  | .receive n => [receiveToken n]
  | .send r => [sendToken r]
  | .receiveSend n r => [receiveToken n, sendToken r]
  | .sendReceive r n => [sendToken r, receiveToken n]

def Tokens.receives : Tokens → Bool
  | .none => false
  | .receive _ => true
  | .send _ => false
  | .receiveSend _ _ => true
  | .sendReceive _ _ => true

/-- A command of words and tokens. -/
structure TokenCommand where
  text : Text
  words : List Text
  nonempty : words ≠ []
  plain : ∀ word ∈ words, '<' ∉ word ∧ '>' ∉ word
  tokens : Tokens
  split : splitSpace text = words ++ tokens.texts

variable {c : TokenCommand} {s t : Server} {fd : Int} {words more : List Text} {n r : Digits}

theorem cutAt_append {d : Char} (more : List Text) (h : ∀ word ∈ words, d ∉ word) :
    cutAt d (words ++ more) = (cutAt d more).map (words ++ ·) := by
  induction words with
  | nil =>
    rw [List.nil_append]
    cases cutAt d more <;> rfl
  | cons word words ih =>
    rw [List.cons_append, cutAt, if_neg (h word List.mem_cons_self),
      ih fun other hmem => h other (List.mem_cons_of_mem _ hmem)]
    cases cutAt d more <;> rfl

theorem cutAt_words {d : Char} (h : ∀ word ∈ words, d ∉ word) :
    cutAt d words = .error .nullPointer := by
  have happend := cutAt_append [] h
  rwa [List.append_nil] at happend

theorem cutAt_token {d : Char} {token : Text} (h : ∀ word ∈ words, d ∉ word) (hd : d ∈ token) :
    cutAt d (words ++ token :: more) = .ok words := by
  rw [cutAt_append _ h, cutAt, if_pos hd]
  simp [Except.map]

theorem TokenCommand.less_words (c : TokenCommand) : ∀ word ∈ c.words, '<' ∉ word :=
  fun word hword => (c.plain word hword).1

theorem TokenCommand.more_words (c : TokenCommand) : ∀ word ∈ c.words, '>' ∉ word :=
  fun word hword => (c.plain word hword).2

theorem TokenCommand.mem_iff (c : TokenCommand) {d : Char} (hd : d ≠ ' ')
    (hwords : ∀ word ∈ c.words, d ∉ word) :
    d ∈ c.text ↔ ∃ token ∈ c.tokens.texts, d ∈ token := by
  rw [mem_iff_piece hd, ← splitSpace, c.split]
  constructor
  · rintro ⟨piece, hpiece, hmem⟩
    rcases List.mem_append.mp hpiece with hword | htoken
    · exact absurd hmem (hwords piece hword)
    · exact ⟨piece, htoken, hmem⟩
  · rintro ⟨token, htoken, hmem⟩
    exact ⟨token, List.mem_append_right _ htoken, hmem⟩

theorem TokenCommand.less_iff (c : TokenCommand) :
    '<' ∈ c.text ↔ ∃ token ∈ c.tokens.texts, '<' ∈ token :=
  c.mem_iff (by decide) c.less_words

theorem TokenCommand.more_iff (c : TokenCommand) :
    '>' ∈ c.text ↔ ∃ token ∈ c.tokens.texts, '>' ∈ token :=
  c.mem_iff (by decide) c.more_words

theorem strchr_append {d : Char} {front back : Text} (h : d ∉ front) :
    strchr (front ++ back) d = strchr back d := by
  rw [strchr, strchr, List.dropWhile_append_of_pos (ne_of_not_mem h)]

theorem strchr_cons {d : Char} {back : Text} : strchr (d :: back) d = some (d :: back) := by
  rw [strchr, List.dropWhile_cons_of_neg (by simp)]

theorem length_strchr_le {d : Char} {str suffix : Text} (h : strchr str d = some suffix) :
    suffix.length ≤ str.length := by
  have hsuffix : suffix = str.dropWhile (· != d) := by
    unfold strchr at h
    split at h
    next => contradiction
    next => exact (Option.some.inj h).symm
  rw [hsuffix]
  exact List.length_dropWhile_le _ _

theorem exists_strchr {d : Char} {str : Text} (h : d ∈ str) : ∃ suffix, strchr str d = some suffix := by
  obtain ⟨front, back, rfl, hfront⟩ := List.eq_append_cons_of_mem h
  exact ⟨d :: back, by rw [strchr_append hfront, strchr_cons]⟩

theorem TokenCommand.first_token (c : TokenCommand) {d : Char} {body : Text} {rest : List Text}
    (htokens : c.tokens.texts = (d :: body) :: rest) :
    ∃ left right, c.text = left ++ (d :: body ++ right) ∧ strtok ' ' right = rest ∧
      '<' ∉ left ∧ '>' ∉ left := by
  have hsplit := c.split
  rw [htokens] at hsplit
  obtain ⟨left, right, htext, haround⟩ := strtok_around hsplit
  refine ⟨left, right, htext, haround.after, ?_, ?_⟩
  · intro hmem
    rcases haround.before _ hmem with hspace | ⟨word, hword, hmem⟩
    · exact absurd hspace (by decide)
    · exact c.less_words word hword hmem
  · intro hmem
    rcases haround.before _ hmem with hspace | ⟨word, hword, hmem⟩
    · exact absurd hspace (by decide)
    · exact c.more_words word hword hmem

theorem pipesOut_digits {left right : Text} (hleft : '>' ∉ left) :
    pipesOut (left ++ ('>' :: r.text ++ right)) = true := by
  obtain ⟨d, tail, hcons, hd⟩ := r.exists_cons
  have hspace : d ≠ ' ' := by
    rintro rfl
    exact absurd hd (by decide)
  rw [pipesOut, strchr_append hleft, List.cons_append, strchr_cons, hcons]
  simpa using hspace

theorem TokenCommand.pipesOut_eq (c : TokenCommand) (front : List Text) {rest : List Text}
    (htokens : c.tokens.texts = front ++ sendToken r :: rest) (hfront : ∀ token ∈ front, '>' ∉ token) :
    pipesOut c.text = true := by
  have hsplit : strtok ' ' c.text = (c.words ++ front) ++ sendToken r :: rest := by
    have hsplit := c.split
    rwa [htokens, ← List.append_assoc] at hsplit
  obtain ⟨left, right, htext, haround⟩ := strtok_around hsplit
  rw [htext]
  apply pipesOut_digits
  intro hmem
  rcases haround.before _ hmem with hspace | ⟨piece, hpiece, hmem⟩
  · exact absurd hspace (by decide)
  · rcases List.mem_append.mp hpiece with hword | htoken
    · exact c.more_words piece hword hmem
    · exact hfront piece htoken hmem

theorem less_mem_receiveToken (n : Digits) : '<' ∈ receiveToken n := List.mem_cons_self

theorem more_mem_sendToken (r : Digits) : '>' ∈ sendToken r := List.mem_cons_self

theorem receiveToken_more (n : Digits) : '>' ∉ receiveToken n := by
  rw [receiveToken, List.mem_cons, not_or]
  exact ⟨by decide, n.not_mem (by decide)⟩

theorem sendToken_less (r : Digits) : '<' ∉ sendToken r := by
  rw [sendToken, List.mem_cons, not_or]
  exact ⟨by decide, r.not_mem (by decide)⟩

theorem TokenCommand.sendsBehind_receiveSend (c : TokenCommand)
    (htokens : c.tokens = .receiveSend n r) : sendsBehind c.text = true := by
  have htexts : c.tokens.texts = receiveToken n :: [sendToken r] := by rw [htokens]; rfl
  have hout := c.pipesOut_eq [receiveToken n] htexts (by simpa using receiveToken_more n)
  obtain ⟨left, right, htext, hright, hless, hmore⟩ := c.first_token htexts
  have hmem : '>' ∈ right := by
    have hpieces : '>' ∈ right ↔ ∃ piece ∈ strtok ' ' right, '>' ∈ piece :=
      mem_iff_piece (by decide)
    rw [hpieces, hright]
    exact ⟨sendToken r, List.mem_cons_self, more_mem_sendToken r⟩
  obtain ⟨suffix, hsuffix⟩ := exists_strchr hmem
  have hlength := length_strchr_le hsuffix
  have hmoreAt : strchr c.text '>' = some suffix := by
    have hfront : '>' ∉ receiveToken n := receiveToken_more n
    rw [htext, strchr_append hmore, ← receiveToken, strchr_append hfront, hsuffix]
  have hlessAt : strchr c.text '<' = some ('<' :: n.text ++ right) := by
    rw [htext, strchr_append hless, List.cons_append, strchr_cons]
  rw [sendsBehind, hout, hmoreAt, hlessAt]
  simp only [List.cons_append, List.length_cons, List.length_append, Bool.true_and,
    decide_eq_true_eq]
  omega

theorem TokenCommand.sendsBehind_sendReceive (c : TokenCommand)
    (htokens : c.tokens = .sendReceive r n) : sendsBehind c.text = false := by
  have htexts : c.tokens.texts = sendToken r :: [receiveToken n] := by rw [htokens]; rfl
  obtain ⟨left, right, htext, hright, hless, hmore⟩ := c.first_token htexts
  have hmem : '<' ∈ right := by
    have hpieces : '<' ∈ right ↔ ∃ piece ∈ strtok ' ' right, '<' ∈ piece :=
      mem_iff_piece (by decide)
    rw [hpieces, hright]
    exact ⟨receiveToken n, List.mem_cons_self, less_mem_receiveToken n⟩
  obtain ⟨suffix, hsuffix⟩ := exists_strchr hmem
  have hlength := length_strchr_le hsuffix
  have hlessAt : strchr c.text '<' = some suffix := by
    have hfront : '<' ∉ sendToken r := sendToken_less r
    rw [htext, strchr_append hless, ← sendToken, strchr_append hfront, hsuffix]
  have hmoreAt : strchr c.text '>' = some ('>' :: r.text ++ right) := by
    rw [htext, strchr_append hmore, List.cons_append, strchr_cons]
  rw [sendsBehind, hmoreAt, hlessAt]
  simp only [List.cons_append, List.length_cons, List.length_append, Bool.and_eq_false_iff,
    decide_eq_false_iff_not]
  omega

theorem sendsBehind_of_not_mem {cmd : Text} (h : '<' ∉ cmd ∨ '>' ∉ cmd) :
    sendsBehind cmd = false := by
  rcases h with h | h
  · rw [sendsBehind, strchr_eq_none h]
    cases strchr cmd '>' <;> simp
  · rw [sendsBehind, pipesOut, strchr_eq_none h]
    rfl

theorem cutLess_of_not_mem {cmd : Text} (h : '<' ∉ cmd) : cutLess cmd words = .ok words := by
  rw [cutLess, if_neg]
  exact fun hboth => h hboth.1

theorem cutLess_skipped {cmd : Text} (h : sendsBehind cmd = true) : cutLess cmd words = .ok words := by
  rw [cutLess, if_neg]
  intro hboth
  rw [h] at hboth
  exact absurd hboth.2 (by decide)

theorem cutLess_cuts {cmd : Text} (hmem : '<' ∈ cmd) (horder : sendsBehind cmd = false) :
    cutLess cmd words = cutAt '<' words := if_pos ⟨hmem, horder⟩

theorem cutMore_of_not_mem {cmd : Text} (h : '>' ∉ cmd) :
    cutMore s cmd fd words = .ok (some words) := by
  have hout : pipesOut cmd = false := by rw [pipesOut, strchr_eq_none h]
  rw [cutMore, if_neg (by simp [hout]), if_neg h]

theorem cutMore_sends {cmd : Text} (hout : pipesOut cmd = true) (hsends : SendsTo s cmd fd) :
    cutMore s cmd fd words = (cutAt '>' words).map some := by
  obtain ⟨recvid, own, hid, hpresent, hown, hflag⟩ := hsends hout
  rw [cutMore, if_pos hout, hid]
  dsimp only
  rw [if_pos hpresent, hown]
  exact if_neg hflag

theorem childArguments_none (htokens : c.tokens = .none) :
    childArguments s c.text fd = .ok (some c.words) := by
  have htexts : c.tokens.texts = [] := by rw [htokens]; rfl
  have hsplit : splitSpace c.text = c.words := by rw [c.split, htexts, List.append_nil]
  have hless : '<' ∉ c.text := by simp [c.less_iff, htexts]
  have hmore : '>' ∉ c.text := by simp [c.more_iff, htexts]
  rw [childArguments, cutLess_of_not_mem hless, hsplit]
  dsimp only
  rw [cutMore_of_not_mem hmore]
  dsimp only
  rw [cutLess_of_not_mem hless]
  rfl

theorem childArguments_send (htokens : c.tokens = .send r) (hsends : SendsTo s c.text fd) :
    childArguments s c.text fd = .ok (some c.words) := by
  have htexts : c.tokens.texts = [sendToken r] := by rw [htokens]; rfl
  have hsplit : splitSpace c.text = c.words ++ [sendToken r] := by rw [c.split, htexts]
  have hless : '<' ∉ c.text := by simpa [c.less_iff, htexts] using sendToken_less r
  have hout := c.pipesOut_eq [] htexts (by simp)
  rw [childArguments, cutLess_of_not_mem hless, hsplit]
  dsimp only
  rw [cutMore_sends hout hsends, cutAt_token c.more_words (more_mem_sendToken r)]
  dsimp only [Except.map]
  rw [cutLess_of_not_mem hless]

/-- The first loop takes `<n` out, and the third one finds no other. -/
theorem childArguments_receive (htokens : c.tokens = .receive n) :
    childArguments s c.text fd = .error .nullPointer := by
  have htexts : c.tokens.texts = [receiveToken n] := by rw [htokens]; rfl
  have hsplit : splitSpace c.text = c.words ++ [receiveToken n] := by rw [c.split, htexts]
  have hless : '<' ∈ c.text := by
    rw [c.less_iff, htexts]
    exact ⟨receiveToken n, List.mem_cons_self, less_mem_receiveToken n⟩
  have hmore : '>' ∉ c.text := by simpa [c.more_iff, htexts] using receiveToken_more n
  have horder := sendsBehind_of_not_mem (.inr hmore)
  rw [childArguments, cutLess_cuts hless horder, hsplit,
    cutAt_token c.less_words (less_mem_receiveToken n)]
  dsimp only
  rw [cutMore_of_not_mem hmore]
  dsimp only
  rw [cutLess_cuts hless horder, cutAt_words c.less_words]
  rfl

theorem childArguments_receiveSend (htokens : c.tokens = .receiveSend n r)
    (hsends : SendsTo s c.text fd) :
    childArguments s c.text fd = .ok (some (c.words ++ [receiveToken n])) := by
  have htexts : c.tokens.texts = [receiveToken n] ++ [sendToken r] := by rw [htokens]; rfl
  have hsplit : splitSpace c.text = (c.words ++ [receiveToken n]) ++ [sendToken r] := by
    rw [c.split, htexts, List.append_assoc]
  have hout := c.pipesOut_eq [receiveToken n] htexts (by simpa using receiveToken_more n)
  have horder := c.sendsBehind_receiveSend htokens
  have hfront : ∀ word ∈ c.words ++ [receiveToken n], '>' ∉ word := by
    intro word hword
    rcases List.mem_append.mp hword with hword | htoken
    · exact c.more_words word hword
    · rw [List.mem_singleton.mp htoken]
      exact receiveToken_more n
  rw [childArguments, cutLess_skipped horder, hsplit]
  dsimp only
  rw [cutMore_sends hout hsends, cutAt_token hfront (more_mem_sendToken r)]
  dsimp only [Except.map]
  rw [cutLess_skipped horder]

/-- Both are taken out, and the third loop finds no other `<`. -/
theorem childArguments_sendReceive (htokens : c.tokens = .sendReceive r n)
    (hsends : SendsTo s c.text fd) : childArguments s c.text fd = .error .nullPointer := by
  have htexts : c.tokens.texts = sendToken r :: [receiveToken n] := by rw [htokens]; rfl
  have hsplit : splitSpace c.text = (c.words ++ [sendToken r]) ++ [receiveToken n] := by
    rw [c.split, htexts, List.append_assoc, List.singleton_append]
  have hout := c.pipesOut_eq [] htexts (by simp)
  have horder := c.sendsBehind_sendReceive htokens
  have hless : '<' ∈ c.text := by
    rw [c.less_iff, htexts]
    exact ⟨receiveToken n, by simp, less_mem_receiveToken n⟩
  have hfront : ∀ word ∈ c.words ++ [sendToken r], '<' ∉ word := by
    intro word hword
    rcases List.mem_append.mp hword with hword | htoken
    · exact c.less_words word hword
    · rw [List.mem_singleton.mp htoken]
      exact sendToken_less r
  rw [childArguments, cutLess_cuts hless horder, hsplit,
    cutAt_token hfront (less_mem_receiveToken n)]
  dsimp only
  rw [cutMore_sends hout hsends, cutAt_token c.more_words (more_mem_sendToken r)]
  dsimp only [Except.map]
  rw [cutLess_cuts hless horder, cutAt_words c.less_words]

/-- The line's own check of `>r` is what the child of its first command finds. -/
theorem accepted_sendsTo {line : Text} {effects : List Effect} {input : Int}
    (h : checkUserPipes s line fd = .ok (t, effects, .ok input)) :
    SendsTo (takeDue t fd true).1 line fd := by
  have hsends := (checkUserPipes_accepted h).2.1
  intro hout
  obtain ⟨recvid, own, hid, hpresent, hown, hflag⟩ := hsends hout
  have hsame := takeDue_sameUsers t fd true
  refine ⟨recvid, own, hid, ?_, ?_, ?_⟩
  · rw [hsame.present]
    exact hpresent
  · rw [hsame.ownId]
    exact hown
  · rw [hsame.userPipe]
    exact hflag

/-- The program gets the words of its command exactly when there is no `<n`. -/
theorem arguments_iff (c : TokenCommand) (s : Server) (sockfd : Int)
    (h : SendsTo s c.text sockfd) :
    childArguments s c.text sockfd = .ok (some c.words) ↔ c.tokens.receives = false := by
  cases htokens : c.tokens with
  | none => simp [childArguments_none htokens, Tokens.receives]
  | receive n => simp [childArguments_receive htokens, Tokens.receives]
  | send r => simp [childArguments_send htokens h, Tokens.receives]
  | receiveSend n r => simp [childArguments_receiveSend htokens h, Tokens.receives]
  | sendReceive r n => simp [childArguments_sendReceive htokens h, Tokens.receives]

def pipeToFirst : List Event :=
  [.login 4 ⟨[127, 0, 0, 1], 4000⟩, .login 5 ⟨[127, 0, 0, 1], 4001⟩,
    .line 5 "ls >1\n".toList fun _ => ⟨(6, 7), 0⟩]

def digit (d : Char) (h : d.isDigit = true) : Digits where
  text := [d]
  nonempty := by simp
  digits := by simpa using h

def catToSecond : TokenCommand where
  text := "cat >2".toList
  words := ["cat".toList]
  nonempty := by decide
  plain := by decide
  tokens := .send (digit '2' (by decide))
  split := by decide

def catFromSecond : TokenCommand where
  text := "cat <2".toList
  words := ["cat".toList]
  nonempty := by decide
  plain := by decide
  tokens := .receive (digit '2' (by decide))
  split := by decide

theorem arguments_iff_catToSecond :
    ∃ s, exec (next 30) Server.initial pipeToFirst = some s ∧
      (childArguments s catToSecond.text 4 = .ok (some ["cat".toList]) ↔
        catToSecond.tokens.receives = false) := by
  have hfacts : (exec (next 30) Server.initial pipeToFirst).any (fun s =>
      decide (s.clientsMap.indexOf 4 = some 0 ∧ s.present 2 = true ∧
        (s.userPipe 1 2).flag ≠ 1)) = true := by
    decide
  obtain ⟨s, hrun, hs⟩ := (Option.any_eq_true _ _).mp hfacts
  rw [decide_eq_true_eq] at hs
  obtain ⟨hown, hpresent, hflag⟩ := hs
  have hid : s.ownId 4 = .ok 1 := by
    rw [Server.ownId, hown]
    rfl
  exact ⟨s, hrun, arguments_iff catToSecond s 4
    fun _ => ⟨2, 1, by decide, hpresent, hid, hflag⟩⟩

/-- An accepted `<n` makes its child crash. -/
theorem received_token_cut_twice :
    ∃ s checked effects input, exec (next 30) Server.initial pipeToFirst = some s ∧
      checkUserPipes s catFromSecond.text 4 = .ok (checked, effects, .ok input) ∧
      childArguments (takeDue checked 4 true).1 catFromSecond.text 4 = .error .nullPointer := by
  have hfacts : (exec (next 30) Server.initial pipeToFirst).any (fun s =>
      (checkUserPipes s catFromSecond.text 4).toOption.any fun r => r.2.2.toOption.isSome) =
        true := by
    decide
  obtain ⟨s, hrun, hs⟩ := (Option.any_eq_true _ _).mp hfacts
  rcases hcheck : checkUserPipes s catFromSecond.text 4 with
    fault | ⟨checked, effects, message | input⟩
  · rw [hcheck] at hs
    contradiction
  · rw [hcheck] at hs
    contradiction
  · exact ⟨s, checked, effects, input, hrun, hcheck, childArguments_receive rfl⟩

end NetworkProgramming.Single
