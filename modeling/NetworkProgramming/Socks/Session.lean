import NetworkProgramming.Library.CString

/-! `socks_server`, class `session`: the decoded request and the check of
`socks.conf` that decides whether it is served. -/
namespace NetworkProgramming.Socks.Session
open Library.CString

structure SocksInfo where
  CD : Text
  DSTIP : Text

/-- The piece before the first `del`, and what is left of `_str` after it;
without a `del` the whole text is the piece and nothing is left. -/
def slicer (str : Text) (del : Char) : Text × Text :=
  (str.takeWhile (· != del), (str.dropWhile (· != del)).tail)

@[simp] theorem slicer_append {del : Char} {piece rest : Text} (h : del ∉ piece) :
    slicer (piece ++ del :: rest) del = (piece, rest) := by
  simp [slicer, takeWhile_append_delim h, dropWhile_append_delim h]

@[simp] theorem slicer_last {del : Char} {piece : Text} (h : del ∉ piece) :
    slicer piece del = (piece, []) := by
  simp [slicer, takeWhile_without_delim h, dropWhile_without_delim h]

theorem slicer_length (str : Text) (del : Char) (h : (slicer str del).2 ≠ []) :
    (slicer str del).2.length < str.length := by
  have hdrop := (str.dropWhile_sublist (· != del)).length_le
  have hpos : 0 < (str.dropWhile (· != del)).tail.length := List.length_pos_iff.mpr h
  simp only [slicer, List.length_tail] at hpos ⊢
  omega

/-- The `while` loop of `match_IP`; it returns the final `i`. Each further
round needs a piece left in `_str`, so its length bounds the rounds. -/
def matchLoop : Nat → Text → Text → Text → Text → Nat → Nat
  | 0, _, _, _, _, i => i
  | fuel + 1, str, allowIP, cmpA, cmpB, i =>
    if cmpA = cmpB ∨ cmpB = ['*'] then
      let (cmpA, str) := slicer str '.'
      let (cmpB, allowIP) := slicer allowIP '.'
      if str = [] ∨ allowIP = [] then i + 1
      else matchLoop fuel str allowIP cmpA cmpB (i + 1)
    else i

def matchIP (info : SocksInfo) (allowIP : Text) : Bool :=
  let (cmpA, str) := slicer info.DSTIP '.'
  let (cmpB, allowIP) := slicer allowIP '.'
  matchLoop (str.length + 1) str allowIP cmpA cmpB 1 = 4

theorem matchLoop_fuel (fuel : Nat) (str allowIP cmpA cmpB : Text) (i : Nat)
    (h : str.length < fuel) :
    matchLoop (fuel + 1) str allowIP cmpA cmpB i = matchLoop fuel str allowIP cmpA cmpB i := by
  induction fuel generalizing str allowIP cmpA cmpB i with
  | zero => omega
  | succ fuel ih =>
    rw [matchLoop, matchLoop]
    split
    · dsimp only
      split
      · rfl
      · rename_i hleft
        have hshort := slicer_length str '.' (fun hnil => hleft (Or.inl hnil))
        exact ih _ _ _ _ _ (by omega)
    · rfl

def getline (content : Text) : Option (Text × Text) :=
  if content = [] then none
  else some (content.takeWhile (· != '\n'), (content.dropWhile (· != '\n')).tail)

/-- The body of the loop in `firewall`: does this line allow the request? -/
def allows (info : SocksInfo) (config : Text) : Bool :=
  let (_, config) := slicer config ' '
  let (allowMethod, config) := slicer config ' '
  let (allowIP, _) := slicer config ' '
  ((allowMethod = ['c'] && info.CD = ['1']) || (allowMethod = ['b'] && info.CD = ['2'])) &&
    matchIP info allowIP

def firewallLoop (info : SocksInfo) : Nat → Text → Bool
  | 0, _ => false
  | fuel + 1, content =>
    match getline content with
    | none => false
    | some (config, rest) => if allows info config then true else firewallLoop info fuel rest

/-- `firewall` on the content of `socks.conf` (empty when it cannot be opened). -/
def firewall (info : SocksInfo) (content : Text) : Bool :=
  firewallLoop info content.length content

end NetworkProgramming.Socks.Session
