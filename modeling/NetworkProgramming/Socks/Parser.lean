import NetworkProgramming.Library.Buffer
import NetworkProgramming.Socks.Firewall
import NetworkProgramming.Socks.Relay

/-! `session::SOCKS4_parser` on a `data_` that still holds what was there before
the request. -/
namespace NetworkProgramming.Socks.Parser
open Library.CString Library.Buffer Firewall

/-- `data_`, of `max_length` bytes. -/
abbrev Data := Vector Byte 1024

/-- The entries of `socks_info` that the parser sets. -/
structure SocksInfo where
  CD : Text
  DSTPORT : Text
  DSTIP : Text
  USERID : Text
  DOMAIN_NAME : Text
  deriving DecidableEq, Repr

def chars (bytes : List Byte) : Text := bytes.map fun b => Char.ofNat b.toNat

def address (a b c d : Byte) : Text := Address.text ![a.toNat, b.toNat, c.toNat, d.toNat]

def ipText (ip : Vector Byte 4) : Text := address ip[0] ip[1] ip[2] ip[3]

/-- The fields up to the resolver; a loop that leaves the array has no result. -/
def decode (data : Data) : Option SocksInfo := do
  let user ← scan (· == 0) data 8
  let domain ← scan (· == 0) data (8 + user.length + 1)
  some {
    CD := decimal (data.get 1).toNat
    DSTPORT := decimal ((data.get 2).toNat * 256 + (data.get 3).toNat)
    DSTIP := address (data.get 4) (data.get 5) (data.get 6) (data.get 7)
    USERID := chars user
    DOMAIN_NAME := chars domain }

def SocksInfo.host (info : SocksInfo) : Text :=
  if info.DOMAIN_NAME = [] then info.DSTIP else info.DOMAIN_NAME

/-- The parser with the resolver that it calls: the first address for a host and
a port, none when it throws. -/
def SOCKS4Parser (resolve : Text → Text → Option Text) (data : Data) : Option SocksInfo := do
  let info ← decode data
  let address ← resolve info.host info.DSTPORT
  some { info with DSTIP := address }

/-- Where a request wants to go. -/
inductive Destination where
  | ip (a b c d : Byte) (h : ¬ (a = 0 ∧ b = 0 ∧ c = 0))
  | domain (x : Byte) (name : List Byte) (hx : x ≠ 0) (hname : name ≠ []) (hnul : 0 ∉ name)

/-- A well-formed request of SOCKS 4 or 4A. -/
structure Request where
  CD : Byte
  port : UInt16
  destination : Destination
  user : List Byte
  user_nul : 0 ∉ user

def high (port : UInt16) : Byte := UInt8.ofNat (port.toNat / 256)

def low (port : UInt16) : Byte := UInt8.ofNat (port.toNat % 256)

def Destination.addressBytes : Destination → Vector Byte 4
  | .ip a b c d _ => #v[a, b, c, d]
  | .domain x .. => #v[0, 0, 0, x]

def Destination.domainBytes : Destination → List Byte
  | .ip .. => []
  | .domain _ name .. => name ++ [0]

def Destination.name : Destination → Text
  | .ip .. => []
  | .domain _ name .. => chars name

def Destination.host : Destination → Text
  | .ip a b c d _ => address a b c d
  | .domain _ name .. => chars name

def Request.header (r : Request) : Vector Byte 8 :=
  let address := r.destination.addressBytes
  #v[4, r.CD, high r.port, low r.port, address[0], address[1], address[2], address[3]]

def Request.bytes (r : Request) : List Byte :=
  r.header.toList ++ (r.user ++ 0 :: r.destination.domainBytes)

/-- The parser sets what the request says. -/
def Request.Decoded (r : Request) (data : Data) : Prop :=
  ∃ info, decode data = some info ∧ info.CD = decimal r.CD.toNat ∧
    info.DSTPORT = decimal r.port.toNat ∧ info.USERID = chars r.user ∧
    info.DOMAIN_NAME = r.destination.name ∧ info.host = r.destination.host

variable {r : Request} {old : Data} {bytes : List Byte}

theorem port_eq (port : UInt16) : (high port).toNat * 256 + (low port).toNat = port.toNat := by
  have hlt := port.toNat_lt
  have hhigh : (high port).toNat = port.toNat / 256 := by
    rw [high, UInt8.toNat_ofNat']
    omega
  have hlow : (low port).toNat = port.toNat % 256 := by
    rw [low, UInt8.toNat_ofNat']
    omega
  omega

theorem chars_eq_nil : chars bytes = [] ↔ bytes = [] := List.map_eq_nil_iff

theorem Request.bytes_length (r : Request) :
    r.bytes.length = 8 + r.user.length + 1 + r.destination.domainBytes.length := by
  rw [Request.bytes, List.length_append, Vector.length_toList, List.length_append, List.length_cons]
  omega

theorem Request.drop_header (r : Request) (old : Data) (hlen : r.bytes.length ≤ 1024) :
    (fill old r.bytes).toList.drop 8 =
      r.user ++ 0 :: (r.destination.domainBytes ++ old.toList.drop r.bytes.length) := by
  rw [fill_toList old hlen, Request.bytes, List.append_assoc, List.drop_left' Vector.length_toList,
    List.append_assoc, List.cons_append]

theorem Request.drop_user (r : Request) (old : Data) (hlen : r.bytes.length ≤ 1024) :
    (fill old r.bytes).toList.drop (8 + r.user.length + 1) =
      r.destination.domainBytes ++ old.toList.drop r.bytes.length := by
  rw [Nat.add_assoc, ← List.drop_drop, r.drop_header old hlen, List.drop_append]
  simp

theorem no_nul (h : 0 ∉ bytes) : ∀ b ∈ bytes, (b == 0) = false := by
  intro b hb
  rw [beq_eq_false_iff_ne]
  rintro rfl
  exact h hb

theorem Request.scan_user (r : Request) (old : Data) (hlen : r.bytes.length ≤ 1024) :
    scan (· == 0) (fill old r.bytes) 8 = some r.user :=
  scan_field (r.drop_header old hlen) (no_nul r.user_nul) rfl

theorem Request.header_get (r : Request) (old : Data) {i : Nat} (hi : i < 8) (hlt : i < 1024) :
    (fill old r.bytes)[i] = r.header[i] := by
  have hheader : i < r.header.toList.length := by
    rw [Vector.length_toList]
    exact hi
  rw [fill_getElem, Request.bytes, List.getElem?_append_left hheader,
    List.getElem?_eq_getElem hheader, Option.getD_some, Vector.getElem_toList]

def Destination.addressText (d : Destination) : Text := ipText d.addressBytes

theorem Request.decode_eq (r : Request) (old : Data) (hlen : r.bytes.length ≤ 1024) :
    decode (fill old r.bytes) =
      (scan (· == 0) (fill old r.bytes) (8 + r.user.length + 1)).map fun domain =>
        ⟨decimal r.CD.toNat, decimal r.port.toNat, r.destination.addressText, chars r.user,
          chars domain⟩ := by
  have hget : ∀ (i : Nat) (hi : i < 8) (hlt : i < 1024), (fill old r.bytes)[i] = r.header[i] :=
    fun _ => r.header_get old
  have hcommand : (fill old r.bytes).get 1 = r.CD := hget 1 (by decide) (by decide)
  have hport : ((fill old r.bytes).get 2).toNat * 256 + ((fill old r.bytes).get 3).toNat =
      r.port.toNat := by
    change (fill old r.bytes)[2].toNat * 256 + (fill old r.bytes)[3].toNat = r.port.toNat
    rw [hget 2 (by decide) (by decide), hget 3 (by decide) (by decide)]
    exact port_eq r.port
  have haddress : address ((fill old r.bytes).get 4) ((fill old r.bytes).get 5)
      ((fill old r.bytes).get 6) ((fill old r.bytes).get 7) = r.destination.addressText := by
    change address (fill old r.bytes)[4] (fill old r.bytes)[5] (fill old r.bytes)[6]
      (fill old r.bytes)[7] = r.destination.addressText
    rw [hget 4 (by decide) (by decide), hget 5 (by decide) (by decide),
      hget 6 (by decide) (by decide), hget 7 (by decide) (by decide)]
    rfl
  rw [decode, r.scan_user old hlen, Option.bind_eq_bind, Option.bind_some, hport, haddress, hcommand]
  cases scan (· == 0) (fill old r.bytes) (8 + r.user.length + 1) <;> rfl

theorem Request.decoded_domain (r : Request) (old : Data) (hlen : r.bytes.length ≤ 1024) {x : Byte}
    {name : List Byte} {hx : x ≠ 0} {hname : name ≠ []} {hnul : 0 ∉ name}
    (hd : r.destination = .domain x name hx hname hnul) : r.Decoded (fill old r.bytes) := by
  have hscan : scan (· == 0) (fill old r.bytes) (8 + r.user.length + 1) = some name := by
    have hdrop : (fill old r.bytes).toList.drop (8 + r.user.length + 1) =
        name ++ 0 :: old.toList.drop r.bytes.length := by
      rw [r.drop_user old hlen, hd, Destination.domainBytes, List.append_assoc]
      rfl
    exact scan_field hdrop (no_nul hnul) rfl
  refine ⟨_, by rw [r.decode_eq old hlen, hscan]; rfl, rfl, rfl, rfl, ?_, ?_⟩
  · rw [hd]
    rfl
  · rw [hd, SocksInfo.host, if_neg (chars_eq_nil.not.mpr hname)]
    rfl

theorem Request.decoded_ip (r : Request) (old : Data) (hlen : r.bytes.length ≤ 1024)
    {a b c d : Byte} {h : ¬ (a = 0 ∧ b = 0 ∧ c = 0)} (hd : r.destination = .ip a b c d h) :
    r.Decoded (fill old r.bytes) ↔ ∃ hlt : r.bytes.length < 1024, old[r.bytes.length] = 0 := by
  have hbytes : 8 + r.user.length + 1 = r.bytes.length := by
    rw [r.bytes_length, hd]
    rfl
  have hold : ∀ hlt : r.bytes.length < 1024,
      (fill old r.bytes)[r.bytes.length] = old[r.bytes.length] := by
    intro hlt
    rw [fill_getElem, List.getElem?_eq_none (Nat.le_refl _), Option.getD_none]
  have hscan : scan (· == 0) (fill old r.bytes) (8 + r.user.length + 1) = some [] ↔
      ∃ hlt : r.bytes.length < 1024, old[r.bytes.length] = 0 := by
    rw [hbytes, scan_nil_iff]
    simp only [beq_iff_eq]
    constructor
    · rintro ⟨hlt, hzero⟩
      exact ⟨hlt, by rw [← hold hlt, hzero]⟩
    · rintro ⟨hlt, hzero⟩
      exact ⟨hlt, by rw [hold hlt, hzero]⟩
  rw [← hscan]
  constructor
  · rintro ⟨info, hdecode, -, -, -, hname, -⟩
    rw [r.decode_eq old hlen, Option.map_eq_some_iff] at hdecode
    obtain ⟨domain, hdomain, rfl⟩ := hdecode
    rw [hd] at hname
    rw [hdomain, chars_eq_nil.mp hname]
  · intro hempty
    refine ⟨_, by rw [r.decode_eq old hlen, hempty]; rfl, rfl, rfl, rfl, ?_, ?_⟩
    · rw [hd]
      rfl
    · rw [hd]
      rfl

def Destination.Named : Destination → Prop
  | .ip .. => False
  | .domain .. => True

/-- A request is decoded as it was sent exactly when it names its host itself or
the byte behind it is a NUL of the array. -/
theorem request_decoded_iff (r : Request) (old : Data) (hlen : r.bytes.length ≤ 1024) :
    r.Decoded (fill old r.bytes) ↔
      r.destination.Named ∨ ∃ hlt : r.bytes.length < 1024, old[r.bytes.length] = 0 := by
  cases hd : r.destination with
  | ip a b c d h =>
    rw [r.decoded_ip old hlen hd]
    simp only [Destination.Named, false_or]
  | domain x name hx hname hnul =>
    exact iff_of_true (r.decoded_domain old hlen hd) (.inl trivial)

def plainRequest : Request where
  CD := 1
  port := 80
  destination := .ip 1 2 3 4 (by decide)
  user := []
  user_nul := List.not_mem_nil

theorem request_decoded_iff_plain :
    plainRequest.Decoded (fill (Vector.replicate 1024 0) plainRequest.bytes) ↔
      plainRequest.destination.Named ∨ ∃ hlt : plainRequest.bytes.length < 1024,
        (Vector.replicate 1024 (0 : Byte))[plainRequest.bytes.length] = 0 :=
  request_decoded_iff plainRequest _ (by decide)

def filled : Data := (Vector.replicate 1024 120).set 20 0

/-- The old content is taken for a domain name. -/
theorem leftover_read_as_domain : ¬ ∀ (r : Request) (old : Data), r.bytes.length ≤ 1024 →
    r.Decoded (fill old r.bytes) := by
  intro hall
  obtain ⟨hlt, hzero⟩ :=
    (plainRequest.decoded_ip filled (by decide) rfl).mp (hall plainRequest filled (by decide))
  have hbyte : filled[9] = 120 := by
    simp [filled]
  have hlength : plainRequest.bytes.length = 9 := rfl
  simp only [hlength] at hzero
  exact absurd (hbyte.symm.trans hzero) (by decide)

end NetworkProgramming.Socks.Parser
