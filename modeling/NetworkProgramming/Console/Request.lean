import NetworkProgramming.Socks.Parser

/-! The SOCKS request of the project 4 console, and what the server makes of it. -/
namespace NetworkProgramming.Console
open Library.CString Library.Buffer Socks Socks.Parser

structure Endpoint where
  ip : Vector Byte 4
  port : UInt16

/-- `endpoint_.address().to_string()` -/
def Endpoint.address (e : Endpoint) : Text := Parser.ipText e.ip

def sliceAddress : Nat → Text → Option (List Byte)
  | 0, _ => some []
  | n + 1, ip => do
    let (part, rest) := Session.slicer ip '.'
    let value ← stoi part
    let values ← sliceAddress n rest
    some (UInt8.ofInt value :: values)

/-- The eight bytes that `do_request` writes. -/
def doRequest (e : Endpoint) : Option (List Byte) := do
  let ip ← sliceAddress 4 e.address
  some ([4, 1, UInt8.ofNat (e.port.toNat / 256), UInt8.ofNat (e.port.toNat % 256)] ++ ip)

/-- How many bytes of `data_` the server's parser looks at: both scans include
the byte that ends them. -/
def bytesRead (data : Parser.Data) : Nat :=
  let user := 8 + ((data.toList.drop 8).takeWhile (· ≠ 0)).length
  user + 1 + ((data.toList.drop (user + 1)).takeWhile (· ≠ 0)).length + 1

/-- The server reads the fields that the console meant. -/
def FieldsAgree (e : Endpoint) (old : Parser.Data) : Prop :=
  ∃ bytes info, doRequest e = some bytes ∧ decode (fill old bytes) = some info ∧
    info.CD = ['1'] ∧ info.DSTPORT = decimal e.port.toNat ∧ info.DSTIP = e.address ∧
    info.USERID = [] ∧ info.DOMAIN_NAME = []

/-- Nothing behind the bytes that the console wrote is looked at. -/
def Framed (e : Endpoint) (old : Parser.Data) : Prop :=
  ∃ bytes, doRequest e = some bytes ∧ bytesRead (fill old bytes) ≤ bytes.length

variable {e : Endpoint} {old : Parser.Data}

theorem dot_not_mem_decimal (b : Byte) : '.' ∉ decimal b.toNat := not_mem_decimal (by decide)

theorem stoi_byte (b : Byte) : stoi (decimal b.toNat) = some (b.toNat : Int) := by
  have hlt := b.toNat_lt
  exact stoi_decimal (by omega)

theorem ofInt_byte (b : Byte) : UInt8.ofInt (b.toNat : Int) = b := by
  apply UInt8.toNat_inj.mp
  have hlt := b.toNat_lt
  simp [UInt8.ofInt]
  omega

theorem sliceAddress_part (n : Nat) (b : Byte) (rest : Text) :
    sliceAddress (n + 1) (decimal b.toNat ++ '.' :: rest) =
      (sliceAddress n rest).map (b :: ·) := by
  rw [sliceAddress, Session.slicer_append (dot_not_mem_decimal b)]
  dsimp only
  rw [stoi_byte, Option.bind_eq_bind, Option.bind_some, ofInt_byte]
  cases sliceAddress n rest <;> rfl

theorem sliceAddress_last (b : Byte) : sliceAddress 1 (decimal b.toNat) = some [b] := by
  rw [sliceAddress, Session.slicer_last (dot_not_mem_decimal b)]
  dsimp only
  rw [stoi_byte, Option.bind_eq_bind, Option.bind_some, ofInt_byte]
  rfl

theorem sliceAddress_ipText (ip : Vector Byte 4) :
    sliceAddress 4 (Parser.ipText ip) = some ip.toList := by
  have hlist : ip.toList = [ip[0], ip[1], ip[2], ip[3]] := by
    apply List.ext_getElem
    · rw [Vector.length_toList]
      rfl
    · intro i hi hfour
      rw [Vector.getElem_toList]
      have hcases : i = 0 ∨ i = 1 ∨ i = 2 ∨ i = 3 := by
        change i < 4 at hfour
        omega
      rcases hcases with rfl | rfl | rfl | rfl <;> rfl
  change sliceAddress 4 (decimal ip[0].toNat ++ '.' :: (decimal ip[1].toNat ++
    '.' :: (decimal ip[2].toNat ++ '.' :: decimal ip[3].toNat))) = _
  rw [sliceAddress_part, sliceAddress_part, sliceAddress_part, sliceAddress_last, hlist]
  rfl

def requestBytes (e : Endpoint) : Vector Byte 8 :=
  #v[4, 1, high e.port, low e.port] ++ e.ip

theorem doRequest_eq (e : Endpoint) : doRequest e = some (requestBytes e).toList := by
  rw [doRequest, Endpoint.address, sliceAddress_ipText, requestBytes, Vector.toList_append]
  rfl

theorem requestBytes_get (e : Endpoint) {i : Nat} (hi : i < 4) :
    (requestBytes e)[i] = #v[4, 1, high e.port, low e.port][i] :=
  Vector.getElem_append_left hi

theorem requestBytes_ip (e : Endpoint) {i : Nat} (hi : i < 4) :
    (requestBytes e)[i + 4] = e.ip[i] :=
  Vector.getElem_append_right (by omega) (by omega)

theorem not_framed (e : Endpoint) (old : Parser.Data) : ¬ Framed e old := by
  rintro ⟨bytes, hbytes, hread⟩
  rw [doRequest_eq, Option.some.injEq] at hbytes
  subst hbytes
  rw [bytesRead, Vector.length_toList] at hread
  omega

theorem request_get (e : Endpoint) (old : Parser.Data) {i : Nat} (hi : i < 8) (hlt : i < 1024) :
    (fill old (requestBytes e).toList)[i] = (requestBytes e)[i] := by
  have hlength : i < (requestBytes e).toList.length := by
    rw [Vector.length_toList]
    exact hi
  rw [fill_getElem, List.getElem?_eq_getElem hlength, Option.getD_some, Vector.getElem_toList]

theorem behind_get (e : Endpoint) (old : Parser.Data) {i : Nat} (hi : 8 ≤ i) (hlt : i < 1024) :
    (fill old (requestBytes e).toList)[i] = old[i] := by
  have hlength : (requestBytes e).toList.length ≤ i := by
    rw [Vector.length_toList]
    exact hi
  rw [fill_getElem, List.getElem?_eq_none hlength, Option.getD_none]

theorem decode_request (e : Endpoint) (old : Parser.Data) : decode (fill old (requestBytes e).toList) =
    (scan (· == 0) (fill old (requestBytes e).toList) 8).bind fun user =>
      (scan (· == 0) (fill old (requestBytes e).toList) (8 + user.length + 1)).map fun domain =>
        ⟨['1'], decimal e.port.toNat, e.address, chars user, chars domain⟩ := by
  have hget : ∀ (i : Nat) (hi : i < 8) (hlt : i < 1024),
      (fill old (requestBytes e).toList)[i] = (requestBytes e)[i] := fun _ => request_get e old
  have hport : ((fill old (requestBytes e).toList).get 2).toNat * 256 +
      ((fill old (requestBytes e).toList).get 3).toNat = e.port.toNat := by
    change (fill old (requestBytes e).toList)[2].toNat * 256 +
      (fill old (requestBytes e).toList)[3].toNat = e.port.toNat
    rw [hget 2 (by decide) (by decide), hget 3 (by decide) (by decide),
      requestBytes_get e (by decide), requestBytes_get e (by decide)]
    exact port_eq e.port
  have hcommand : (fill old (requestBytes e).toList).get 1 = 1 := by
    change (fill old (requestBytes e).toList)[1] = 1
    rw [hget 1 (by decide) (by decide), requestBytes_get e (by decide)]
    rfl
  have haddress : Parser.address ((fill old (requestBytes e).toList).get 4)
      ((fill old (requestBytes e).toList).get 5) ((fill old (requestBytes e).toList).get 6)
      ((fill old (requestBytes e).toList).get 7) = e.address := by
    change Parser.address (fill old (requestBytes e).toList)[4]
      (fill old (requestBytes e).toList)[5] (fill old (requestBytes e).toList)[6]
      (fill old (requestBytes e).toList)[7] = e.address
    rw [hget 4 (by decide) (by decide), hget 5 (by decide) (by decide),
      hget 6 (by decide) (by decide), hget 7 (by decide) (by decide),
      requestBytes_ip e (by decide : 0 < 4), requestBytes_ip e (by decide : 1 < 4),
      requestBytes_ip e (by decide : 2 < 4), requestBytes_ip e (by decide : 3 < 4)]
    rfl
  have hone : decimal (1 : Byte).toNat = ['1'] := rfl
  generalize fill old (requestBytes e).toList = data at *
  rw [decode, hport, hcommand, haddress, hone]
  cases scan (· == 0) data 8 with
  | none => rfl
  | some user => cases hdomain : scan (· == 0) data (8 + user.length + 1) <;> simp [hdomain]

theorem fieldsAgree_iff : FieldsAgree e old ↔ old[8] = 0 ∧ old[9] = 0 := by
  have huser : scan (· == 0) (fill old (requestBytes e).toList) 8 = some [] ↔ old[8] = 0 := by
    rw [scan_nil_iff, ← behind_get e old (Nat.le_refl 8) (by decide)]
    simp only [beq_iff_eq]
    exact exists_prop_of_true (by decide)
  have hdomain : scan (· == 0) (fill old (requestBytes e).toList) 9 = some [] ↔ old[9] = 0 := by
    rw [scan_nil_iff, ← behind_get e old (by decide : 8 ≤ 9) (by decide)]
    simp only [beq_iff_eq]
    exact exists_prop_of_true (by decide)
  rw [← huser, ← hdomain]
  constructor
  · rintro ⟨bytes, info, hbytes, hdecode, -, -, -, husername, hname⟩
    rw [doRequest_eq, Option.some.injEq] at hbytes
    subst hbytes
    rw [decode_request] at hdecode
    obtain ⟨user, hscan, hdecode⟩ := Option.bind_eq_some_iff.mp hdecode
    obtain ⟨domain, hscanDomain, rfl⟩ := Option.map_eq_some_iff.mp hdecode
    obtain rfl := chars_eq_nil.mp husername
    obtain rfl := chars_eq_nil.mp hname
    exact ⟨hscan, hscanDomain⟩
  · rintro ⟨hscan, hscanDomain⟩
    refine ⟨_, ⟨['1'], decimal e.port.toNat, e.address, [], []⟩, doRequest_eq e, ?_, rfl, rfl, rfl,
      rfl, rfl⟩
    rw [decode_request, hscan, Option.bind_some]
    change (scan (· == 0) (fill old (requestBytes e).toList) 9).map _ = _
    rw [hscanDomain]
    rfl

/-- The request has no end of its own: the server always reads behind it, and it
reads the fields that were meant exactly when two NULs are left there. -/
theorem request_unframed (e : Endpoint) (old : Parser.Data) :
    ¬ (FieldsAgree e old ∧ Framed e old) ∧ (FieldsAgree e old ↔ old[8] = 0 ∧ old[9] = 0) :=
  ⟨fun h => not_framed e old h.2, fieldsAgree_iff⟩

def plainEndpoint : Endpoint := ⟨#v[1, 2, 3, 4], 80⟩

/-- The old content is taken for the user id. -/
theorem leftover_read_as_user : ¬ (FieldsAgree plainEndpoint filled ∧
    Framed plainEndpoint filled) ∧ ¬ FieldsAgree plainEndpoint filled := by
  refine ⟨fun h => not_framed _ _ h.2, ?_⟩
  intro hfields
  have hzero := (fieldsAgree_iff.mp hfields).1
  have hbyte : filled[8] = 120 := by
    simp [filled]
  exact absurd (hbyte.symm.trans hzero) (by decide)

end NetworkProgramming.Console
