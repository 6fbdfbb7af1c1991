import NetworkProgramming.Socks.Parser

/-! Which indices the two loops of `session::SOCKS4_parser` read, in whatever packet a
client sends. -/
namespace NetworkProgramming.Socks.Parser
open Library.Buffer Firewall

/-- `data_[i]`; behind the array stands what the memory happens to hold. -/
def byteAt (data : Data) (behind : Nat → Byte) (i : Nat) : Byte :=
  if h : i < 1024 then data[i] else behind i

/-- `for(;data_[i]!='\0';i++)`, at most so many rounds: the indices it reads, and where
it ends. -/
def scanLoop (byteAt : Nat → Byte) : Nat → Nat → List Nat × Option Nat
  | 0, _ => ([], none)
  | rounds + 1, i =>
    if byteAt i = 0 then ([i], some i)
    else (i :: (scanLoop byteAt rounds (i + 1)).1, (scanLoop byteAt rounds (i + 1)).2)

/-- The loop of `USERID`, and the one of `DOMAIN_NAME` behind its NUL. -/
def parserReads (byteAt : Nat → Byte) (rounds : Nat) : List Nat :=
  match scanLoop byteAt rounds 8 with
  | (user, none) => user
  | (user, some i) => user ++ (scanLoop byteAt rounds (i + 1)).1

/-- The loops read what was received and nothing else, and they end in the array. -/
structure Contained (data : Data) (behind : Nat → Byte) (length : Nat) : Prop where
  reads : ∀ rounds, ∀ i ∈ parserReads (byteAt data behind) rounds, i < length
  ends : ∃ info, decode data = some info

variable {memory : Nat → Byte} {i j m rounds : Nat} {old : Data} {behind : Nat → Byte}
  {bytes field rest : List Byte}

theorem scanLoop_le (rounds : Nat) (hnul : memory (i + m) = 0) :
    (∀ j ∈ (scanLoop memory rounds i).1, j ≤ i + m) ∧
      ∀ j, (scanLoop memory rounds i).2 = some j → j ≤ i + m := by
  induction rounds generalizing i m with
  | zero => simp [scanLoop]
  | succ rounds ih =>
    rw [scanLoop]
    split
    next hzero =>
      refine ⟨?_, ?_⟩
      · intro j hj
        rw [List.mem_singleton.mp hj]
        exact Nat.le_add_right i m
      · intro j hj
        rw [← Option.some.inj hj]
        exact Nat.le_add_right i m
    next hzero =>
      obtain ⟨m, rfl⟩ : ∃ n, m = n + 1 := by
        refine Nat.exists_eq_succ_of_ne_zero ?_
        rintro rfl
        exact hzero hnul
      have hshift : i + 1 + m = i + (m + 1) := by omega
      obtain ⟨hreads, hend⟩ := @ih (i + 1) m (by rw [hshift]; exact hnul)
      rw [hshift] at hreads hend
      refine ⟨?_, hend⟩
      intro j hj
      rcases List.mem_cons.mp hj with rfl | hj
      · exact Nat.le_add_right j _
      · exact hreads j hj

theorem scanLoop_reaches (rounds : Nat) (h : ∀ k < m, memory (i + k) ≠ 0) (hrounds : m < rounds) :
    i + m ∈ (scanLoop memory rounds i).1 ∧
      (memory (i + m) = 0 → (scanLoop memory rounds i).2 = some (i + m)) := by
  induction m generalizing i rounds with
  | zero =>
    obtain ⟨rounds, rfl⟩ := Nat.exists_eq_succ_of_ne_zero (Nat.ne_of_gt hrounds)
    rw [scanLoop]
    split
    next => simp
    next hnul => simp [hnul]
  | succ m ih =>
    obtain ⟨rounds, rfl⟩ := Nat.exists_eq_succ_of_ne_zero (Nat.ne_of_gt (Nat.zero_lt_of_lt hrounds))
    have hshift : i + 1 + m = i + (m + 1) := by omega
    have hnext : ∀ k < m, memory (i + 1 + k) ≠ 0 := by
      intro k hk
      rw [show i + 1 + k = i + (k + 1) by omega]
      exact h (k + 1) (by omega)
    obtain ⟨hreads, hend⟩ := ih rounds hnext (by omega)
    rw [hshift] at hreads hend
    have hfirst : memory i ≠ 0 := h 0 (by omega)
    rw [scanLoop, if_neg hfirst]
    exact ⟨List.mem_cons_of_mem _ hreads, hend⟩

theorem scanLoop_end (h : (scanLoop memory rounds i).2 = some j) : i ≤ j ∧ memory j = 0 := by
  induction rounds generalizing i with
  | zero => contradiction
  | succ rounds ih =>
    rw [scanLoop] at h
    split at h
    next hnul =>
      obtain rfl := Option.some.inj h
      exact ⟨Nat.le_refl _, hnul⟩
    next =>
      obtain ⟨hle, hnul⟩ := ih h
      exact ⟨Nat.le_of_succ_le hle, hnul⟩

theorem byteAt_field (old : Data) (behind : Nat → Byte) (hlength : bytes.length ≤ 1024)
    (h : bytes.drop i = field ++ rest) :
    (∀ k < field.length, byteAt (fill old bytes) behind (i + k) ∈ field) ∧
      ∀ b, rest.head? = some b → byteAt (fill old bytes) behind (i + field.length) = b := by
  have hread : ∀ k b, (field ++ rest)[k]? = some b → byteAt (fill old bytes) behind (i + k) = b := by
    intro k b hb
    rw [← h, List.getElem?_drop] at hb
    obtain ⟨hlt, -⟩ := List.getElem?_eq_some_iff.mp hb
    rw [byteAt, dif_pos (by omega), fill_getElem, hb, Option.getD_some]
  constructor
  · intro k hk
    rw [hread k field[k] (by rw [List.getElem?_append_left hk, List.getElem?_eq_getElem hk])]
    exact List.getElem_mem hk
  · intro b hb
    apply hread
    rw [List.getElem?_append_right (Nat.le_refl _), Nat.sub_self, ← List.head?_eq_getElem?, hb]

theorem ne_zero_of_field (old : Data) (behind : Nat → Byte) (hlength : bytes.length ≤ 1024)
    (h : bytes.drop i = field ++ rest) (hfield : 0 ∉ field) :
    ∀ k < field.length, byteAt (fill old bytes) behind (i + k) ≠ 0 := by
  intro k hk hzero
  have hmem := (byteAt_field old behind hlength h).1 k hk
  rw [hzero] at hmem
  exact hfield hmem

theorem drop_fill (old : Data) (hlength : bytes.length ≤ 1024)
    (h : bytes.drop i = field ++ 0 :: rest) :
    (fill old bytes).toList.drop i = field ++ 0 :: (rest ++ old.toList.drop bytes.length) := by
  have hi : i ≤ bytes.length := by
    have hdrop := congrArg List.length h
    rw [List.length_drop, List.length_append, List.length_cons] at hdrop
    omega
  rw [fill_toList old hlength, List.drop_append_of_le_length hi, h, List.append_assoc, List.cons_append]

theorem drop_next (h : bytes.drop i = field ++ 0 :: rest) :
    bytes.drop (i + field.length + 1) = rest := by
  rw [Nat.add_assoc, ← List.drop_drop, h, List.drop_append]
  simp

theorem contained_of_nuls {user domain : List Byte} (hlength : bytes.length ≤ 1024)
    (h : bytes.drop 8 = user ++ 0 :: (domain ++ 0 :: rest)) (huser : 0 ∉ user)
    (hdomain : 0 ∉ domain) : Contained (fill old bytes) behind bytes.length := by
  have hdrop : bytes.drop (8 + user.length + 1) = domain ++ 0 :: rest := drop_next h
  have huserEnd := (byteAt_field old behind hlength h).2 0 rfl
  have hdomainEnd := (byteAt_field old behind hlength hdrop).2 0 rfl
  have hsize : 8 + user.length + 1 + domain.length < bytes.length := by
    have heq := congrArg List.length hdrop
    rw [List.length_drop, List.length_append, List.length_cons] at heq
    omega
  constructor
  · intro rounds j hj
    obtain ⟨hreads, hstop⟩ := scanLoop_le rounds huserEnd
    unfold parserReads at hj
    split at hj
    next reads hloop =>
      rw [hloop] at hreads
      have hle := hreads j hj
      omega
    next reads k hloop =>
      have hk : k = 8 + user.length := by
        have hle := hstop k (by rw [hloop])
        obtain ⟨hge, hnul⟩ := scanLoop_end (by rw [hloop] : (scanLoop _ rounds 8).2 = some k)
        by_contra hne
        have hfield := ne_zero_of_field old behind hlength h huser (k - 8) (by omega)
        rw [show 8 + (k - 8) = k by omega] at hfield
        exact hfield hnul
      rw [hloop] at hreads
      rcases List.mem_append.mp hj with hj | hj
      · have hle := hreads j hj
        omega
      · rw [hk] at hj
        have hle := (scanLoop_le rounds hdomainEnd).1 j hj
        omega
  · have hscanUser : scan (· == 0) (fill old bytes) 8 = some user :=
      scan_field (drop_fill old hlength h) (no_nul huser) rfl
    have hscanDomain : scan (· == 0) (fill old bytes) (8 + user.length + 1) = some domain :=
      scan_field (drop_fill old hlength hdrop) (no_nul hdomain) rfl
    unfold decode
    rw [hscanUser, Option.bind_eq_bind, Option.bind_some, hscanDomain]
    exact ⟨_, rfl⟩

/-- The loops stay within what was received exactly when there is a NUL for each behind
the first eight bytes. -/
theorem contained_iff (bytes : List Byte) (old : Data) (behind : Nat → Byte)
    (hlength : bytes.length ≤ 1024) :
    Contained (fill old bytes) behind bytes.length ↔ 2 ≤ (bytes.drop 8).count 0 := by
  by_cases huser : 0 ∈ bytes.drop 8
  · obtain ⟨user, more, h, hnotUser⟩ := List.eq_append_cons_of_mem huser
    have hcount : (bytes.drop 8).count 0 = more.count 0 + 1 := by
      rw [h, List.count_append, List.count_cons_self, List.count_eq_zero_of_not_mem hnotUser,
        Nat.zero_add]
    have hdrop : bytes.drop (8 + user.length + 1) = more := drop_next h
    by_cases hdomain : 0 ∈ more
    · obtain ⟨domain, rest, rfl, hnotDomain⟩ := List.eq_append_cons_of_mem hdomain
      refine iff_of_true (contained_of_nuls hlength h hnotUser hnotDomain) ?_
      have hpos := List.count_pos_iff.mpr hdomain
      omega
    · refine iff_of_false (fun hcontained => ?_) ?_
      · have hrest : bytes.drop (8 + user.length + 1) = more ++ [] := by rw [hdrop, List.append_nil]
        obtain ⟨-, hend⟩ := scanLoop_reaches (user.length + more.length + 1)
          (ne_zero_of_field old behind hlength h hnotUser) (by omega)
        obtain ⟨hread, -⟩ := scanLoop_reaches (user.length + more.length + 1)
          (ne_zero_of_field old behind hlength hrest hdomain) (by omega)
        have hstop := hend ((byteAt_field old behind hlength h).2 0 rfl)
        have hlt := hcontained.reads (user.length + more.length + 1)
          (8 + user.length + 1 + more.length) (by
            unfold parserReads
            split
            next hloop =>
              rw [hloop] at hstop
              contradiction
            next k hloop =>
              rw [hloop, Option.some.injEq] at hstop
              rw [hstop]
              exact List.mem_append_right _ hread)
        have hsize := congrArg List.length hdrop
        rw [List.length_drop] at hsize
        have hwhole := congrArg List.length h
        rw [List.length_drop, List.length_append, List.length_cons] at hwhole
        omega
      · rw [hcount, List.count_eq_zero_of_not_mem hdomain]
        decide
  · refine iff_of_false (fun hcontained => ?_) ?_
    · have hrest : bytes.drop 8 = bytes.drop 8 ++ [] := by rw [List.append_nil]
      obtain ⟨hread, -⟩ := scanLoop_reaches ((bytes.drop 8).length + 1)
        (ne_zero_of_field old behind hlength hrest huser) (by omega)
      have hlt := hcontained.reads ((bytes.drop 8).length + 1) (8 + (bytes.drop 8).length) (by
        unfold parserReads
        split
        next reads hloop =>
          rw [hloop] at hread
          exact hread
        next reads k hloop =>
          rw [hloop] at hread
          exact List.mem_append_left _ hread)
      rw [List.length_drop] at hlt
      omega
    · rw [List.count_eq_zero_of_not_mem huser]
      decide

theorem contained_iff_domain :
    Contained (fill filled [4, 1, 0, 80, 0, 0, 0, 1, 0, 97, 0]) (fun _ => 120) 11 ↔
      2 ≤ ([4, 1, 0, 80, 0, 0, 0, 1, 0, 97, 0].drop 8).count (0 : Byte) :=
  contained_iff [4, 1, 0, 80, 0, 0, 0, 1, 0, 97, 0] filled (fun _ => 120) (by decide)

/-- A plain CONNECT of nine bytes: the second loop reads the tenth. -/
theorem plain_request_overread :
    ¬ Contained (fill (Vector.replicate 1024 0) plainRequest.bytes) (fun _ => 0)
      plainRequest.bytes.length := by
  intro h
  have hread : 9 ∈ parserReads (byteAt (fill (Vector.replicate 1024 0) plainRequest.bytes)
      fun _ => 0) 1 := by decide +kernel
  exact absurd (h.reads 1 9 hread) (by decide)

end NetworkProgramming.Socks.Parser
