import NetworkProgramming.Single.State

/-! `load_env` and `do_printenv`: the variables of a client, kept in parallel
arrays of its slot. -/
namespace NetworkProgramming.Single
open Library.CString CommandLine

/-- The search of `load_env` for `key` among the first `env_num` entries. -/
def EnvMap.label (env : EnvMap) (key : Text) : Option Nat :=
  (List.range env.envNum).find? fun i => env.key i == key

def EnvMap.store (env : EnvMap) (i : Nat) (key value : Text) : EnvMap :=
  { env with
    key := Function.update env.key i key
    value := Function.update env.value i value }

def ClientMap.setEnv (m : ClientMap) (i : Nat) (env : EnvMap) : ClientMap :=
  { m with env := Function.update m.env i env }

@[simp] theorem ClientMap.setEnv_env_self (m : ClientMap) (i : Nat) (env : EnvMap) :
    (m.setEnv i env).env i = env := Function.update_self _ _ _

@[simp] theorem ClientMap.setEnv_env_of_ne (m : ClientMap) {i j : Nat} (h : j ≠ i) (env : EnvMap) :
    (m.setEnv i env).env j = m.env j := Function.update_of_ne h _ _

/-- `load_env` on the slot `i` it finds. A new key goes to the index that the
next slot's counter gives. -/
def ClientMap.putEnv (m : ClientMap) (i : Nat) (key val : Text) : Except Fault ClientMap :=
  let env := m.env i
  match env.label key with
  | some label =>
    if label < 100 then
      .ok (m.setEnv i { env with value := Function.update env.value label val })
    else .error .outOfRange
  | none =>
    if i + 1 < maxUserNum ∧ (m.env (i + 1)).envNum < 100 ∧ env.envNum ≤ 100 then
      .ok (m.setEnv i { env.store (m.env (i + 1)).envNum key val with envNum := env.envNum + 1 })
    else .error .outOfRange

def loadEnv (s : Server) (sockfd : Int) (envStr : Text) : Except Fault Server :=
  match strtok '=' envStr with
  | key :: val :: _ =>
    match s.clientsMap.indexOf sockfd with
    | none => .error .outOfRange
    | some i => (s.clientsMap.putEnv i key val).map fun m => { s with clientsMap := m }
  | _ => .error .nullPointer

/-- The loop returns in its first round, so only index 0 is looked at; `val` is
indeterminate (`none`) when that key is another or there is no round. -/
def EnvMap.first (env : EnvMap) (key : Text) : Option Text :=
  if env.envNum ≠ 0 ∧ env.key 0 = key then some (env.value 0) else none

def doPrintenv (s : Server) (sockfd : Int) (envStr : Text) : Except Fault (Option Text) :=
  match s.clientsMap.indexOf sockfd with
  | none => .error .uninitialised
  | some i => .ok ((s.clientsMap.env i).first envStr)

/-- `load_env` writes one slot of the environments, its caller's. -/
theorem ClientMap.putEnv_eq {m m' : ClientMap} {i : Nat} {key val : Text}
    (h : m.putEnv i key val = .ok m') : ∃ env, m' = m.setEnv i env := by
  unfold ClientMap.putEnv at h
  dsimp only at h
  split at h
  next =>
    split at h
    next =>
      cases h
      exact ⟨_, rfl⟩
    next => contradiction
  next =>
    split at h
    next =>
      cases h
      exact ⟨_, rfl⟩
    next => contradiction

theorem loadEnv_eq {s s' : Server} {sockfd : Int} {envStr : Text}
    (h : loadEnv s sockfd envStr = .ok s') :
    ∃ i key val rest m, strtok '=' envStr = key :: val :: rest ∧
      s.clientsMap.indexOf sockfd = some i ∧ s.clientsMap.putEnv i key val = .ok m ∧
      s' = { s with clientsMap := m } := by
  unfold loadEnv at h
  split at h
  next key val rest htok =>
    split at h
    next => contradiction
    next i hown =>
      cases hput : s.clientsMap.putEnv i key val with
      | error fault => simp [hput, Except.map] at h
      | ok m =>
        simp only [hput, Except.map, Except.ok.injEq] at h
        exact ⟨i, key, val, rest, m, htok, hown, hput, h.symm⟩
  next => contradiction

/-- After `load_env` the first entry of the slot is what was just set, unless
it has another key and is the same as before. -/
structure FirstSet (before after : EnvMap) (key val : Text) : Prop where
  used : after.envNum ≠ 0
  same : after.key 0 = key → after.value 0 = val
  other : after.key 0 ≠ key → after.key 0 = before.key 0 ∧ after.value 0 = before.value 0

theorem EnvMap.firstSet_label {env : EnvMap} {key : Text} {label : Nat} (val : Text)
    (hlabel : env.label key = some label) :
    FirstSet env { env with value := Function.update env.value label val } key val := by
  rw [EnvMap.label, List.find?_range_eq_some] at hlabel
  obtain ⟨hfound, hbelow, hfirst⟩ := hlabel
  rw [List.mem_range] at hbelow
  constructor
  · dsimp only
    omega
  · dsimp only
    intro hzero
    have hlabel : label = 0 := by
      by_contra hne
      have hmiss := hfirst 0 (by omega)
      simp [hzero] at hmiss
    rw [hlabel, Function.update_self]
  · dsimp only
    intro hother
    have hne : label ≠ 0 := by
      rintro rfl
      exact hother (by simpa using hfound)
    exact ⟨rfl, Function.update_of_ne (Ne.symm hne) _ _⟩

theorem EnvMap.firstSet_store {env : EnvMap} {key : Text} (index : Nat) (val : Text)
    (hkey : key ≠ []) (hunused : env.envNum = 0 → env.key 0 = [])
    (hlabel : env.label key = none) :
    FirstSet env { env.store index key val with envNum := env.envNum + 1 } key val := by
  constructor
  · dsimp only
    omega
  · dsimp only [EnvMap.store]
    intro hzero
    by_cases hindex : index = 0
    · rw [hindex, Function.update_self]
    · -- the key at index 0 was there before, so the search would have found it
      rw [Function.update_of_ne (Ne.symm hindex)] at hzero
      exfalso
      have hcount : env.envNum ≠ 0 := by
        intro hcount
        exact hkey (hzero.symm.trans (hunused hcount))
      rw [EnvMap.label, List.find?_eq_none] at hlabel
      have hmiss := hlabel 0 (by
        rw [List.mem_range]
        omega)
      simp [hzero] at hmiss
  · dsimp only [EnvMap.store]
    intro hother
    have hindex : index ≠ 0 := by
      rintro rfl
      exact hother (Function.update_self _ _ _)
    exact ⟨Function.update_of_ne (Ne.symm hindex) _ _, Function.update_of_ne (Ne.symm hindex) _ _⟩

theorem ClientMap.putEnv_first {m m' : ClientMap} {i : Nat} {key val : Text} (hkey : key ≠ [])
    (hunused : (m.env i).envNum = 0 → (m.env i).key 0 = [])
    (h : m.putEnv i key val = .ok m') : FirstSet (m.env i) (m'.env i) key val := by
  unfold ClientMap.putEnv at h
  dsimp only at h
  split at h
  next label hlabel =>
    split at h
    next =>
      cases h
      rw [ClientMap.setEnv_env_self]
      exact EnvMap.firstSet_label val hlabel
    next => contradiction
  next hlabel =>
    split at h
    next =>
      cases h
      rw [ClientMap.setEnv_env_self]
      exact EnvMap.firstSet_store _ val hkey hunused hlabel
    next => contradiction

end NetworkProgramming.Single
