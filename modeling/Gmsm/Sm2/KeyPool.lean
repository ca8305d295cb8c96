import Gmsm.Bytes
import Gmsm.SyncPool

/-! `keyPool`, `GenerateKeyWithPool` and `ReturnKey` of package `sm2`, called by any number of
callers whose steps interleave at the pool's `Get` and `Put`. -/

namespace Gmsm.Sm2

/-- The curve `P256Sm2()` as `GenerateKeyWithPool` reads it: the order `N` and `BitSize` of its
`Params()`, and its `ScalarBaseMult`. -/
structure Curve where
  N : Nat
  bitSize : Nat
  scalarBaseMult : List UInt8 → Nat × Nat
  two_lt_N : 2 < N

/-- `sm2.PublicKey`: the embedded `elliptic.Curve` and the point `X, Y`; `none` is `nil`. -/
structure PublicKey where
  curve : Option Curve
  X : Option Nat
  Y : Option Nat

/-- `sm2.PrivateKey`: the embedded `PublicKey` and the scalar `D`. -/
structure PrivateKey where
  publicKey : PublicKey
  D : Option Nat

namespace PrivateKey

/-- `&PrivateKey{}`, what `keyPool`'s `New` returns. -/
def zero : PrivateKey := ⟨⟨none, none, none⟩, none⟩

def Cleared (k : PrivateKey) : Prop := k.D = none ∧ k.publicKey.X = none ∧ k.publicKey.Y = none

theorem zero_cleared : zero.Cleared := ⟨rfl, rfl, rfl⟩

end PrivateKey

/-- `k` in `GenerateKeyWithPool`: `SetBytes(b) mod (N - 2) + 1`. -/
def scalar (c : Curve) (b : List UInt8) : Nat := BigInt.setBytes b % (c.N - 2) + 1

theorem scalar_range (c : Curve) (b : List UInt8) : 1 ≤ scalar c b ∧ scalar c b ≤ c.N - 2 := by
  have := Nat.mod_lt (BigInt.setBytes b) (Nat.sub_pos_of_lt c.two_lt_N)
  constructor <;> unfold scalar <;> omega

/-- The stores of `GenerateKeyWithPool` into `priv`. -/
def fill (c : Curve) (b : List UInt8) (priv : PrivateKey) : PrivateKey :=
  let k := scalar c b
  let (X, Y) := c.scalarBaseMult (BigInt.bytes k)
  { priv with publicKey.curve := some c, D := some k, publicKey.X := some X, publicKey.Y := some Y }

theorem fill_eq (c : Curve) (b : List UInt8) (priv : PrivateKey) :
    fill c b priv = ⟨⟨some c, some (c.scalarBaseMult (BigInt.bytes (scalar c b))).1,
      some (c.scalarBaseMult (BigInt.bytes (scalar c b))).2⟩, some (scalar c b)⟩ := rfl

/-- `GenerateKeyWithPool` after its `keyPool.Get()` returned `priv`. -/
def finishKey (c : Curve) (random : Reader) (priv : Nat) (keyPool : Pool PrivateKey) :
    Except ReadErr Nat × Pool PrivateKey :=
  match readFull random (c.bitSize / 8 + 8) with
  | .error err => (.error err, keyPool.put priv)
  | .ok b => (.ok priv, keyPool.write priv (fill c b (keyPool.heap priv)))

def randAfter (c : Curve) : Option Reader → Reader → Reader
  | none, randReader => randReader.advance (c.bitSize / 8 + 8)
  | some _, randReader => randReader

/-- `GenerateKeyWithPool(random)`, with the runtime's `choice` in `keyPool.Get()`. -/
def generateKeyWithPool (c : Curve) (random : Option Reader) (choice : Option Nat)
    (keyPool : Pool PrivateKey) (randReader : Reader) :
    Option ((Except ReadErr Nat × Pool PrivateKey) × Reader) :=
  (keyPool.get PrivateKey.zero choice).map fun (priv, keyPool) =>
    (finishKey c (random.getD randReader) priv keyPool, randAfter c random randReader)

/-- `ReturnKey(priv)`. -/
def returnKey : Option Nat → Pool PrivateKey → Pool PrivateKey
  | none, keyPool => keyPool
  | some priv, keyPool =>
    let k := keyPool.heap priv
    (keyPool.write priv { k with D := none, publicKey.X := none, publicKey.Y := none }).put priv

/-- Where a caller of the pool is: in `GenerateKeyWithPool` before or after its `Get`, out of it
with an error or a key, or past its `ReturnKey`, keeping the pointer. -/
inductive Caller where
  | calling (random : Option Reader)
  | acquired (priv : Nat) (random : Option Reader)
  | failed (err : ReadErr)
  | holding (priv : Nat)
  | released (priv : Nat)

namespace Caller

def ref : Caller → Option Nat
  | acquired priv _ => some priv
  | holding priv => some priv
  | _ => none

def ofResult : Except ReadErr Nat → Caller
  | .error err => failed err
  | .ok priv => holding priv

end Caller

structure KeySys where
  keyPool : Pool PrivateKey
  randReader : Reader
  callers : List Caller

def KeySys.init (randReader : Reader) : KeySys := ⟨Pool.empty PrivateKey.zero, randReader, []⟩

/-- One atomic step: a new caller calls `GenerateKeyWithPool` or holds a key made without the
pool; caller `i` takes its `Get`, its `io.ReadFull` with the rest of the call, its `ReturnKey`,
or a second `ReturnKey`; the runtime drops a kept container. -/
inductive Act where
  | generate (random : Option Reader)
  | own (key : PrivateKey)
  | get (i : Nat) (choice : Option Nat)
  | read (i : Nat)
  | returnKey (i : Nat)
  | returnAgain (i : Nat)
  | collect (priv : Nat)

def Act.caller : Act → Option Nat
  | .get i _ | .read i | .returnKey i | .returnAgain i => some i
  | _ => none

def Act.repeatsRelease : Act → Bool
  | .returnAgain _ => true
  | _ => false

section Steps
variable (p256Sm2 : Curve)

def step (s : KeySys) : Act → Option KeySys
  | .generate random => some { s with callers := s.callers ++ [.calling random] }
  | .own key =>
    some { s with keyPool := (s.keyPool.alloc key).2, callers := s.callers ++ [.holding s.keyPool.next] }
  | .get i choice =>
    match s.callers[i]? with
    | some (.calling random) => (s.keyPool.get PrivateKey.zero choice).map fun (priv, keyPool) =>
        { s with keyPool := keyPool, callers := s.callers.set i (.acquired priv random) }
    | _ => none
  | .read i =>
    match s.callers[i]? with
    | some (.acquired priv random) =>
      let result := finishKey p256Sm2 (random.getD s.randReader) priv s.keyPool
      some ⟨result.2, randAfter p256Sm2 random s.randReader, s.callers.set i (.ofResult result.1)⟩
    | _ => none
  | .returnKey i =>
    match s.callers[i]? with
    | some (.holding priv) =>
      some { s with keyPool := returnKey (some priv) s.keyPool, callers := s.callers.set i (.released priv) }
    | some (.failed _) => some { s with keyPool := returnKey none s.keyPool }
    | _ => none
  | .returnAgain i =>
    match s.callers[i]? with
    | some (.released priv) => some { s with keyPool := returnKey (some priv) s.keyPool }
    | _ => none
  | .collect priv =>
    if priv ∈ s.keyPool.free then some { s with keyPool := s.keyPool.drop priv } else none

def run (s : KeySys) (acts : List Act) : Option KeySys := acts.foldlM (step p256Sm2) s

theorem run_get_read {s : KeySys} {i : Nat} {random : Option Reader} (choice : Option Nat)
    (hi : s.callers[i]? = some (.calling random)) :
    run p256Sm2 s [.get i choice, .read i] =
      (generateKeyWithPool p256Sm2 random choice s.keyPool s.randReader).map
        fun ((result, keyPool), randReader) =>
          ⟨keyPool, randReader, s.callers.set i (.ofResult result)⟩ := by
  have hlt := (List.getElem?_eq_some_iff.1 hi).1
  cases hg : s.keyPool.get PrivateKey.zero choice with
  | none => simp [run, step, hi, hg, generateKeyWithPool]
  | some x => simp [run, step, hi, hg, generateKeyWithPool, hlt]

variable {p256Sm2} {s s' : KeySys}

theorem step_get {i : Nat} {choice : Option Nat} (h : step p256Sm2 s (.get i choice) = some s') :
    ∃ random priv keyPool, s.callers[i]? = some (.calling random) ∧
      s.keyPool.get PrivateKey.zero choice = some (priv, keyPool) ∧
      s' = { s with keyPool := keyPool, callers := s.callers.set i (.acquired priv random) } := by
  simp only [step] at h
  split at h
  · obtain ⟨⟨priv, keyPool⟩, hg, rfl⟩ := Option.map_eq_some'.1 h
    exact ⟨_, priv, keyPool, ‹_›, hg, rfl⟩
  · cases h

theorem step_read {i : Nat} (h : step p256Sm2 s (.read i) = some s') :
    ∃ priv random, s.callers[i]? = some (.acquired priv random) ∧
      s' = ⟨(finishKey p256Sm2 (random.getD s.randReader) priv s.keyPool).2,
        randAfter p256Sm2 random s.randReader,
        s.callers.set i (.ofResult (finishKey p256Sm2 (random.getD s.randReader) priv s.keyPool).1)⟩ := by
  simp only [step] at h
  split at h <;> cases h
  exact ⟨_, _, ‹_›, rfl⟩

theorem step_returnKey {i : Nat} (h : step p256Sm2 s (.returnKey i) = some s') :
    (∃ priv, s.callers[i]? = some (.holding priv) ∧
      s' = { s with
        keyPool := returnKey (some priv) s.keyPool, callers := s.callers.set i (.released priv) }) ∨
    (∃ err, s.callers[i]? = some (.failed err) ∧ s' = s) := by
  simp only [step] at h
  split at h <;> cases h
  · exact .inl ⟨_, ‹_›, rfl⟩
  · exact .inr ⟨_, ‹_›, rfl⟩

theorem step_returnAgain {i : Nat} (h : step p256Sm2 s (.returnAgain i) = some s') :
    ∃ priv, s.callers[i]? = some (.released priv) ∧
      s' = { s with keyPool := returnKey (some priv) s.keyPool } := by
  simp only [step] at h
  split at h <;> cases h
  exact ⟨_, ‹_›, rfl⟩

theorem step_collect {priv : Nat} (h : step p256Sm2 s (.collect priv) = some s') :
    s' = { s with keyPool := s.keyPool.drop priv } := by
  simp only [step] at h
  split at h <;> cases h
  rfl

end Steps

@[simp] theorem returnKey_free (priv : Nat) (keyPool : Pool PrivateKey) :
    (returnKey (some priv) keyPool).free = priv :: keyPool.free := rfl

@[simp] theorem returnKey_next (o : Option Nat) (keyPool : Pool PrivateKey) :
    (returnKey o keyPool).next = keyPool.next := by
  cases o <;> rfl

theorem returnKey_cleared (o : Option Nat) {keyPool : Pool PrivateKey} {r : Nat}
    (h : (keyPool.heap r).Cleared) : ((returnKey o keyPool).heap r).Cleared := by
  cases o with
  | none => exact h
  | some priv =>
    by_cases hr : r = priv
    · subst hr; simp [returnKey, PrivateKey.Cleared]
    · simpa [returnKey, Function.update_noteq hr] using h

theorem returnKey_cleared_self (priv : Nat) (keyPool : Pool PrivateKey) :
    ((returnKey (some priv) keyPool).heap priv).Cleared := by
  simp [returnKey, PrivateKey.Cleared]

theorem returnKey_heap_of_ne {priv r : Nat} (keyPool : Pool PrivateKey) (h : r ≠ priv) :
    (returnKey (some priv) keyPool).heap r = keyPool.heap r := by
  simp [returnKey, Function.update_noteq h]

theorem finishKey_heap_of_ne {c : Curve} {random : Reader} {priv r : Nat}
    {keyPool : Pool PrivateKey} (h : r ≠ priv) :
    (finishKey c random priv keyPool).2.heap r = keyPool.heap r := by
  unfold finishKey
  split <;> simp [Function.update_noteq h]

theorem randAfter_eq (c : Curve) (random : Option Reader) (randReader : Reader) :
    randAfter c random randReader = if random = none then
      ⟨randReader.bytes.drop (c.bitSize / 8 + 8), randReader.err⟩ else randReader := by
  cases random <;> rfl

structure KeySys.Inv (s : KeySys) : Prop where
  exclusive : s.keyPool.Exclusive (held Caller.ref s.callers)
  free_cleared : ∀ priv ∈ s.keyPool.free, (s.keyPool.heap priv).Cleared
  acquired_cleared : ∀ (i priv : Nat) (random : Option Reader),
    s.callers[i]? = some (.acquired priv random) → (s.keyPool.heap priv).Cleared

namespace KeySys.Inv
variable {s : KeySys} {i j priv : Nat} {c d : Caller}

theorem init (randReader : Reader) : (KeySys.init randReader).Inv :=
  ⟨⟨List.nodup_nil, by simp [KeySys.init, Pool.empty, held]⟩, by simp [KeySys.init, Pool.empty],
    by simp [KeySys.init]⟩

theorem lt_next (h : s.Inv) (hi : s.callers[i]? = some c) (hc : c.ref = some priv) :
    priv < s.keyPool.next :=
  h.exclusive.lt_next (mem_held hi hc)

theorem ref_ne (h : s.Inv) (hi : s.callers[i]? = some c) (hc : c.ref = some priv)
    {r : Nat} (hj : s.callers[j]? = some d) (hd : d.ref = some r) (hij : j ≠ i) : r ≠ priv := by
  rintro rfl
  exact hij (held_unique h.exclusive.nodup_held hj hd hi hc)

theorem generate (h : s.Inv) (random : Option Reader) :
    KeySys.Inv { s with callers := s.callers ++ [.calling random] } where
  exclusive := by simpa [held_cons, Caller.ref] using h.exclusive
  free_cleared := h.free_cleared
  acquired_cleared j priv random' hj := by
    rcases getElem?_append_single hj with hj | hc
    · exact h.acquired_cleared j priv random' hj
    · cases hc

theorem own (h : s.Inv) (key : PrivateKey) :
    KeySys.Inv { s with
      keyPool := (s.keyPool.alloc key).2, callers := s.callers ++ [.holding s.keyPool.next] } where
  exclusive := (h.exclusive.alloc key).perm (by
    simpa [held_cons, Caller.ref] using (List.perm_append_singleton _ _).symm)
  free_cleared r hr := by
    have hne : r ≠ s.keyPool.next := Nat.ne_of_lt (h.exclusive.allocated r (List.mem_append_left _ hr))
    simpa [Function.update_noteq hne] using h.free_cleared r hr
  acquired_cleared j r random hj := by
    rcases getElem?_append_single hj with hj | hc
    · simpa [Function.update_noteq (Nat.ne_of_lt (h.lt_next hj rfl))] using
        h.acquired_cleared j r random hj
    · cases hc

theorem get (h : s.Inv) {random : Option Reader} (hi : s.callers[i]? = some (.calling random))
    {choice : Option Nat} {keyPool : Pool PrivateKey}
    (hg : s.keyPool.get PrivateKey.zero choice = some (priv, keyPool)) :
    KeySys.Inv { s with keyPool := keyPool, callers := s.callers.set i (.acquired priv random) } where
  exclusive := (h.exclusive.get hg).perm
    (held_set_acquire Caller.ref (.acquired priv random) hi rfl rfl).symm
  free_cleared r hr := by
    have hr' := Pool.get_free_subset hg hr
    rw [Pool.get_heap_of_lt hg (h.exclusive.allocated r (List.mem_append_left _ hr'))]
    exact h.free_cleared r hr'
  acquired_cleared j r random'' hj := by
    rcases getElem?_set_cases hj with ⟨-, hc⟩ | ⟨hji, hj⟩
    · cases hc
      rcases Pool.get_heap_self hg with h0 | ⟨hf, h1⟩
      · rw [h0]; exact PrivateKey.zero_cleared
      · rw [h1]; exact h.free_cleared _ hf
    · rw [Pool.get_heap_of_lt hg (h.lt_next hj rfl)]
      exact h.acquired_cleared j r _ hj

theorem putBack (h : s.Inv) {random : Option Reader}
    (hi : s.callers[i]? = some (.acquired priv random)) (err : ReadErr) (randReader : Reader) :
    KeySys.Inv ⟨s.keyPool.put priv, randReader, s.callers.set i (.failed err)⟩ where
  exclusive := (h.exclusive.perm (held_set_release Caller.ref (.failed err) hi rfl rfl)).put
  free_cleared r hr := by
    rcases List.mem_cons.1 hr with rfl | hr
    · exact h.acquired_cleared i r random hi
    · exact h.free_cleared r hr
  acquired_cleared j r random' hj := by
    rcases getElem?_set_cases hj with ⟨-, hc⟩ | ⟨-, hj⟩
    · cases hc
    · exact h.acquired_cleared j r random' hj

theorem fill (h : s.Inv) {random : Option Reader}
    (hi : s.callers[i]? = some (.acquired priv random)) (k : PrivateKey) (randReader : Reader) :
    KeySys.Inv ⟨s.keyPool.write priv k, randReader, s.callers.set i (.holding priv)⟩ where
  exclusive := (h.exclusive.perm (held_set_keep Caller.ref (.holding priv) hi rfl).symm).write priv k
  free_cleared r hr := by
    have hne : r ≠ priv := fun hr' => h.exclusive.not_mem_free (mem_held hi rfl) (hr' ▸ hr)
    simpa [Function.update_noteq hne] using h.free_cleared r hr
  acquired_cleared j r random' hj := by
    rcases getElem?_set_cases hj with ⟨-, hc⟩ | ⟨hji, hj⟩
    · cases hc
    · simpa [Function.update_noteq (h.ref_ne hi rfl hj rfl hji)] using
        h.acquired_cleared j r random' hj

theorem read (h : s.Inv) {random : Option Reader}
    (hi : s.callers[i]? = some (.acquired priv random)) (p256Sm2 : Curve) (r randReader : Reader) :
    KeySys.Inv ⟨(finishKey p256Sm2 r priv s.keyPool).2, randReader,
      s.callers.set i (.ofResult (finishKey p256Sm2 r priv s.keyPool).1)⟩ := by
  unfold finishKey
  split
  · exact h.putBack hi _ _
  · exact h.fill hi _ _

theorem returnKey (h : s.Inv) (hi : s.callers[i]? = some (.holding priv)) :
    KeySys.Inv { s with
      keyPool := returnKey (some priv) s.keyPool, callers := s.callers.set i (.released priv) } where
  exclusive := ((h.exclusive.perm (held_set_release Caller.ref (.released priv) hi rfl rfl)).write priv _).put
  free_cleared r hr := by
    rcases List.mem_cons.1 hr with rfl | hr
    · exact returnKey_cleared_self _ _
    · exact returnKey_cleared (some priv) (h.free_cleared r hr)
  acquired_cleared j r random hj := by
    rcases getElem?_set_cases hj with ⟨-, hc⟩ | ⟨-, hj⟩
    · cases hc
    · exact returnKey_cleared (some priv) (h.acquired_cleared j r random hj)

theorem collect (h : s.Inv) (priv : Nat) : KeySys.Inv { s with keyPool := s.keyPool.drop priv } :=
  ⟨h.exclusive.drop priv, fun r hr => h.free_cleared r (List.mem_of_mem_erase hr),
    h.acquired_cleared⟩

variable {p256Sm2 : Curve} {s' : KeySys}

theorem of_step (h : s.Inv) {a : Act} (ha : a.repeatsRelease = false)
    (hs : step p256Sm2 s a = some s') : s'.Inv := by
  cases a with
  | generate random => cases hs; exact h.generate random
  | own key => cases hs; exact h.own key
  | get i choice =>
    obtain ⟨random, priv, keyPool, hi, hg, rfl⟩ := step_get hs
    exact h.get hi hg
  | read i =>
    obtain ⟨priv, random, hi, rfl⟩ := step_read hs
    exact h.read hi p256Sm2 _ _
  | returnKey i =>
    rcases step_returnKey hs with ⟨priv, hi, rfl⟩ | ⟨-, -, rfl⟩
    · exact h.returnKey hi
    · exact h
  | returnAgain i => cases ha
  | collect priv => rw [step_collect hs]; exact h.collect priv

theorem of_run (h : s.Inv) {acts : List Act} (hacts : ∀ a ∈ acts, a.repeatsRelease = false) :
    ∀ s' ∈ run p256Sm2 s acts, s'.Inv :=
  fun _ hs' => foldlM_invariant KeySys.Inv (fun _ _ _ h₁ ha hs => h₁.of_step ha hs) h hacts hs'

theorem step_frame (h : s.Inv) {a : Act} (ha : a.repeatsRelease = false) (hai : a.caller ≠ some i)
    (hs : step p256Sm2 s a = some s') (hi : s.callers[i]? = some c) :
    s'.callers[i]? = some c ∧ ∀ r, c.ref = some r → s'.keyPool.heap r = s.keyPool.heap r := by
  have happ (d : Caller) : (s.callers ++ [d])[i]? = some c :=
    (List.getElem?_append_left (List.getElem?_eq_some_iff.1 hi).1).trans hi
  have hset {j : Nat} (hj : a.caller = some j) (d : Caller) : (s.callers.set j d)[i]? = some c :=
    (List.getElem?_set_ne fun (e : j = i) => hai (e ▸ hj)).trans hi
  have hne {j priv r : Nat} {d : Caller} (hcj : a.caller = some j) (hj : s.callers[j]? = some d)
      (hd : d.ref = some priv) (hr : c.ref = some r) : r ≠ priv :=
    h.ref_ne hj hd hi hr fun e => hai (e ▸ hcj)
  cases a with
  | generate random => cases hs; exact ⟨happ _, fun _ _ => rfl⟩
  | own key =>
    cases hs
    exact ⟨happ _, fun r hr => by simp [Function.update_noteq (Nat.ne_of_lt (h.lt_next hi hr))]⟩
  | get j choice =>
    obtain ⟨random, priv, keyPool, -, hg, rfl⟩ := step_get hs
    exact ⟨hset rfl _, fun r hr => Pool.get_heap_of_lt hg (h.lt_next hi hr)⟩
  | read j =>
    obtain ⟨priv, random, hj, rfl⟩ := step_read hs
    exact ⟨hset rfl _, fun r hr => finishKey_heap_of_ne (hne rfl hj rfl hr)⟩
  | returnKey j =>
    rcases step_returnKey hs with ⟨priv, hj, rfl⟩ | ⟨-, -, rfl⟩
    · exact ⟨hset rfl _, fun r hr => returnKey_heap_of_ne _ (hne rfl hj rfl hr)⟩
    · exact ⟨hi, fun _ _ => rfl⟩
  | returnAgain j => cases ha
  | collect priv => rw [step_collect hs]; exact ⟨hi, fun _ _ => rfl⟩

theorem run_frame (h : s.Inv) {acts : List Act}
    (hacts : ∀ a ∈ acts, a.caller ≠ some i ∧ a.repeatsRelease = false)
    (hi : s.callers[i]? = some c) :
    ∀ s' ∈ run p256Sm2 s acts,
      s'.callers[i]? = some c ∧ ∀ r, c.ref = some r → s'.keyPool.heap r = s.keyPool.heap r := by
  intro s' hs'
  refine (foldlM_invariant (fun s' => s'.Inv ∧ s'.callers[i]? = some c ∧
    ∀ r, c.ref = some r → s'.keyPool.heap r = s.keyPool.heap r) ?_ ⟨h, hi, fun _ _ => rfl⟩
    hacts hs').2
  rintro s₁ a s₂ ⟨h₁, hi₁, hr₁⟩ ⟨hai, ha⟩ hs
  obtain ⟨hi₂, hr₂⟩ := h₁.step_frame ha hai hs hi₁
  exact ⟨h₁.of_step ha hs, hi₂, fun r hr => (hr₂ r hr).trans (hr₁ r hr)⟩

end KeySys.Inv

section Freshness
variable (p256Sm2 : Curve)

theorem step_read_acquired {s : KeySys} {i priv : Nat} {random : Option Reader}
    (hi : s.callers[i]? = some (.acquired priv random)) :
    step p256Sm2 s (.read i) =
      some ⟨(finishKey p256Sm2 (random.getD s.randReader) priv s.keyPool).2,
        randAfter p256Sm2 random s.randReader,
        s.callers.set i (.ofResult (finishKey p256Sm2 (random.getD s.randReader) priv s.keyPool).1)⟩ := by
  simp only [step, hi]

/-- What `GenerateKeyWithPool` guarantees in a state: the pool keeps only empty containers, a
caller inside the call holds the empty container it took, and its read (from its own source, or
from `rand.Reader`, then advanced past the bytes read, if that was `nil`) either puts exactly
that container back and fails, or fills it from the bytes read alone. -/
def GeneratesFresh (s : KeySys) : Prop :=
  (∀ priv ∈ s.keyPool.free, (s.keyPool.heap priv).Cleared) ∧
  ∀ (i priv : Nat) (random : Option Reader), s.callers[i]? = some (.acquired priv random) →
    (s.keyPool.heap priv).Cleared ∧
    let randReader : Reader := if random = none then
      ⟨s.randReader.bytes.drop (p256Sm2.bitSize / 8 + 8), s.randReader.err⟩ else s.randReader
    match readFull (random.getD s.randReader) (p256Sm2.bitSize / 8 + 8) with
    | .error err => step p256Sm2 s (.read i) =
        some ⟨s.keyPool.put priv, randReader, s.callers.set i (.failed err)⟩
    | .ok b =>
      let d := BigInt.setBytes b % (p256Sm2.N - 2) + 1
      b.length = p256Sm2.bitSize / 8 + 8 ∧ 1 ≤ d ∧ d ≤ p256Sm2.N - 2 ∧
      ∃ s', step p256Sm2 s (.read i) = some s' ∧ s'.randReader = randReader ∧
        s'.callers[i]? = some (.holding priv) ∧
        s'.keyPool.heap priv = ⟨⟨some p256Sm2, some (p256Sm2.scalarBaseMult (BigInt.bytes d)).1,
          some (p256Sm2.scalarBaseMult (BigInt.bytes d)).2⟩, some d⟩

theorem generateKeyWithPool_fresh (randReader : Reader) (acts : List Act)
    (hacts : ∀ a ∈ acts, a.repeatsRelease = false) :
    ∀ s ∈ run p256Sm2 (KeySys.init randReader) acts, GeneratesFresh p256Sm2 s := by
  intro s hs
  have h := (KeySys.Inv.init randReader).of_run hacts s hs
  refine ⟨h.free_cleared, fun i priv random hi => ⟨h.acquired_cleared i priv random hi, ?_⟩⟩
  dsimp only
  rw [step_read_acquired p256Sm2 hi, randAfter_eq]
  unfold finishKey
  split
  · rfl
  · rename_i b hb
    have hlt : i < s.callers.length := (List.getElem?_eq_some_iff.1 hi).1
    exact ⟨readFull_length hb, (scalar_range p256Sm2 b).1, (scalar_range p256Sm2 b).2, _, rfl, rfl,
      List.getElem?_set_self hlt, by simp [fill_eq, scalar]⟩

theorem generateKeyWithPool_fresh_recycled :
    let c : Curve := ⟨7, 8, fun b => (b.length, 0), by decide⟩
    let acts : List Act :=
      [.generate none, .get 0 none, .generate none, .get 1 none, .read 0, .read 1, .returnKey 0,
        .returnKey 1, .generate (some ⟨[2, 2], .EOF⟩), .get 2 (some 0), .read 2, .generate none,
        .get 3 (some 0)]
    (run c (KeySys.init ⟨List.replicate 27 1, .EOF⟩) acts).map
        (fun s => (s.keyPool.free, s.callers[3]?)) = some ([1], some (.acquired 0 none)) ∧
      ∀ s ∈ run c (KeySys.init ⟨List.replicate 27 1, .EOF⟩) acts, GeneratesFresh c s :=
  ⟨rfl, generateKeyWithPool_fresh _ _ _ (by decide)⟩

end Freshness

section Ownership
variable (p256Sm2 : Curve)

/-- Ownership in a state: the pool keeps each container once, no container is both kept and
owned, or owned by two callers, and no run of the others' steps without a repeated `ReturnKey`
moves a caller or changes what its container holds; `ReturnKey(nil)` changes nothing, and a
repeated `ReturnKey` files the container once more. -/
def OwnedOnce (s : KeySys) : Prop :=
  s.keyPool.free.Nodup ∧
  (∀ (i j priv : Nat) (c d : Caller), s.callers[i]? = some c → c.ref = some priv →
    s.callers[j]? = some d → d.ref = some priv → i = j ∧ priv ∉ s.keyPool.free) ∧
  (∀ (i : Nat) (c : Caller) (acts : List Act), s.callers[i]? = some c →
    (∀ a ∈ acts, a.caller ≠ some i ∧ a.repeatsRelease = false) →
    ∀ s' ∈ run p256Sm2 s acts, s'.callers[i]? = some c ∧
      ∀ priv, c.ref = some priv → s'.keyPool.heap priv = s.keyPool.heap priv) ∧
  (∀ (i : Nat) (err : ReadErr), s.callers[i]? = some (.failed err) →
    step p256Sm2 s (.returnKey i) = some s) ∧
  ∀ (i priv : Nat), s.callers[i]? = some (.released priv) →
    ∀ s' ∈ step p256Sm2 s (.returnAgain i),
      s'.keyPool.free.count priv = s.keyPool.free.count priv + 1

theorem returnKey_once_exclusive (randReader : Reader) (acts : List Act)
    (hacts : ∀ a ∈ acts, a.repeatsRelease = false) :
    ∀ s ∈ run p256Sm2 (KeySys.init randReader) acts, OwnedOnce p256Sm2 s := by
  intro s hs
  have h := (KeySys.Inv.init randReader).of_run hacts s hs
  refine ⟨(List.sublist_append_left _ _).nodup h.exclusive.nodup,
    fun i j priv c d hi hc hj hd => ⟨held_unique h.exclusive.nodup_held hi hc hj hd,
      h.exclusive.not_mem_free (mem_held hi hc)⟩,
    fun i c acts hi hacts => h.run_frame hacts hi, fun i err hi => by simp [step, hi, returnKey],
    fun i priv hi s' hs' => ?_⟩
  obtain ⟨r, hr, rfl⟩ := step_returnAgain hs'
  rw [hi, Option.some.injEq, Caller.released.injEq] at hr
  simp [hr]
theorem returnKey_once_exclusive_run :
    let c : Curve := ⟨7, 8, fun b => (b.length, 0), by decide⟩
    let acts : List Act :=
      [.generate none, .get 0 none, .read 0, .returnKey 0, .generate none, .own PrivateKey.zero,
        .returnKey 2, .get 1 (some 0), .read 1]
    (run c (KeySys.init ⟨List.replicate 18 1, .EOF⟩) acts).map
        (fun s => (s.keyPool.free, s.callers[1]?)) = some ([1], some (.holding 0)) ∧
      ∀ s ∈ run c (KeySys.init ⟨List.replicate 18 1, .EOF⟩) acts, OwnedOnce c s :=
  ⟨rfl, returnKey_once_exclusive _ _ _ (by decide)⟩

/-- A second `ReturnKey` of a returned container files it twice, and two later calls of
`GenerateKeyWithPool` both return it. -/
theorem returnKey_twice_double_issue :
    ∃ s ∈ run ⟨7, 8, fun b => (b.length, 0), by decide⟩ (KeySys.init ⟨List.replicate 27 0, .EOF⟩)
        [.generate none, .get 0 none, .read 0, .returnKey 0],
      s.keyPool.free = [0] ∧
      ∃ s' ∈ step ⟨7, 8, fun b => (b.length, 0), by decide⟩ s (.returnAgain 0),
        s'.keyPool.free = [0, 0] ∧
        ∃ s'' ∈ run ⟨7, 8, fun b => (b.length, 0), by decide⟩ s'
            [.generate none, .generate none, .get 1 (some 0), .get 2 (some 0), .read 1, .read 2],
          s''.callers[1]? = some (.holding 0) ∧ s''.callers[2]? = some (.holding 0) :=
  ⟨_, rfl, rfl, _, rfl, rfl, _, rfl, rfl, rfl⟩

end Ownership

end Gmsm.Sm2
