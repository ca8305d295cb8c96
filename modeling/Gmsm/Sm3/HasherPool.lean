import Gmsm.SyncPool

/-! `pool`, `Get`, `Put`, `Sum`, `NewWriter` and `Writer` of package `sm3`, called by any number
of callers whose steps interleave at the pool's `Get` and `Put`. -/

namespace Gmsm.Sm3

/-- Modelled from the spec: an SM3 hasher (`New`, `Write`, `Sum` and `Reset` of `sm3.go` are not
in the sources) as the bytes it absorbed since `New()` or its last `Reset()`; its digest is a
function of them. -/
structure Hasher where
  absorbed : List UInt8
  deriving DecidableEq, Repr

namespace Hasher

/-- `New()`. -/
def new : Hasher := ⟨[]⟩

/-- `h.Write(p)`. -/
def write (h : Hasher) (p : List UInt8) : Hasher := ⟨h.absorbed ++ p⟩

/-- `h.Reset()`. -/
def reset (_ : Hasher) : Hasher := new

/-- `h.Sum(b)`, which leaves `h` as it is. -/
def sum (digest : List UInt8 → List UInt8) (h : Hasher) (b : List UInt8) : List UInt8 :=
  b ++ digest h.absorbed

@[simp] theorem new_absorbed : new.absorbed = [] := rfl
@[simp] theorem write_absorbed (h : Hasher) (p : List UInt8) :
    (h.write p).absorbed = h.absorbed ++ p := rfl
@[simp] theorem reset_absorbed (h : Hasher) : h.reset.absorbed = [] := rfl

end Hasher

/-- `copy(result[:], d)` into a zeroed `[32]byte`. -/
def copy32 (d : List UInt8) : List UInt8 := (d ++ List.replicate 32 0).take 32

section Functions
variable (digest : List UInt8 → List UInt8)

/-- `Get()`. -/
def get (choice : Option Nat) (pool : Pool Hasher) : Option (Nat × Pool Hasher) :=
  pool.get Hasher.new choice

/-- `Put(h)`. -/
def put (pool : Pool Hasher) (h : Nat) : Pool Hasher :=
  (pool.write h (pool.heap h).reset).put h

/-- The body of `Sum(data)` between its `Get()` and its deferred `Put(h)`. -/
def sumHash (h : Nat) (data : List UInt8) (pool : Pool Hasher) : List UInt8 × Pool Hasher :=
  let pool := pool.write h ((pool.heap h).write data)
  (copy32 ((pool.heap h).sum digest []), pool)

/-- `Sum(data)`, with the runtime's `choice` in `Get()`. -/
def sum (data : List UInt8) (choice : Option Nat) (pool : Pool Hasher) :
    Option (List UInt8 × Pool Hasher) :=
  (get choice pool).map fun (h, pool) =>
    ((sumHash digest h data pool).1, put (sumHash digest h data pool).2 h)

/-- What `Sum(data)` returns when nothing else touches its hasher: the digest of `New()` fed
`data` in one `Write`. -/
def freshSum (data : List UInt8) : List UInt8 := copy32 ((Hasher.new.write data).sum digest [])

/-- `Writer`. -/
structure Writer where
  h : Option Nat
  deriving DecidableEq, Repr

/-- `NewWriter()`. -/
def newWriter (choice : Option Nat) (pool : Pool Hasher) : Option (Writer × Pool Hasher) :=
  (get choice pool).map fun (h, pool) => (⟨some h⟩, pool)

namespace Writer

/-- `w.Write(p)`; `none` where Go dereferences the `nil` hasher of a closed writer. -/
def write (w : Writer) (p : List UInt8) (pool : Pool Hasher) : Option (Pool Hasher) :=
  w.h.map fun h => pool.write h ((pool.heap h).write p)

/-- `w.Sum(b)`. -/
def sum (w : Writer) (b : List UInt8) (pool : Pool Hasher) : Option (List UInt8) :=
  w.h.map fun h => (pool.heap h).sum digest b

/-- `w.Reset()`. -/
def reset (w : Writer) (pool : Pool Hasher) : Option (Pool Hasher) :=
  w.h.map fun h => pool.write h (pool.heap h).reset

/-- `w.Close()`. -/
def close (w : Writer) (pool : Pool Hasher) : Writer × Pool Hasher :=
  match w.h with
  | some h => (⟨none⟩, put pool h)
  | none => (w, pool)

end Writer

end Functions

/-- Where a caller of the pool is: holding a hasher from `Get()` or `New()`, past its `Put`,
in the steps of a `Sum`, or holding a `Writer`; `written` is what it wrote since it got the hasher
or its last `Reset`. -/
inductive Holder where
  | got (h : Nat) (written : List UInt8)
  | released (h : Nat)
  | summing (data : List UInt8)
  | summingGot (h : Nat) (data : List UInt8)
  | summed (h : Nat) (data : List UInt8) (result : List UInt8)
  | sumDone (data : List UInt8) (result : List UInt8)
  | writer (w : Writer) (written : List UInt8)

namespace Holder

def expects : Holder → Option (Nat × List UInt8)
  | got h written => some (h, written)
  | summingGot h _ => some (h, [])
  | summed h data _ => some (h, data)
  | writer ⟨some h⟩ written => some (h, written)
  | _ => none

def ref (c : Holder) : Option Nat := c.expects.map Prod.fst

def result : Holder → Option (List UInt8 × List UInt8)
  | summed _ data result => some (data, result)
  | sumDone data result => some (data, result)
  | _ => none

end Holder

structure HashSys where
  pool : Pool Hasher
  holders : List Holder

def HashSys.init : HashSys := ⟨Pool.empty Hasher.new, []⟩

/-- One atomic step: a new caller calls `Get()`, `New()`, `Sum` or `NewWriter()`; caller `i`
writes, resets, calls `Put` or a second `Put`, takes a step of its `Sum` (the `Get()`, the
hashing, the deferred `Put`) or closes its writer; the runtime drops a kept hasher. -/
inductive Act where
  | get (choice : Option Nat)
  | new
  | write (i : Nat) (p : List UInt8)
  | reset (i : Nat)
  | put (i : Nat)
  | putAgain (i : Nat)
  | sum (data : List UInt8)
  | sumGet (i : Nat) (choice : Option Nat)
  | sumHash (i : Nat)
  | sumPut (i : Nat)
  | newWriter (choice : Option Nat)
  | close (i : Nat)
  | collect (h : Nat)

def Act.caller : Act → Option Nat
  | .write i _ | .reset i | .put i | .putAgain i | .sumGet i _ | .sumHash i | .sumPut i
  | .close i => some i
  | _ => none

def Act.repeatsPut : Act → Bool
  | .putAgain _ => true
  | _ => false

section Steps
variable (digest : List UInt8 → List UInt8)

def step (s : HashSys) : Act → Option HashSys
  | .get choice => (get choice s.pool).map fun (h, pool) => ⟨pool, s.holders ++ [.got h []]⟩
  | .new => some ⟨(s.pool.alloc Hasher.new).2, s.holders ++ [.got s.pool.next []]⟩
  | .write i p =>
    match s.holders[i]? with
    | some (.got h written) =>
      some ⟨s.pool.write h ((s.pool.heap h).write p), s.holders.set i (.got h (written ++ p))⟩
    | some (.writer w written) =>
      (w.write p s.pool).map fun pool => ⟨pool, s.holders.set i (.writer w (written ++ p))⟩
    | _ => none
  | .reset i =>
    match s.holders[i]? with
    | some (.got h _) => some ⟨s.pool.write h (s.pool.heap h).reset, s.holders.set i (.got h [])⟩
    | some (.writer w _) => (w.reset s.pool).map fun pool => ⟨pool, s.holders.set i (.writer w [])⟩
    | _ => none
  | .put i =>
    match s.holders[i]? with
    | some (.got h _) => some ⟨put s.pool h, s.holders.set i (.released h)⟩
    | _ => none
  | .putAgain i =>
    match s.holders[i]? with
    | some (.released h) => some ⟨put s.pool h, s.holders⟩
    | _ => none
  | .sum data => some ⟨s.pool, s.holders ++ [.summing data]⟩
  | .sumGet i choice =>
    match s.holders[i]? with
    | some (.summing data) =>
      (get choice s.pool).map fun (h, pool) => ⟨pool, s.holders.set i (.summingGot h data)⟩
    | _ => none
  | .sumHash i =>
    match s.holders[i]? with
    | some (.summingGot h data) =>
      some ⟨(sumHash digest h data s.pool).2,
        s.holders.set i (.summed h data (sumHash digest h data s.pool).1)⟩
    | _ => none
  | .sumPut i =>
    match s.holders[i]? with
    | some (.summed h data result) => some ⟨put s.pool h, s.holders.set i (.sumDone data result)⟩
    | _ => none
  | .newWriter choice =>
    (newWriter choice s.pool).map fun (w, pool) => ⟨pool, s.holders ++ [.writer w []]⟩
  | .close i =>
    match s.holders[i]? with
    | some (.writer w _) => some ⟨(w.close s.pool).2, s.holders.set i (.writer (w.close s.pool).1 [])⟩
    | _ => none
  | .collect h => if h ∈ s.pool.free then some ⟨s.pool.drop h, s.holders⟩ else none

def run (s : HashSys) (acts : List Act) : Option HashSys := acts.foldlM (step digest) s

theorem run_sum {s : HashSys} {i : Nat} {data : List UInt8} (choice : Option Nat)
    (hi : s.holders[i]? = some (.summing data)) :
    run digest s [.sumGet i choice, .sumHash i, .sumPut i] =
      (sum digest data choice s.pool).map fun (result, pool) =>
        ⟨pool, s.holders.set i (.sumDone data result)⟩ := by
  have hlt := (List.getElem?_eq_some_iff.1 hi).1
  cases hg : get choice s.pool with
  | none => simp [run, step, hi, hg, sum]
  | some x => simp [run, step, hi, hg, sum, hlt]

end Steps

section Inversion
variable {digest : List UInt8 → List UInt8} {s s' : HashSys} {i : Nat}

theorem step_get {choice : Option Nat} (hs : step digest s (.get choice) = some s') :
    ∃ h pool, get choice s.pool = some (h, pool) ∧ s' = ⟨pool, s.holders ++ [.got h []]⟩ := by
  obtain ⟨⟨h, pool⟩, hg, rfl⟩ := Option.map_eq_some'.1 hs
  exact ⟨h, pool, hg, rfl⟩

theorem step_write {p : List UInt8} (hs : step digest s (.write i p) = some s') :
    ∃ h written, (s.holders[i]? = some (.got h written) ∧
        s' = ⟨s.pool.write h ((s.pool.heap h).write p), s.holders.set i (.got h (written ++ p))⟩) ∨
      (s.holders[i]? = some (.writer ⟨some h⟩ written) ∧ s' = ⟨s.pool.write h ((s.pool.heap h).write p),
        s.holders.set i (.writer ⟨some h⟩ (written ++ p))⟩) := by
  simp only [step] at hs
  split at hs
  · cases hs; exact ⟨_, _, .inl ⟨‹_›, rfl⟩⟩
  · rename_i w written hi
    obtain ⟨_ | h⟩ := w <;> cases hs
    exact ⟨h, written, .inr ⟨hi, rfl⟩⟩
  · cases hs

theorem step_reset (hs : step digest s (.reset i) = some s') :
    ∃ h written, (s.holders[i]? = some (.got h written) ∧
        s' = ⟨s.pool.write h (s.pool.heap h).reset, s.holders.set i (.got h [])⟩) ∨
      (s.holders[i]? = some (.writer ⟨some h⟩ written) ∧
        s' = ⟨s.pool.write h (s.pool.heap h).reset, s.holders.set i (.writer ⟨some h⟩ [])⟩) := by
  simp only [step] at hs
  split at hs
  · cases hs; exact ⟨_, _, .inl ⟨‹_›, rfl⟩⟩
  · rename_i w written hi
    obtain ⟨_ | h⟩ := w <;> cases hs
    exact ⟨h, written, .inr ⟨hi, rfl⟩⟩
  · cases hs

theorem step_put (hs : step digest s (.put i) = some s') :
    ∃ h written, s.holders[i]? = some (.got h written) ∧
      s' = ⟨put s.pool h, s.holders.set i (.released h)⟩ := by
  simp only [step] at hs
  split at hs <;> cases hs
  exact ⟨_, _, ‹_›, rfl⟩

theorem step_sumGet {choice : Option Nat} (hs : step digest s (.sumGet i choice) = some s') :
    ∃ data h pool, s.holders[i]? = some (.summing data) ∧ get choice s.pool = some (h, pool) ∧
      s' = ⟨pool, s.holders.set i (.summingGot h data)⟩ := by
  simp only [step] at hs
  split at hs
  · obtain ⟨⟨h, pool⟩, hg, rfl⟩ := Option.map_eq_some'.1 hs
    exact ⟨_, h, pool, ‹_›, hg, rfl⟩
  · cases hs

theorem step_sumHash (hs : step digest s (.sumHash i) = some s') :
    ∃ h data, s.holders[i]? = some (.summingGot h data) ∧
      s' = ⟨(sumHash digest h data s.pool).2,
        s.holders.set i (.summed h data (sumHash digest h data s.pool).1)⟩ := by
  simp only [step] at hs
  split at hs <;> cases hs
  exact ⟨_, _, ‹_›, rfl⟩

theorem step_sumPut (hs : step digest s (.sumPut i) = some s') :
    ∃ h data result, s.holders[i]? = some (.summed h data result) ∧
      s' = ⟨put s.pool h, s.holders.set i (.sumDone data result)⟩ := by
  simp only [step] at hs
  split at hs <;> cases hs
  exact ⟨_, _, _, ‹_›, rfl⟩

theorem step_newWriter {choice : Option Nat} (hs : step digest s (.newWriter choice) = some s') :
    ∃ h pool, get choice s.pool = some (h, pool) ∧
      s' = ⟨pool, s.holders ++ [.writer ⟨some h⟩ []]⟩ := by
  obtain ⟨⟨w, pool⟩, hw, rfl⟩ := Option.map_eq_some'.1 hs
  obtain ⟨⟨h, pool⟩, hg, hw⟩ := Option.map_eq_some'.1 hw
  cases hw
  exact ⟨h, pool, hg, rfl⟩

theorem step_close (hs : step digest s (.close i) = some s') :
    ∃ w written, s.holders[i]? = some (.writer w written) ∧
      s' = ⟨(w.close s.pool).2, s.holders.set i (.writer (w.close s.pool).1 [])⟩ := by
  simp only [step] at hs
  split at hs <;> cases hs
  exact ⟨_, _, ‹_›, rfl⟩

theorem step_collect {h : Nat} (hs : step digest s (.collect h) = some s') :
    h ∈ s.pool.free ∧ s' = ⟨s.pool.drop h, s.holders⟩ := by
  simp only [step] at hs
  split at hs <;> cases hs
  exact ⟨‹_›, rfl⟩

end Inversion

theorem Holder.ref_eq_none {c : Holder} (h : c.ref = none) : c.expects = none := by
  simpa [Holder.ref] using h

@[simp] theorem put_heap (pool : Pool Hasher) (h : Nat) :
    (put pool h).heap = Function.update pool.heap h Hasher.new := rfl
@[simp] theorem put_free (pool : Pool Hasher) (h : Nat) : (put pool h).free = h :: pool.free := rfl
@[simp] theorem put_next (pool : Pool Hasher) (h : Nat) : (put pool h).next = pool.next := rfl

structure HashSys.Inv (digest : List UInt8 → List UInt8) (s : HashSys) : Prop where
  exclusive : s.pool.Exclusive (held Holder.ref s.holders)
  free_reset : ∀ h ∈ s.pool.free, (s.pool.heap h).absorbed = []
  absorbed : ∀ (i : Nat) (c : Holder) (h : Nat) (written : List UInt8), s.holders[i]? = some c →
    c.expects = some (h, written) → (s.pool.heap h).absorbed = written
  results : ∀ (i : Nat) (c : Holder) (data result : List UInt8), s.holders[i]? = some c →
    c.result = some (data, result) → result = freshSum digest data

namespace HashSys.Inv
variable {digest : List UInt8 → List UInt8} {s : HashSys} {i h : Nat} {c c' : Holder}

theorem init : HashSys.init.Inv digest :=
  ⟨⟨List.nodup_nil, by simp [HashSys.init, Pool.empty, held]⟩, by simp [HashSys.init, Pool.empty],
    by simp [HashSys.init], by simp [HashSys.init]⟩

theorem ref_ne (hs : s.Inv digest) (hi : s.holders[i]? = some c) (hc : c.ref = some h)
    {j r : Nat} {d : Holder} (hj : s.holders[j]? = some d) (hd : d.ref = some r) (hji : j ≠ i) :
    r ≠ h := by
  rintro rfl
  exact hji (held_unique hs.exclusive.nodup_held hj hd hi hc)

theorem update (hs : s.Inv digest) (hi : s.holders[i]? = some c) (hc : c.ref = some h)
    {x : Hasher} (hc' : c'.expects = some (h, x.absorbed))
    (hres : ∀ data result, c'.result = some (data, result) → result = freshSum digest data) :
    HashSys.Inv digest ⟨s.pool.write h x, s.holders.set i c'⟩ where
  exclusive := (hs.exclusive.perm
    (held_set_keep Holder.ref c' hi (by rw [hc]; simp [Holder.ref, hc'])).symm).write h x
  free_reset r hr := by
    have hne : r ≠ h := fun hrh => hs.exclusive.not_mem_free (mem_held hi hc) (hrh ▸ hr)
    simpa [Function.update_noteq hne] using hs.free_reset r hr
  absorbed j d r w hj hd := by
    rcases getElem?_set_cases hj with ⟨-, rfl⟩ | ⟨hji, hj⟩
    · obtain ⟨rfl, rfl⟩ := Prod.mk.inj (Option.some.inj (hc'.symm.trans hd))
      simp
    · have hne := hs.ref_ne hi hc hj (show d.ref = some r by simp [Holder.ref, hd]) hji
      simpa [Function.update_noteq hne] using hs.absorbed j d r w hj hd
  results j d data result hj hd := by
    rcases getElem?_set_cases hj with ⟨-, rfl⟩ | ⟨-, hj⟩
    · exact hres data result hd
    · exact hs.results j d data result hj hd

theorem release (hs : s.Inv digest) (hi : s.holders[i]? = some c) (hc : c.ref = some h)
    (hc' : c'.ref = none)
    (hres : ∀ data result, c'.result = some (data, result) → result = freshSum digest data) :
    HashSys.Inv digest ⟨put s.pool h, s.holders.set i c'⟩ where
  exclusive := ((hs.exclusive.perm (held_set_release Holder.ref c' hi hc hc')).write h _).put
  free_reset r hr := by
    rcases List.mem_cons.1 hr with rfl | hr
    · simp
    · by_cases hrh : r = h
      · subst hrh; simp
      · simpa [Function.update_noteq hrh] using hs.free_reset r hr
  absorbed j d r w hj hd := by
    rcases getElem?_set_cases hj with ⟨-, rfl⟩ | ⟨hji, hj⟩
    · simp [Holder.ref_eq_none hc'] at hd
    · have hne := hs.ref_ne hi hc hj (show d.ref = some r by simp [Holder.ref, hd]) hji
      simpa [Function.update_noteq hne] using hs.absorbed j d r w hj hd
  results j d data result hj hd := by
    rcases getElem?_set_cases hj with ⟨-, rfl⟩ | ⟨-, hj⟩
    · exact hres data result hd
    · exact hs.results j d data result hj hd

theorem acquire (hs : s.Inv digest) (hi : s.holders[i]? = some c) (hc : c.ref = none)
    {choice : Option Nat} {pool : Pool Hasher} (hg : get choice s.pool = some (h, pool))
    (hc' : c'.expects = some (h, [])) (hres : c'.result = none) :
    HashSys.Inv digest ⟨pool, s.holders.set i c'⟩ where
  exclusive := (hs.exclusive.get hg).perm
    (held_set_acquire Holder.ref c' hi hc (by simp [Holder.ref, hc'])).symm
  free_reset r hr := by
    have hr' := Pool.get_free_subset hg hr
    rw [Pool.get_heap_of_lt hg (hs.exclusive.allocated r (List.mem_append_left _ hr'))]
    exact hs.free_reset r hr'
  absorbed j d r w hj hd := by
    rcases getElem?_set_cases hj with ⟨-, rfl⟩ | ⟨hji, hj⟩
    · obtain ⟨rfl, rfl⟩ := Prod.mk.inj (Option.some.inj (hc'.symm.trans hd))
      rcases Pool.get_heap_self hg with h0 | ⟨hf, h1⟩
      · rw [h0]; rfl
      · rw [h1]; exact hs.free_reset _ hf
    · rw [Pool.get_heap_of_lt hg (hs.exclusive.lt_next (mem_held hj (by simp [Holder.ref, hd])))]
      exact hs.absorbed j d r w hj hd
  results j d data result hj hd := by
    rcases getElem?_set_cases hj with ⟨-, rfl⟩ | ⟨-, hj⟩
    · simp [hres] at hd
    · exact hs.results j d data result hj hd

theorem spawn (hs : s.Inv digest) (hc : c.expects = none) (hres : c.result = none) :
    HashSys.Inv digest ⟨s.pool, s.holders ++ [c]⟩ where
  exclusive := by simpa [held_cons, Holder.ref, hc] using hs.exclusive
  free_reset := hs.free_reset
  absorbed j d r w hj hd := by
    rcases getElem?_append_single hj with hj | rfl
    · exact hs.absorbed j d r w hj hd
    · simp [hc] at hd
  results j d data result hj hd := by
    rcases getElem?_append_single hj with hj | rfl
    · exact hs.results j d data result hj hd
    · simp [hres] at hd

theorem spawnGet (hs : s.Inv digest) {choice : Option Nat} {pool : Pool Hasher}
    (hg : get choice s.pool = some (h, pool)) (hc : c.expects = some (h, [])) (hres : c.result = none) :
    HashSys.Inv digest ⟨pool, s.holders ++ [c]⟩ := by
  have hi : (s.holders ++ [Holder.summing []])[s.holders.length]? = some (.summing []) := by simp
  have h₁ := (hs.spawn (show (Holder.summing []).expects = none from rfl) rfl).acquire hi rfl hg
    hc hres
  simpa using h₁

theorem relabel (hs : s.Inv digest) (hi : s.holders[i]? = some c) (hc : c.expects = none)
    (hc' : c'.expects = none) (hres : c'.result = none) :
    HashSys.Inv digest ⟨s.pool, s.holders.set i c'⟩ where
  exclusive := hs.exclusive.perm
    (held_set_keep Holder.ref c' hi (by simp [Holder.ref, hc, hc'])).symm
  free_reset := hs.free_reset
  absorbed j d r w hj hd := by
    rcases getElem?_set_cases hj with ⟨-, rfl⟩ | ⟨-, hj⟩
    · simp [hc'] at hd
    · exact hs.absorbed j d r w hj hd
  results j d data result hj hd := by
    rcases getElem?_set_cases hj with ⟨-, rfl⟩ | ⟨-, hj⟩
    · simp [hres] at hd
    · exact hs.results j d data result hj hd

theorem collect (hs : s.Inv digest) (h : Nat) : HashSys.Inv digest ⟨s.pool.drop h, s.holders⟩ :=
  ⟨hs.exclusive.drop h, fun r hr => hs.free_reset r (List.mem_of_mem_erase hr), hs.absorbed,
    hs.results⟩

variable {s' : HashSys}

theorem write (hs : s.Inv digest) (hi : s.holders[i]? = some c) {written p : List UInt8}
    (hc : c.expects = some (h, written)) (hc' : c'.expects = some (h, written ++ p))
    (hres : c'.result = none) :
    HashSys.Inv digest ⟨s.pool.write h ((s.pool.heap h).write p), s.holders.set i c'⟩ :=
  hs.update hi (by simp [Holder.ref, hc]) (by simp [hc', hs.absorbed i c h written hi hc])
    (by simp [hres])

theorem of_step (hs : s.Inv digest) {a : Act} (ha : a.repeatsPut = false)
    (hstep : step digest s a = some s') : s'.Inv digest := by
  cases a with
  | get choice =>
    obtain ⟨h, pool, hg, rfl⟩ := step_get hstep
    exact hs.spawnGet hg rfl rfl
  | new =>
    cases hstep
    exact hs.spawnGet (show get none s.pool = some (s.pool.next, (s.pool.alloc Hasher.new).2)
      from rfl) rfl rfl
  | write i p =>
    obtain ⟨h, written, ⟨hi, rfl⟩ | ⟨hi, rfl⟩⟩ := step_write hstep <;>
      exact hs.write hi rfl rfl rfl
  | reset i =>
    obtain ⟨h, written, ⟨hi, rfl⟩ | ⟨hi, rfl⟩⟩ := step_reset hstep <;>
      exact hs.update hi rfl rfl (by simp [Holder.result])
  | put i =>
    obtain ⟨h, written, hi, rfl⟩ := step_put hstep
    exact hs.release hi rfl rfl (by simp [Holder.result])
  | putAgain i => cases ha
  | sum data => cases hstep; exact hs.spawn rfl rfl
  | sumGet i choice =>
    obtain ⟨data, h, pool, hi, hg, rfl⟩ := step_sumGet hstep
    exact hs.acquire hi rfl hg rfl rfl
  | sumHash i =>
    obtain ⟨h, data, hi, rfl⟩ := step_sumHash hstep
    have h₀ : (s.pool.heap h).absorbed = [] := hs.absorbed i _ h [] hi rfl
    exact hs.update hi rfl (by simp [Holder.expects, h₀])
      (by simp [Holder.result, sumHash, freshSum, Hasher.sum, h₀])
  | sumPut i =>
    obtain ⟨h, data, result, hi, rfl⟩ := step_sumPut hstep
    exact hs.release hi rfl rfl fun data result hd => hs.results i _ data result hi hd
  | newWriter choice =>
    obtain ⟨h, pool, hg, rfl⟩ := step_newWriter hstep
    exact hs.spawnGet hg rfl rfl
  | close i =>
    obtain ⟨w, written, hi, rfl⟩ := step_close hstep
    obtain ⟨_ | h⟩ := w
    · exact hs.relabel hi rfl rfl rfl
    · exact hs.release hi rfl rfl (by simp [Holder.result])
  | collect h =>
    obtain ⟨-, rfl⟩ := step_collect hstep
    exact hs.collect h

theorem of_run (hs : s.Inv digest) {acts : List Act} (hacts : ∀ a ∈ acts, a.repeatsPut = false) :
    ∀ s' ∈ run digest s acts, s'.Inv digest :=
  fun _ hs' => foldlM_invariant (HashSys.Inv digest) (fun _ _ _ h ha hstep => h.of_step ha hstep)
    hs hacts hs'

theorem step_frame (hs : s.Inv digest) {a : Act} (ha : a.repeatsPut = false)
    (hai : a.caller ≠ some i) (hstep : step digest s a = some s') (hi : s.holders[i]? = some c) :
    s'.holders[i]? = some c ∧ ∀ r, c.ref = some r → s'.pool.heap r = s.pool.heap r := by
  have happ (d : Holder) : (s.holders ++ [d])[i]? = some c :=
    (List.getElem?_append_left (List.getElem?_eq_some_iff.1 hi).1).trans hi
  have hset {j : Nat} (hj : a.caller = some j) (d : Holder) : (s.holders.set j d)[i]? = some c :=
    (List.getElem?_set_ne fun (e : j = i) => hai (e ▸ hj)).trans hi
  have hlt {r : Nat} (hr : c.ref = some r) : r < s.pool.next :=
    hs.exclusive.lt_next (mem_held hi hr)
  have hne {j h r : Nat} {d : Holder} (hcj : a.caller = some j) (hj : s.holders[j]? = some d)
      (hd : d.ref = some h) (hr : c.ref = some r) : r ≠ h :=
    hs.ref_ne hj hd hi hr fun e => hai (e ▸ hcj)
  cases a with
  | get choice =>
    obtain ⟨h, pool, hg, rfl⟩ := step_get hstep
    exact ⟨happ _, fun r hr => Pool.get_heap_of_lt hg (hlt hr)⟩
  | new =>
    cases hstep
    exact ⟨happ _, fun r hr => by simp [Function.update_noteq (Nat.ne_of_lt (hlt hr))]⟩
  | write j p =>
    obtain ⟨h, written, ⟨hj, rfl⟩ | ⟨hj, rfl⟩⟩ := step_write hstep <;>
      exact ⟨hset rfl _, fun r hr => by simp [Function.update_noteq (hne rfl hj rfl hr)]⟩
  | reset j =>
    obtain ⟨h, written, ⟨hj, rfl⟩ | ⟨hj, rfl⟩⟩ := step_reset hstep <;>
      exact ⟨hset rfl _, fun r hr => by simp [Function.update_noteq (hne rfl hj rfl hr)]⟩
  | put j =>
    obtain ⟨h, written, hj, rfl⟩ := step_put hstep
    exact ⟨hset rfl _, fun r hr => by simp [Function.update_noteq (hne rfl hj rfl hr)]⟩
  | putAgain j => cases ha
  | sum data => cases hstep; exact ⟨happ _, fun _ _ => rfl⟩
  | sumGet j choice =>
    obtain ⟨data, h, pool, -, hg, rfl⟩ := step_sumGet hstep
    exact ⟨hset rfl _, fun r hr => Pool.get_heap_of_lt hg (hlt hr)⟩
  | sumHash j =>
    obtain ⟨h, data, hj, rfl⟩ := step_sumHash hstep
    exact ⟨hset rfl _, fun r hr => by simp [sumHash, Function.update_noteq (hne rfl hj rfl hr)]⟩
  | sumPut j =>
    obtain ⟨h, data, result, hj, rfl⟩ := step_sumPut hstep
    exact ⟨hset rfl _, fun r hr => by simp [Function.update_noteq (hne rfl hj rfl hr)]⟩
  | newWriter choice =>
    obtain ⟨h, pool, hg, rfl⟩ := step_newWriter hstep
    exact ⟨happ _, fun r hr => Pool.get_heap_of_lt hg (hlt hr)⟩
  | close j =>
    obtain ⟨⟨_ | h⟩, written, hj, rfl⟩ := step_close hstep
    · exact ⟨hset rfl _, fun _ _ => rfl⟩
    · exact ⟨hset rfl _,
        fun r hr => by simp [Writer.close, Function.update_noteq (hne rfl hj rfl hr)]⟩
  | collect h =>
    obtain ⟨-, rfl⟩ := step_collect hstep
    exact ⟨hi, fun _ _ => rfl⟩

theorem run_frame (hs : s.Inv digest) {acts : List Act}
    (hacts : ∀ a ∈ acts, a.caller ≠ some i ∧ a.repeatsPut = false)
    (hi : s.holders[i]? = some c) :
    ∀ s' ∈ run digest s acts,
      s'.holders[i]? = some c ∧ ∀ r, c.ref = some r → s'.pool.heap r = s.pool.heap r := by
  intro s' hs'
  refine (foldlM_invariant (fun s' => s'.Inv digest ∧ s'.holders[i]? = some c ∧
    ∀ r, c.ref = some r → s'.pool.heap r = s.pool.heap r) ?_ ⟨hs, hi, fun _ _ => rfl⟩
    hacts hs').2
  rintro s₁ a s₂ ⟨h₁, hi₁, hr₁⟩ ⟨hai, ha⟩ hstep
  obtain ⟨hi₂, hr₂⟩ := h₁.step_frame ha hai hstep hi₁
  exact ⟨h₁.of_step ha hstep, hi₂, fun r hr => (hr₂ r hr).trans (hr₁ r hr)⟩

end HashSys.Inv

section Freshness
variable (digest : List UInt8 → List UInt8)

/-- What the pool guarantees in a state: it keeps only reset hashers, every finished `Sum(data)`
returned the digest of `New()` fed `data` in one `Write`, and every open writer's `Sum(nil)` is
the digest of exactly what was written to it since `NewWriter` or its last `Reset`. -/
def HashesFresh (s : HashSys) : Prop :=
  (∀ h ∈ s.pool.free, s.pool.heap h = Hasher.new) ∧
  (∀ (i : Nat) (data result : List UInt8), s.holders[i]? = some (.sumDone data result) →
    result = freshSum digest data) ∧
  ∀ (i h : Nat) (written : List UInt8), s.holders[i]? = some (.writer ⟨some h⟩ written) →
    Writer.sum digest ⟨some h⟩ [] s.pool = some ((Hasher.new.write written).sum digest [])

theorem sum_fresh (acts : List Act) (hacts : ∀ a ∈ acts, a.repeatsPut = false) :
    ∀ s ∈ run digest HashSys.init acts, HashesFresh digest s := by
  intro s hs
  have h := HashSys.Inv.init.of_run hacts s hs
  refine ⟨fun r hr => ?_, fun i data result hi => h.results i _ data result hi rfl,
    fun i r written hi => ?_⟩
  · have := h.free_reset r hr
    cases hr' : s.pool.heap r
    simp_all [Hasher.new]
  · simp [Writer.sum, Hasher.sum, h.absorbed i _ r written hi rfl]

theorem sum_fresh_interleaved :
    let acts : List Act :=
      [.newWriter none, .write 0 [1], .sum [2], .sumGet 1 none, .write 0 [3], .sumHash 1,
        .sumPut 1, .reset 0, .write 0 [5], .newWriter none, .close 2, .close 2, .sum [4],
        .sumGet 3 (some 1), .sumHash 3, .sumPut 3]
    (run List.reverse HashSys.init acts).map (fun s => (s.pool.free, s.holders[0]?)) =
        some ([1, 2], some (.writer ⟨some 0⟩ [5])) ∧
      ∀ s ∈ run List.reverse HashSys.init acts, HashesFresh List.reverse s :=
  ⟨rfl, sum_fresh _ _ (by decide)⟩

end Freshness

section Ownership
variable (digest : List UInt8 → List UInt8)

/-- Ownership in a state: the pool keeps each hasher once, no hasher is both kept and owned, or
owned by two callers, every finished `Sum(data)` returned the digest of `data` alone, and no run
of the others' steps without a repeated `Put` moves a caller or changes the hasher it owns (so
none resets or extends an open writer's digest); a second `Close` changes nothing, and a
repeated `Put` files the hasher once more. -/
def HeldOnce (s : HashSys) : Prop :=
  s.pool.free.Nodup ∧
  (∀ (i j h : Nat) (c d : Holder), s.holders[i]? = some c → c.ref = some h →
    s.holders[j]? = some d → d.ref = some h → i = j ∧ h ∉ s.pool.free) ∧
  (∀ (i : Nat) (data result : List UInt8), s.holders[i]? = some (.sumDone data result) →
    result = freshSum digest data) ∧
  (∀ (i : Nat) (c : Holder) (acts : List Act), s.holders[i]? = some c →
    (∀ a ∈ acts, a.caller ≠ some i ∧ a.repeatsPut = false) →
    ∀ s' ∈ run digest s acts, s'.holders[i]? = some c ∧
      ∀ h, c.ref = some h → s'.pool.heap h = s.pool.heap h) ∧
  (∀ (i : Nat) (written : List UInt8), s.holders[i]? = some (.writer ⟨none⟩ written) →
    (step digest s (.close i)).map HashSys.pool = some s.pool) ∧
  ∀ (i h : Nat), s.holders[i]? = some (.released h) →
    ∀ s' ∈ step digest s (.putAgain i), s'.pool.free.count h = s.pool.free.count h + 1

theorem put_once_exclusive (acts : List Act) (hacts : ∀ a ∈ acts, a.repeatsPut = false) :
    ∀ s ∈ run digest HashSys.init acts, HeldOnce digest s := by
  intro s hs
  have h := HashSys.Inv.init.of_run hacts s hs
  refine ⟨(List.sublist_append_left _ _).nodup h.exclusive.nodup,
    fun i j r c d hi hc hj hd => ⟨held_unique h.exclusive.nodup_held hi hc hj hd,
      h.exclusive.not_mem_free (mem_held hi hc)⟩,
    fun i data result hi => h.results i _ data result hi rfl,
    fun i c acts hi hacts => h.run_frame hacts hi,
    fun i written hi => by simp [step, hi, Writer.close], fun i r hi s' hs' => ?_⟩
  simp only [step, hi, Option.mem_def, Option.some.injEq] at hs'
  subst hs'
  simp

theorem put_once_exclusive_run :
    let acts : List Act :=
      [.get none, .write 0 [1], .put 0, .newWriter (some 0), .write 1 [2], .close 1, .close 1, .new,
        .put 2, .sum [5], .sumGet 3 (some 1), .sumHash 3, .sumPut 3, .newWriter (some 0),
        .write 4 [3]]
    (run List.reverse HashSys.init acts).map (fun s => (s.pool.free, s.holders[4]?)) =
        some ([1], some (.writer ⟨some 0⟩ [3])) ∧
      ∀ s ∈ run List.reverse HashSys.init acts, HeldOnce List.reverse s :=
  ⟨rfl, put_once_exclusive _ _ (by decide)⟩

/-- A second `Put` of a hasher files it twice; an open writer and a later `Sum` then share it,
the `Sum` digests the writer's bytes with its own, and its `Put` resets the writer's hasher. -/
theorem put_twice_double_issue :
    ∃ s ∈ run List.reverse HashSys.init [.new, .put 0, .putAgain 0, .newWriter (some 0),
        .write 1 [1], .sum [2], .sumGet 2 (some 0)],
      s.holders[1]? = some (.writer ⟨some 0⟩ [1]) ∧ s.holders[2]? = some (.summingGot 0 [2]) ∧
      ∃ s' ∈ run List.reverse s [.sumHash 2, .sumPut 2],
        s'.holders[2]? = some (.sumDone [2] (copy32 [2, 1])) ∧
        copy32 [2, 1] ≠ freshSum List.reverse [2] ∧
        s'.holders[1]? = some (.writer ⟨some 0⟩ [1]) ∧
        Writer.sum List.reverse ⟨some 0⟩ [] s'.pool = some [] ∧
        [] ≠ (Hasher.new.write [1]).sum List.reverse [] :=
  ⟨_, rfl, rfl, rfl, _, rfl, rfl, by decide, rfl, rfl, by decide⟩

end Ownership

end Gmsm.Sm3
