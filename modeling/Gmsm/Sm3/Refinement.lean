import Gmsm.Sm3.HasherPool

/-! The hasher pool is invisible to the callers of `Get`, `Put`, `Sum` and the `Writer`. A caller
observes its own place and the state of the hasher it holds; abstracted to that, every run with
no repeated `Put` is the same run of a package in which every `Get()` is a fresh `New()` and
`Put` drops the hasher, whatever hashers the runtime hands out or drops. -/

namespace Gmsm.Sm3

/-- A caller of the pool-free package: a `Holder` with its own hasher in place of a reference. -/
inductive PlainHolder where
  | got (x : Hasher)
  | released
  | summing (data : List UInt8)
  | summingGot (x : Hasher) (data : List UInt8)
  | summed (x : Hasher) (data result : List UInt8)
  | sumDone (data result : List UInt8)
  | writer (x : Option Hasher)
  deriving DecidableEq

section Plain
variable (digest : List UInt8 → List UInt8)

/-- The package's transition when `Get()` is `New()` and `Put` drops the hasher. -/
def plainStep (s : List PlainHolder) : Act → Option (List PlainHolder)
  | .get _ => some (s ++ [.got Hasher.new])
  | .new => some (s ++ [.got Hasher.new])
  | .write i p =>
    match s[i]? with
    | some (.got x) => some (s.set i (.got (x.write p)))
    | some (.writer (some x)) => some (s.set i (.writer (some (x.write p))))
    | _ => none
  | .reset i =>
    match s[i]? with
    | some (.got x) => some (s.set i (.got x.reset))
    | some (.writer (some x)) => some (s.set i (.writer (some x.reset)))
    | _ => none
  | .put i =>
    match s[i]? with
    | some (.got _) => some (s.set i .released)
    | _ => none
  | .putAgain i =>
    match s[i]? with
    | some .released => some s
    | _ => none
  | .sum data => some (s ++ [.summing data])
  | .sumGet i _ =>
    match s[i]? with
    | some (.summing data) => some (s.set i (.summingGot Hasher.new data))
    | _ => none
  | .sumHash i =>
    match s[i]? with
    | some (.summingGot x data) =>
      some (s.set i (.summed (x.write data) data (copy32 ((x.write data).sum digest []))))
    | _ => none
  | .sumPut i =>
    match s[i]? with
    | some (.summed _ data result) => some (s.set i (.sumDone data result))
    | _ => none
  | .newWriter _ => some (s ++ [.writer (some Hasher.new)])
  | .close i =>
    match s[i]? with
    | some (.writer _) => some (s.set i (.writer none))
    | _ => none
  | .collect _ => some s

def plainRun (s : List PlainHolder) (acts : List Act) : Option (List PlainHolder) :=
  acts.foldlM (plainStep digest) s

end Plain

/-- What a caller observes: its place, and the state of the hasher it holds. -/
def Holder.abs (heap : Nat → Hasher) : Holder → PlainHolder
  | .got h _ => .got (heap h)
  | .released _ => .released
  | .summing data => .summing data
  | .summingGot h data => .summingGot (heap h) data
  | .summed h data result => .summed (heap h) data result
  | .sumDone data result => .sumDone data result
  | .writer w _ => .writer (w.h.map heap)

def HashSys.abs (s : HashSys) : List PlainHolder := s.holders.map (Holder.abs s.pool.heap)

theorem Holder.readsOwn : ReadsOwn Holder.ref Holder.abs := by
  intro c heap heap' h
  cases c with
  | got r _ => simp [Holder.abs, h r rfl]
  | summingGot r _ => simp [Holder.abs, h r rfl]
  | summed r _ _ => simp [Holder.abs, h r rfl]
  | writer w _ =>
    obtain ⟨_ | r⟩ := w
    · rfl
    · simp [Holder.abs, h r rfl]
  | _ => rfl

theorem Hasher.eq_new {x : Hasher} (h : x.absorbed = []) : x = Hasher.new := by
  cases x
  cases h
  rfl

namespace HashSys.Inv
variable {digest : List UInt8 → List UInt8} {s s' : HashSys} {i : Nat}

theorem get_new (hs : s.Inv digest) {choice : Option Nat} {h : Nat} {pool : Pool Hasher}
    (hg : get choice s.pool = some (h, pool)) : pool.heap h = Hasher.new := by
  rcases Pool.get_heap_self hg with h0 | ⟨hf, h1⟩
  · exact h0
  · rw [h1]
    exact Hasher.eq_new (hs.free_reset h hf)

theorem map_abs_get (hs : s.Inv digest) {choice : Option Nat} {h : Nat} {pool : Pool Hasher}
    (hg : get choice s.pool = some (h, pool)) :
    s.holders.map (Holder.abs pool.heap) = s.abs :=
  Holder.readsOwn.map_congr fun _ _ _ hj hd =>
    Pool.get_heap_of_lt hg (hs.exclusive.lt_next (mem_held hj hd))

theorem map_abs_set (hs : s.Inv digest) {c : Holder} {h : Nat} (hi : s.holders[i]? = some c)
    (hc : c.ref = some h) (x : Hasher) (c' : Holder) :
    (s.holders.set i c').map (Holder.abs (Function.update s.pool.heap h x)) =
      s.abs.set i (c'.abs (Function.update s.pool.heap h x)) :=
  Holder.readsOwn.map_set i c' fun _ _ _ hji hj hd =>
    Function.update_noteq (hs.ref_ne hi hc hj hd hji) x s.pool.heap

theorem step_refines (hs : s.Inv digest) {a : Act} (ha : a.repeatsPut = false)
    (hstep : step digest s a = some s') : plainStep digest s.abs a = some s'.abs := by
  cases a with
  | get choice =>
    obtain ⟨h, pool, hg, rfl⟩ := step_get hstep
    simp [plainStep, HashSys.abs, Holder.abs, hs.map_abs_get hg, hs.get_new hg]
  | new =>
    cases hstep
    have hframe := hs.map_abs_get (show get none s.pool = some (s.pool.next,
      (s.pool.alloc Hasher.new).2) from rfl)
    rw [Pool.alloc_heap] at hframe
    simp [plainStep, HashSys.abs, Holder.abs, hframe]
  | write i p =>
    obtain ⟨h, written, ⟨hi, rfl⟩ | ⟨hi, rfl⟩⟩ := step_write hstep <;>
      simp [plainStep, HashSys.abs, List.getElem?_map, hi, Holder.abs, hs.map_abs_set hi rfl]
  | reset i =>
    obtain ⟨h, written, ⟨hi, rfl⟩ | ⟨hi, rfl⟩⟩ := step_reset hstep <;>
      simp [plainStep, HashSys.abs, List.getElem?_map, hi, Holder.abs, hs.map_abs_set hi rfl]
  | put i =>
    obtain ⟨h, written, hi, rfl⟩ := step_put hstep
    simp [plainStep, HashSys.abs, List.getElem?_map, hi, Holder.abs, put,
      hs.map_abs_set hi rfl]
  | putAgain i => cases ha
  | sum data => cases hstep; simp [plainStep, HashSys.abs, Holder.abs]
  | sumGet i choice =>
    obtain ⟨data, h, pool, hi, hg, rfl⟩ := step_sumGet hstep
    simp [plainStep, HashSys.abs, List.getElem?_map, hi, Holder.abs, hs.map_abs_get hg,
      hs.get_new hg]
  | sumHash i =>
    obtain ⟨h, data, hi, rfl⟩ := step_sumHash hstep
    simp [plainStep, HashSys.abs, List.getElem?_map, hi, Holder.abs, sumHash,
      hs.map_abs_set hi rfl]
  | sumPut i =>
    obtain ⟨h, data, result, hi, rfl⟩ := step_sumPut hstep
    simp [plainStep, HashSys.abs, List.getElem?_map, hi, Holder.abs, put,
      hs.map_abs_set hi rfl]
  | newWriter choice =>
    obtain ⟨h, pool, hg, rfl⟩ := step_newWriter hstep
    simp [plainStep, HashSys.abs, Holder.abs, hs.map_abs_get hg, hs.get_new hg]
  | close i =>
    obtain ⟨w, written, hi, rfl⟩ := step_close hstep
    obtain ⟨_ | h⟩ := w
    · simp [plainStep, HashSys.abs, List.getElem?_map, hi, Holder.abs, Writer.close,
        Holder.readsOwn.map_set i _ fun _ _ _ _ _ _ => rfl]
    · simp [plainStep, HashSys.abs, List.getElem?_map, hi, Holder.abs, Writer.close, put,
        hs.map_abs_set hi rfl]
  | collect h => obtain ⟨-, rfl⟩ := step_collect hstep; rfl

end HashSys.Inv

/-- Pooling is invisible: with no repeated `Put`, whatever hashers `Get()` returns and the runtime
drops, every caller observes what it would if each `Get()` were a fresh `New()`. -/
theorem run_hashers_abs_eq_plainRun (digest : List UInt8 → List UInt8) (acts : List Act)
    (hacts : ∀ a ∈ acts, a.repeatsPut = false) :
    ∀ s ∈ run digest HashSys.init acts, plainRun digest [] acts = some s.abs :=
  fun _ hs => foldlM_simulates (HashSys.Inv digest) (fun _ _ _ h ha hstep => h.of_step ha hstep)
    (fun _ _ _ h ha hstep => h.step_refines ha hstep) HashSys.Inv.init hacts hs

theorem run_hashers_abs_eq_plainRun_interleaved :
    let acts : List Act :=
      [.newWriter none, .write 0 [1], .sum [2], .sumGet 1 none, .write 0 [3], .sumHash 1,
        .sumPut 1, .reset 0, .get (some 1), .write 2 [4], .close 0, .sum [5], .sumGet 3 (some 0)]
    (run List.reverse HashSys.init acts).isSome ∧
      ∀ s ∈ run List.reverse HashSys.init acts, plainRun List.reverse [] acts = some s.abs :=
  ⟨rfl, run_hashers_abs_eq_plainRun _ _ (by decide)⟩

end Gmsm.Sm3
