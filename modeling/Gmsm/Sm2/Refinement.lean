import Gmsm.Sm2.KeyPool

/-! The key pool is invisible to the callers of `GenerateKeyWithPool` and `ReturnKey`. A caller
observes its own place and the key it holds; abstracted to that, every run with no repeated
`ReturnKey` is the same run of a service that fills a fresh `&PrivateKey{}` on every call and
keeps nothing, whatever containers the runtime hands out or drops. -/

namespace Gmsm.Sm2

/-- A caller of the pool-free service: a `Caller` with the key in place of its container. -/
inductive PlainCaller where
  | calling (random : Option Reader)
  | acquired (random : Option Reader)
  | failed (err : ReadErr)
  | holding (key : PrivateKey)
  | released

structure PlainSys where
  randReader : Reader
  callers : List PlainCaller

def PlainSys.init (randReader : Reader) : PlainSys := ⟨randReader, []⟩

/-- A pool-free call: the key filled into a fresh `&PrivateKey{}`, or the read's error. -/
def freshKey (c : Curve) (random : Reader) : PlainCaller :=
  match readFull random (c.bitSize / 8 + 8) with
  | .error err => .failed err
  | .ok b => .holding (fill c b PrivateKey.zero)

section Plain
variable (p256Sm2 : Curve)

def plainStep (s : PlainSys) : Act → Option PlainSys
  | .generate random => some { s with callers := s.callers ++ [.calling random] }
  | .own key => some { s with callers := s.callers ++ [.holding key] }
  | .get i _ =>
    match s.callers[i]? with
    | some (.calling random) => some { s with callers := s.callers.set i (.acquired random) }
    | _ => none
  | .read i =>
    match s.callers[i]? with
    | some (.acquired random) =>
      some ⟨randAfter p256Sm2 random s.randReader,
        s.callers.set i (freshKey p256Sm2 (random.getD s.randReader))⟩
    | _ => none
  | .returnKey i =>
    match s.callers[i]? with
    | some (.holding _) => some { s with callers := s.callers.set i .released }
    | some (.failed _) => some s
    | _ => none
  | .returnAgain i =>
    match s.callers[i]? with
    | some .released => some s
    | _ => none
  | .collect _ => some s

def plainRun (s : PlainSys) (acts : List Act) : Option PlainSys := acts.foldlM (plainStep p256Sm2) s

end Plain

/-- What a caller observes: its place, and the key in the container it holds. -/
def Caller.abs (heap : Nat → PrivateKey) : Caller → PlainCaller
  | .calling random => .calling random
  | .acquired _ random => .acquired random
  | .failed err => .failed err
  | .holding priv => .holding (heap priv)
  | .released _ => .released

def KeySys.abs (s : KeySys) : PlainSys :=
  ⟨s.randReader, s.callers.map (Caller.abs s.keyPool.heap)⟩

theorem Caller.readsOwn : ReadsOwn Caller.ref Caller.abs := by
  intro c heap heap' h
  cases c with
  | holding priv => simp [Caller.abs, h priv rfl]
  | _ => rfl

namespace KeySys.Inv
variable {p256Sm2 : Curve} {s s' : KeySys} {i : Nat}

theorem abs_read (h : s.Inv) {priv : Nat} {random : Option Reader}
    (hi : s.callers[i]? = some (.acquired priv random)) (r randReader : Reader) :
    KeySys.abs ⟨(finishKey p256Sm2 r priv s.keyPool).2, randReader,
      s.callers.set i (.ofResult (finishKey p256Sm2 r priv s.keyPool).1)⟩ =
      ⟨randReader, s.abs.callers.set i (freshKey p256Sm2 r)⟩ := by
  unfold finishKey freshKey
  cases readFull r (p256Sm2.bitSize / 8 + 8) with
  | error err =>
    simp only [KeySys.abs, PlainSys.mk.injEq, true_and]
    rw [Caller.readsOwn.map_set i _ fun _ _ _ _ _ _ => rfl]
    rfl
  | ok b =>
    simp only [KeySys.abs, PlainSys.mk.injEq, true_and]
    rw [Caller.readsOwn.map_set i _ fun j r d hji hj hd =>
      Function.update_noteq (h.ref_ne hi rfl hj hd hji) _ _]
    simp [Caller.ofResult, Caller.abs, fill_eq]

theorem step_refines (h : s.Inv) {a : Act} (ha : a.repeatsRelease = false)
    (hs : step p256Sm2 s a = some s') : plainStep p256Sm2 s.abs a = some s'.abs := by
  cases a with
  | generate random => cases hs; simp [plainStep, KeySys.abs, Caller.abs]
  | own key =>
    cases hs
    have hframe : s.callers.map (Caller.abs (Function.update s.keyPool.heap s.keyPool.next key)) =
        s.callers.map (Caller.abs s.keyPool.heap) :=
      Caller.readsOwn.map_congr fun j r d hj hd =>
        Function.update_noteq (Nat.ne_of_lt (h.lt_next hj hd)) key s.keyPool.heap
    simp [plainStep, KeySys.abs, Caller.abs, hframe]
  | get i choice =>
    obtain ⟨random, priv, keyPool, hi, hg, rfl⟩ := step_get hs
    have hframe := Caller.readsOwn.map_set i (.acquired priv random) fun j r d _ hj hd =>
      Pool.get_heap_of_lt hg (h.lt_next hj hd)
    simp [plainStep, KeySys.abs, List.getElem?_map, hi, Caller.abs, hframe]
  | read i =>
    obtain ⟨priv, random, hi, rfl⟩ := step_read hs
    rw [h.abs_read hi]
    simp [plainStep, KeySys.abs, List.getElem?_map, hi, Caller.abs]
  | returnKey i =>
    rcases step_returnKey hs with ⟨priv, hi, rfl⟩ | ⟨err, hi, rfl⟩
    · have hframe := Caller.readsOwn.map_set i (.released priv) fun j r d hji hj hd =>
        returnKey_heap_of_ne s.keyPool (h.ref_ne hi rfl hj hd hji)
      simp [plainStep, KeySys.abs, List.getElem?_map, hi, Caller.abs, hframe]
    · simp [plainStep, List.getElem?_map, KeySys.abs, hi, Caller.abs]
  | returnAgain i => cases ha
  | collect priv => rw [step_collect hs]; rfl

end KeySys.Inv

/-- Pooling is invisible: with no repeated `ReturnKey`, whatever containers `keyPool.Get()`
returns and the runtime drops, every caller observes what it would if each call filled a fresh
`&PrivateKey{}`. -/
theorem run_abs_eq_plainRun (p256Sm2 : Curve) (randReader : Reader) (acts : List Act)
    (hacts : ∀ a ∈ acts, a.repeatsRelease = false) :
    ∀ s ∈ run p256Sm2 (KeySys.init randReader) acts,
      plainRun p256Sm2 (PlainSys.init randReader) acts = some s.abs :=
  fun _ hs => foldlM_simulates KeySys.Inv (fun _ _ _ h ha hstep => h.of_step ha hstep)
    (fun _ _ _ h ha hstep => h.step_refines ha hstep) (KeySys.Inv.init randReader) hacts hs

theorem run_abs_eq_plainRun_recycled :
    let c : Curve := ⟨7, 8, fun b => (b.length, 0), by decide⟩
    let acts : List Act :=
      [.generate none, .get 0 none, .read 0, .returnKey 0, .generate (some ⟨[2, 2], .EOF⟩),
        .get 1 (some 0), .read 1, .generate none, .get 2 (some 0), .read 2]
    (run c (KeySys.init ⟨List.replicate 18 1, .EOF⟩) acts).isSome ∧
      ∀ s ∈ run c (KeySys.init ⟨List.replicate 18 1, .EOF⟩) acts,
        plainRun c (PlainSys.init ⟨List.replicate 18 1, .EOF⟩) acts = some s.abs :=
  ⟨rfl, run_abs_eq_plainRun _ _ _ (by decide)⟩

end Gmsm.Sm2
