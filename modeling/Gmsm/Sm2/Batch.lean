import Gmsm.Sm2.KeyPool

/-! `BatchSign` and `BatchVerify` of package `sm2`: their index loops over preallocated result
slices, against the in-order traversals they implement. -/

namespace Gmsm.Sm2

abbrev Bytes := List UInt8

section Sign
variable {σ : Type} (sign : PrivateKey → Bytes → StateM σ (Except String Bytes))

/-- The loop of `BatchSign` from index `i` on; `σ` is the state of `rand.Reader`. -/
def batchSignLoop (priv : PrivateKey) : Nat → List Bytes → List Bytes →
    StateM σ (Except String (List Bytes))
  | _, [], signatures => pure (.ok signatures)
  | i, msg :: rest, signatures => do
    match ← sign priv msg with
    | .error err => pure (.error err)
    | .ok sig => batchSignLoop priv (i + 1) rest (signatures.set i sig)

/-- `BatchSign(priv, messages)`. -/
def batchSign (priv : PrivateKey) (messages : List Bytes) : StateM σ (Except String (List Bytes)) :=
  batchSignLoop sign priv 0 messages (List.replicate messages.length [])

end Sign

section Verify
variable {m : Type → Type} [Monad m] (verify : PublicKey → Bytes → Bytes → m Bool)

/-- One pass of the loop of `BatchVerify`, with `pub.Verify` in any monad `m`. -/
def verifyAt (pub : PublicKey) (messages signatures : List Bytes) (results : List Bool)
    (i : Nat) : m (List Bool) := do
  let v ← verify pub (messages.getD i []) (signatures.getD i [])
  pure (results.set i v)

/-- `BatchVerify(pub, messages, signatures)`. -/
def batchVerify (pub : PublicKey) (messages signatures : List Bytes) :
    m (Except String (List Bool)) :=
  if messages.length ≠ signatures.length then
    pure (.error "messages and signatures count mismatch")
  else do
    let results ← (List.range messages.length).foldlM (verifyAt verify pub messages signatures)
      (List.replicate messages.length false)
    pure (.ok results)

end Verify

theorem take_set_succ {α : Type} {l : List α} {i : Nat} (a : α) (h : i < l.length) :
    (l.set i a).take (i + 1) = l.take i ++ [a] := by
  rw [List.set_eq_take_append_cons_drop, if_pos h]
  simp [List.take_append_eq_append_take, Nat.min_eq_left h.le]

theorem set_append_replicate {α : Type} (pre : List α) (a b : α) (k : Nat) :
    (pre ++ List.replicate (k + 1) a).set pre.length b = (pre ++ [b]) ++ List.replicate k a := by
  simp [List.replicate_succ, List.set_append_right]

section Traversal
variable {σ α β : Type} {x : ExceptT String (StateM σ) α} {g : α → ExceptT String (StateM σ) β}
  {st st₁ st' : σ}

theorem run_bind_ok {a : α} (h : x.run.run st = (.ok a, st₁)) :
    (x >>= g).run.run st = (g a).run.run st₁ := by
  simp only [ExceptT.run_bind, StateT.run_bind, h]
  rfl

theorem run_bind_error {e : String} (h : x.run.run st = (.error e, st₁)) :
    (x >>= g).run.run st = (.error e, st₁) := by
  simp only [ExceptT.run_bind, StateT.run_bind, h]
  rfl

theorem run_bind_ok_inv {b : β} (h : (x >>= g).run.run st = (.ok b, st')) :
    ∃ a st₁, x.run.run st = (.ok a, st₁) ∧ (g a).run.run st₁ = (.ok b, st') := by
  cases hx : x.run.run st with
  | mk r st₁ =>
    cases r with
    | error e => rw [run_bind_error hx] at h; cases h
    | ok a => exact ⟨a, st₁, rfl, by rwa [run_bind_ok hx] at h⟩

theorem mapM_run_length {f : α → ExceptT String (StateM σ) β} :
    ∀ {l : List α} {st st' : σ} {bs : List β}, (l.mapM f).run.run st = (.ok bs, st') →
      bs.length = l.length
  | [], _, _, _, h => by cases h; rfl
  | a :: l, _, _, _, h => by
    rw [List.mapM_cons] at h
    obtain ⟨b, _, -, h⟩ := run_bind_ok_inv h
    obtain ⟨bs, _, hl, h⟩ := run_bind_ok_inv h
    cases h
    simp [mapM_run_length hl]

end Traversal

section SignSpec
variable {σ : Type} (sign : PrivateKey → Bytes → StateM σ (Except String Bytes)) (priv : PrivateKey)

/-- `priv.Sign` as one step of a traversal in `ExceptT`, whose bind stops at the first error. -/
def signStep (msg : Bytes) : ExceptT String (StateM σ) Bytes := ExceptT.mk (sign priv msg)

theorem batchSignLoop_eq (rest : List Bytes) (i : Nat) (signatures : List Bytes)
    (h : signatures.length = i + rest.length) :
    batchSignLoop sign priv i rest signatures =
      Except.map (signatures.take i ++ ·) <$> (rest.mapM (signStep sign priv)).run := by
  induction rest generalizing i signatures with
  | nil =>
    rw [List.take_of_length_le (by simp at h; omega)]
    simp only [batchSignLoop, List.mapM_nil, ExceptT.run_pure, map_pure]
    simp [Except.map]
  | cons msg rest ih =>
    have hlt : i < signatures.length := by simp at h; omega
    simp only [batchSignLoop, List.mapM_cons, bind_pure_comp, ExceptT.run_bind, signStep,
      ExceptT.run_mk, map_bind]
    congr 1
    funext r
    cases r with
    | error e => rfl
    | ok sig =>
      dsimp only
      rw [ih (i + 1) _ (by simp at h ⊢; omega), take_set_succ sig hlt, ExceptT.run_map,
        Functor.map_map]
      congr 1
      funext r
      cases r <;> simp [Except.map]

theorem batchSign_eq (messages : List Bytes) :
    batchSign sign priv messages = (messages.mapM (signStep sign priv)).run := by
  rw [batchSign, batchSignLoop_eq sign priv messages 0 _ (by simp)]
  conv => rhs; rw [← id_map (messages.mapM (signStep sign priv)).run]
  congr 1
  funext r
  cases r <;> rfl

end SignSpec

section VerifySpec
variable {m : Type → Type} [Monad m] [LawfulMonad m] (verify : PublicKey → Bytes → Bytes → m Bool)
  (pub : PublicKey) (messages signatures : List Bytes)

theorem foldlM_verifyAt (hlen : messages.length = signatures.length) :
    ∀ (k : Nat) (pre : List Bool), pre.length + k = messages.length →
      (List.range' pre.length k).foldlM (verifyAt verify pub messages signatures)
          (pre ++ List.replicate k false) =
        (pre ++ ·) <$> (((messages.zip signatures).drop pre.length).take k).mapM
          fun p => verify pub p.1 p.2
  | 0, pre, _ => by
    simp only [List.range'_zero, List.foldlM_nil, List.replicate_zero, List.append_nil,
      List.take_zero, List.mapM_nil, map_pure]
  | k + 1, pre, hk => by
    have hi : pre.length < (messages.zip signatures).length := by simp; omega
    have e : (messages.zip signatures)[pre.length] =
        (messages.getD pre.length [], signatures.getD pre.length []) := by
      simp at hi; simp [List.getElem_zip, List.getElem?_eq_getElem, hi.1, hi.2]
    rw [List.range'_succ, List.foldlM_cons, List.drop_eq_getElem_cons hi, List.take_succ_cons,
      List.mapM_cons, e]
    simp only [verifyAt, bind_assoc, pure_bind, set_append_replicate, map_bind]
    congr 1
    funext v
    have ih := foldlM_verifyAt hlen k (pre ++ [v]) (by simp; omega)
    simp only [List.length_append, List.length_singleton] at ih
    rw [ih]
    simp only [map_pure, ← bind_pure_comp, List.append_assoc, List.singleton_append, pure_bind]

theorem batchVerify_eq :
    batchVerify verify pub messages signatures =
      if messages.length ≠ signatures.length then
        pure (.error "messages and signatures count mismatch")
      else Except.ok <$> (messages.zip signatures).mapM fun p => verify pub p.1 p.2 := by
  unfold batchVerify
  split
  · rfl
  · rename_i hlen
    have h := foldlM_verifyAt verify pub messages signatures (not_not.1 hlen) messages.length []
      (by simp)
    simp only [List.length_nil, List.nil_append, List.drop_zero] at h
    rw [List.range_eq_range', h, List.take_of_length_le (by simp [not_not.1 hlen])]
    simp [bind_pure_comp]

end VerifySpec

section FailFast
variable {σ : Type} (sign : PrivateKey → Bytes → StateM σ (Except String Bytes)) (priv : PrivateKey)

theorem batchSign_fail_fast (messages : List Bytes) (st : σ) :
    batchSign sign priv messages = (messages.mapM (signStep sign priv)).run ∧
    (∀ (pre post sigs : List Bytes) (msg : Bytes) (err : String) (st₁ st₂ : σ),
      messages = pre ++ msg :: post →
      (pre.mapM (signStep sign priv)).run.run st = (.ok sigs, st₁) →
      (sign priv msg).run st₁ = (.error err, st₂) →
      (batchSign sign priv messages).run st = (.error err, st₂)) ∧
    ∀ (sigs : List Bytes) (st' : σ),
      (messages.mapM (signStep sign priv)).run.run st = (.ok sigs, st') →
      (batchSign sign priv messages).run st = (.ok sigs, st') ∧ sigs.length = messages.length ∧
      ∀ (i : Nat) (hi : i < messages.length), ∃ (stᵢ stᵢ' : σ) (sig : Bytes),
        ((messages.take i).mapM (signStep sign priv)).run.run st = (.ok (sigs.take i), stᵢ) ∧
        (sign priv messages[i]).run stᵢ = (.ok sig, stᵢ') ∧ sigs[i]? = some sig := by
  refine ⟨batchSign_eq sign priv messages, fun pre post sigs msg err st₁ st₂ hm hpre hmsg => ?_,
    fun sigs st' h => ⟨by rw [batchSign_eq]; exact h, mapM_run_length h, fun i hi => ?_⟩⟩
  · rw [batchSign_eq, hm, List.mapM_append, run_bind_ok hpre, List.mapM_cons, bind_assoc]
    exact run_bind_error hmsg
  · rw [← List.take_append_drop i messages, List.mapM_append] at h
    obtain ⟨pre, stᵢ, hpre, h⟩ := run_bind_ok_inv h
    simp only [List.drop_eq_getElem_cons hi, List.mapM_cons, bind_assoc, pure_bind] at h
    obtain ⟨sig, stᵢ', hsig, h⟩ := run_bind_ok_inv h
    obtain ⟨rest, _, -, h⟩ := run_bind_ok_inv h
    cases h
    have hlen : pre.length = i := by simpa [Nat.min_eq_left hi.le] using mapM_run_length hpre
    refine ⟨stᵢ, stᵢ', sig, ?_, hsig, ?_⟩
    · simpa [← hlen] using hpre
    · rw [← hlen, List.getElem?_append_right le_rfl, Nat.sub_self, List.getElem?_cons_zero]

end FailFast

section SignThenVerify
variable {σ : Type} (sign : PrivateKey → Bytes → StateM σ (Except String Bytes))
  (verify : PublicKey → Bytes → Bytes → Bool) (priv : PrivateKey) (pub : PublicKey)

theorem mapM_signStep_verifies
    (hlaw : ∀ (msg : Bytes) (st : σ) (sig : Bytes) (st' : σ),
      (sign priv msg).run st = (.ok sig, st') → verify pub msg sig = true) :
    ∀ {messages sigs : List Bytes} {st st' : σ},
      (messages.mapM (signStep sign priv)).run.run st = (.ok sigs, st') →
      List.Forall₂ (fun msg sig => verify pub msg sig = true) messages sigs
  | [], _, _, _, h => by cases h; exact .nil
  | msg :: messages, _, _, _, h => by
    rw [List.mapM_cons] at h
    obtain ⟨sig, _, hsig, h⟩ := run_bind_ok_inv h
    obtain ⟨sigs, _, hrest, h⟩ := run_bind_ok_inv h
    cases h
    exact .cons (hlaw msg _ sig _ hsig) (mapM_signStep_verifies hlaw hrest)

theorem mapM_verify_true :
    ∀ {messages sigs : List Bytes},
      List.Forall₂ (fun msg sig => verify pub msg sig = true) messages sigs →
      ((messages.zip sigs).mapM fun p => (pure (verify pub p.1 p.2) : Id Bool)) =
        List.replicate messages.length true
  | _, _, .nil => rfl
  | _, _, .cons h hs => by
    rw [List.zip_cons_cons, List.mapM_cons, mapM_verify_true hs, h]
    rfl

theorem batchSign_then_batchVerify
    (hlaw : ∀ (msg : Bytes) (st : σ) (sig : Bytes) (st' : σ),
      (sign priv msg).run st = (.ok sig, st') → verify pub msg sig = true)
    (messages : List Bytes) (st st' : σ) (sigs : List Bytes)
    (hsign : (batchSign sign priv messages).run st = (.ok sigs, st')) :
    batchVerify (fun pub msg sig => (pure (verify pub msg sig) : Id Bool)) pub messages sigs =
      .ok (List.replicate messages.length true) := by
  rw [batchSign_eq] at hsign
  have hall := mapM_signStep_verifies sign verify priv pub hlaw hsign
  rw [batchVerify_eq, if_neg (not_not.2 hall.length_eq), mapM_verify_true verify pub hall]
  rfl

theorem batchSign_then_batchVerify_echo :
    let sign : PrivateKey → Bytes → StateM Unit (Except String Bytes) := fun _ msg => pure (.ok msg)
    let verify : PublicKey → Bytes → Bytes → Bool := fun _ msg sig => decide (msg = sig)
    (∀ (msg : Bytes) (st : Unit) (sig : Bytes) (st' : Unit),
      (sign PrivateKey.zero msg).run st = (.ok sig, st') →
        verify PrivateKey.zero.publicKey msg sig = true) ∧
    (batchSign sign PrivateKey.zero [[1], [2], [3]]).run () = (.ok [[1], [2], [3]], ()) ∧
    batchVerify (fun pub msg sig => (pure (verify pub msg sig) : Id Bool))
      PrivateKey.zero.publicKey [[1], [2], [3]] [[1], [2], [3]] = .ok [true, true, true] :=
  have hlaw : ∀ (msg : Bytes) (st : Unit) (sig : Bytes) (st' : Unit),
      ((pure (.ok msg) : StateM Unit (Except String Bytes))).run st = (.ok sig, st') →
        decide (msg = sig) = true := fun msg _ sig _ h => by cases h; simp
  ⟨hlaw, rfl, batchSign_then_batchVerify (fun _ msg => pure (.ok msg)) _ PrivateKey.zero _ hlaw
    [[1], [2], [3]] () () _ rfl⟩

end SignThenVerify

section VerifyCalls
variable (verify : PublicKey → Bytes → Bytes → Bool) (pub : PublicKey)

/-- `pub.Verify` wrapped to record each call it receives. -/
def verifyLogged (msg sig : Bytes) : StateM (List (Bytes × Bytes)) Bool := do
  modify (· ++ [(msg, sig)])
  pure (verify pub msg sig)

@[simp]
theorem verifyLogged_run (msg sig : Bytes) (calls : List (Bytes × Bytes)) :
    (verifyLogged verify pub msg sig).run calls = (verify pub msg sig, calls ++ [(msg, sig)]) :=
  rfl

theorem mapM_verifyLogged (pairs : List (Bytes × Bytes)) (calls : List (Bytes × Bytes)) :
    ((pairs.mapM fun p => verifyLogged verify pub p.1 p.2).run calls) =
      (pairs.map fun p => verify pub p.1 p.2, calls ++ pairs) := by
  induction pairs generalizing calls with
  | nil => simp only [List.mapM_nil, StateT.run_pure, List.map_nil, List.append_nil]; rfl
  | cons p pairs ih =>
    simp only [List.mapM_cons, StateT.run_bind, verifyLogged_run, ih, StateT.run_pure,
      Id.bind_eq, Id.pure_eq, List.map_cons, List.append_assoc, List.singleton_append]

theorem batchVerify_calls (messages signatures : List Bytes) :
    (batchVerify (fun pub => verifyLogged verify pub) pub messages signatures).run [] =
      if messages.length ≠ signatures.length then
        (.error "messages and signatures count mismatch", [])
      else (.ok ((messages.zip signatures).map fun p => verify pub p.1 p.2),
        messages.zip signatures) := by
  rw [batchVerify_eq]
  split
  · rfl
  · simp only [StateT.run_map, mapM_verifyLogged, List.nil_append]
    rfl

end VerifyCalls

end Gmsm.Sm2
