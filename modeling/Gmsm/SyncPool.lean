import Mathlib.Data.List.Nodup
import Mathlib.Logic.Function.Basic

/-! A `sync.Pool` over a heap of objects, and exclusive ownership of the references it hands
out: every live reference is allocated and occurs once across the pool and its holders. The
callers of a pool take their steps through one `List.foldlM` in `Option`; its invariant and
simulation lemmas close the module. -/

namespace Gmsm

/-- A `sync.Pool` with the heap its objects live in: `heap r` is the object at reference `r`,
the references below `next` are allocated, and `free` is the multiset the pool keeps. -/
structure Pool (α : Type) where
  heap : Nat → α
  next : Nat
  free : List Nat

namespace Pool
variable {α : Type} (p : Pool α)

def empty (x : α) : Pool α := ⟨fun _ => x, 0, []⟩

def alloc (x : α) : Nat × Pool α :=
  (p.next, { p with heap := Function.update p.heap p.next x, next := p.next + 1 })

/-- `pool.Get()`: a kept object chosen by the runtime (`some r`), or a fresh one from `New`
(`none`), which the runtime may also return while it keeps objects. -/
def get (new : α) : Option Nat → Option (Nat × Pool α)
  | none => some (p.alloc new)
  | some r => if r ∈ p.free then some (r, { p with free := p.free.erase r }) else none

/-- `pool.Put(x)`, with no check of what the pool already keeps. -/
def put (r : Nat) : Pool α := { p with free := r :: p.free }

def write (r : Nat) (x : α) : Pool α := { p with heap := Function.update p.heap r x }

/-- The runtime drops a kept object, as a garbage collection may. -/
def drop (r : Nat) : Pool α := { p with free := p.free.erase r }

@[simp] theorem put_heap (r : Nat) : (p.put r).heap = p.heap := rfl
@[simp] theorem put_next (r : Nat) : (p.put r).next = p.next := rfl
@[simp] theorem put_free (r : Nat) : (p.put r).free = r :: p.free := rfl
@[simp] theorem write_heap (r : Nat) (x : α) :
    (p.write r x).heap = Function.update p.heap r x := rfl
@[simp] theorem write_next (r : Nat) (x : α) : (p.write r x).next = p.next := rfl
@[simp] theorem write_free (r : Nat) (x : α) : (p.write r x).free = p.free := rfl
@[simp] theorem drop_heap (r : Nat) : (p.drop r).heap = p.heap := rfl
@[simp] theorem drop_next (r : Nat) : (p.drop r).next = p.next := rfl
@[simp] theorem drop_free (r : Nat) : (p.drop r).free = p.free.erase r := rfl
@[simp] theorem alloc_fst (x : α) : (p.alloc x).1 = p.next := rfl
@[simp] theorem alloc_heap (x : α) :
    (p.alloc x).2.heap = Function.update p.heap p.next x := rfl
@[simp] theorem alloc_next (x : α) : (p.alloc x).2.next = p.next + 1 := rfl
@[simp] theorem alloc_free (x : α) : (p.alloc x).2.free = p.free := rfl

/-- Every live reference is allocated and occurs once across the pool and the holders `held`. -/
structure Exclusive (held : List Nat) : Prop where
  nodup : (p.free ++ held).Nodup
  allocated : ∀ r ∈ p.free ++ held, r < p.next

variable {p}

theorem get_cases {new : α} {c : Option Nat} {r : Nat} {p' : Pool α}
    (h : p.get new c = some (r, p')) :
    (r = p.next ∧ p' = (p.alloc new).2) ∨ (r ∈ p.free ∧ p' = { p with free := p.free.erase r }) := by
  cases c with
  | none => cases h; exact .inl ⟨rfl, rfl⟩
  | some r' =>
    simp only [get] at h
    split at h
    · cases h; exact .inr ⟨‹_›, rfl⟩
    · cases h

theorem get_heap_of_lt {new : α} {c : Option Nat} {r r' : Nat} {p' : Pool α}
    (h : p.get new c = some (r, p')) (hr' : r' < p.next) : p'.heap r' = p.heap r' := by
  rcases get_cases h with ⟨-, rfl⟩ | ⟨-, rfl⟩
  · exact Function.update_noteq (Nat.ne_of_lt hr') _ _
  · rfl

theorem get_free_subset {new : α} {c : Option Nat} {r : Nat} {p' : Pool α}
    (h : p.get new c = some (r, p')) {r' : Nat} (hr' : r' ∈ p'.free) : r' ∈ p.free := by
  rcases get_cases h with ⟨-, rfl⟩ | ⟨-, rfl⟩
  · exact hr'
  · exact List.mem_of_mem_erase hr'

theorem get_heap_self {new : α} {c : Option Nat} {r : Nat} {p' : Pool α}
    (h : p.get new c = some (r, p')) : p'.heap r = new ∨ (r ∈ p.free ∧ p'.heap r = p.heap r) := by
  rcases get_cases h with ⟨rfl, rfl⟩ | ⟨hr, rfl⟩
  · exact .inl (Function.update_same _ _ _)
  · exact .inr ⟨hr, rfl⟩

variable {held held' : List Nat}

theorem Exclusive.perm (h : Exclusive p held) (hp : List.Perm held held') : Exclusive p held' :=
  ⟨((List.Perm.refl _).append hp).nodup_iff.1 h.nodup,
    fun r hr => h.allocated r (((List.Perm.refl _).append hp).mem_iff.2 hr)⟩

theorem Exclusive.not_mem_free (h : Exclusive p held) {r : Nat} (hr : r ∈ held) : r ∉ p.free :=
  fun hf => List.disjoint_of_nodup_append h.nodup hf hr

theorem Exclusive.lt_next (h : Exclusive p held) {r : Nat} (hr : r ∈ held) : r < p.next :=
  h.allocated r (List.mem_append_right _ hr)

theorem Exclusive.nodup_held (h : Exclusive p held) : held.Nodup :=
  (List.sublist_append_right _ _).nodup h.nodup

theorem Exclusive.alloc (h : Exclusive p held) (x : α) :
    Exclusive (p.alloc x).2 (p.next :: held) := by
  have hfresh : p.next ∉ p.free ++ held := fun hm => Nat.lt_irrefl _ (h.allocated _ hm)
  refine ⟨?_, ?_⟩
  · simpa only [alloc_free] using
      List.perm_middle.nodup_iff.2 (List.nodup_cons.2 ⟨hfresh, h.nodup⟩)
  · intro r hr
    simp only [alloc_free, alloc_next, List.mem_append, List.mem_cons] at hr ⊢
    rcases hr with hr | rfl | hr
    · exact Nat.lt_succ_of_lt (h.allocated r (List.mem_append_left _ hr))
    · exact Nat.lt_succ_self _
    · exact Nat.lt_succ_of_lt (h.allocated r (List.mem_append_right _ hr))

theorem Exclusive.put (h : Exclusive p (r :: held)) : Exclusive (p.put r) held := by
  refine ⟨List.perm_middle.nodup_iff.1 h.nodup, fun r' hr' => h.allocated r' ?_⟩
  simpa [or_left_comm] using hr'

theorem Exclusive.get (h : Exclusive p held) {new : α} {c : Option Nat} {r : Nat}
    {p' : Pool α} (hg : p.get new c = some (r, p')) : Exclusive p' (r :: held) := by
  rcases get_cases hg with ⟨rfl, rfl⟩ | ⟨hr, rfl⟩
  · exact h.alloc new
  · have hp : List.Perm (p.free.erase r ++ r :: held) (p.free ++ held) :=
      List.perm_middle.trans ((List.perm_cons_erase hr).symm.append_right held)
    exact ⟨hp.nodup_iff.2 h.nodup, fun r' hr' => h.allocated r' (hp.mem_iff.1 hr')⟩

theorem Exclusive.write (h : Exclusive p held) (r : Nat) (x : α) :
    Exclusive (p.write r x) held := ⟨h.nodup, h.allocated⟩

theorem Exclusive.drop (h : Exclusive p held) (r : Nat) : Exclusive (p.drop r) held :=
  ⟨((List.erase_sublist r p.free).append_right held).nodup h.nodup,
    fun r' hr' => h.allocated r' (((List.erase_sublist r p.free).append_right held).subset hr')⟩

end Pool

section Holders
variable {β : Type} (ref : β → Option Nat)

def held (cs : List β) : List Nat := cs.filterMap ref

variable {ref}

@[simp] theorem held_nil : held ref [] = [] := rfl

theorem held_cons (c : β) (cs : List β) : held ref (c :: cs) = (ref c).toList ++ held ref cs := by
  cases h : ref c <;> simp [held, List.filterMap_cons, h]

@[simp] theorem held_append (cs ds : List β) : held ref (cs ++ ds) = held ref cs ++ held ref ds :=
  List.filterMap_append _ _ _

theorem mem_held {cs : List β} {i : Nat} {c : β} {r : Nat} (hi : cs[i]? = some c)
    (hc : ref c = some r) : r ∈ held ref cs :=
  List.mem_filterMap.2 ⟨c, List.getElem?_mem hi, hc⟩

theorem getElem?_append_single {cs : List β} {c d : β} {i : Nat} (h : (cs ++ [c])[i]? = some d) :
    cs[i]? = some d ∨ c = d := by
  rcases Nat.lt_or_ge i cs.length with hi | hi
  · exact .inl (by rwa [List.getElem?_append_left hi] at h)
  · rw [List.getElem?_append_right hi] at h
    exact .inr (by simpa using (List.getElem?_eq_some_iff.1 h).2)

theorem getElem?_set_cases {cs : List β} {i j : Nat} {c d : β} (h : (cs.set i c)[j]? = some d) :
    (j = i ∧ c = d) ∨ (j ≠ i ∧ cs[j]? = some d) := by
  rw [List.getElem?_set] at h
  split at h
  · split at h
    · cases h; exact .inl ⟨(‹i = j›).symm, rfl⟩
    · cases h
  · exact .inr ⟨Ne.symm ‹_›, h⟩

theorem held_set_perm {cs : List β} {i : Nat} {c : β} (c' : β) (hi : cs[i]? = some c) :
    List.Perm (held ref (cs.set i c') ++ (ref c).toList) (held ref cs ++ (ref c').toList) := by
  obtain ⟨hlt, rfl⟩ := List.getElem?_eq_some_iff.1 hi
  have hcs : cs = cs.take i ++ cs[i] :: cs.drop (i + 1) := by simp
  rw [List.set_eq_take_append_cons_drop, if_pos hlt]
  conv => rhs; rw [hcs]
  simp only [held_append, held_cons, List.perm_iff_count, List.count_append]
  intro a
  omega

theorem held_set_acquire (ref : β → Option Nat) {cs : List β} {i : Nat} {c : β} (c' : β) {r : Nat}
    (hi : cs[i]? = some c) (hc : ref c = none) (hc' : ref c' = some r) :
    List.Perm (held ref (cs.set i c')) (r :: held ref cs) := by
  have h := @held_set_perm β ref cs i c c' hi
  rw [hc, hc'] at h
  simpa using h.trans (List.perm_append_singleton r _)

theorem held_set_release (ref : β → Option Nat) {cs : List β} {i : Nat} {c : β} (c' : β) {r : Nat}
    (hi : cs[i]? = some c) (hc : ref c = some r) (hc' : ref c' = none) :
    List.Perm (held ref cs) (r :: held ref (cs.set i c')) := by
  have h := @held_set_perm β ref cs i c c' hi
  rw [hc, hc'] at h
  simpa using h.symm.trans (List.perm_append_singleton r _)

theorem held_set_keep (ref : β → Option Nat) {cs : List β} {i : Nat} {c : β} (c' : β)
    (hi : cs[i]? = some c) (hc : ref c' = ref c) : List.Perm (held ref (cs.set i c')) (held ref cs) := by
  have h := @held_set_perm β ref cs i c c' hi
  rw [hc] at h
  exact (List.perm_append_right_iff _).1 h

theorem held_unique {cs : List β} (hn : (held ref cs).Nodup) {i j : Nat} {c d : β} {r : Nat}
    (hi : cs[i]? = some c) (hc : ref c = some r) (hj : cs[j]? = some d) (hd : ref d = some r) :
    i = j := by
  induction cs generalizing i j with
  | nil => simp at hi
  | cons a cs ih =>
    rw [held_cons] at hn
    cases i <;> cases j
    · rfl
    · simp only [List.getElem?_cons_zero, Option.some.injEq, List.getElem?_cons_succ] at hi hj
      subst hi
      simp only [hc, Option.toList_some, List.singleton_append, List.nodup_cons] at hn
      exact absurd (mem_held hj hd) hn.1
    · simp only [List.getElem?_cons_zero, Option.some.injEq, List.getElem?_cons_succ] at hi hj
      subst hj
      simp only [hd, Option.toList_some, List.singleton_append, List.nodup_cons] at hn
      exact absurd (mem_held hi hc) hn.1
    · simp only [List.getElem?_cons_succ] at hi hj
      exact congrArg (· + 1) (ih ((List.sublist_append_right _ _).nodup hn) hi hj)

end Holders

section Observation
variable {α β γ : Type} {ref : β → Option Nat} {abs : (Nat → α) → β → γ}

/-- An observation of a holder that reads the heap only at the reference the holder owns. -/
def ReadsOwn (ref : β → Option Nat) (abs : (Nat → α) → β → γ) : Prop :=
  ∀ (c : β) (heap heap' : Nat → α), (∀ r, ref c = some r → heap' r = heap r) →
    abs heap' c = abs heap c

theorem ReadsOwn.map_congr (habs : ReadsOwn ref abs) {cs : List β} {heap heap' : Nat → α}
    (h : ∀ (j r : Nat) (d : β), cs[j]? = some d → ref d = some r → heap' r = heap r) :
    cs.map (abs heap') = cs.map (abs heap) :=
  List.map_congr_left fun c hc => by
    obtain ⟨j, hj⟩ := List.getElem?_of_mem hc
    exact habs c heap heap' fun r hr => h j r c hj hr

theorem ReadsOwn.map_set (habs : ReadsOwn ref abs) {cs : List β} {heap heap' : Nat → α}
    (i : Nat) (c' : β)
    (h : ∀ (j r : Nat) (d : β), j ≠ i → cs[j]? = some d → ref d = some r → heap' r = heap r) :
    (cs.set i c').map (abs heap') = (cs.map (abs heap)).set i (abs heap' c') := by
  refine List.ext_getElem? fun j => ?_
  rcases eq_or_ne i j with rfl | hij
  · simp [List.getElem?_set]
  · rw [List.getElem?_map, List.getElem?_set_ne hij, List.getElem?_set_ne hij, List.getElem?_map]
    cases hj : cs[j]? with
    | none => rfl
    | some c => exact congrArg some (habs c heap heap' fun r hr => h j r c hij.symm hj hr)

end Observation

section Runs
variable {σ τ α : Type} {step : σ → α → Option σ} (P : σ → Prop) {allowed : α → Prop}

theorem foldlM_invariant (hstep : ∀ s a s', P s → allowed a → step s a = some s' → P s') :
    ∀ {acts : List α} {s s' : σ}, P s → (∀ a ∈ acts, allowed a) → acts.foldlM step s = some s' →
      P s'
  | [], _, _, hs, _, h => by cases h; exact hs
  | a :: _, _, _, hs, hacts, h => by
    rw [List.foldlM_cons] at h
    obtain ⟨s₁, h₁, h₂⟩ := Option.bind_eq_some.1 h
    exact foldlM_invariant hstep (hstep _ a s₁ hs (hacts a (.head _)) h₁)
      (fun b hb => hacts b (.tail _ hb)) h₂

theorem foldlM_simulates {abs : σ → τ} {step' : τ → α → Option τ}
    (hinv : ∀ s a s', P s → allowed a → step s a = some s' → P s')
    (hsim : ∀ s a s', P s → allowed a → step s a = some s' → step' (abs s) a = some (abs s')) :
    ∀ {acts : List α} {s s' : σ}, P s → (∀ a ∈ acts, allowed a) → acts.foldlM step s = some s' →
      acts.foldlM step' (abs s) = some (abs s')
  | [], _, _, _, _, h => by cases h; rfl
  | a :: _, _, _, hs, hacts, h => by
    rw [List.foldlM_cons] at h ⊢
    obtain ⟨s₁, h₁, h₂⟩ := Option.bind_eq_some.1 h
    have ha := hacts a (.head _)
    rw [hsim _ a s₁ hs ha h₁]
    exact foldlM_simulates hinv hsim (hinv _ a s₁ hs ha h₁) (fun b hb => hacts b (.tail _ hb)) h₂

end Runs

end Gmsm
