import Mathlib.Tactic.SplitIfs
import Mathlib.Logic.Basic

/-! SM4's one-call helpers `EncryptWithKey` and `DecryptWithKey`: a key-size check, then a
switch on `CipherMode` to one of the package's mode functions. The mode functions and
`NewCipher` are not in this repository; they are the fields of `Primitives`. -/

namespace Gmsm.Sm4

/-- `CipherMode`, a Go `int`. -/
abbrev CipherMode := Int

def ECB : CipherMode := 0
def CBC : CipherMode := 1
def CFB : CipherMode := 2
def OFB : CipherMode := 3

/-- `sm4.BlockSize`: an SM4 key is one 16-byte block. -/
def BlockSize : Nat := 16

abbrev ModeFunc := List UInt8 → List UInt8 → Bool → Except String (List UInt8)

/-- The functions of package `sm4` the helpers call; `NewCipher`'s block is discarded. -/
structure Primitives where
  newCipher : List UInt8 → Except String Unit
  sm4Ecb : ModeFunc
  sm4Cbc : ModeFunc
  sm4CFB : ModeFunc
  sm4OFB : ModeFunc

section Helpers
variable (sm4 : Primitives)

/-- The switch both helpers share: the mode function of `mode`, if it names one. -/
def modeFunc (mode : CipherMode) : Option ModeFunc :=
  if mode = ECB then some sm4.sm4Ecb
  else if mode = CBC then some sm4.sm4Cbc
  else if mode = CFB then some sm4.sm4CFB
  else if mode = OFB then some sm4.sm4OFB
  else none

def crypt (key data : List UInt8) (mode : CipherMode) (encrypt : Bool) :
    Except String (List UInt8) :=
  match modeFunc sm4 mode with
  | some f => f key data encrypt
  | none => .error "SM4: unsupported cipher mode"

def encryptWithKey (key data : List UInt8) (mode : CipherMode) : Except String (List UInt8) :=
  if key.length ≠ BlockSize then .error "SM4: invalid key size"
  else match sm4.newCipher key with
    | .error err => .error err
    | .ok () => crypt sm4 key data mode true

/-- Unlike `encryptWithKey`, no `NewCipher` call. -/
def decryptWithKey (key data : List UInt8) (mode : CipherMode) : Except String (List UInt8) :=
  if key.length ≠ BlockSize then .error "SM4: invalid key size"
  else crypt sm4 key data mode false

theorem crypt_ok {key data c : List UInt8} {mode : CipherMode} {encrypt : Bool}
    (h : crypt sm4 key data mode encrypt = .ok c) :
    ∃ f, modeFunc sm4 mode = some f ∧ f key data encrypt = .ok c := by
  unfold crypt at h
  split at h
  · exact ⟨_, ‹_›, h⟩
  · cases h

theorem encryptWithKey_ok {key data c : List UInt8} {mode : CipherMode}
    (h : encryptWithKey sm4 key data mode = .ok c) :
    key.length = BlockSize ∧ sm4.newCipher key = .ok () ∧ crypt sm4 key data mode true = .ok c := by
  unfold encryptWithKey at h
  split at h
  · cases h
  · split at h
    · cases h
    · exact ⟨not_not.1 ‹_›, ‹_›, h⟩

/-- Each mode function undoes its own encryption under the same key. -/
def Inverse : Prop :=
  ∀ f ∈ [sm4.sm4Ecb, sm4.sm4Cbc, sm4.sm4CFB, sm4.sm4OFB],
    ∀ key data c, f key data true = .ok c → f key c false = .ok data

theorem modeFunc_mem {mode : CipherMode} {f : ModeFunc} (h : modeFunc sm4 mode = some f) :
    f ∈ [sm4.sm4Ecb, sm4.sm4Cbc, sm4.sm4CFB, sm4.sm4OFB] := by
  unfold modeFunc at h
  split_ifs at h <;> cases h <;> simp

/-- Both helpers pick the same mode function, so `DecryptWithKey` undoes `EncryptWithKey`
whenever the mode functions invert. -/
theorem decryptWithKey_encryptWithKey (hinv : Inverse sm4) (key data c : List UInt8)
    (mode : CipherMode) (h : encryptWithKey sm4 key data mode = .ok c) :
    decryptWithKey sm4 key c mode = .ok data := by
  obtain ⟨hkey, -, hc⟩ := encryptWithKey_ok sm4 h
  obtain ⟨f, hf, hfc⟩ := crypt_ok sm4 hc
  rw [decryptWithKey, if_neg (not_not.2 hkey), crypt, hf]
  exact hinv f (modeFunc_mem sm4 hf) key data c hfc

end Helpers

def reversing : Primitives :=
  ⟨fun _ => .ok (), fun _ d _ => .ok d.reverse, fun _ d _ => .ok d.reverse,
    fun _ d _ => .ok d.reverse, fun _ d _ => .ok d.reverse⟩

theorem decryptWithKey_encryptWithKey_reversing :
    Inverse reversing ∧
      encryptWithKey reversing (List.replicate 16 7) [1, 2, 3] CBC = .ok [3, 2, 1] ∧
      decryptWithKey reversing (List.replicate 16 7) [3, 2, 1] CBC = .ok [1, 2, 3] :=
  have hinv : Inverse reversing := by
    simp only [Inverse, reversing, List.mem_cons, List.mem_singleton, or_self, forall_eq,
      List.not_mem_nil, or_false]
    intro key data c h
    cases h
    rw [List.reverse_reverse]
  ⟨hinv, rfl, decryptWithKey_encryptWithKey reversing hinv _ _ _ CBC rfl⟩

end Gmsm.Sm4
