import GrinWallet.Lib.Wire

/-! # Layers of a keystream cipher

A stream cipher XORs what it is given with a keystream and goes on in the
keystream from one byte string to the next. A message in layers carries one
byte string for each layer; every layer encrypts its own string and all those
behind it in one go, so the position at which a string is encrypted depends on
the lengths of the strings before it. Applying the keystreams from the outside
in takes one string off at a time.
-/

namespace Keystream

open Wire

/-- A keystream and the position the cipher has reached in it. -/
structure Cipher where
  stream : Nat → UInt8
  pos : Nat

/-- A cipher at the start of its keystream. -/
def Cipher.start (stream : Nat → UInt8) : Cipher := ⟨stream, 0⟩

/-- XOR with the keystream from a position on. -/
def xorFrom (stream : Nat → UInt8) : Nat → Bytes → Bytes
  | _, [] => []
  | n, b :: bs => (b ^^^ stream n) :: xorFrom stream (n + 1) bs

@[simp] theorem xorFrom_length (stream : Nat → UInt8) (n : Nat) (bs : Bytes) :
    (xorFrom stream n bs).length = bs.length := by
  induction bs generalizing n with
  | nil => rfl
  | cons b bs ih => rw [xorFrom, List.length_cons, ih, List.length_cons]

@[simp] theorem xorFrom_xorFrom (stream : Nat → UInt8) (n : Nat) (bs : Bytes) :
    xorFrom stream n (xorFrom stream n bs) = bs := by
  induction bs generalizing n with
  | nil => rfl
  | cons b bs ih =>
      rw [xorFrom, xorFrom, ih, UInt8.xor_assoc, UInt8.xor_self, UInt8.xor_zero]

namespace Cipher

/-- `StreamCipher::apply_keystream`: the bytes and the cipher that goes on behind them. -/
def applyKeystream (c : Cipher) (bs : Bytes) : Bytes × Cipher :=
  (xorFrom c.stream c.pos bs, { c with pos := c.pos + bs.length })

/-- Apply the keystream to byte strings one after the other. -/
def applyEach (c : Cipher) : List Bytes → List Bytes
  | [] => []
  | bs :: rest =>
      let (bs', c') := c.applyKeystream bs
      bs' :: c'.applyEach rest

theorem applyEach_cons (c : Cipher) (bs : Bytes) (rest : List Bytes) :
    c.applyEach (bs :: rest)
      = (c.applyKeystream bs).1 :: (c.applyKeystream bs).2.applyEach rest := rfl

@[simp] theorem applyKeystream_applyKeystream (c : Cipher) (bs : Bytes) :
    c.applyKeystream (c.applyKeystream bs).1 = (bs, (c.applyKeystream bs).2) := by
  simp [applyKeystream]

/-- The second pass is at the positions of the first: the cipher keeps every length. -/
@[simp] theorem applyEach_applyEach (c : Cipher) (l : List Bytes) :
    c.applyEach (c.applyEach l) = l := by
  induction l generalizing c with
  | nil => rfl
  | cons bs rest ih =>
      rw [applyEach_cons, applyEach_cons, applyKeystream_applyKeystream, ih]

end Cipher

/-! ## Layers -/

/-- Encrypt byte strings in layers, the innermost first. -/
def layers (l : List ((Nat → UInt8) × Bytes)) : List Bytes :=
  l.foldr (fun layer inner => (Cipher.start layer.1).applyEach (layer.2 :: inner)) []

end Keystream
