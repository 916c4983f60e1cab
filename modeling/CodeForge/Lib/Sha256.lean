import Mathlib.Algebra.Ring.Nat
import Mathlib.Data.List.Basic

/-!
# SHA-256

The digest function, as a function on lists of bytes.  A message is padded to
blocks of sixteen words, and every block is worked into eight words of state in
sixty-four rounds.  The text of a digest has sixty-four characters
(`length_hexdigest`).
-/

namespace Lib.Sha256

/-! ## Words -/

/-- Rotation to the right. -/
def rotate (x : UInt32) (n : UInt32) : UInt32 := (x >>> n) ||| (x <<< (32 - n))

/-- The big-endian word of four bytes. -/
def word (a b c d : UInt8) : UInt32 :=
  (a.toUInt32 <<< 24) ||| (b.toUInt32 <<< 16) ||| (c.toUInt32 <<< 8) ||| d.toUInt32

/-- The words of a message, whose length is a multiple of four. -/
def words : List UInt8 → List UInt32
  | a :: b :: c :: d :: rest => word a b c d :: words rest
  | _ => []

/-- The bytes of a number, big-endian, in a field of `n` bytes. -/
def bigEndian : Nat → Nat → List UInt8
  | 0, _ => []
  | n + 1, x => UInt8.ofNat (x / 256 ^ n) :: bigEndian n (x % 256 ^ n)

/-- A message with its padding: a one, zeros, and the length in bits. -/
def pad (message : List UInt8) : List UInt8 :=
  message ++ 0x80 :: List.replicate ((119 - message.length % 64) % 64) 0 ++
    bigEndian 8 (8 * message.length)

/-! ## Rounds -/

/-- The fractional parts of the cube roots of the first sixty-four primes. -/
def roundConstants : List UInt32 :=
  [0x428a2f98, 0x71374491, 0xb5c0fbcf, 0xe9b5dba5, 0x3956c25b, 0x59f111f1, 0x923f82a4, 0xab1c5ed5,
   0xd807aa98, 0x12835b01, 0x243185be, 0x550c7dc3, 0x72be5d74, 0x80deb1fe, 0x9bdc06a7, 0xc19bf174,
   0xe49b69c1, 0xefbe4786, 0x0fc19dc6, 0x240ca1cc, 0x2de92c6f, 0x4a7484aa, 0x5cb0a9dc, 0x76f988da,
   0x983e5152, 0xa831c66d, 0xb00327c8, 0xbf597fc7, 0xc6e00bf3, 0xd5a79147, 0x06ca6351, 0x14292967,
   0x27b70a85, 0x2e1b2138, 0x4d2c6dfc, 0x53380d13, 0x650a7354, 0x766a0abb, 0x81c2c92e, 0x92722c85,
   0xa2bfe8a1, 0xa81a664b, 0xc24b8b70, 0xc76c51a3, 0xd192e819, 0xd6990624, 0xf40e3585, 0x106aa070,
   0x19a4c116, 0x1e376c08, 0x2748774c, 0x34b0bcb5, 0x391c0cb3, 0x4ed8aa4a, 0x5b9cca4f, 0x682e6ff3,
   0x748f82ee, 0x78a5636f, 0x84c87814, 0x8cc70208, 0x90befffa, 0xa4506ceb, 0xbef9a3f7, 0xc67178f2]

/-- The eight words of the state. -/
structure State where
  a : UInt32
  b : UInt32
  c : UInt32
  d : UInt32
  e : UInt32
  f : UInt32
  g : UInt32
  h : UInt32

/-- The fractional parts of the square roots of the first eight primes. -/
def State.initial : State :=
  ⟨0x6a09e667, 0xbb67ae85, 0x3c6ef372, 0xa54ff53a, 0x510e527f, 0x9b05688c, 0x1f83d9ab, 0x5be0cd19⟩

/-- Word by word. -/
def State.add (s t : State) : State :=
  ⟨s.a + t.a, s.b + t.b, s.c + t.c, s.d + t.d, s.e + t.e, s.f + t.f, s.g + t.g, s.h + t.h⟩

/-- Extend a message schedule, latest word first, by `n` words. -/
def extend : Nat → List UInt32 → List UInt32
  | 0, ws => ws
  | n + 1, ws =>
      let w15 := ws.getD 14 0
      let w2 := ws.getD 1 0
      let s0 := rotate w15 7 ^^^ rotate w15 18 ^^^ (w15 >>> 3)
      let s1 := rotate w2 17 ^^^ rotate w2 19 ^^^ (w2 >>> 10)
      extend n ((ws.getD 15 0 + s0 + ws.getD 6 0 + s1) :: ws)

/-- One round, with its constant and its word of the schedule. -/
def State.round (s : State) (k w : UInt32) : State :=
  let s1 := rotate s.e 6 ^^^ rotate s.e 11 ^^^ rotate s.e 25
  let ch := (s.e &&& s.f) ^^^ (~~~ s.e &&& s.g)
  let temp1 := s.h + s1 + ch + k + w
  let s0 := rotate s.a 2 ^^^ rotate s.a 13 ^^^ rotate s.a 22
  let maj := (s.a &&& s.b) ^^^ (s.a &&& s.c) ^^^ (s.b &&& s.c)
  ⟨temp1 + (s0 + maj), s.a, s.b, s.c, s.d + temp1, s.e, s.f, s.g⟩

/-- Work a block into the state. -/
def State.compress (s : State) (block : List UInt32) : State :=
  let schedule := (extend 48 block.reverse).reverse
  s.add ((roundConstants.zip schedule).foldl (fun t kw => t.round kw.1 kw.2) s)

/-- Work the first `n` blocks of a message into the state. -/
def State.absorb : Nat → State → List UInt32 → State
  | 0, s, _ => s
  | n + 1, s, ws => State.absorb n (s.compress (ws.take 16)) (ws.drop 16)

/-! ## Digests -/

/-- A digit of the hexadecimal system. -/
def hexDigit (n : Nat) : Char := if n < 10 then Char.ofNat (48 + n) else Char.ofNat (87 + n)

/-- The last `n` digits of a number. -/
def hexDigits : Nat → Nat → List Char
  | 0, _ => []
  | n + 1, x => hexDigit (x / 16 ^ n % 16) :: hexDigits n x

@[simp] theorem length_hexDigits (n x : Nat) : (hexDigits n x).length = n := by
  induction n with
  | zero => rfl
  | succ n ih => simp [hexDigits, ih]

/-- The state of a digested message. -/
def digest (message : List UInt8) : State :=
  let ws := words (pad message)
  State.absorb (ws.length / 16) .initial ws

/-- `hashlib.sha256(message).hexdigest()` -/
def hexdigest (message : List UInt8) : String :=
  let s := digest message
  String.ofList ([s.a, s.b, s.c, s.d, s.e, s.f, s.g, s.h].flatMap fun w => hexDigits 8 w.toNat)

theorem length_hexdigest (message : List UInt8) : (hexdigest message).length = 64 := by
  simp [hexdigest, String.length_ofList]

example : hexdigest [97, 98, 99] =
    "ba7816bf8f01cfea414140de5dae2223b00361a396177a9cb410ff61f20015ad" := by decide +kernel

end Lib.Sha256

namespace Lib

/-- A digest that keeps every byte, and so tells all messages apart. -/
def plainDigest (bytes : List UInt8) : String := String.ofList (bytes.map (Char.ofNat ·.toNat))

theorem plainDigest_injective : Function.Injective plainDigest := by
  have bytes : Function.Injective fun b : UInt8 => Char.ofNat b.toNat := by
    intro b b' h
    have code : ∀ b : UInt8, (Char.ofNat b.toNat).toNat = b.toNat := fun b => by
      have valid : b.toNat.isValidChar := .inl (Nat.lt_trans b.toNat_lt (by decide))
      rw [Char.ofNat, dif_pos valid]
      rfl
    exact UInt8.toNat_inj.1 ((code b).symm.trans ((congrArg Char.toNat h).trans (code b')))
  exact fun l l' h => bytes.list_map (String.ofList_injective h)

end Lib
