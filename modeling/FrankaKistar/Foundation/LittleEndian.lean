import Mathlib.Data.Fin.Basic

/-!
# Little-endian images of 16-bit words

An array of 16-bit words and an array of bytes that share their storage, as a C
union of the two shows it on a little-endian machine.  Word `k` occupies the
bytes `2k` (low) and `2k + 1` (high), and neither view loses anything: writing
the words and reading the bytes back, or the other way, is the identity.
-/

namespace FrankaKistar
namespace Foundation
namespace LittleEndian

def lowByte (w : UInt16) : UInt8 := UInt8.ofNat w.toNat

def highByte (w : UInt16) : UInt8 := UInt8.ofNat (w.toNat / 256)

def word (low high : UInt8) : UInt16 :=
  UInt16.ofNat (low.toNat + 256 * high.toNat)

theorem word_lowByte_highByte (w : UInt16) :
    word (lowByte w) (highByte w) = w := by
  have hw := w.toNat_lt
  apply UInt16.toNat_inj.mp
  simp [word, lowByte, highByte]
  omega

theorem lowByte_word (low high : UInt8) : lowByte (word low high) = low := by
  apply UInt8.toNat_inj.mp
  simp [word, lowByte]

theorem highByte_word (low high : UInt8) : highByte (word low high) = high := by
  have hlow := low.toNat_lt
  have hhigh := high.toNat_lt
  apply UInt8.toNat_inj.mp
  simp [word, highByte]
  omega

/-!
## The two views
-/

variable {m : Nat}

theorem low_lt (k : Fin m) : 2 * k.val < 2 * m :=
  (Nat.mul_lt_mul_left (by decide)).mpr k.isLt

theorem high_lt (k : Fin m) : 2 * k.val + 1 < 2 * m := by
  have h := k.isLt
  omega

/-- The word of element `i` of an array that starts at word `base`. -/
def fieldWord {len : Nat} (base : Nat) (h : base + len ≤ m) (i : Fin len) :
    Fin m :=
  ⟨base + i.val, Nat.lt_of_lt_of_le (Nat.add_lt_add_left i.isLt base) h⟩

/-- The word that byte `i` belongs to. -/
def wordIndex (i : Fin (2 * m)) : Fin m :=
  ⟨i.val / 2, Nat.div_lt_of_lt_mul i.isLt⟩

def toBytes (words : Fin m -> UInt16) (i : Fin (2 * m)) : UInt8 :=
  if i.val % 2 = 0 then
    lowByte (words (wordIndex i))
  else
    highByte (words (wordIndex i))

def ofBytes (bytes : Fin (2 * m) -> UInt8) (k : Fin m) : UInt16 :=
  word (bytes ⟨2 * k.val, low_lt k⟩) (bytes ⟨2 * k.val + 1, high_lt k⟩)

theorem toBytes_low (words : Fin m -> UInt16) (k : Fin m) :
    toBytes words ⟨2 * k.val, low_lt k⟩ = lowByte (words k) := by
  have hindex : wordIndex ⟨2 * k.val, low_lt k⟩ = k := by
    apply Fin.ext
    simp [wordIndex]
  simp [toBytes, hindex]

theorem toBytes_high (words : Fin m -> UInt16) (k : Fin m) :
    toBytes words ⟨2 * k.val + 1, high_lt k⟩ = highByte (words k) := by
  have hindex : wordIndex ⟨2 * k.val + 1, high_lt k⟩ = k := by
    apply Fin.ext
    simp only [wordIndex]
    omega
  simp [toBytes, hindex]

theorem ofBytes_toBytes (words : Fin m -> UInt16) :
    ofBytes (toBytes words) = words := by
  funext k
  rw [ofBytes, toBytes_low, toBytes_high, word_lowByte_highByte]

/-- The two bytes of word `k` are those of `x`. -/
def HasWord (bytes : Fin (2 * m) -> UInt8) (k : Fin m) (x : UInt16) : Prop :=
  bytes ⟨2 * k.val, low_lt k⟩ = lowByte x ∧
    bytes ⟨2 * k.val + 1, high_lt k⟩ = highByte x

theorem hasWord_iff (bytes : Fin (2 * m) -> UInt8) (k : Fin m) (x : UInt16) :
    HasWord bytes k x <-> ofBytes bytes k = x := by
  constructor
  · intro h
    rw [ofBytes, h.left, h.right, word_lowByte_highByte]
  · intro h
    subst h
    exact ⟨(lowByte_word _ _).symm, (highByte_word _ _).symm⟩

theorem toBytes_injective : Function.Injective (toBytes (m := m)) := by
  intro first second h
  rw [<- ofBytes_toBytes first, h, ofBytes_toBytes]

end LittleEndian
end Foundation
end FrankaKistar
