import DnsFanout.Name.Basic

/-! Numbers on the wire: the most significant octet comes first. -/

namespace DnsFanout

def word16 (n : Nat) : Bytes := [(n / 256).toUInt8, n.toUInt8]

def word32 (n : Nat) : Bytes := word16 (n / 65536) ++ word16 n

def ofWord16 (a b : UInt8) : UInt16 := (a.toNat * 256 + b.toNat).toUInt16

def ofWord32 (a b c d : UInt8) : UInt32 :=
  (((a.toNat * 256 + b.toNat) * 256 + c.toNat) * 256 + d.toNat).toUInt32

/-- The number in the first two octets. -/
def leadingWord? : Bytes → Option UInt16
  | a :: b :: _ => some (ofWord16 a b)
  | _ => none

@[simp] theorem length_word16 (n : Nat) : (word16 n).length = 2 := rfl

@[simp] theorem length_word32 (n : Nat) : (word32 n).length = 4 := rfl

theorem toNat_ofWord16 {n : Nat} (h : n < 65536) :
    (ofWord16 (n / 256).toUInt8 n.toUInt8).toNat = n := by
  simp only [ofWord16, Nat.toUInt16_eq, UInt16.toNat_ofNat', Nat.toUInt8_eq, UInt8.toNat_ofNat']
  omega

theorem ofWord16_word16 (n : UInt16) :
    ofWord16 (n.toNat / 256).toUInt8 n.toNat.toUInt8 = n := by
  apply UInt16.toNat_inj.mp
  exact toNat_ofWord16 n.toNat_lt

theorem word16_ofWord16 (a b : UInt8) : word16 (ofWord16 a b).toNat = [a, b] := by
  have ha := a.toNat_lt
  have hb := b.toNat_lt
  have hn : (ofWord16 a b).toNat = a.toNat * 256 + b.toNat := by
    simp only [ofWord16, Nat.toUInt16_eq, UInt16.toNat_ofNat']
    omega
  have hhigh : (a.toNat * 256 + b.toNat) / 256 = a.toNat := by omega
  have hlow : (a.toNat * 256 + b.toNat).toUInt8 = b := by
    apply UInt8.toNat_inj.mp
    simp only [Nat.toUInt8_eq, UInt8.toNat_ofNat']
    omega
  rw [word16, hn, hhigh, hlow]
  simp

theorem ofWord32_word32 (n : UInt32) :
    ofWord32 (n.toNat / 65536 / 256).toUInt8 (n.toNat / 65536).toUInt8
      (n.toNat / 256).toUInt8 n.toNat.toUInt8 = n := by
  apply UInt32.toNat_inj.mp
  have := n.toNat_lt
  simp only [ofWord32, Nat.toUInt32_eq, UInt32.toNat_ofNat', Nat.toUInt8_eq, UInt8.toNat_ofNat']
  omega

theorem leadingWord?_word16 (n : UInt16) (rest : Bytes) :
    leadingWord? (word16 n.toNat ++ rest) = some n :=
  congrArg some (ofWord16_word16 n)

end DnsFanout
