import EnkiOs.Lib.Memory

/-!
# セグメントの記述子

CPU が 8 バイトの記述子から読み取る、ベース、リミット、種類。リミットは 20 ビットで、粒度のビットが立っていれば、
4096 バイトを単位とする。
-/

namespace Machine

structure Segment where
  base : Word
  limit : Word
  access : Byte
deriving DecidableEq, Repr

/-- バイト 2、3、4、7 に分かれたベース。 -/
def descriptorBase (m : Memory) (a : Word) : Word := (m (a + 7) ++ m (a + 4)) ++ (m (a + 3) ++ m (a + 2))

/-- バイト 0 と 1、バイト 6 の下の 4 ビットに分かれた、20 ビットの値。 -/
def descriptorUnits (m : Memory) (a : Word) : Word :=
  ((m (a + 6)).setWidth 4 ++ (m (a + 1) ++ m a)).setWidth 32

def granular (m : Memory) (a : Word) : Bool := (m (a + 6)).getLsbD 7

def descriptorLimit (m : Memory) (a : Word) : Word :=
  if granular m a then (descriptorUnits m a <<< 12) ||| 0xFFF else descriptorUnits m a

def decodeDescriptor (m : Memory) (a : Word) : Segment where
  base := descriptorBase m a
  limit := descriptorLimit m a
  access := m (a + 5)

theorem decodeDescriptor_congr {m m' : Memory} {a : Word} (h : m.AgreeOn m' a 8) :
    decodeDescriptor m a = decodeDescriptor m' a := by
  have h0 : m a = m' a := by simpa using h 0 (by decide)
  have h1 : m (a + 1) = m' (a + 1) := h 1 (by decide)
  have h2 : m (a + 2) = m' (a + 2) := h 2 (by decide)
  have h3 : m (a + 3) = m' (a + 3) := h 3 (by decide)
  have h4 : m (a + 4) = m' (a + 4) := h 4 (by decide)
  have h5 : m (a + 5) = m' (a + 5) := h 5 (by decide)
  have h6 : m (a + 6) = m' (a + 6) := h 6 (by decide)
  have h7 : m (a + 7) = m' (a + 7) := h 7 (by decide)
  rw [decodeDescriptor, decodeDescriptor, descriptorBase, descriptorBase, descriptorLimit, descriptorLimit, granular, granular,
    descriptorUnits, descriptorUnits, h0, h1, h2, h3, h4, h5, h6, h7]

/-! ## 値を分けて置く -/

/-- `w` の、`k` ビット目からの 1 バイト。 -/
def byteFrom (w : Word) (k : Nat) : Byte := ((w >>> k) &&& 0xFF).setWidth 8

theorem toNat_byteFrom (w : Word) (k : Nat) : (byteFrom w k).toNat = w.toNat / 2 ^ k % 256 := by
  rw [byteFrom, BitVec.setWidth_and, show (0xFF : Word).setWidth 8 = BitVec.allOnes 8 from rfl, BitVec.and_allOnes,
    BitVec.toNat_setWidth, BitVec.toNat_ushiftRight, Nat.shiftRight_eq_div_pow]

theorem toNat_append_mul {n k : Nat} (x : BitVec n) (y : BitVec k) : (x ++ y).toNat = x.toNat * 2 ^ k + y.toNat := by
  rw [BitVec.toNat_append, ← Nat.shiftLeft_add_eq_or_of_lt y.isLt, Nat.shiftLeft_eq]

/-- 四つのバイトに分けて置いた値は、そのまま読める。 -/
theorem join_bytes (w : Word) : (byteFrom w 24 ++ byteFrom w 16) ++ (byteFrom w 8 ++ byteFrom w 0) = w := by
  apply BitVec.eq_of_toNat_eq
  simp only [toNat_append_mul, toNat_byteFrom]
  omega

/-- 20 ビットに収まる値は、下の 4 ビットの空いたバイトに上の 4 ビットを足しても、そのまま読める。 -/
theorem join_units {l : Word} (h : l.toNat < 2 ^ 20) (flags : Byte) (hflags : flags.setWidth 4 = 0#4) :
    ((flags ||| ((l >>> 16) &&& 0x0F).setWidth 8).setWidth 4 ++ (byteFrom l 8 ++ byteFrom l 0)).setWidth 32 = l := by
  have hhigh : (flags ||| ((l >>> 16) &&& 0x0F).setWidth 8).setWidth 4 = (l >>> 16).setWidth 4 := by
    rw [BitVec.setWidth_or, hflags, BitVec.zero_or, BitVec.setWidth_setWidth_of_le _ (by decide), BitVec.setWidth_and,
      show (0x0F : Word).setWidth 4 = BitVec.allOnes 4 from rfl, BitVec.and_allOnes]
  apply BitVec.eq_of_toNat_eq
  rw [hhigh, BitVec.toNat_setWidth, toNat_append_mul, toNat_append_mul, toNat_byteFrom, toNat_byteFrom, BitVec.toNat_setWidth,
    BitVec.toNat_ushiftRight, Nat.shiftRight_eq_div_pow]
  omega

/-- 下の 12 ビットがすべて立っていれば、4096 を単位にしても失われない。 -/
theorem scale_units {l : Word} (h : l &&& 0xFFF = 0xFFF) : ((l >>> 12) <<< 12) ||| 0xFFF = l := by
  have hlow : l.toNat % 2 ^ 12 = 0xFFF := by
    rw [← Nat.and_two_pow_sub_one_eq_mod]
    exact congrArg BitVec.toNat h
  have hshift : ((l >>> 12) <<< 12).toNat = (l.toNat / 2 ^ 12) <<< 12 := by
    rw [BitVec.toNat_shiftLeft, BitVec.toNat_ushiftRight, Nat.shiftRight_eq_div_pow, Nat.shiftLeft_eq]
    omega
  apply BitVec.eq_of_toNat_eq
  rw [BitVec.toNat_or, hshift, show (0xFFF : Word).toNat = 0xFFF from rfl,
    ← Nat.shiftLeft_add_eq_or_of_lt (show 0xFFF < 2 ^ 12 by decide), Nat.shiftLeft_eq]
  omega

/-- `a` からの 8 バイトに、ベース `base`、単位で数えたリミット `units`、種類 `access` が分けて置かれている。`flags` は、バイト 6
の上の 4 ビットである。 -/
structure Laid (m : Memory) (a base units : Word) (access flags : Byte) : Prop where
  base0 : m (a + 2) = byteFrom base 0
  base8 : m (a + 3) = byteFrom base 8
  base16 : m (a + 4) = byteFrom base 16
  base24 : m (a + 7) = byteFrom base 24
  units0 : m a = byteFrom units 0
  units8 : m (a + 1) = byteFrom units 8
  units16 : m (a + 6) = flags ||| ((units >>> 16) &&& 0x0F).setWidth 8
  access : m (a + 5) = access

variable {m : Memory} {a base units : Word} {access flags : Byte}

theorem Laid.granular (h : Laid m a base units access flags) : granular m a = flags.getLsbD 7 := by
  rw [Machine.granular, h.units16]
  simp

/-- 分けて置いた値は、CPU から読み取れる。 -/
theorem Laid.decode (h : Laid m a base units access flags) (hunits : units.toNat < 2 ^ 20) (hflags : flags.setWidth 4 = 0#4) :
    decodeDescriptor m a = ⟨base, if flags.getLsbD 7 then (units <<< 12) ||| 0xFFF else units, access⟩ := by
  have hb : descriptorBase m a = base := by
    rw [descriptorBase, h.base0, h.base8, h.base16, h.base24, join_bytes]
  have hu : descriptorUnits m a = units := by
    rw [descriptorUnits, h.units0, h.units8, h.units16, join_units hunits flags hflags]
  rw [decodeDescriptor, descriptorLimit, h.granular, hb, hu, h.access]

end Machine
