import EnkiOs.Gdt.Basic
import EnkiOs.Libc.String

/-!
# 符号化した GDT の読み取り

`encode_gdt_entry` の断らない区画は、8 バイトの記述子から、そのまま読み戻せる。
-/

namespace EnkiOs
open Machine

variable {target gdt : Word} {src : GdtStructured} {gdtS : List GdtStructured} {mem mem' : Memory}

/-- `encode_gdt_entry` が断らない。 -/
def Encodable (src : GdtStructured) : Prop := src.limit.toNat ≤ 65536 ∨ src.limit &&& 0xFFF = 0xFFF

theorem gdtStructured_encodable (tss : Word) : ∀ src ∈ gdtStructured tss, Encodable src := by
  simp [gdtStructured, Encodable]

/-- CPU から見た区画。 -/
def GdtStructured.segment (src : GdtStructured) : Segment := ⟨src.base, src.limit, src.type⟩

/-! ## 一つの区画 -/

theorem encodeGdtFields_laid (target limit : Word) (src : GdtStructured) (mem : Memory) :
    Laid (encodeGdtFields target limit src mem) target src.base limit src.type (mem (target + 6)) := by
  constructor <;> simp (disch := simp) only [encodeGdtFields, byteFrom, write_one, Memory.write_one_ne] <;> rfl

theorem encodeGdtFields_frame {x : Word} (limit : Word) (hx : ∀ j < GDT_STRUCT_SIZE, x ≠ target + BitVec.ofNat 32 j) :
    encodeGdtFields target limit src mem x = mem x := by
  have h0 : x ≠ target := by simpa using hx 0 (by decide)
  have h1 : x ≠ target + 1 := hx 1 (by decide)
  have h2 : x ≠ target + 2 := hx 2 (by decide)
  have h3 : x ≠ target + 3 := hx 3 (by decide)
  have h4 : x ≠ target + 4 := hx 4 (by decide)
  have h5 : x ≠ target + 5 := hx 5 (by decide)
  have h6 : x ≠ target + 6 := hx 6 (by decide)
  have h7 : x ≠ target + 7 := hx 7 (by decide)
  simp only [encodeGdtFields]
  rw [Memory.write_one_ne h5, Memory.write_one_ne h7, Memory.write_one_ne h4, Memory.write_one_ne h3, Memory.write_one_ne h2,
    Memory.write_one_ne h6, Memory.write_one_ne h1, Memory.write_one_ne h0]

/-- 断らない区画は、8 バイトに書かれ、そのまま読み戻せる。 -/
theorem encodeGdtEntry_decode (target : Word) (mem : Memory) (h : Encodable src) : ∃ mem', encodeGdtEntry target src mem = .ok mem' ∧
    decodeDescriptor mem' target = src.segment ∧
    ∀ x, (∀ j < GDT_STRUCT_SIZE, x ≠ target + BitVec.ofNat 32 j) → mem' x = mem x := by
  by_cases hbig : 65536 < src.limit.toNat
  · -- 4096 バイトを単位とする。
    have hlow : src.limit &&& 0xFFF = 0xFFF := h.resolve_left (Nat.not_le.2 hbig)
    have hunits : (src.limit >>> 12).toNat < 2 ^ 20 := by
      rw [BitVec.toNat_ushiftRight, Nat.shiftRight_eq_div_pow]
      omega
    refine ⟨_, by rw [encodeGdtEntry, if_neg fun hinv => hinv.2 hlow, if_pos hbig], ?_, ?_⟩
    · have hlaid := encodeGdtFields_laid target (src.limit >>> 12) src ((mem.write (target + 6) [0x40]).write (target + 6) [0xC0])
      rw [write_one] at hlaid
      rw [hlaid.decode hunits rfl, if_pos (by rfl), scale_units hlow]
      rfl
    · intro x hx
      have h6 : x ≠ target + 6 := hx 6 (by decide)
      rw [encodeGdtFields_frame _ hx, Memory.write_one_ne h6, Memory.write_one_ne h6]
  · refine ⟨_, by rw [encodeGdtEntry, if_neg fun hinv => hbig hinv.1, if_neg hbig], ?_, ?_⟩
    · have hlaid := encodeGdtFields_laid target src.limit src (mem.write (target + 6) [0x40])
      rw [write_one] at hlaid
      rw [hlaid.decode (by omega) rfl, if_neg (by decide)]
      rfl
    · intro x hx
      have h6 : x ≠ target + 6 := hx 6 (by decide)
      rw [encodeGdtFields_frame _ hx, Memory.write_one_ne h6]

/-! ## 区画の並び -/

/-- `i` 番目から後ろを書いても、手前の区画は変わらない。 -/
theorem gdtUnstructureLoop_decode {i k : Nat} (hvalid : ∀ src ∈ gdtS, Encodable src) (hlen : i + k = gdtS.length)
    (hfit : GDT_STRUCT_SIZE * gdtS.length ≤ 2 ^ 32) : ∃ mem', gdtUnstructureLoop gdt gdtS k i mem = .ok mem' ∧
      (∀ j src, i ≤ j → gdtS[j]? = some src →
        decodeDescriptor mem' (gdt + BitVec.ofNat 32 (GDT_STRUCT_SIZE * j)) = src.segment) ∧
      mem'.AgreeOn mem gdt (GDT_STRUCT_SIZE * i) := by
  unfold GDT_STRUCT_SIZE at hfit ⊢
  induction k generalizing i mem with
  | zero =>
      refine ⟨mem, rfl, ?_, fun _ _ => rfl⟩
      intro j src hij hj
      have hlt := (List.getElem?_eq_some_iff.1 hj).1
      omega
  | succ k ih =>
      have hi : i < gdtS.length := by omega
      have hget := List.getElem?_eq_getElem hi
      obtain ⟨mem₁, hrun, hdecode, hframe⟩ := encodeGdtEntry_decode
        (gdt + BitVec.ofNat 32 (GDT_STRUCT_SIZE * i)) mem (hvalid _ (List.getElem_mem hi))
      unfold GDT_STRUCT_SIZE at hrun hdecode hframe
      have hnext : i + 1 + k = gdtS.length := by omega
      obtain ⟨mem', hrest, hlater, hsame⟩ := @ih mem₁ _ hnext
      refine ⟨mem', ?_, ?_, ?_⟩
      · rw [gdtUnstructureLoop, hget]
        exact bind_ok.2 ⟨mem₁, hrun, hrest⟩
      · intro j src hij hj
        rcases Nat.eq_or_lt_of_le hij with rfl | hlt
        · cases hget.symm.trans hj
          rw [← hdecode]
          exact decodeDescriptor_congr (hsame.sub (Nat.le_refl _))
        · exact hlater j src hlt hj
      · intro l hl
        rw [hsame l (by omega)]
        refine hframe _ fun j hj => ?_
        rw [BitVec.add_assoc, ← BitVec.ofNat_add, Ne, add_ofNat_inj gdt (by omega) (by omega)]
        omega

/-- 断らない区画の並びは、どれも、記述子から読み戻せる。 -/
theorem gdtUnstructure_decode (gdt : Word) (mem : Memory) (hvalid : ∀ src ∈ gdtS, Encodable src)
    (hfit : GDT_STRUCT_SIZE * gdtS.length ≤ 2 ^ 32) :
    ∃ mem', gdtUnstructure gdt gdtS gdtS.length mem = .ok mem' ∧ ∀ i src, gdtS[i]? = some src →
      decodeDescriptor mem' (gdt + BitVec.ofNat 32 (GDT_STRUCT_SIZE * i)) = ⟨src.base, src.limit, src.type⟩ := by
  obtain ⟨mem', hrun, hdecode, -⟩ := gdtUnstructureLoop_decode (i := 0) hvalid (Nat.zero_add gdtS.length) hfit
  exact ⟨mem', hrun, fun i src hi => hdecode i src (Nat.zero_le i) hi⟩

theorem gdtUnstructure_decode_kernel : ∃ mem', gdtUnstructure 0x108000 (gdtStructured 0x107000) 6 (fun _ => 0) = .ok mem' ∧
    ∀ i src, (gdtStructured 0x107000)[i]? = some src →
      decodeDescriptor mem' (0x108000 + BitVec.ofNat 32 (GDT_STRUCT_SIZE * i)) = ⟨src.base, src.limit, src.type⟩ :=
  gdtUnstructure_decode 0x108000 (fun _ => 0) (gdtStructured_encodable 0x107000) (by decide)

end EnkiOs
