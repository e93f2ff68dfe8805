import EnkiOs.Fat.NameBuffer
import EnkiOs.Fs.PathMemory

/-!
# 名前の対応

8.3 形式の項目から名前を読むと、元の名前に戻り、経路の部分との比較は、大文字と小文字の違いを除いた一致になる。
-/

namespace EnkiOs
open Machine

variable {item : FatDirItem} {mem : Memory} {out part : Word} {a b : List Byte}

/-! ## 大文字と小文字 -/

/-- 等しいか、一方が ASCII の大文字で、他方がその小文字である。 -/
def SameLetter (c d : Byte) : Prop :=
  c = d ∨ (0x41 ≤ c.toNat ∧ c.toNat ≤ 0x5A ∧ d = c + 0x20) ∨ (0x41 ≤ d.toNat ∧ d.toNat ≤ 0x5A ∧ c = d + 0x20)

theorem tolower_eq_iff {c d : Byte} : tolower c = tolower d ↔ SameLetter c d := by
  have hupper : ∀ c : Byte, (64 < c.toInt ∧ c.toInt < 91) ↔ 0x41 ≤ c.toNat ∧ c.toNat ≤ 0x5A := by
    intro c
    rw [BitVec.toInt_eq_toNat_cond]
    have hlt := c.isLt
    split <;> omega
  simp only [tolower, hupper, SameLetter]
  split <;> split <;> bv_omega

theorem sameName_iff : SameName a b ↔ List.Forall₂ SameLetter a b := by
  induction a generalizing b with
  | nil => cases b <;> simp [SameName]
  | cons c a ih =>
      cases b with
      | nil => simp [SameName]
      | cons d b =>
          rw [List.forall₂_cons, ← ih, ← tolower_eq_iff, SameName, List.map_cons, List.map_cons, List.cons_eq_cons]
          rfl

/-! ## バッファの比較 -/

theorem istrncmp_congr {s1 s2 t1 t2 : Nat → Byte} {n : Nat} (h1 : ∀ k < n, s1 k = t1 k) (h2 : ∀ k < n, s2 k = t2 k) :
    istrncmp s1 s2 n = 0 ↔ istrncmp t1 t2 n = 0 := by
  rw [istrncmp, istrncmp, istrncmpLoop_eq_zero_iff, istrncmpLoop_eq_zero_iff]
  refine and_congr_right fun _ => forall_congr' fun j => forall_congr' fun _ => forall_congr' fun hj => ?_
  rw [h1 j (by omega), h2 j (by omega)]

/-- 項目の名前と、`part` のバッファの名前とを、`fat16_find_item_in_dir` のように比べる。 -/
def fat16CompareName (item : FatDirItem) (tmpName part : Word) (mem : Memory) : Int :=
  let mem := fat16FileNameResolveMem item tmpName ENKI_MAX_PATH mem
  istrncmp (fun k => mem (tmpName + BitVec.ofNat 32 k)) (fun k => mem (part + BitVec.ofNat 32 k)) ENKI_MAX_PATH

/-- 二つのバッファは重ならない。 -/
def NamesApart (tmpName part : Word) : Prop :=
  ∀ j < ENKI_MAX_PATH, ∀ k < ENKI_MAX_PATH, part + BitVec.ofNat 32 k ≠ tmpName + BitVec.ofNat 32 j

/-- メモリにあるバッファの比較は、`fat16FindItemLoop` の比較と同じである。 -/
theorem fat16CompareName_zero_iff (item : FatDirItem) {name : List Byte} (hlen : name.length < 2 ^ 32)
    (hapart : NamesApart out part) :
    fat16CompareName item out part ((mem.zero part ENKI_MAX_PATH).write part name) = 0 ↔
      istrncmp (byteAt (fat16FileNameResolve item)) (byteAt name) ENKI_MAX_PATH = 0 := by
  have hmax : ENKI_MAX_PATH = 108 := rfl
  have hresolve := length_fat16FileNameResolve item
  refine istrncmp_congr (fun k hk => fat16FileNameResolveMem_byte item out (by decide) hk _) ?_
  intro k hk
  have hout : ∀ (m : Memory) (bytes : List Byte), bytes.length ≤ ENKI_MAX_PATH →
      m.write out bytes (part + BitVec.ofNat 32 k) = m (part + BitVec.ofNat 32 k) :=
    fun m bytes hbytes => write_outside fun j hj => hapart j (by omega) k hk
  rw [fat16FileNameResolveMem_eq, hout _ _ (by simp; omega), Memory.zero, hout _ _ (by simp),
    Memory.zero_write_at _ _ hk (by decide) (by omega)]

theorem fat16CompareName_stored (item : FatDirItem) {name : List Byte} (hname : 0 ∉ name) (hlen : name.length < 2 ^ 32)
    (hapart : NamesApart out part) :
    fat16CompareName item out part ((mem.zero part ENKI_MAX_PATH).write part name) = 0 ↔
      List.Forall₂ SameLetter (fat16FileNameResolve item) name := by
  have hresolve := length_fat16FileNameResolve item
  have hshort : (fat16FileNameResolve item).length < ENKI_MAX_PATH := Nat.lt_of_le_of_lt hresolve (by decide)
  rw [fat16CompareName_zero_iff item hlen hapart, istrncmp_eq_zero_iff (zero_not_mem_fat16FileNameResolve item) hname hshort,
    sameName_iff]

/-- 項目の名前は、元の名前に戻り、バッファの残りはゼロである。経路の部分との比較が 0 になるのは、大文字と小文字の違いを除いて一致する
ときである。 -/
theorem shortName_resolves (n : ShortName) {item : FatDirItem} (h : n.EncodedIn item) (out : Word) :
    (∀ max, 13 ≤ max → max < 2 ^ 31 → ∀ mem, n.text.length < max ∧
      (fat16FileNameResolveMem item out max mem).read out max = n.text ++ List.replicate (max - n.text.length) 0) ∧
    ∀ heap heap' mem mem' path rest part, 0 ∉ path → path.length ≤ ENKI_MAX_PATH →
      pathGetPartMem heap mem path = .ok (part, rest, heap', mem') → part ≠ 0 → NamesApart out part →
      (fat16CompareName item out part mem' = 0 ↔ List.Forall₂ SameLetter n.text (pathSplit path).1) := by
  have hresolve := length_fat16FileNameResolve item
  rw [h.resolve] at hresolve
  refine ⟨?_, ?_⟩
  · intro max hmin hmax mem
    refine ⟨by omega, List.ext_getElem (by simp; omega) fun k hk hk' => ?_⟩
    have hlt : k < max := by simpa using hk
    have hbyte := fat16FileNameResolveMem_byte item out (by omega) hlt mem
    rw [h.resolve] at hbyte
    simp only [Memory.read, List.getElem_map, List.getElem_range]
    rw [hbyte, byteAt, List.getD_eq_getElem?_getD, List.getElem_append]
    split
    · rename_i hin
      rw [List.getElem?_eq_getElem hin]
      rfl
    · rename_i hin
      rw [List.getElem?_eq_none (Nat.le_of_not_lt hin), List.getElem_replicate]
      rfl
  · intro heap heap' mem mem' path rest part hnul hlen hget hpart hapart
    have hmax : ENKI_MAX_PATH = 108 := rfl
    have hshort : (pathSplit path).1.length ≤ path.length := (List.takeWhile_prefix _).length_le
    have hname : 0 ∉ (pathSplit path).1 := fun hin => hnul ((List.takeWhile_prefix _).subset hin)
    rw [pathGetPartMem_stored (by omega) hget hpart, fat16CompareName_stored item hname (by omega) hapart, h.resolve]

/-- `TEST.TXT` -/
def testName : ShortName where
  base := [0x54, 0x45, 0x53, 0x54]
  ext := [0x54, 0x58, 0x54]
  base_pos := by decide
  base_le := by decide
  ext_le := by decide
  base_plain := by decide
  ext_plain := by decide

def testItem : FatDirItem where
  bytes := [0x54, 0x45, 0x53, 0x54, 0x20, 0x20, 0x20, 0x20, 0x54, 0x58, 0x54] ++ List.replicate 21 0
  length_eq := by decide

theorem testName_encodedIn : testName.EncodedIn testItem := ⟨by decide, by decide⟩

/-- `test.txt` -/
def testPath : List Byte := [0x74, 0x65, 0x73, 0x74, 0x2E, 0x74, 0x78, 0x74]

theorem namesApart_block {b : Nat} (hb : b < 25600) : NamesApart 0x100 (blockAddr b) := by
  intro j hj k hk
  have hmax : ENKI_MAX_PATH = 108 := rfl
  have hto := blockAddr_toNat (Nat.le_of_lt hb)
  have hbuffer : (0x100 : Word).toNat = 256 := rfl
  exact add_ofNat_ne (by omega) (by omega) (by omega)

theorem shortName_resolves_test : (fat16FileNameResolveMem testItem 0x100 13 fun _ => 0).read 0x100 13 =
      [0x54, 0x45, 0x53, 0x54, 0x2E, 0x54, 0x58, 0x54, 0, 0, 0, 0, 0] ∧
    ∃ part rest heap' mem', pathGetPartMem bootHeap (fun _ => 0) testPath = .ok (part, rest, heap', mem') ∧
      fat16CompareName testItem 0x100 part mem' = 0 := by
  obtain ⟨b, hb, heq, -⟩ := (Grown.refl bootHeap).kzalloc cleanHeap_boot.toKernelHeap (show 0 < ENKI_MAX_PATH by decide)
    (by decide) (by rw [freeCount_boot]; decide)
  have hne := blockAddr_ne_zero (Nat.le_of_lt hb)
  have hget := pathGetPartMem_eq (show testPath.length < 2 ^ 32 by decide) (by rw [heq]; exact hne) fun _ => 0
  rw [if_neg (by decide), heq] at hget
  refine ⟨((shortName_resolves testName testName_encodedIn 0x100).1 13 (by decide) (by decide) _).2, _, _, _, _, hget, ?_⟩
  refine ((shortName_resolves testName testName_encodedIn 0x100).2 _ _ _ _ _ _ _ (by decide) (by decide) hget hne
    (namesApart_block hb)).2 (sameName_iff.1 ?_)
  decide

end EnkiOs
