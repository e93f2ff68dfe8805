import EnkiOs.Fat.Lemmas.Lookup

/-!
# 名前のバッファ

`fat16_file_name_resolve` は、項目の名前をバッファに書く。空白も 0 もない欄では、欄の次のバイトまで読んでから止まる。
-/

namespace EnkiOs
open Machine

/-- `while` の繰り返し。範囲は、次のバイトを読んだ後に調べる。書く位置とメモリを返す。 -/
def fat16FmtStrLoop (bytes : Nat → Byte) (size i : Nat) (out : Word) (mem : Memory) : Word × Memory :=
  if bytes i ≠ 0x00 ∧ bytes i ≠ 0x20 ∧ i < size then
    fat16FmtStrLoop bytes size (i + 1) (out + 1) (mem.write out [bytes i])
  else (out, mem.write out [0x00])
termination_by size - i

def fat16FmtStrMem (out : Word) (bytes : Nat → Byte) (size : Nat) (mem : Memory) : Word × Memory :=
  fat16FmtStrLoop bytes size 0 out mem

/-- `name` は項目の先頭に、`ext` はその次にあり、欄の外の読み取りは、項目の続きを読む。 -/
def fat16FileNameResolveMem (item : FatDirItem) (out : Word) (max : Nat) (mem : Memory) : Memory :=
  let mem := mem.zero out max
  let (tmp, mem) := fat16FmtStrMem out (byteAt item.bytes) 8 mem
  if byteAt item.ext 0 ≠ 0x00 ∧ byteAt item.ext 0 ≠ 0x20 then
    (fat16FmtStrMem (tmp + 1) (fun i => byteAt item.bytes (8 + i)) 3 (mem.write tmp [0x2E])).2
  else mem

/-! ## 書かれる名前 -/

variable {bytes : Nat → Byte} {mem : Memory} {out : Word} {item : FatDirItem} {l : List Byte}

theorem fat16FmtStr_cons {c : Byte} {n : Nat} (h : c ≠ 0x00 ∧ c ≠ 0x20) :
    fat16FmtStr (c :: l) (n + 1) = c :: fat16FmtStr l n := by
  rw [fat16FmtStr, List.take_succ_cons, List.takeWhile_cons_of_pos (by simpa using h)]
  rfl

theorem fat16FmtStr_stop {c : Byte} (h : ¬(c ≠ 0x00 ∧ c ≠ 0x20)) (n : Nat) : fat16FmtStr (c :: l) n = [] := by
  cases n with
  | zero => rfl
  | succ n => rw [fat16FmtStr, List.take_succ_cons, List.takeWhile_cons_of_neg (by simpa using h)]

/-- 欄 `l` の残りを写して、終端を書く。 -/
theorem fat16FmtStrLoop_eq {size i : Nat} (hsize : i + l.length = size) (hlen : size < 2 ^ 32)
    (hl : ∀ j < l.length, bytes (i + j) = byteAt l j) :
    fat16FmtStrLoop bytes size i out mem = (out + BitVec.ofNat 32 (fat16FmtStr l l.length).length,
      mem.write out (fat16FmtStr l l.length ++ [0x00])) := by
  induction l generalizing i out mem with
  | nil =>
      rw [List.length_nil] at hsize
      rw [fat16FmtStrLoop, if_neg fun h => absurd h.2.2 (by omega)]
      simp [fat16FmtStr]
  | cons c l ih =>
      rw [List.length_cons] at hsize
      have hc : bytes i = c := hl 0 (Nat.succ_pos _)
      rw [fat16FmtStrLoop, hc]
      by_cases hplain : c ≠ 0x00 ∧ c ≠ 0x20
      · have htail : ∀ j < l.length, bytes (i + 1 + j) = byteAt l j := by
          intro j hj
          rw [Nat.add_assoc, Nat.add_comm 1]
          exact hl (j + 1) (Nat.succ_lt_succ hj)
        have hfmt := length_fat16FmtStr l l.length
        have hwrite : mem.write out (c :: (fat16FmtStr l l.length ++ [0x00])) =
            (mem.write out [c]).write (out + 1) (fat16FmtStr l l.length ++ [0x00]) := write_cons mem out c (by simp; omega)
        rw [if_pos ⟨hplain.1, hplain.2, by omega⟩, ih (by omega) htail, List.length_cons, fat16FmtStr_cons hplain, List.length_cons,
          List.cons_append, hwrite, add_one_add]
      · rw [if_neg fun h => hplain ⟨h.1, h.2.1⟩, fat16FmtStr_stop hplain]
        simp

theorem write_name_append (mem : Memory) (out : Word) {name rest : List Byte} (hlen : name.length + rest.length < 2 ^ 32)
    (hne : rest ≠ []) :
    (mem.write out (name ++ [0x00])).write (out + BitVec.ofNat 32 name.length) rest = mem.write out (name ++ rest) := by
  have hpos := List.length_pos_iff.2 hne
  rw [← Memory.write_append mem out name [0x00] (by simp; omega), Memory.write_over _ _ _ hne,
    Memory.write_append mem out name rest (by omega)]

/-- バッファには、ゼロで埋めた上に、名前と終端が書かれる。 -/
theorem fat16FileNameResolveMem_eq (item : FatDirItem) (out : Word) (max : Nat) (mem : Memory) :
    fat16FileNameResolveMem item out max mem = (mem.zero out max).write out (fat16FileNameResolve item ++ [0x00]) := by
  have hlen := item.length_eq
  have hsize : FAT_DIR_ITEM_SIZE = 32 := rfl
  have hname : item.name.length = 8 := by rw [FatDirItem.name, List.length_take]; omega
  have hext : item.ext.length = 3 := by rw [FatDirItem.ext, List.length_take, List.length_drop]; omega
  have hnameAt : ∀ j < item.name.length, byteAt item.bytes (0 + j) = byteAt item.name j := by
    intro j hj
    rw [Nat.zero_add, FatDirItem.name, byteAt, byteAt, List.getD_eq_getElem?_getD, List.getD_eq_getElem?_getD,
      List.getElem?_take_of_lt (by omega)]
  have hextAt : ∀ j < item.ext.length, byteAt item.bytes (8 + (0 + j)) = byteAt item.ext j := by
    intro j hj
    rw [Nat.zero_add, FatDirItem.ext, byteAt, byteAt, List.getD_eq_getElem?_getD, List.getD_eq_getElem?_getD,
      List.getElem?_take_of_lt (by omega), List.getElem?_drop]
  have hfmt := length_fat16FmtStr item.name 8
  have hfmt' := length_fat16FmtStr item.ext 3
  have hfirst : ∀ mem, fat16FmtStrMem out (byteAt item.bytes) 8 mem = (out + BitVec.ofNat 32 (fat16FmtStr item.name 8).length,
      mem.write out (fat16FmtStr item.name 8 ++ [0x00])) := by
    intro mem
    rw [fat16FmtStrMem, fat16FmtStrLoop_eq (by omega) (by decide) hnameAt, hname]
  have hsecond : ∀ out mem, fat16FmtStrMem out (fun i => byteAt item.bytes (8 + i)) 3 mem =
      (out + BitVec.ofNat 32 (fat16FmtStr item.ext 3).length, mem.write out (fat16FmtStr item.ext 3 ++ [0x00])) := by
    intro out mem
    rw [fat16FmtStrMem, fat16FmtStrLoop_eq (by omega) (by decide) hextAt, hext]
  rw [fat16FileNameResolveMem, fat16FileNameResolve, hfirst]
  simp only
  by_cases hdot : byteAt item.ext 0 ≠ 0x00 ∧ byteAt item.ext 0 ≠ 0x20
  · have hrest : ∀ m : Memory, (m.write (out + BitVec.ofNat 32 (fat16FmtStr item.name 8).length) [0x2E]).write
        (out + BitVec.ofNat 32 (fat16FmtStr item.name 8).length + 1) (fat16FmtStr item.ext 3 ++ [0x00]) =
          m.write (out + BitVec.ofNat 32 (fat16FmtStr item.name 8).length) (0x2E :: (fat16FmtStr item.ext 3 ++ [0x00])) :=
      fun m => (write_cons m _ _ (by simp; omega)).symm
    rw [if_pos hdot, if_pos hdot, hsecond, hrest, write_name_append _ _ (by simp; omega) (by simp), List.append_assoc]
    rfl
  · rw [if_neg hdot, if_neg hdot]

theorem byteAt_append_nul (a : List Byte) (k : Nat) : byteAt (a ++ [0x00]) k = byteAt a k := by
  by_cases hin : k < a.length
  · rw [byteAt, byteAt, List.getD_eq_getElem?_getD, List.getD_eq_getElem?_getD, List.getElem?_append_left hin]
  · rw [byteAt_of_length_le (Nat.le_of_not_lt hin), byteAt, List.getD_eq_getElem?_getD,
      List.getElem?_append_right (Nat.le_of_not_lt hin)]
    cases k - a.length <;> rfl

theorem fat16FileNameResolveMem_byte (item : FatDirItem) (out : Word) {max k : Nat} (hmax : max ≤ 2 ^ 32) (hk : k < max)
    (mem : Memory) : fat16FileNameResolveMem item out max mem (out + BitVec.ofNat 32 k) = byteAt (fat16FileNameResolve item) k := by
  have hlen := length_fat16FileNameResolve item
  rw [fat16FileNameResolveMem_eq, Memory.zero_write_at _ _ hk hmax (by simp; omega), byteAt_append_nul]

/-! ## 8.3 形式の名前 -/

/-- 名前と拡張子。どのバイトも、0 でも空白でもない。 -/
structure ShortName where
  base : List Byte
  ext : List Byte
  base_pos : 1 ≤ base.length
  base_le : base.length ≤ 8
  ext_le : ext.length ≤ 3
  base_plain : ∀ c ∈ base, c ≠ 0x00 ∧ c ≠ 0x20
  ext_plain : ∀ c ∈ ext, c ≠ 0x00 ∧ c ≠ 0x20

namespace ShortName

variable (n : ShortName)

/-- `base` または `base.ext` -/
def text : List Byte := if n.ext = [] then n.base else n.base ++ 0x2E :: n.ext

/-- 項目に、空白で埋めた名前と拡張子がある。 -/
structure EncodedIn (item : FatDirItem) : Prop where
  name_eq : item.name = n.base ++ List.replicate (8 - n.base.length) 0x20
  ext_eq : item.ext = n.ext ++ List.replicate (3 - n.ext.length) 0x20

end ShortName

theorem fat16FmtStr_padded {w : List Byte} (hw : ∀ c ∈ w, c ≠ 0x00 ∧ c ≠ 0x20) {size : Nat} (hle : w.length ≤ size) :
    fat16FmtStr (w ++ List.replicate (size - w.length) 0x20) size = w := by
  induction w generalizing size with
  | nil =>
      cases size with
      | zero => rfl
      | succ k => exact fat16FmtStr_stop (by simp) _
  | cons c w ih =>
      obtain ⟨k, rfl⟩ : ∃ k, size = k + 1 := ⟨size - 1, by simp at hle; omega⟩
      rw [List.cons_append, fat16FmtStr_cons (hw c List.mem_cons_self), List.length_cons, Nat.add_sub_add_right,
        ih (fun c hc => hw c (List.mem_cons_of_mem _ hc)) (by simpa using hle)]

/-- 項目の名前は、元の名前に戻る。 -/
theorem ShortName.EncodedIn.resolve {n : ShortName} (h : n.EncodedIn item) : fat16FileNameResolve item = n.text := by
  rw [fat16FileNameResolve, h.name_eq, h.ext_eq, fat16FmtStr_padded n.base_plain n.base_le, fat16FmtStr_padded n.ext_plain n.ext_le,
    ShortName.text]
  cases hext : n.ext with
  | nil => rfl
  | cons c w =>
      have hc := n.ext_plain c (by rw [hext]; exact List.mem_cons_self)
      have hhead : byteAt (c :: w ++ List.replicate (3 - (c :: w).length) 0x20) 0 = c := rfl
      rw [hhead, if_pos hc, if_neg (by simp)]

theorem unpadded_padded {w : List Byte} (hw : ∀ c ∈ w, c ≠ 0x00 ∧ c ≠ 0x20) (n : Nat) :
    unpadded (w ++ List.replicate n 0x20) = w := by
  induction n with
  | zero =>
      rw [List.replicate_zero, List.append_nil, unpadded, List.rdropWhile_eq_self_iff]
      intro hne
      simpa [not_or] using hw _ (List.getLast_mem hne)
  | succ n ih =>
      rw [List.replicate_succ', ← List.append_assoc, unpadded, List.rdropWhile_concat_pos _ _ _ (by decide)]
      exact ih

/-- 空白を含まない名前では、埋め草を除いた名前も元の名前である。 -/
theorem ShortName.EncodedIn.shortName_eq {n : ShortName} (h : n.EncodedIn item) : item.shortName = n.text := by
  rw [FatDirItem.shortName, h.name_eq, h.ext_eq, unpadded_padded n.base_plain, unpadded_padded n.ext_plain, ShortName.text]

end EnkiOs
