import EnkiOs.Disk.Lemmas
import EnkiOs.Elf.Basic
import EnkiOs.Fs.Kept

/-!
# 割り当てでないアドレスに触れない操作

`fopen` の書く記述子の内容は、割り当てたアドレスのものだけである。`2^32` に近い大きさは、`int` では負になり、
`fread` は何も読まずに成功する。
-/

namespace EnkiOs
open Machine

variable {s s' : FileState} {fd result : Int} {a : Word}

/-! ## 状態コードの先 -/

theorem blockAddr_not_error {b : Nat} (hb : b ≤ 25600) : ¬IsErrorPointer (blockAddr b) := by
  have hto := blockAddr_toNat hb
  have h1 : (BitVec.ofInt 32 (-ERDONLY)).toNat = 2 ^ 32 - ERDONLY.toNat := rfl
  have h2 : (BitVec.ofInt 32 (-ENOMEM)).toNat = 2 ^ 32 - ENOMEM.toNat := rfl
  have h3 : (BitVec.ofInt 32 (- EIO)).toNat = 2 ^ 32 - EIO.toNat := rfl
  have hcodes : ERDONLY.toNat < 4096 ∧ ENOMEM.toNat < 4096 ∧ EIO.toNat < 4096 := by decide
  rintro (he | he | he)
  · have := congrArg BitVec.toNat he
    omega
  · have := congrArg BitVec.toNat he
    omega
  · have := congrArg BitVec.toNat he
    omega

theorem zero_not_error : ¬IsErrorPointer 0 := by
  rintro (h | h | h) <;> exact absurd h (by decide)

/-- 割り当ては、状態コードを返さない。 -/
theorem kernelHeap_kept_error : HeapKept KernelHeap fun a => ¬IsErrorPointer a where
  null := zero_not_error
  kzalloc := by
    intro h n hk
    refine ⟨(kernelHeap_kept.kzalloc n hk).1, ?_⟩
    rcases hk.kzalloc_cases n with h0 | ⟨b, m, hb, heq, -⟩
    · rw [h0]
      exact zero_not_error
    · rw [heq]
      exact blockAddr_not_error (Nat.le_of_lt hb.lt)
  kfree hk _ := kernelHeap_kept.kfree hk trivial

theorem fopenDescriptor_fatFiles {descPrivate : Word} (h : fopenDescriptor s descPrivate = .ok (fd, s')) :
    s'.fatFiles = s.fatFiles := by
  obtain ⟨⟨desc, s₁⟩, hnew, h⟩ := bind_ok.1 h
  simp only [fileNewDescriptor] at hnew
  split at hnew
  · cases hnew
    cases h
    rfl
  · split at hnew
    · cases hnew
    · cases hnew
      cases h
      rfl

/-- 状態コードをポインタとして読んだ先は、変わらない。 -/
theorem fopen_fatFiles {fileName mode : List Byte} (hk : KernelHeap s.heap) (ha : IsErrorPointer a)
    (h : fopen s fileName mode = .ok (fd, s')) : s'.fatFiles a = s.fatFiles a := by
  obtain ⟨⟨root, heap₁⟩, hparse, h⟩ := bind_ok.1 h
  have hk₁ := pathParse_kept kernelHeap_kept_error hk hparse
  cases root with
  | none =>
      cases h
      rfl
  | some root =>
      simp only at h
      split at h
      · cases h
        rfl
      · split at h
        · cases h
          rfl
        · split at h
          · cases h
            rfl
          · split at h
            · cases h
              rfl
            · obtain ⟨⟨descPrivate, content, heap₂⟩, hopen, h⟩ := bind_ok.1 h
              obtain ⟨-, hcontent⟩ := fat16Open_kept kernelHeap_kept_error hk₁ hopen
              rw [fopenDescriptor_fatFiles h]
              rcases hcontent with ⟨rfl, -⟩ | ⟨c, rfl, hdesc, -⟩
              · simp
              · have hne : a ≠ descPrivate := by
                  rintro rfl
                  exact hdesc ha
                exact if_neg hne

/-! ## 負の長さの読み取り -/

theorem diskStreamRead_negative (d : Disk) (pos : Int) {total : Int} (hlow : -2 ^ 30 ≤ total) (hneg : total < 0) :
    (diskStreamRead d pos total).bytes = [] := by
  have hu : Int.tmod pos ENKI_SECTOR_SIZE < ENKI_SECTOR_SIZE := Int.tmod_lt_of_pos _ (by decide)
  have hl : -ENKI_SECTOR_SIZE < Int.tmod pos ENKI_SECTOR_SIZE := Int.lt_tmod_of_pos _ (by decide)
  have hover : streamOverflow pos total = false := by
    simp only [ENKI_SECTOR_SIZE] at hu hl
    rw [streamOverflow, ENKI_SECTOR_SIZE, i32_of_bounds (by omega) (by omega)]
    exact decide_eq_false (by omega)
  have hchunk : streamChunk pos total = total := by rw [streamChunk, hover, if_neg Bool.false_ne_true]
  have hzero : total.toNat = 0 := by omega
  rw [diskStreamRead]
  simp only [diskReadBlock, hover, hchunk, hzero]
  rfl

theorem fat16ReadInternal_negative {d : Disk} {priv : FatPrivate} {cluster : Word} {offset total : Int} {read : ClusterRead}
    (hlow : -2 ^ 30 ≤ total) (hneg : total < 0) (h : fat16ReadInternal d priv cluster offset total = .ok read) :
    read.bytes = [] := by
  have hsize : ¬total > fat16ClusterSize d priv := by
    rw [fat16ClusterSize, d.sectorSize_eq, ENKI_SECTOR_SIZE]
    omega
  have hchunk : fat16ToRead (fat16ClusterSize d priv) total = total := by
    rw [fat16ToRead, if_neg hsize]
  rw [fat16ReadInternal, fat16ReadInternalStream] at h
  split at h
  · cases h
  · split at h
    · cases h
      rfl
    · simp only [hchunk, diskStreamSeek, ne_eq, not_true_eq_false, if_false] at h
      split at h
      · cases h
        exact diskStreamRead_negative d _ hlow hneg
      · split at h
        · omega
        · cases h
          exact diskStreamRead_negative d _ hlow hneg

/-- 大きさが負になる読み取りは、メモリに書かない。 -/
theorem fread_wraps {buf size : Word} (hsize : 0xFFFFF000 < size.toNat) (h : fread s buf size 1 fd = .ok (result, s')) :
    s'.mem = s.mem := by
  have hlt := size.isLt
  have hint : size.toInt = (size.toNat : Int) - 2 ^ 32 := toInt_of_le (by omega)
  simp only [fread] at h
  split at h
  · cases h
    rfl
  · split at h
    · cases h
      rfl
    · split at h
      · cases h
      · obtain ⟨⟨code, mem⟩, hread, h⟩ := bind_ok.1 h
        cases h
        obtain ⟨item, -, hread⟩ := bind_ok.1 hread
        obtain ⟨⟨got, mem'⟩, hloop, hread⟩ := bind_ok.1 hread
        cases hread
        have hone : (1 : Word).toNat = 0 + 1 := rfl
        rw [hone, fat16ReadLoop] at hloop
        obtain ⟨read, hinternal, hloop⟩ := bind_ok.1 hloop
        have hbytes := fat16ReadInternal_negative (by omega) (by omega) hinternal
        simp only [hbytes, Memory.write_nil] at hloop
        split at hloop
        · cases hloop
          rfl
        · cases hloop
          rfl

theorem fread_size_ne {buf size blocks : Word} (h : fread s buf size blocks fd = .ok (result, s')) (hresult : 0 ≤ result) :
    size ≠ 0 := by
  rintro rfl
  simp only [fread, true_or, if_true] at h
  cases h
  exact absurd hresult (by decide)

/-- 読めた ELF ファイルの大きさの切り上げは、0 に戻らない。 -/
theorem elf_size_le {s s₁ : Kernel} {fs : FileState} {size memory : Word} (hk : kzallocBytes s size = (memory, s₁))
    (hne : memory ≠ 0) (hread : fread s₁.toFileState memory size 1 fd = .ok (result, fs))
    (hvalid : elfValidateLoaded (ElfHeader.at fs.mem memory) = 0) : size.toNat ≤ 0xFFFFF000 := by
  by_contra hsize
  have hmem := fread_wraps (by omega) hread
  have hzero : fs.mem memory = 0 := by
    rw [hmem]
    simp only [kzallocBytes] at hk
    split at hk
    · cases hk
      exact absurd rfl hne
    · obtain ⟨rfl, rfl⟩ := Prod.mk.inj hk
      simp only [Memory.zero, Memory.write, BitVec.sub_self, BitVec.toNat_zero, List.getElem?_replicate]
      rw [if_pos (by omega)]
      rfl
  have hsig : elfValidSignature (ElfHeader.at fs.mem memory) = false := by
    refine decide_eq_false ?_
    intro he
    have hhead : fs.mem (memory + BitVec.ofNat 32 0) = 0x7F := congrArg (fun l => byteAt l 0) he
    rw [show memory + BitVec.ofNat 32 0 = memory from BitVec.add_zero memory, hzero] at hhead
    exact absurd hhead (by decide)
  rw [elfValidateLoaded, if_neg (by simp [hsig])] at hvalid
  exact absurd hvalid (by decide)

end EnkiOs
