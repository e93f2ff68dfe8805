import EnkiOs.Heap.Lemmas.Kernel
import EnkiOs.Libc.String
import EnkiOs.Paging.Translate
import EnkiOs.Task.Basic

/-!
# タスクのメモリの読み取り

`kernel/task/task.c` のうち、タスクの表を通して読むもの。`copy_str_from_task` は、一時の領域を、タスクのディレクトリへ一時的に割り付け、そのディレクトリの
もとで文字列を写してから、元の項目に戻す。カーネルのディレクトリでは、どのアドレスも自分自身へ移る。
-/

namespace EnkiOs
open Machine

/-- タスクのディレクトリのもとでの変換。 -/
def taskTranslate (s : Kernel) (task : Word) : Translation := pageTranslate s.words (s.words (s.tasks task).pageDir)

def taskGetStackItem (s : Kernel) (task idx : Word) : Except Fault Word := do
  if task = 0 then throw .nullDeref
  loadWord (taskTranslate s task) s.mem ((s.tasks task).registers.esp + 4 * idx)

def taskVirtToPhysAddr (s : Kernel) (task virtAddr : Word) : Except Fault Word := do
  if task = 0 then throw .nullDeref
  return pagingGetPhysAddr s.words (s.words (s.tasks task).pageDir) virtAddr

/-- 一時の領域を割り付けるフラグ。 -/
def tmpFlags : Word := PAGING_IS_WRITEABLE ||| PAGING_IS_PRESENT ||| PAGING_ACCESS_FROM_ALL

/-- 一時の領域への写し。結果は、元の項目に戻した `paging_set` のものである。 -/
def copyToTmp (s : Kernel) (task tmp virtAddr : Word) (max : Int) : Except Fault (Int × Kernel) := do
  if task = 0 then throw .nullDeref
  let pageDir := (s.tasks task).pageDir
  let taskDir := s.words pageDir
  let oldEntry := pagingGet s.words taskDir tmp
  let (_, words) := pagingMap s.words pageDir tmp tmp tmpFlags
  let mem ← strncpy (pageTranslate words (words pageDir)) tmp virtAddr max s.mem
  let (result, words) := pagingSet words taskDir tmp oldEntry
  return (result, { s with mem := mem, words := words })

/-- 写し終えても、一時の領域は解放しない。 -/
def copyStrFromTask (s : Kernel) (task virtAddr physAddr : Word) (max : Int) : Except Fault (Int × Kernel) := do
  if PAGING_PAGE_SIZE.toInt ≤ max then return (-EINVARG, s)
  let (tmp, s) := kzallocBytes s (BitVec.ofInt 32 max)
  if tmp = 0 then return (-ENOMEM, s)
  let (result, s) ← copyToTmp s task tmp virtAddr max
  if result < 0 then return (- EIO, s.setHeap (kfree s.heap tmp))
  let mem ← strncpy .ok physAddr tmp max s.mem
  return (0, { s with mem := mem })

section

variable {s s' : Kernel} {task tmp virt phys : Word} {max r : Int}

/-! ## 一時の割り付け -/

/-- 揃った領域への写しは、失敗せずに終わり、メモリと表のほかには触れない。 -/
theorem copyToTmp_cases (htmp : PageAligned tmp) (h : copyToTmp s task tmp virt max = .ok (r, s')) :
    r = 0 ∧ ∃ mem words, s' = { s with mem := mem, words := words } := by
  have hal : pagingIsAligned tmp = true := decide_eq_true (pageAligned_iff.2 htmp)
  simp only [copyToTmp] at h
  split at h
  · cases h
  · obtain ⟨mem, -, h⟩ := bind_ok.1 h
    rw [pagingSet, if_neg (by simp [hal]), PageDir.indices_eq htmp] at h
    cases h
    exact ⟨rfl, _, _, rfl⟩

/-- 写しは、一時の項目を書き換えた表のもとで行われ、表の項目は元に戻る。 -/
theorem copyToTmp_eq {entries : Word} {table : Nat → Word} (hdir : PageDir s.words (s.tasks task).pageDir entries table)
    (htmp : PageAligned tmp) (htask : task ≠ 0) : copyToTmp s task tmp virt max = do
      let mem ← strncpy (pageTranslate (s.words.set (pageSlot table (pageOf tmp)) (tmp ||| tmpFlags)) entries) tmp virt max s.mem
      return (0, { s with mem := mem }) := by
  have hset := hdir.set (pageOf_lt tmp) (tmp ||| tmpFlags)
  have hmap : pagingMap s.words (s.tasks task).pageDir tmp tmp tmpFlags =
      (0, s.words.set (pageSlot table (pageOf tmp)) (tmp ||| tmpFlags)) := by
    rw [pagingMap_aligned htmp htmp, hdir.dir_eq, hdir.set_eq htmp, pageOf]
  have hback : (s.words.set (pageSlot table (pageOf tmp)) (tmp ||| tmpFlags)).set (pageSlot table (pageOf tmp))
      (s.words (pageSlot table (pageOf tmp))) = s.words := by
    funext x
    by_cases hx : x = pageSlot table (pageOf tmp)
    · rw [hx, Words.set_same]
    · rw [Words.set_other _ hx, Words.set_other _ hx]
  simp only [copyToTmp, if_neg htask, hmap, hset.dir_eq, hdir.dir_eq, hset.set_eq htmp, hdir.get_eq htmp]
  rw [pageOf] at hback ⊢
  simp only [hback]

/-! ## 返るときの状態 -/

/-- 一時の領域が取れなければ何も変わらず、取れれば必ず 0 が返る。 -/
theorem copyStrFromTask_cases (hk : KernelHeap s.heap) (h : copyStrFromTask s task virt phys max = .ok (r, s')) :
    (r < 0 ∧ s' = s ∧ (4096 ≤ max ∨ kzalloc s.heap (BitVec.ofInt 32 max).toNat = (0, s.heap))) ∨
      (r = 0 ∧ max < 4096 ∧ ∃ b m mem words, Handed s.heap b m ∧
        kzalloc s.heap (BitVec.ofInt 32 max).toNat = (blockAddr b, heapMarkBlocksTaken s.heap b m) ∧
        copyToTmp { s with
          heap := heapMarkBlocksTaken s.heap b m
          mem := s.mem.zero (blockAddr b) (BitVec.ofInt 32 max).toNat } task (blockAddr b) virt max =
            .ok (0, { s with heap := heapMarkBlocksTaken s.heap b m, mem := mem, words := words }) ∧
        ∃ mem', strncpy .ok phys (blockAddr b) max mem = .ok mem' ∧
          s' = { s with heap := heapMarkBlocksTaken s.heap b m, mem := mem', words := words }) := by
  have hpage : PAGING_PAGE_SIZE.toInt = 4096 := rfl
  simp only [copyStrFromTask, hpage] at h
  split at h
  · rename_i hmax
    cases h
    exact .inl ⟨by decide, rfl, .inl hmax⟩
  · rename_i hmax
    rcases hk.kzalloc_cases (BitVec.ofInt 32 max).toNat with h0 | ⟨b, m, hb, heq, -⟩
    · simp only [kzallocBytes, h0] at h
      cases h
      exact .inl ⟨by decide, rfl, .inr h0⟩
    · have hne := blockAddr_ne_zero (Nat.le_of_lt hb.lt)
      simp only [kzallocBytes, heq, if_neg hne] at h
      obtain ⟨⟨result, s₁⟩, htmp, h⟩ := bind_ok.1 h
      obtain ⟨rfl, mem, words, rfl⟩ := copyToTmp_cases (pageAligned_blockAddr (Nat.le_of_lt hb.lt)) htmp
      simp only at h
      obtain ⟨mem', hcopy, h⟩ := bind_ok.1 h
      cases h
      exact .inr ⟨rfl, by omega, b, m, mem, words, hb, heq, htmp, mem', hcopy, rfl⟩

end

end EnkiOs
