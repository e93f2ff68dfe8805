import EnkiOs.Heap.Blocks
import EnkiOs.Heap.Shield
import EnkiOs.Lib.Cpu
import EnkiOs.Libc.Enki
import EnkiOs.Process.Owned

/-!
# 引数の並び

`struct cmd_arg` の並びと、それを作り、写すための割り当て。
-/

namespace EnkiOs
open Machine

variable {tr : Translation} {mem mem' : Memory} {h₀ : Heap} {a p q x proc size ptr : Word} {s s' : Kernel} {ws : List (List Byte)}
  {w : List Byte}

/-! ## 語の書き込み -/

theorem wordBytes_eq (v : Word) : EnkiOs.wordBytes v = Machine.wordBytes v := by
  have hbyte : ∀ k, (v >>> k).setWidth 8 = v.extractLsb' k 8 := fun k => rfl
  rw [EnkiOs.wordBytes, Machine.wordBytes, hbyte, hbyte, hbyte]
  rfl

theorem write_word (mem : Memory) (a v : Word) : (mem.write a (EnkiOs.wordBytes v)).word a = v := by
  rw [wordBytes_eq]
  exact mem.setWord_word a v

theorem storeBytes_ok {bytes : List Byte} (hlen : bytes.length < 2 ^ 32)
    (hmap : ∀ j < bytes.length, tr (a + BitVec.ofNat 32 j) = .ok (q + BitVec.ofNat 32 j)) :
    storeBytes tr mem a bytes = .ok (mem.write q bytes) := by
  induction bytes generalizing a q mem with
  | nil => rfl
  | cons b bytes ih =>
      simp only [List.length_cons] at hlen hmap
      have hzero : tr a = .ok q := by simpa using hmap 0 (Nat.succ_pos _)
      refine bind_ok.2 ⟨_, storeByte_ok hzero, ?_⟩
      rw [ih (by omega), ← write_cons mem q b (by omega)]
      intro j hj
      rw [add_one_add, add_one_add]
      exact hmap (j + 1) (by omega)

/-! ## 割り当て -/

/-- 一ブロックに収まる割り当ては、空いたブロックを一つ塞ぎ、その先頭からゼロで埋める。 -/
theorem processMalloc_block (hk : KernelHeap s.heap) (hpos : 0 < size.toNat) (hle : size.toNat ≤ 4096)
    (h : processMalloc s proc size = .ok (ptr, s')) (hptr : ptr ≠ 0) :
    ∃ b < 25600, ptr = blockAddr b ∧ s.heap.table.freeAt b = true ∧ KernelHeap s'.heap ∧
      (∀ c : Nat, s'.heap.table.freeAt c = true → c ≠ b ∧ s.heap.table.freeAt c = true) ∧
      (∀ c : Nat, Taken s.heap c → Taken s'.heap c) ∧ Taken s'.heap b ∧ ∀ x, OffBlock b x → s'.mem x = s.mem x := by
  rcases processMalloc_cases h with ⟨-, h0, -⟩ | ⟨-, h0, -⟩ | ⟨hne, rfl, -, -, idx, -, rfl⟩
  · exact absurd h0 hptr
  · exact absurd h0 hptr
  · have hk' := (kernelHeap_kept.kzalloc size.toNat hk).1
    rcases hk.kzalloc_small hpos hle with h0 | ⟨b, hb, hfree, heq⟩
    · rw [h0] at hne
      exact absurd rfl hne
    · have hheap : (mallocState s proc size idx).heap = heapMarkBlocksTaken s.heap b 1 := by
        rw [mallocState_heap, heq]
      have hfreeAt : ∀ c : Nat, (mallocState s proc size idx).heap.table.freeAt c =
          if c = b then false else s.heap.table.freeAt c := by
        intro c
        rw [hheap, mark_one_freeAt hb]
      refine ⟨b, hb, by rw [heq], hfree, hk', ?_, ?_, ?_, ?_⟩
      · intro c hc
        rw [hfreeAt] at hc
        split at hc
        · cases hc
        · exact ⟨‹_›, hc⟩
      · intro c hc
        rw [Taken, hfreeAt]
        split
        · rfl
        · exact hc
      · rw [Taken, hfreeAt, if_pos rfl]
      · intro x hx
        have hmem : (mallocState s proc size idx).mem = s.mem.zero (blockAddr b) size.toNat := by
          simp only [mallocState, heq]
          rfl
        rw [hmem]
        exact hx.zero (by omega)

/-- `sizes` の割り当てを順に行うと、どれも成功する。 -/
def MallocsSucceed : Kernel → Word → List Word → Prop
  | _, _, [] => True
  | s, proc, size :: sizes => ∃ ptr s', processMalloc s proc size = .ok (ptr, s') ∧ ptr ≠ 0 ∧ MallocsSucceed s' proc sizes

/-- 割り当ては、メモリの内容によらない。 -/
theorem processMalloc_mem (h : processMalloc s proc size = .ok (ptr, s')) (mem : Memory) :
    ∃ mem', processMalloc { s with mem := mem } proc size = .ok (ptr, { s' with mem := mem' }) := by
  simp only [processMalloc, kzallocBytes] at h ⊢
  by_cases h0 : (kzalloc s.heap size.toNat).1 = 0
  · simp only [if_pos h0, if_true] at h ⊢
    cases h
    exact ⟨mem, rfl⟩
  · simp only [if_neg h0] at h ⊢
    cases hslot : processFindFreeAlloc (s.procs proc) with
    | none =>
        simp only [hslot] at h ⊢
        cases h
        exact ⟨_, rfl⟩
    | some idx =>
        simp only [hslot] at h ⊢
        obtain ⟨dir, hdir, h⟩ := bind_ok.1 h
        have hdir' : processPageDir { s with
            heap := (kzalloc s.heap size.toNat).2
            mem := mem.zero (kzalloc s.heap size.toNat).1 size.toNat } proc = .ok dir := hdir
        split at h
        · rename_i hneg
          cases h
          refine ⟨mem.zero (kzalloc s.heap size.toNat).1 size.toNat, bind_ok.2 ⟨dir, hdir', ?_⟩⟩
          rw [if_pos hneg]
          rfl
        · rename_i hpos
          cases h
          refine ⟨mem.zero (kzalloc s.heap size.toNat).1 size.toNat, bind_ok.2 ⟨dir, hdir', ?_⟩⟩
          rw [if_neg hpos]
          rfl

theorem MallocsSucceed.setMem {sizes : List Word} (h : MallocsSucceed s proc sizes) (mem : Memory) :
    MallocsSucceed { s with mem := mem } proc sizes := by
  induction sizes generalizing s mem with
  | nil => trivial
  | cons size sizes ih =>
      obtain ⟨ptr, s', hmalloc, hne, hrest⟩ := h
      obtain ⟨mem', hmalloc'⟩ := processMalloc_mem hmalloc mem
      exact ⟨ptr, _, hmalloc', hne, ih hrest mem'⟩

theorem MallocsSucceed.initial {sizes more : List Word} (h : MallocsSucceed s proc (sizes ++ more)) : MallocsSucceed s proc sizes := by
  induction sizes generalizing s with
  | nil => trivial
  | cons size sizes ih =>
      obtain ⟨ptr, s', hmalloc, hne, hrest⟩ := h
      exact ⟨ptr, s', hmalloc, hne, ih hrest⟩

theorem MallocsSucceed.tail {sizes : List Word} (h : MallocsSucceed s proc (size :: sizes))
    (hmalloc : processMalloc s proc size = .ok (ptr, s')) : MallocsSucceed s' proc sizes := by
  obtain ⟨ptr', s₁, hmalloc', -, hrest⟩ := h
  rw [hmalloc] at hmalloc'
  cases hmalloc'
  exact hrest

/-! ## 並び -/

/-- `h` で塞がっているブロックの中身が同じである。 -/
def SameBlocks (h : Heap) (mem mem' : Memory) : Prop :=
  ∀ b < 25600, Taken h b → ∀ i < 4096, mem' (blockAddr b + BitVec.ofNat 32 i) = mem (blockAddr b + BitVec.ofNat 32 i)

/-- `arg` から、引数が順に `ws` である並びが続く。記録は、どれも `h` で塞がっているブロックの先頭にある。 -/
def CmdList (h : Heap) (mem : Memory) : Word → List (List Byte) → Prop
  | arg, [] => arg = 0
  | arg, w :: ws => (∃ b < 25600, arg = blockAddr b ∧ Taken h b) ∧ StrAt mem arg w ∧ w.length < CMD_ARG_SIZE ∧
      CmdList h mem (cmdArgNext mem arg) ws

theorem cmdArgNext_congr (h : ∀ i, CMD_ARG_SIZE ≤ i → i < CMD_ARG_SIZE + 4 → mem' (a + BitVec.ofNat 32 i) = mem (a + BitVec.ofNat 32 i)) :
    cmdArgNext mem' a = cmdArgNext mem a := by
  refine Memory.AgreeOn.word fun k hk => ?_
  rw [BitVec.add_assoc, ← BitVec.ofNat_add]
  exact h _ (Nat.le_add_right _ _) (Nat.add_lt_add_left hk _)

theorem CmdList.congr (h : CmdList h₀ mem p ws) (hsame : SameBlocks h₀ mem mem') : CmdList h₀ mem' p ws := by
  have hsize : CMD_ARG_SIZE = 512 := rfl
  induction ws generalizing p with
  | nil => exact h
  | cons w ws ih =>
      obtain ⟨⟨b, hb, rfl, htaken⟩, hstr, hlen, hrest⟩ := h
      have hblock := hsame b hb htaken
      refine ⟨⟨b, hb, rfl, htaken⟩, hstr.congr fun j hj => hblock j (by omega), hlen, ?_⟩
      rw [cmdArgNext_congr fun i _ hi => hblock i (by omega)]
      exact ih hrest

/-- 記録の `next` に `n` を書く。 -/
theorem cmdArg_linked {c : Nat} (hid : ∀ j < 4096, tr (blockAddr c + BitVec.ofNat 32 j) = .ok (blockAddr c + BitVec.ofNat 32 j))
    (mem : Memory) (n : Word) : ∃ mem', storeWord tr mem (blockAddr c + BitVec.ofNat 32 CMD_ARG_SIZE) n = .ok mem' ∧
      cmdArgNext mem' (blockAddr c) = n ∧
      ∀ x, (∀ i, CMD_ARG_SIZE ≤ i → i < CMD_ARG_SIZE + 4 → x ≠ blockAddr c + BitVec.ofNat 32 i) → mem' x = mem x := by
  have hsize : CMD_ARG_SIZE = 512 := rfl
  have hlen : (EnkiOs.wordBytes n).length = 4 := rfl
  refine ⟨_, storeBytes_ok (by omega) fun j hj => ?_, write_word mem _ n, ?_⟩
  · rw [BitVec.add_assoc, ← BitVec.ofNat_add]
    exact hid _ (by omega)
  · intro x hx
    refine write_outside fun i hi => ?_
    rw [BitVec.add_assoc, ← BitVec.ofNat_add]
    exact hx _ (Nat.le_add_right _ _) (by omega)

/-- 新しい記録に、語のはじめの 511 バイトと空の `next` を書く。 -/
theorem cmdArg_written {b : Nat} {tok : Word} (hb : b < 25600)
    (hid : ∀ j < 4096, tr (blockAddr b + BitVec.ofNat 32 j) = .ok (blockAddr b + BitVec.ofNat 32 j))
    (htok : TextAt tr mem (OffBlock b) tok w) :
    ∃ mem₁ mem₂, strncpy tr (blockAddr b) tok CMD_ARG_SIZE mem = .ok mem₁ ∧
      storeWord tr mem₁ (blockAddr b + BitVec.ofNat 32 CMD_ARG_SIZE) 0 = .ok mem₂ ∧
      StrAt mem₂ (blockAddr b) (w.take 511) ∧ cmdArgNext mem₂ (blockAddr b) = 0 ∧ ∀ x, OffBlock b x → mem₂ x = mem x := by
  have hsize : CMD_ARG_SIZE = 512 := rfl
  obtain ⟨mem₂, hstore, hnext, hframe⟩ := cmdArg_linked hid (mem.write (blockAddr b) (w.take 511 ++ [0])) 0
  have hne := htok.ne_zero
  have htake : (w.take 511).length ≤ 511 := List.length_take_le 511 w
  refine ⟨_, mem₂, strncpyLoop_text (by decide) (fun j hj => hid j (by omega)) ?_, hstore, ?_, hnext, ?_⟩
  · exact htok.mono fun x hx => ⟨fun j hj => hx j (by omega), rfl⟩
  · have hwritten : StrAt (mem.write (blockAddr b) (w.take 511 ++ [0])) (blockAddr b) (w.take 511) :=
      strAt_write (by omega) fun c hc => hne c (List.mem_of_mem_take hc)
    refine hwritten.congr ?_
    intro j hj
    exact hframe _ fun i hi hi' => blockAddr_add_ne hb hb (by omega) (by omega) fun _ => by omega
  · intro x hx
    rw [hframe x fun i _ hi => hx i (by omega)]
    exact hx.write_start (by rw [List.length_append, List.length_singleton]; omega)

end EnkiOs
