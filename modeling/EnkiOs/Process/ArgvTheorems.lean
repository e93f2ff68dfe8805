import EnkiOs.Libc.EnkiTheorems
import EnkiOs.Process.ArgsTheorems
import EnkiOs.Process.OwnedTheorems

/-!
# コマンドから引数へ

`process_inject_args` は、`struct cmd_arg` の並びの引数を一つずつ写し、その位置を `argv` に並べる。
-/

namespace EnkiOs
open Machine

variable {tr : Translation} {mem : Memory} {h₀ : Heap} {q scmd cmd proc arg current root : Word} {s s' : Kernel} {text : List Byte}
  {ws : List (List Byte)} {k fuel : Nat}

theorem processCountCmdArgsFrom_list {i : Nat} (hlist : CmdList h₀ mem arg ws) (hk : ws.length ≤ k) (hfit : i + ws.length < 2 ^ 31) :
    processCountCmdArgsFrom mem k arg i = .ok (i + ws.length : Nat) := by
  induction ws generalizing k arg i with
  | nil =>
      obtain rfl : arg = 0 := hlist
      cases k with
      | zero => exact if_pos rfl
      | succ k => exact if_pos rfl
  | cons w ws ih =>
      obtain ⟨k, rfl⟩ : ∃ k', k = k' + 1 := ⟨k - 1, by simp at hk; omega⟩
      simp only [List.length_cons] at hk hfit ⊢
      obtain ⟨⟨b, hb, rfl, -⟩, -, -, hrest⟩ := hlist
      have hi : i32 (i + 1 : Int) = ((i + 1 : Nat) : Int) := i32_of_bounds (by omega) (by omega)
      rw [processCountCmdArgsFrom, if_neg (blockAddr_ne_zero (Nat.le_of_lt hb)), hi, ih hrest (by omega) (by omega),
        show i + 1 + ws.length = i + (ws.length + 1) by omega]

theorem strncpy_arg {w : List Byte} {b c : Nat} (hb : b < 25600) (hc : c < 25600) (hcb : c ≠ b) (hstr : StrAt mem (blockAddr c) w)
    (hlen : w.length < CMD_ARG_SIZE) :
    strncpy .ok (blockAddr b) (blockAddr c) CMD_ARG_SIZE mem = .ok (mem.write (blockAddr b) (w ++ [0])) := by
  have hsize : CMD_ARG_SIZE = 512 := rfl
  have hoff : ∀ j < 4096, OffBlock b (blockAddr c + BitVec.ofNat 32 j) := fun j hj => offBlock_of_ne hb hc hcb.symm hj
  have hcopy : strncpyLoop .ok 511 (blockAddr b) (blockAddr c) mem = .ok (mem.write (blockAddr b) (w.take 511 ++ [0])) :=
    strncpyLoop_text (by decide) (fun _ _ => rfl)
      (hstr.textAt (fun _ _ => rfl) fun j hj l hl => hoff j (by omega) l (by omega))
  rw [List.take_of_length_le (by omega)] at hcopy
  exact hcopy

/-- 引数を一つ写した後。新しいブロック `b` に写しがあり、`argv` の `i` 番目がそれを指す。 -/
structure ArgCopied (a i b : Nat) (w : List Byte) (s s₂ : Kernel) : Prop where
  lt : b < 25600
  fresh : ∀ d : Nat, Taken s.heap d → d ≠ b
  taken : Taken s₂.heap b
  kernel : KernelHeap s₂.heap
  mono : ∀ d : Nat, Taken s.heap d → Taken s₂.heap d
  slot : s₂.mem.word (blockAddr a + BitVec.ofNat 32 (4 * i)) = blockAddr b
  text : StrAt s₂.mem (blockAddr b) w
  frame : ∀ d < 25600, Taken s.heap d → ∀ j < 4096, (d = a → j < 4 * i) →
    s₂.mem (blockAddr d + BitVec.ofNat 32 j) = s.mem (blockAddr d + BitVec.ofNat 32 j)

/-- 繰り返しの一回。 -/
theorem processInjectLoop_step {i a : Nat} {w : List Byte} {sizes : List Word} (hk : KernelHeap s.heap)
    (hmono : ∀ b : Nat, Taken h₀ b → Taken s.heap b) (ha : a < 25600) (hnew : ¬Taken h₀ a) (hargv : Taken s.heap a)
    (hlist : CmdList h₀ s.mem current (w :: ws)) (hfit : i < 1024)
    (hmallocs : MallocsSucceed s proc (BitVec.ofNat 32 CMD_ARG_SIZE :: sizes)) :
    ∃ b s₂ next, ArgCopied a i b w s s₂ ∧ CmdList h₀ s₂.mem next ws ∧ MallocsSucceed s₂ proc sizes ∧
      ∀ k r, processInjectLoop proc (blockAddr a) k s₂ next (i + 1 : Nat) = .ok r →
        processInjectLoop proc (blockAddr a) (k + 1) s current i = .ok r := by
  have hsize : CMD_ARG_SIZE = 512 := rfl
  obtain ⟨ptr, s₁, hmalloc, hptr, hmallocs⟩ := hmallocs
  obtain ⟨b, hb, rfl, hfree, hk₁, -, hmore, hbtaken, hframe₁⟩ := processMalloc_block hk (by decide) (by decide) hmalloc hptr
  have hfresh : ∀ d : Nat, Taken s.heap d → d ≠ b := fun _ hd => HeapTable.ne_of_freeAt hd hfree
  have hab : a ≠ b := hfresh a hargv
  obtain ⟨⟨c, hc, rfl, hctaken⟩, hstr, hlen, hrest⟩ := hlist
  have hcb : c ≠ b := hfresh c (hmono c hctaken)
  have hcopy := strncpy_arg hb hc hcb (hstr.congr fun j hj => hframe₁ _ (offBlock_of_ne hb hc hcb.symm (by omega))) hlen
  have hslot : blockAddr a + 4 * BitVec.ofInt 32 (i : Int) = blockAddr a + BitVec.ofNat 32 (4 * i) := by
    rw [BitVec.ofInt_natCast, BitVec.ofNat_mul]
    rfl
  -- 写しを書き、その位置を `argv` に書く。
  obtain ⟨mem₂, hmem₂⟩ : ∃ mem₂, (s₁.mem.write (blockAddr b) (w ++ [0])).write (blockAddr a + BitVec.ofNat 32 (4 * i))
    (EnkiOs.wordBytes (blockAddr b)) = mem₂ := ⟨_, rfl⟩
  have hword₂ : (EnkiOs.wordBytes (blockAddr b)).length = 4 := rfl
  have hslot₂ : ∀ d < 25600, ∀ j < 4096, (d = a → j < 4 * i) →
      mem₂ (blockAddr d + BitVec.ofNat 32 j) = s₁.mem.write (blockAddr b) (w ++ [0]) (blockAddr d + BitVec.ofNat 32 j) := by
    intro d hd j hj hda
    rw [← hmem₂]
    exact write_block_before ha hd hj (by omega) hda
  have hframe₂ : ∀ d < 25600, Taken s.heap d → ∀ j < 4096, (d = a → j < 4 * i) →
      mem₂ (blockAddr d + BitVec.ofNat 32 j) = s.mem (blockAddr d + BitVec.ofNat 32 j) := by
    intro d hd hdt j hj hda
    have hoff := offBlock_of_ne hb hd (Ne.symm (hfresh d hdt)) hj
    rw [hslot₂ d hd j hj hda, ← hframe₁ _ hoff]
    exact hoff.write_start (by rw [List.length_append, List.length_singleton]; omega)
  have hlist₂ : CmdList h₀ mem₂ (blockAddr c) (w :: ws) :=
    CmdList.congr ⟨⟨c, hc, rfl, hctaken⟩, hstr, hlen, hrest⟩ fun d hd hdt j hj =>
      hframe₂ d hd (hmono d hdt) j hj fun he => absurd (he ▸ hdt) hnew
  have hword : mem₂.word (blockAddr a + BitVec.ofNat 32 (4 * i)) = blockAddr b := by
    rw [← hmem₂]
    exact write_word _ _ _
  have htext : StrAt mem₂ (blockAddr b) w := by
    have hwritten : StrAt (s₁.mem.write (blockAddr b) (w ++ [0])) (blockAddr b) w := strAt_write (by omega) hstr.ne_zero
    exact hwritten.congr fun l hl => hslot₂ b hb l (by omega) fun he => absurd he.symm hab
  have hi : i32 (i + 1 : Int) = ((i + 1 : Nat) : Int) := i32_of_bounds (by omega) (by omega)
  refine ⟨b, { s₁ with mem := mem₂ }, _, ⟨hb, hfresh, hbtaken, hk₁, hmore, hword, htext, hframe₂⟩, hlist₂.2.2.2,
    hmallocs.setMem mem₂, ?_⟩
  intro k r hrun
  rw [processInjectLoop, if_neg (blockAddr_ne_zero (Nat.le_of_lt hc))]
  refine bind_ok.2 ⟨_, hmalloc, ?_⟩
  simp only
  rw [if_neg hptr]
  refine bind_ok.2 ⟨_, hcopy, ?_⟩
  rw [hslot, hmem₂, hi]
  exact hrun

/-- 引数の写しを、`argv` の `i` 番目から順に並べる。変わるのは、新しいブロックと、`argv` のそこから先だけである。 -/
theorem processInjectLoop_copies {i a : Nat} (hk : KernelHeap s.heap) (hmono : ∀ b : Nat, Taken h₀ b → Taken s.heap b) (ha : a < 25600)
    (hnew : ¬Taken h₀ a) (hargv : Taken s.heap a) (hlist : CmdList h₀ s.mem current ws) (hfit : i + ws.length ≤ 1024)
    (hle : ws.length ≤ k) (hmallocs : MallocsSucceed s proc (List.replicate ws.length (BitVec.ofNat 32 CMD_ARG_SIZE))) :
    ∃ s', processInjectLoop proc (blockAddr a) k s current i = .ok (0, s') ∧
      (∀ j w, ws[j]? = some w → StrAt s'.mem (s'.mem.word (blockAddr a + BitVec.ofNat 32 (4 * (i + j)))) w) ∧
      ∀ b < 25600, Taken s.heap b → ∀ j < 4096, (b = a → j < 4 * i) →
        s'.mem (blockAddr b + BitVec.ofNat 32 j) = s.mem (blockAddr b + BitVec.ofNat 32 j) := by
  have hsize : CMD_ARG_SIZE = 512 := rfl
  induction ws generalizing k s current i with
  | nil =>
      obtain rfl : current = 0 := hlist
      refine ⟨s, ?_, fun j w hj => by simp at hj, fun _ _ _ _ _ _ => rfl⟩
      cases k with
      | zero => exact if_pos rfl
      | succ k => exact if_pos rfl
  | cons w ws ih =>
      obtain ⟨k, rfl⟩ : ∃ k', k = k' + 1 := ⟨k - 1, by simp at hle; omega⟩
      simp only [List.length_cons] at hle hfit
      have hlen : w.length < CMD_ARG_SIZE := hlist.2.2.1
      obtain ⟨b, s₂, next, hcopied, hlist₂, hmallocs₂, hstep⟩ :=
        processInjectLoop_step (i := i) hk hmono ha hnew hargv hlist (by omega) hmallocs
      have hba : b ≠ a := (hcopied.fresh a hargv).symm
      obtain ⟨s', hrun, hcopies, hframe⟩ := ih (k := k) (i := i + 1) hcopied.kernel (fun d hd => hcopied.mono d (hmono d hd))
        (hcopied.mono a hargv) hlist₂ (by omega) (by omega) hmallocs₂
      refine ⟨s', hstep k _ hrun, ?_, ?_⟩
      · intro j w' hj
        cases j with
        | zero =>
            obtain rfl : w = w' := by simpa using hj
            have hword : s'.mem.word (blockAddr a + BitVec.ofNat 32 (4 * i)) = blockAddr b := by
              rw [← hcopied.slot]
              refine Memory.AgreeOn.word fun l hl => ?_
              rw [BitVec.add_assoc, ← BitVec.ofNat_add]
              exact hframe a ha (hcopied.mono a hargv) (4 * i + l) (by omega) (fun _ => by omega)
            rw [Nat.add_zero, hword]
            exact hcopied.text.congr fun l hl => hframe b hcopied.lt hcopied.taken l (by omega) fun he => absurd he hba
        | succ j =>
            have hrest := hcopies j w' (by simpa using hj)
            rw [show i + 1 + j = i + (j + 1) by omega] at hrest
            exact hrest
      · intro d hd hdt j hj hda
        rw [hframe d hd (hcopied.mono d hdt) j hj fun he => by have := hda he; omega]
        exact hcopied.frame d hd hdt j hj hda

theorem processInjectArgs_list (hk : KernelHeap s.heap) (hlist : CmdList s.heap s.mem root ws) (hne : ws ≠ []) (hfit : ws.length ≤ 1024)
    (hfuel : ws.length ≤ fuel)
    (hmallocs : MallocsSucceed s proc (BitVec.ofNat 32 ws.length * 4 :: List.replicate ws.length (BitVec.ofNat 32 CMD_ARG_SIZE))) :
    ∃ s' argv, processInjectArgs fuel s proc root = .ok (0, s') ∧ (s'.procs proc).args = ⟨ws.length, argv⟩ ∧
      ∀ i w, ws[i]? = some w → StrAt s'.mem (s'.mem.word (argv + 4 * BitVec.ofNat 32 i)) w := by
  have hpos := List.length_pos_iff.2 hne
  have hcount : processCountCmdArgs fuel s.mem root = .ok (ws.length : Int) := by
    have hcount := processCountCmdArgsFrom_list (i := 0) hlist hfuel (by omega)
    rw [Nat.zero_add] at hcount
    exact hcount
  obtain ⟨ptr, s₁, hmalloc, hptr, hmallocs⟩ := hmallocs
  have hsize : (BitVec.ofNat 32 ws.length * 4 : Word).toNat = ws.length * 4 := by
    rw [BitVec.toNat_mul, BitVec.toNat_ofNat, show (4 : Word).toNat = 4 from rfl]
    omega
  obtain ⟨a, ha, rfl, hfree, hk₁, -, hmore, htaken, hframe⟩ := processMalloc_block hk (by omega) (by omega) hmalloc hptr
  have hnew : ¬Taken s.heap a := by
    rw [Taken, hfree]
    decide
  have hlist₁ : CmdList s.heap s₁.mem root ws := hlist.congr fun b hb hbt j hj =>
    hframe _ (offBlock_of_ne ha hb (fun he => hnew (he ▸ hbt)) hj)
  obtain ⟨s₂, hrun, hcopies, -⟩ := processInjectLoop_copies (i := 0) hk₁ hmore ha hnew htaken hlist₁ (by omega) hfuel hmallocs
  refine ⟨s₂.setProc proc { s₂.procs proc with args := ⟨ws.length, blockAddr a⟩ }, blockAddr a, ?_, ?_, ?_⟩
  · rw [processInjectArgs]
    refine bind_ok.2 ⟨_, hcount, ?_⟩
    rw [if_neg (by omega), BitVec.ofInt_natCast]
    refine bind_ok.2 ⟨_, hmalloc, ?_⟩
    simp only
    rw [if_neg hptr]
    exact bind_ok.2 ⟨_, hrun, rfl⟩
  · simp only [Kernel.setProc, if_true]
  · intro i w hi
    have hcopy := hcopies i w hi
    rw [Nat.zero_add, BitVec.ofNat_mul] at hcopy
    exact hcopy

/-! ## 割り当ての成功 -/

theorem processMalloc_freeAllocs_le {ptr size : Word} (h : processMalloc s proc size = .ok (ptr, s')) (hptr : ptr ≠ 0) :
    freeAllocs (s.procs proc) ≤ freeAllocs (s'.procs proc) + 1 := by
  rcases processMalloc_cases h with ⟨-, h0, -⟩ | ⟨-, h0, -⟩ | ⟨-, -, -, -, idx, -, rfl⟩
  · exact absurd h0 hptr
  · exact absurd h0 hptr
  · refine (Finset.card_le_card fun i hi => ?_).trans (Finset.card_insert_le idx _)
    rw [Finset.mem_insert]
    by_cases hidx : i = idx
    · exact .inl hidx
    · obtain ⟨hrange, h0⟩ := Finset.mem_filter.1 hi
      refine .inr (Finset.mem_filter.2 ⟨hrange, ?_⟩)
      simp only [mallocState, Kernel.setProc, if_true, if_neg hidx]
      exact h0

/-- 先頭から詰まったヒープに余りがあり、割り当ての記録も足りれば、小さな割り当ては続けて成功する。 -/
theorem mallocsSucceed_packed {sizes : List Word} {b : Nat} (hp : Packed s.heap b) (htask : (s.procs proc).task ≠ 0)
    (hsizes : ∀ size ∈ sizes, 0 < size.toNat ∧ size.toNat ≤ 4096) (hfit : b + sizes.length ≤ 25600)
    (hallocs : sizes.length ≤ freeAllocs (s.procs proc)) : MallocsSucceed s proc sizes := by
  induction sizes generalizing s b with
  | nil => trivial
  | cons size sizes ih =>
      simp only [List.length_cons] at hfit hallocs
      obtain ⟨hpos, hle⟩ := hsizes size List.mem_cons_self
      obtain ⟨h', hmade, hne, hp'⟩ := hp.small hpos hle (by omega)
      have hone : blocksFor size = 1 := by
        rw [blocksFor]
        omega
      obtain ⟨ptr, s', h⟩ := processMalloc_total s size htask
      rcases processMalloc_cases h with ⟨h0, -⟩ | ⟨-, -, hfail, -⟩ | ⟨-, hptr, -, -, idx, hidx, hs'⟩
      · rw [hmade] at h0
        exact absurd h0 hne
      · exfalso
        rcases hfail with ⟨hnone, -⟩ | ⟨-, hneg⟩
        · have hempty : freeAllocs (s.procs proc) = 0 := by
            rw [freeAllocs, Finset.card_eq_zero, Finset.filter_eq_empty_iff]
            intro i hi
            exact processFreeAllocFrom_none hnone (Nat.zero_le i) (by simpa using hi)
          omega
        · rw [hmade, mallocMap_eq (by omega)] at hneg
          exact absurd hneg (Int.lt_irrefl 0)
      · rw [hmade] at hptr
        have hnonzero : ptr ≠ 0 := hptr ▸ hne
        have hless := processMalloc_freeAllocs_le h hnonzero
        refine ⟨ptr, s', h, hnonzero, ?_⟩
        subst hs'
        refine ih (b := b + 1) ?_ ?_ (fun x hx => hsizes x (List.mem_cons_of_mem _ hx)) (by omega) (by omega)
        · rw [mallocState_heap, hmade]
          exact hp'
        · simp only [mallocState, Kernel.setProc, if_true]
          exact htask

/-! ## コマンドから引数へ -/

/-- コマンドの語は、はじめの 511 文字までが、順に `argv` へ届き、次のコマンドのための `last` は 0 に戻っている。並びを渡す
状態は、並びがそのまま残っていれば、どれでもよい。 -/
theorem enkiParseCmd_argv {max : Int} (hu : UserMemory tr s.heap scmd q) (hfuel : 1025 ≤ fuel) (hmax : max ≤ 1024)
    (htext : TextAt tr s.mem (OffBuffer q) cmd text) (hlen : text.length ≤ 1023)
    (hmallocs : MallocsSucceed s proc (List.replicate (cmdWords text).length CMD_ARG_STRUCT_SIZE)) :
    ∃ root s', enkiParseCmd fuel tr s proc 0 scmd cmd max = .ok (root, 0, s') ∧ (root = 0 ↔ ∀ c ∈ text, c = 0x20) ∧
      KernelHeap s'.heap ∧ CmdList s'.heap s'.mem root ((cmdWords text).map (·.take 511)) ∧
      ∀ s₁ child, root ≠ 0 → KernelHeap s₁.heap → CmdList s₁.heap s₁.mem root ((cmdWords text).map (·.take 511)) →
        MallocsSucceed s₁ child (BitVec.ofNat 32 (cmdWords text).length * 4 ::
          List.replicate (cmdWords text).length (BitVec.ofNat 32 CMD_ARG_SIZE)) →
        ∃ s₂ argv, processInjectArgs fuel s₁ child root = .ok (0, s₂) ∧
          (s₂.procs child).args = ⟨(cmdWords text).length, argv⟩ ∧
          ∀ i w, (cmdWords text)[i]? = some w → StrAt s₂.mem (s₂.mem.word (argv + 4 * BitVec.ofNat 32 i)) (w.take 511) := by
  obtain ⟨root, s', hrun, hk', -, hlist⟩ := enkiParseCmd_list hu hfuel hmax htext hlen hmallocs
  have hroot : root = 0 ↔ cmdWords text = [] := by
    cases hwords : cmdWords text with
    | nil =>
        rw [hwords] at hlist
        exact ⟨fun _ => rfl, fun _ => hlist⟩
    | cons w ws =>
        rw [hwords] at hlist
        obtain ⟨⟨b, hb, hb', -⟩, -⟩ := hlist
        refine ⟨fun h0 => ?_, fun h => by cases h⟩
        exact absurd (hb'.symm.trans h0) (blockAddr_ne_zero (Nat.le_of_lt hb))
  have hle := length_cmdWords_le text
  refine ⟨root, s', hrun, hroot.trans cmdWords_eq_nil, hk', hlist, ?_⟩
  intro s₁ child hne hk₁ hlist₁ hmallocs₁
  have hne' : (cmdWords text).map (·.take 511) ≠ [] := by
    rw [Ne, List.map_eq_nil_iff]
    exact fun h => hne (hroot.2 h)
  have hlength : ((cmdWords text).map (·.take 511)).length = (cmdWords text).length := List.length_map _
  have hfuel' : ((cmdWords text).map (·.take 511)).length ≤ fuel := by omega
  obtain ⟨s₂, argv, hinject, hargs, hcopies⟩ := processInjectArgs_list hk₁ hlist₁ hne' (by omega) hfuel'
    (by rw [hlength]; exact hmallocs₁)
  rw [hlength] at hargs
  refine ⟨s₂, argv, hinject, hargs, fun i w hi => hcopies i _ ?_⟩
  rw [List.getElem?_map, hi]
  rfl

/-- `" ls  /"` -/
def lsText : List Byte := [0x20, 0x6C, 0x73, 0x20, 0x20, 0x2F]

/-- コマンドを `0x400000` に置いたカーネル。 -/
def lsKernel : Kernel := { idleKernel with mem := Memory.write (fun _ => 0) 0x400000 (lsText ++ [0]) }

theorem lsKernel_packed : Packed lsKernel.heap 0 := bootHeap_packed

theorem lsKernel_user : UserMemory .ok lsKernel.heap 0x3FF000 0x3FF000 where
  toKernelHeap := idleKernel_heap.1
  scmd_ne := by decide
  inside := by decide
  buffer := fun _ _ => rfl
  blocks := fun _ _ _ _ _ => rfl
  apart := fun b hb _ j hj i hi => by
    have hbto := blockAddr_toNat (Nat.le_of_lt hb)
    have hbuffer : (0x3FF000 : Word).toNat = 0x3FF000 := rfl
    exact add_ofNat_ne (by omega) (by omega) (by omega)

theorem lsKernel_text : TextAt .ok lsKernel.mem (OffBuffer 0x3FF000) 0x400000 lsText := by
  have hstr : StrAt lsKernel.mem 0x400000 lsText := strAt_write (by decide) (by decide)
  refine hstr.textAt (fun _ _ => rfl) fun j hj k hk => ?_
  have hlen : lsText.length = 6 := rfl
  have hbuffer : (0x3FF000 : Word).toNat = 0x3FF000 := rfl
  have htext : (0x400000 : Word).toNat = 0x400000 := rfl
  exact add_ofNat_ne (by omega) (by omega) (by omega)

/-- 前後と間に空白のあるコマンドは、二つの引数になる。 -/
theorem enkiParseCmd_argv_ls : ∃ root s₁ s₂ argv,
    enkiParseCmd 1025 .ok lsKernel 0x00110000 0 0x3FF000 0x400000 1024 = .ok (root, 0, s₁) ∧
    processInjectArgs 1025 s₁ 0x00110000 root = .ok (0, s₂) ∧ (s₂.procs 0x00110000).args = ⟨2, argv⟩ ∧
    StrAt s₂.mem (s₂.mem.word argv) [0x6C, 0x73] ∧ StrAt s₂.mem (s₂.mem.word (argv + 4)) [0x2F] := by
  have hwords : cmdWords lsText = [[0x6C, 0x73], [0x2F]] := by decide
  have hall : MallocsSucceed lsKernel 0x00110000 ([516, 516] ++ [8, 512, 512]) := by
    refine mallocsSucceed_packed lsKernel_packed (by decide) (by simp) (by simp) ?_
    have hzero : ∀ i ∈ Finset.range ENKI_MAX_PGM_ALLOCATIONS, ((lsKernel.procs 0x00110000).allocations i).ptr = 0 := fun _ _ => rfl
    have hfree : freeAllocs (lsKernel.procs 0x00110000) = ENKI_MAX_PGM_ALLOCATIONS := by
      rw [freeAllocs, Finset.filter_true_of_mem hzero, Finset.card_range]
    rw [hfree]
    decide
  have hparse : MallocsSucceed lsKernel 0x00110000 (List.replicate (cmdWords lsText).length CMD_ARG_STRUCT_SIZE) := by
    rw [hwords]
    exact hall.initial
  obtain ⟨root, s₁, hrun, hroot, hk₁, hlist, hinject⟩ := enkiParseCmd_argv lsKernel_user (Nat.le_refl 1025) (Int.le_refl 1024)
    lsKernel_text (by decide) hparse
  obtain ⟨root', s', hrun', -, hleft, -⟩ := enkiParseCmd_list lsKernel_user (Nat.le_refl 1025) (Int.le_refl 1024)
    lsKernel_text (by decide) hparse
  rw [hrun] at hrun'
  cases hrun'
  have hne : root ≠ 0 := fun h0 => absurd (hroot.1 h0) (by decide)
  rw [hwords] at hleft hinject
  obtain ⟨s₂, argv, hrun₂, hargs, hcopies⟩ := hinject s₁ 0x00110000 hne hk₁ (by rw [← hwords]; exact hlist) (hleft _ hall)
  refine ⟨root, s₁, s₂, argv, hrun, hrun₂, hargs, ?_, hcopies 1 _ rfl⟩
  have hfirst := hcopies 0 _ rfl
  rw [show argv + 4 * BitVec.ofNat 32 0 = argv from BitVec.add_zero argv] at hfirst
  exact hfirst

end EnkiOs
