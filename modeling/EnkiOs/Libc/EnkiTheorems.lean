import EnkiOs.Libc.CmdList

/-!
# コマンドから作る並び

`enki_parse_cmd` は、コマンドの語を一つずつ記録に写し、順につなぐ。
-/

namespace EnkiOs
open Machine

variable {tr : Translation} {mem mem' : Memory} {h : Heap} {q proc scmd cmd last str tok ptr root : Word} {s s' : Kernel}
  {text t w : List Byte} {ws : List (List Byte)} {fuel : Nat}

/-- コマンドの語。空白を含まない極大の並びを、順に並べたもの。 -/
def cmdWords (text : List Byte) : List (List Byte) := (text.splitOn 0x20).filter (· ≠ [])

theorem wordsBy_space (text : List Byte) : wordsBy spaceDelimiter text = cmdWords text := by
  have hp : (fun c : Byte => decide (c ∈ spaceDelimiter)) = (· == 0x20) := by
    funext c
    simp only [spaceDelimiter, List.mem_singleton]
    rfl
  rw [wordsBy, hp, cmdWords, List.splitOn_eq_splitOnP]

theorem cmdWords_eq_nil : cmdWords text = [] ↔ ∀ c ∈ text, c = 0x20 := by
  rw [← wordsBy_space, wordsBy_eq_nil]
  simp [spaceDelimiter]

theorem length_cmdWords_le (text : List Byte) : (cmdWords text).length ≤ text.length := by
  rw [← wordsBy_space]
  exact length_wordsBy_le spaceDelimiter text

/-! ## 利用者のメモリ -/

/-- 利用者のプログラムから見たメモリ。`scmd` の配列は、`q` から続けて置かれている。これから割り当てられるブロックは、
同じアドレスに見えていて、配列とは重ならない。 -/
structure UserMemory (tr : Translation) (h : Heap) (scmd q : Word) : Prop extends KernelHeap h where
  scmd_ne : scmd ≠ 0
  inside : scmd.toNat + 1025 ≤ 2 ^ 32
  buffer : ∀ j < 1025, tr (scmd + BitVec.ofNat 32 j) = .ok (q + BitVec.ofNat 32 j)
  blocks : ∀ b < 25600, h.table.freeAt b = true → ∀ j < 4096, tr (blockAddr b + BitVec.ofNat 32 j) = .ok (blockAddr b + BitVec.ofNat 32 j)
  apart : ∀ b < 25600, h.table.freeAt b = true → ∀ j < 1025, OffBlock b (q + BitVec.ofNat 32 j)

/-- 配列の外。 -/
def OffBuffer (q x : Word) : Prop := ∀ j < 1025, x ≠ q + BitVec.ofNat 32 j

/-- 割り当てたブロック `b`。 -/
structure CmdBlock (tr : Translation) (h : Heap) (q : Word) (b : Nat) : Prop where
  bound : b < 25600
  taken : Taken h b
  ident : ∀ j < 4096, tr (blockAddr b + BitVec.ofNat 32 j) = .ok (blockAddr b + BitVec.ofNat 32 j)
  apart : ∀ j < 1025, OffBlock b (q + BitVec.ofNat 32 j)

theorem CmdBlock.offBuffer {b i : Nat} (hb : CmdBlock tr h q b) (hi : i < 4096) : OffBuffer q (blockAddr b + BitVec.ofNat 32 i) :=
  fun j hj he => hb.apart j hj i hi he.symm

theorem UserMemory.malloc (hu : UserMemory tr s.heap scmd q)
    (hmalloc : processMalloc s proc CMD_ARG_STRUCT_SIZE = .ok (ptr, s')) (hptr : ptr ≠ 0) :
    ∃ b, ptr = blockAddr b ∧ ¬Taken s.heap b ∧ CmdBlock tr s'.heap q b ∧ UserMemory tr s'.heap scmd q ∧
      (∀ c : Nat, Taken s.heap c → Taken s'.heap c) ∧ ∀ x, OffBlock b x → s'.mem x = s.mem x := by
  obtain ⟨b, hb, hp, hfree, hk, hless, hmore, htaken, hframe⟩ :=
    processMalloc_block hu.toKernelHeap (by decide) (by decide) hmalloc hptr
  refine ⟨b, hp, ?_, ⟨hb, htaken, hu.blocks b hb hfree, hu.apart b hb hfree⟩, ?_, hmore, hframe⟩
  · rw [Taken, hfree]
    decide
  · exact ⟨hk, hu.scmd_ne, hu.inside, hu.buffer, fun c hc hf => hu.blocks c hc (hless c hf).2,
      fun c hc hf => hu.apart c hc (hless c hf).2⟩

theorem UserMemory.ptr_ne (hu : UserMemory tr h scmd q) (ht : BufferAt mem scmd q 1025 ptr t) : ptr ≠ 0 := by
  obtain ⟨i, rfl, -, hi⟩ := ht
  have hinside := hu.inside
  exact add_ofNat_ne_zero hu.scmd_ne (by omega)

theorem UserMemory.textAt (hu : UserMemory tr h scmd q) {b : Nat} (hb : CmdBlock tr h q b) (ht : BufferAt mem scmd q 1025 tok w) :
    TextAt tr mem (OffBlock b) tok w := by
  obtain ⟨i, rfl, hstr, hi⟩ := ht
  refine hstr.textAt ?_ ?_
  · intro j hj
    rw [BitVec.add_assoc, BitVec.add_assoc, ← BitVec.ofNat_add]
    exact hu.buffer _ (by omega)
  · intro j hj
    rw [BitVec.add_assoc, ← BitVec.ofNat_add]
    exact hb.apart _ (by omega)

/-! ## 切り分けの途中 -/

/-- `tok` から先の語が `ws` で、`last` は `tok` の次から読む。 -/
def Pending (mem : Memory) (scmd q last tok : Word) : List (List Byte) → Prop
  | [] => tok = 0 ∧ last = 0
  | w :: ws => tok ≠ 0 ∧ last ≠ 0 ∧ BufferAt mem scmd q 1025 tok w ∧
      ∃ rest, BufferAt mem scmd q 1025 last rest ∧ ws = wordsBy spaceDelimiter rest

theorem strtok_pending (hu : UserMemory tr h scmd q) (hfuel : 1025 ≤ fuel)
    (hstart : (str ≠ 0 ∧ last = 0 ∧ ptr = str) ∨ (last ≠ 0 ∧ ptr = last)) (ht : BufferAt mem scmd q 1025 ptr t) :
    ∃ tok last' mem', strtok fuel tr last str spaceDelimiter mem = .ok (tok, last', mem') ∧
      Pending mem' scmd q last' tok (wordsBy spaceDelimiter t) ∧ ∀ x, OffBuffer q x → mem' x = mem x := by
  have hnul : (0 : Byte) ∉ spaceDelimiter := by decide
  rcases strtok_buffer hnul (by decide) hfuel hu.buffer hstart ht with
    ⟨hnil, hrun⟩ | ⟨w, rest, tok, last', mem', hwords, hrun, htok, hlast, -, hframe⟩
  · refine ⟨0, 0, mem, hrun, ?_, fun _ _ => rfl⟩
    rw [hnil]
    exact ⟨rfl, rfl⟩
  · refine ⟨tok, last', mem', hrun, ?_, hframe⟩
    rw [hwords]
    exact ⟨hu.ptr_ne htok, hu.ptr_ne hlast, htok, rest, hlast, rfl⟩

/-! ## 記録の一つ -/

/-- 割り当てたブロック `b` に、語 `w` と空の `next` を書いた後のメモリが `mem` である。 -/
structure ArgWritten (tr : Translation) (scmd q : Word) (b : Nat) (w : List Byte) (s s₁ : Kernel) (mem : Memory) : Prop where
  user : UserMemory tr s₁.heap scmd q
  block : CmdBlock tr s₁.heap q b
  fresh : ¬Taken s.heap b
  mono : ∀ d : Nat, Taken s.heap d → Taken s₁.heap d
  text : StrAt mem (blockAddr b) (w.take 511)
  next : cmdArgNext mem (blockAddr b) = 0
  frame : ∀ x, OffBlock b x → mem x = s.mem x

theorem UserMemory.written (hu : UserMemory tr s.heap scmd q) (hmalloc : processMalloc s proc CMD_ARG_STRUCT_SIZE = .ok (ptr, s'))
    (hptr : ptr ≠ 0) (hword : BufferAt s.mem scmd q 1025 tok w) :
    ∃ b mem₁ mem₂, ptr = blockAddr b ∧ strncpy tr (blockAddr b) tok CMD_ARG_SIZE s'.mem = .ok mem₁ ∧
      storeWord tr mem₁ (blockAddr b + BitVec.ofNat 32 CMD_ARG_SIZE) 0 = .ok mem₂ ∧ ArgWritten tr scmd q b w s s' mem₂ := by
  obtain ⟨b, hp, hfresh, hb, hu₁, hmore, hframe₁⟩ := hu.malloc hmalloc hptr
  have hword₁ : BufferAt s'.mem scmd q 1025 tok w := hword.congr fun j hj => hframe₁ _ (hb.apart j hj)
  obtain ⟨mem₁, mem₂, hcopy, hzero, hstr, hnull, hframe₂⟩ := cmdArg_written hb.bound hb.ident (hu₁.textAt hb hword₁)
  refine ⟨b, mem₁, mem₂, hp, hcopy, hzero, hu₁, hb, hfresh, hmore, hstr, hnull, fun x hx => ?_⟩
  rw [hframe₂ x hx, hframe₁ x hx]

/-- 語 `w` の記録 `b` を `c` の後につないだ後。変わるのは、配列と、`b` と、`c` の `next` だけである。 -/
structure ArgLinked (tr : Translation) (scmd q : Word) (c b : Nat) (w : List Byte) (s s₁ : Kernel) : Prop where
  user : UserMemory tr s₁.heap scmd q
  block : CmdBlock tr s₁.heap q b
  fresh : ¬Taken s.heap b
  mono : ∀ d : Nat, Taken s.heap d → Taken s₁.heap d
  link : cmdArgNext s₁.mem (blockAddr c) = blockAddr b
  text : StrAt s₁.mem (blockAddr b) (w.take 511)
  next : cmdArgNext s₁.mem (blockAddr b) = 0
  frame : ∀ d < 25600, Taken s.heap d → ∀ i < 4096, (d = c → i < CMD_ARG_SIZE) → OffBuffer q (blockAddr d + BitVec.ofNat 32 i) →
    s₁.mem (blockAddr d + BitVec.ofNat 32 i) = s.mem (blockAddr d + BitVec.ofNat 32 i)

/-- 繰り返しの一回。 -/
theorem enkiParseLoop_step {c : Nat} (hu : UserMemory tr s.heap scmd q) (hfuel : 1025 ≤ fuel) (hcur : CmdBlock tr s.heap q c)
    (hpend : Pending s.mem scmd q last tok (w :: ws)) (hmalloc : processMalloc s proc CMD_ARG_STRUCT_SIZE = .ok (ptr, s'))
    (hptr : ptr ≠ 0) :
    ∃ b mem₁ last' tok', ArgLinked tr scmd q c b w s { s' with mem := mem₁ } ∧ Pending mem₁ scmd q last' tok' ws ∧
      ∀ k r, enkiParseLoop fuel tr proc k { s' with mem := mem₁ } last' (blockAddr b) tok' = .ok r →
        enkiParseLoop fuel tr proc (k + 1) s last (blockAddr c) tok = .ok r := by
  have hsize : CMD_ARG_SIZE = 512 := rfl
  obtain ⟨htok, hlast, hword, rest, hrest, rfl⟩ := hpend
  obtain ⟨b, mem₁, mem₂, rfl, hcopy, hzero, hw⟩ := hu.written hmalloc hptr hword
  have hb := hw.block
  have hbc : b ≠ c := fun he => hw.fresh (he ▸ hcur.taken)
  obtain ⟨mem₃, hlink, hlinked, hframe₃⟩ := cmdArg_linked hcur.ident mem₂ (blockAddr b)
  have hbuffer : ∀ j < 1025, mem₃ (q + BitVec.ofNat 32 j) = s.mem (q + BitVec.ofNat 32 j) := by
    intro j hj
    rw [hframe₃ _ fun i _ hi => hcur.apart j hj i (by omega), hw.frame _ (hb.apart j hj)]
  obtain ⟨tok', last', mem₄, hstrtok, hpend', hframe₄⟩ := strtok_pending hw.user hfuel (.inr ⟨hlast, rfl⟩) (hrest.congr hbuffer)
  -- つないだ後に変わるのは、前の記録の `next` と配列だけである。
  have hframe₃₄ : ∀ d < 25600, ∀ i < 4096, (d = c → i < CMD_ARG_SIZE) → OffBuffer q (blockAddr d + BitVec.ofNat 32 i) →
      mem₄ (blockAddr d + BitVec.ofNat 32 i) = mem₂ (blockAddr d + BitVec.ofNat 32 i) := by
    intro d hd i hi hdc hbuf
    rw [hframe₄ _ hbuf, hframe₃]
    intro j hj hj'
    refine blockAddr_add_ne hcur.bound hd hi (by omega) fun he => ?_
    have hlt := hdc he
    omega
  have hkept : ∀ i < 4096, mem₄ (blockAddr b + BitVec.ofNat 32 i) = mem₂ (blockAddr b + BitVec.ofNat 32 i) :=
    fun i hi => hframe₃₄ b hb.bound i hi (fun he => absurd he hbc) (hb.offBuffer hi)
  have htake : (w.take 511).length ≤ 511 := List.length_take_le 511 w
  refine ⟨b, mem₄, last', tok', ⟨hw.user, hb, hw.fresh, hw.mono, ?_, ?_, ?_, ?_⟩, hpend', ?_⟩
  · rw [← hlinked]
    exact cmdArgNext_congr fun i _ hi => hframe₄ _ (hcur.offBuffer (by omega))
  · exact hw.text.congr fun j hj => hkept j (by omega)
  · rw [← hw.next]
    exact cmdArgNext_congr fun i _ hi => hkept i (by omega)
  · intro d hd htaken i hi hdc hbuf
    have hdb : b ≠ d := fun he => hw.fresh (he ▸ htaken)
    exact (hframe₃₄ d hd i hi hdc hbuf).trans (hw.frame _ (offBlock_of_ne hb.bound hd hdb hi))
  · intro k r hrun
    rw [enkiParseLoop, if_neg htok]
    refine bind_ok.2 ⟨_, hmalloc, ?_⟩
    simp only
    rw [if_neg hptr]
    exact bind_ok.2 ⟨_, hcopy, bind_ok.2 ⟨_, hzero, bind_ok.2 ⟨_, hlink, bind_ok.2 ⟨_, hstrtok, hrun⟩⟩⟩⟩

/-- 残りの語を、`curr_cmd` の後につなぐ。変わるのは、配列と、新しいブロックと、`curr_cmd` の `next` だけである。 -/
theorem enkiParseLoop_list {k c : Nat} (hu : UserMemory tr s.heap scmd q) (hfuel : 1025 ≤ fuel) (hcur : CmdBlock tr s.heap q c)
    (hnext : cmdArgNext s.mem (blockAddr c) = 0) (hpend : Pending s.mem scmd q last tok ws) (hk : ws.length ≤ k)
    (hmallocs : MallocsSucceed s proc (List.replicate ws.length CMD_ARG_STRUCT_SIZE)) :
    ∃ s', enkiParseLoop fuel tr proc k s last (blockAddr c) tok = .ok (0, s') ∧ KernelHeap s'.heap ∧
      (∀ b : Nat, Taken s.heap b → Taken s'.heap b) ∧
      (∀ more, MallocsSucceed s proc (List.replicate ws.length CMD_ARG_STRUCT_SIZE ++ more) → MallocsSucceed s' proc more) ∧
      CmdList s'.heap s'.mem (cmdArgNext s'.mem (blockAddr c)) (ws.map (·.take 511)) ∧
      ∀ b < 25600, Taken s.heap b → ∀ i < 4096, (b = c → i < CMD_ARG_SIZE) → OffBuffer q (blockAddr b + BitVec.ofNat 32 i) →
        s'.mem (blockAddr b + BitVec.ofNat 32 i) = s.mem (blockAddr b + BitVec.ofNat 32 i) := by
  have hsize : CMD_ARG_SIZE = 512 := rfl
  induction ws generalizing k s c last tok with
  | nil =>
      obtain ⟨rfl, rfl⟩ := hpend
      refine ⟨s, ?_, hu.toKernelHeap, fun _ hb => hb, fun _ hm => hm, hnext, fun _ _ _ _ _ _ _ => rfl⟩
      cases k with
      | zero => exact if_pos rfl
      | succ k => exact if_pos rfl
  | cons w ws ih =>
      obtain ⟨k, rfl⟩ : ∃ k', k = k' + 1 := ⟨k - 1, by simp at hk; omega⟩
      obtain ⟨ptr, s₁, hmalloc, hptr, hmallocs⟩ := hmallocs
      obtain ⟨b, mem₁, last', tok', hl, hpend', hstep⟩ := enkiParseLoop_step hu hfuel hcur hpend hmalloc hptr
      have hbc : b ≠ c := fun he => hl.fresh (he ▸ hcur.taken)
      obtain ⟨s', hrun, hk', hmore, hleft, hlist, hframe⟩ := ih hl.user hl.block hl.next hpend' (by simp at hk; omega)
        (hmallocs.setMem mem₁)
      -- 残りの語をつないでも、`c` の `next` と `b` の語は変わらない。
      have hnext' : cmdArgNext s'.mem (blockAddr c) = blockAddr b := by
        rw [← hl.link]
        exact cmdArgNext_congr fun i _ hi => hframe c hcur.bound (hl.mono c hcur.taken) i (by omega) (fun he => absurd he.symm hbc)
          (hcur.offBuffer (by omega))
      have htake : (w.take 511).length ≤ 511 := List.length_take_le 511 w
      have htext : StrAt s'.mem (blockAddr b) (w.take 511) := hl.text.congr fun j hj =>
        hframe b hl.block.bound hl.block.taken j (by omega) (fun _ => by omega) (hl.block.offBuffer (by omega))
      refine ⟨s', hstep k _ hrun, hk', fun d hd => hmore d (hl.mono d hd), fun more hm => hleft more ((hm.tail hmalloc).setMem mem₁),
        ?_, ?_⟩
      · rw [hnext', List.map_cons]
        exact ⟨⟨b, hl.block.bound, rfl, hmore b hl.block.taken⟩, htext, by omega, hlist⟩
      · intro d hd htaken i hi hdc hbuf
        have hdb : d ≠ b := fun he => hl.fresh (he ▸ htaken)
        rw [hframe d hd (hl.mono d htaken) i hi (fun he => absurd he hdb) hbuf]
        exact hl.frame d hd htaken i hi hdc hbuf

/-- コマンドの語は、どれも並びに入り、`last` は 0 に戻る。 -/
theorem enkiParseCmd_list {max : Int} (hu : UserMemory tr s.heap scmd q) (hfuel : 1025 ≤ fuel) (hmax : max ≤ 1024)
    (htext : TextAt tr s.mem (OffBuffer q) cmd text) (hlen : text.length ≤ 1023)
    (hmallocs : MallocsSucceed s proc (List.replicate (cmdWords text).length CMD_ARG_STRUCT_SIZE)) :
    ∃ root s', enkiParseCmd fuel tr s proc 0 scmd cmd max = .ok (root, 0, s') ∧ KernelHeap s'.heap ∧
      (∀ more, MallocsSucceed s proc (List.replicate (cmdWords text).length CMD_ARG_STRUCT_SIZE ++ more) →
        MallocsSucceed s' proc more) ∧
      CmdList s'.heap s'.mem root ((cmdWords text).map (·.take 511)) := by
  have hsize : CMD_ARG_SIZE = 512 := rfl
  have hscmd : SCMD_SIZE = 1025 := rfl
  have hcopy : strncpy tr scmd cmd SCMD_SIZE s.mem = .ok (s.mem.write q (text ++ [0])) := by
    have hcopy := strncpyLoop_text (k := 1024) (by decide) (fun j hj => hu.buffer j (by omega))
      (htext.mono fun x hx => ⟨fun j hj => hx j (by omega), rfl⟩)
    rw [List.take_of_length_le (by omega)] at hcopy
    exact hcopy
  have hbuffer : BufferAt (s.mem.write q (text ++ [0])) scmd q 1025 scmd text := by
    refine ⟨0, (BitVec.add_zero scmd).symm, ?_, by omega⟩
    rw [show q + BitVec.ofNat 32 0 = q from BitVec.add_zero q]
    exact strAt_write (by omega) htext.ne_zero
  obtain ⟨tok, last, mem₁, hstrtok, hpend, -⟩ := strtok_pending hu hfuel (.inl ⟨hu.scmd_ne, rfl, rfl⟩) hbuffer
  rw [wordsBy_space] at hpend
  have hnot : ¬max ≥ SCMD_SIZE := by omega
  cases hwords : cmdWords text with
  | nil =>
      rw [hwords] at hpend
      obtain ⟨rfl, rfl⟩ := hpend
      refine ⟨0, { s with mem := mem₁ }, ?_, hu.toKernelHeap, fun _ hm => hm.setMem mem₁, rfl⟩
      rw [enkiParseCmd, if_neg hnot]
      exact bind_ok.2 ⟨_, hcopy, bind_ok.2 ⟨_, hstrtok, rfl⟩⟩
  | cons w ws =>
      rw [hwords] at hpend hmallocs
      obtain ⟨htok, hlast, hword, rest, hrest, rfl⟩ := hpend
      obtain ⟨ptr, s₁, hmalloc, hptr, hmallocs⟩ := hmallocs.setMem mem₁
      obtain ⟨b, mem₂, mem₃, rfl, hwrite, hzero, hw⟩ := UserMemory.written (s := { s with mem := mem₁ }) hu hmalloc hptr hword
      have hb := hw.block
      have hrest₃ : BufferAt mem₃ scmd q 1025 last rest := hrest.congr fun j hj => hw.frame _ (hb.apart j hj)
      obtain ⟨tok', last', mem₄, hstrtok', hpend', hframe₄⟩ := strtok_pending hw.user hfuel (.inr ⟨hlast, rfl⟩) hrest₃
      have hnull₄ : cmdArgNext mem₄ (blockAddr b) = 0 := by
        rw [← hw.next]
        exact cmdArgNext_congr fun i _ hi => hframe₄ _ (hb.offBuffer (by omega))
      have hle : (wordsBy spaceDelimiter rest).length ≤ fuel := by
        have h := length_cmdWords_le text
        rw [hwords, List.length_cons] at h
        omega
      obtain ⟨s', hrun, hk', hmore, hleft, hlist, hframe⟩ := enkiParseLoop_list (s := { s₁ with mem := mem₄ }) hw.user hfuel hb hnull₄
        hpend' hle (hmallocs.setMem mem₄)
      refine ⟨blockAddr b, s', ?_, hk', fun more hm => hleft more (((hm.setMem mem₁).tail hmalloc).setMem mem₄), ?_⟩
      · rw [enkiParseCmd, if_neg hnot]
        refine bind_ok.2 ⟨_, hcopy, bind_ok.2 ⟨_, hstrtok, ?_⟩⟩
        simp only
        rw [if_neg htok]
        refine bind_ok.2 ⟨_, hmalloc, ?_⟩
        simp only
        rw [if_neg hptr]
        exact bind_ok.2 ⟨_, hwrite, bind_ok.2 ⟨_, hzero, bind_ok.2 ⟨_, hstrtok', bind_ok.2 ⟨_, hrun, rfl⟩⟩⟩⟩
      · rw [List.map_cons]
        have htake : (w.take 511).length ≤ 511 := List.length_take_le 511 w
        refine ⟨⟨b, hb.bound, rfl, hmore b hb.taken⟩, hw.text.congr fun j hj => ?_, by omega, hlist⟩
        rw [hframe b hb.bound hb.taken j (by omega) (fun _ => by omega) (hb.offBuffer (by omega))]
        exact hframe₄ _ (hb.offBuffer (by omega))

end EnkiOs
