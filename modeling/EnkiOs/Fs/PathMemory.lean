import EnkiOs.Fs.Basic
import EnkiOs.Heap.Blocks
import EnkiOs.Lib.Segments

/-!
# メモリにある経路

`kernel/fs/path.c` を、構造体と名前のバッファをメモリに置いて実行する。`struct path_root` は `drive_no` と `first`、
`struct path_part` は `part` と `next` の二語である。経路は、終わりの 0 の手前までのバイトの並びで渡す。
-/

namespace EnkiOs
open Machine Segments

/-- バッファへの写し。写した数と残りを返す。 -/
def pathCopyPart (part : Word) : Nat → List Byte → Memory → Except Fault (Nat × List Byte × Memory)
  | i, [], mem => .ok (i, [], mem)
  | i, c :: path, mem =>
      if c = 0x2F then .ok (i, c :: path, mem)
      else if part = 0 then .error .nullDeref
      else pathCopyPart part (i + 1) path (mem.write (part + BitVec.ofNat 32 i) [c])

/-- 何も写さなければ、バッファを解放して 0 を返す。 -/
def pathGetPartMem (heap : Heap) (mem : Memory) (path : List Byte) : Except Fault (Word × List Byte × Heap × Memory) := do
  let (part, heap, mem) := kzallocMem heap mem ENKI_MAX_PATH
  let (i, path, mem) ← pathCopyPart part 0 path mem
  let path := if path.head? = some 0x2F then path.drop 1 else path
  if i = 0 then return (0, path, kfree heap part, mem)
  return (part, path, heap, mem)

def pathParsePartMem (heap : Heap) (mem : Memory) (lastPart : Word) (path : List Byte) :
    Except Fault (Word × List Byte × Heap × Memory) := do
  let (partStr, path, heap, mem) ← pathGetPartMem heap mem path
  if partStr = 0 then return (0, path, heap, mem)
  let (part, heap, mem) := kzallocMem heap mem 8
  if part = 0 then throw .nullDeref
  let mem := (mem.setWord part partStr).setWord (part + 4) 0
  return (part, path, heap, if lastPart = 0 then mem else mem.setWord (lastPart + 4) part)

/-- `while (part)` の繰り返し。回数は `fuel` で与え、尽きれば `hang` とする。 -/
def pathParseRest : Nat → Heap → Memory → Word → List Byte → Except Fault (Heap × Memory)
  | 0, _, _, _, _ => .error .hang
  | fuel + 1, heap, mem, part, path => do
      let (part, path, heap, mem) ← pathParsePartMem heap mem part path
      if part = 0 then return (heap, mem)
      pathParseRest fuel heap mem part path

/-- `path_create_root` -/
def pathCreateRootMem (heap : Heap) (mem : Memory) (driveNo : Int) : Except Fault (Word × Heap × Memory) :=
  let (root, heap, mem) := kzallocMem heap mem 8
  if root = 0 then .error .nullDeref
  else .ok (root, heap, (mem.setWord root (BitVec.ofInt 32 driveNo)).setWord (root + 4) 0)

/-- 経路が長すぎるか、ドライブの指定が正しくなければ 0 を返す。 -/
def pathParseMem (fuel : Nat) (heap : Heap) (mem : Memory) (path : List Byte) : Except Fault (Word × Heap × Memory) := do
  if ENKI_MAX_PATH < path.length then return (0, heap, mem)
  let (drive, path) := pathGetDrive path
  if drive < 0 then return (0, heap, mem)
  let (root, heap, mem) ← pathCreateRootMem heap mem drive
  let (first, path, heap, mem) ← pathParsePartMem heap mem 0 path
  if first = 0 then return (root, heap, mem)
  let (heap, mem) ← pathParseRest fuel heap (mem.setWord (root + 4) first) first path
  return (root, heap, mem)

/-- `while (current)` の繰り返し。`next` は、解放の前に読む。 -/
def pathFreeParts : Nat → Heap → Memory → Word → Except Fault Heap
  | 0, _, _, _ => .error .hang
  | fuel + 1, heap, mem, current =>
      if current = 0 then .ok heap
      else
        let next := mem.word (current + 4)
        pathFreeParts fuel (kfree (kfree heap (mem.word current)) current) mem next

def pathFreeMem (fuel : Nat) (heap : Heap) (mem : Memory) (root : Word) : Except Fault Heap := do
  let heap ← pathFreeParts fuel heap mem (mem.word (root + 4))
  return kfree heap root

/-! ## 部分の並び -/

variable {heap h₀ : Heap} {mem mem' : Memory} {path : List Byte} {p : Word} {parts : List PathPart}

/-- `p` から `parts` が順に並ぶ。どの名前も、ゼロで埋めたバッファの中で終わる。 -/
def PartsAt (mem : Memory) : Word → List PathPart → Prop
  | p, [] => p = 0
  | p, part :: parts => p = part.addr ∧ p ≠ 0 ∧ mem.word p = part.part ∧ part.name.length < ENKI_MAX_PATH ∧
      (∀ k < ENKI_MAX_PATH, mem (part.part + BitVec.ofNat 32 k) = byteAt part.name k) ∧ PartsAt mem (mem.word (p + 4)) parts

/-- 部分の使うアドレス。 -/
def partAddrs (parts : List PathPart) : List Word := parts.flatMap fun part => [part.part, part.addr]

theorem pathFree_eq (heap : Heap) (root : PathRoot) :
    pathFree heap root = (partAddrs root.parts ++ [root.addr]).foldl kfree heap := by
  have hparts : ∀ (parts : List PathPart) heap, parts.foldl (fun heap part => kfree (kfree heap part.part) part.addr) heap =
      (partAddrs parts).foldl kfree heap := by
    intro parts
    induction parts with
    | nil => exact fun _ => rfl
    | cons part parts ih => exact fun heap => ih _
  rw [pathFree, hparts, List.foldl_append]
  rfl

/-- メモリの並びをたどる解放は、並びの部分を順に解放する。 -/
theorem pathFreeParts_eq {fuel : Nat} (h : PartsAt mem p parts) (hfuel : parts.length < fuel) (heap : Heap) :
    pathFreeParts fuel heap mem p = .ok ((partAddrs parts).foldl kfree heap) := by
  induction parts generalizing p fuel heap with
  | nil =>
      obtain ⟨k, rfl⟩ := Nat.exists_eq_add_of_lt hfuel
      rw [PartsAt] at h
      rw [pathFreeParts, if_pos h]
      rfl
  | cons part parts ih =>
      obtain ⟨k, rfl⟩ : ∃ k, fuel = k + 1 := ⟨fuel - 1, by omega⟩
      obtain ⟨rfl, hne, hstr, -, -, hrest⟩ := h
      rw [pathFreeParts, if_neg hne]
      simp only [hstr]
      rw [ih hrest (by simp at hfuel; omega)]
      rfl

/-- メモリの並びをたどる解放は、`pathFree` と同じである。 -/
theorem pathFreeMem_eq {fuel : Nat} {root : Word} (h : PartsAt mem (mem.word (root + 4)) parts) (hfuel : parts.length < fuel)
    (heap : Heap) (driveNo : Int) : pathFreeMem fuel heap mem root = .ok (pathFree heap ⟨root, driveNo, parts⟩) := by
  refine bind_ok.2 ⟨_, pathFreeParts_eq h hfuel heap, ?_⟩
  rw [pathFree_eq, List.foldl_append]
  rfl

/-! ## 名前の写し -/

/-- 名前の分だけ写して、区切りか終わりで止まる。 -/
theorem pathCopyPart_eq {part : Word} {i : Nat} (hpart : part ≠ 0 ∨ (pathSplit path).1 = []) (hlen : i + path.length < 2 ^ 32) :
    pathCopyPart part i path mem = .ok (i + (pathSplit path).1.length, path.drop (pathSplit path).1.length,
      mem.write (part + BitVec.ofNat 32 i) (pathSplit path).1) := by
  induction path generalizing i mem with
  | nil => rfl
  | cons c path ih =>
      by_cases hc : c = 0x2F
      · subst hc
        rfl
      · have hsplit : (pathSplit (c :: path)).1 = c :: (pathSplit path).1 := by
          simp only [pathSplit]
          rw [List.takeWhile_cons_of_pos (by simpa using hc)]
        have hne : part ≠ 0 := hpart.resolve_right (by rw [hsplit]; simp)
        have hshort : (pathSplit path).1.length ≤ path.length := (List.takeWhile_prefix _).length_le
        rw [List.length_cons] at hlen
        have hwrite : mem.write (part + BitVec.ofNat 32 i) (c :: (pathSplit path).1) =
            (mem.write (part + BitVec.ofNat 32 i) [c]).write (part + BitVec.ofNat 32 (i + 1)) (pathSplit path).1 := by
          rw [BitVec.ofNat_add, ← BitVec.add_assoc]
          exact write_cons mem _ c (by omega)
        rw [pathCopyPart, if_neg hc, if_neg hne, ih (.inl hne) (by omega), hsplit, hwrite, List.length_cons, List.drop_succ_cons,
          Nat.add_right_comm]
        rfl

theorem pathCopyPart_start {part : Word} (hpart : part ≠ 0) (hlen : path.length < 2 ^ 32) (mem : Memory) :
    pathCopyPart part 0 path mem = .ok ((pathSplit path).1.length, path.drop (pathSplit path).1.length,
      mem.write part (pathSplit path).1) := by
  rw [pathCopyPart_eq (.inl hpart) (by omega), Nat.zero_add, BitVec.add_zero]

theorem pathSplit_rest (path : List Byte) :
    (if (path.drop (pathSplit path).1.length).head? = some 0x2F then (path.drop (pathSplit path).1.length).drop 1
      else path.drop (pathSplit path).1.length) = (pathSplit path).2 := by
  induction path with
  | nil => rfl
  | cons c path ih =>
      by_cases hc : c = 0x2F
      · subst hc
        rfl
      · have hsplit : pathSplit (c :: path) = (c :: (pathSplit path).1, (pathSplit path).2) := by
          simp only [pathSplit]
          rw [List.takeWhile_cons_of_pos (by simpa using hc)]
          rfl
        rw [hsplit]
        exact ih

/-- 割り当てたバッファに名前を写すか、名前が空なら、解放する。 -/
theorem pathGetPartMem_eq (hlen : path.length < 2 ^ 32) (hne : (kzalloc heap ENKI_MAX_PATH).1 ≠ 0) (mem : Memory) :
    pathGetPartMem heap mem path = .ok (
      if (pathSplit path).1 = [] then
        (0, (pathSplit path).2, kfree (kzalloc heap ENKI_MAX_PATH).2 (kzalloc heap ENKI_MAX_PATH).1,
          mem.zero (kzalloc heap ENKI_MAX_PATH).1 ENKI_MAX_PATH)
      else ((kzalloc heap ENKI_MAX_PATH).1, (pathSplit path).2, (kzalloc heap ENKI_MAX_PATH).2,
        (mem.zero (kzalloc heap ENKI_MAX_PATH).1 ENKI_MAX_PATH).write (kzalloc heap ENKI_MAX_PATH).1 (pathSplit path).1)) := by
  have hcopy := pathCopyPart_start hne hlen
  have hrest := pathSplit_rest path
  simp only [pathGetPartMem, kzallocMem, if_neg hne, hcopy, bind, Except.bind, pure, Except.pure, hrest, List.length_eq_zero_iff]
  by_cases hnil : (pathSplit path).1 = []
  · simp only [hnil, if_true]
    rfl
  · simp only [hnil, if_false]

theorem pathCopyPart_null {i : Nat} {rest : List Byte} (h : pathCopyPart 0 0 path mem = .ok (i, rest, mem')) : i = 0 := by
  cases path with
  | nil =>
      cases h
      rfl
  | cons c path =>
      rw [pathCopyPart] at h
      split at h
      · cases h
        rfl
      · rw [if_pos rfl] at h
        cases h

theorem pathGetPartMem_stored {part : Word} {rest : List Byte} {heap' : Heap} (hlen : path.length < 2 ^ 32)
    (h : pathGetPartMem heap mem path = .ok (part, rest, heap', mem')) (hpart : part ≠ 0) :
    mem' = (mem.zero part ENKI_MAX_PATH).write part (pathSplit path).1 := by
  by_cases hne : (kzalloc heap ENKI_MAX_PATH).1 = 0
  · have hmem : kzallocMem heap mem ENKI_MAX_PATH = (0, (kzalloc heap ENKI_MAX_PATH).2, mem) := by
      simp only [kzallocMem, hne, if_true]
    rw [pathGetPartMem, hmem] at h
    obtain ⟨⟨i, path', mem₁⟩, hcopy, h⟩ := bind_ok.1 h
    simp only [pathCopyPart_null hcopy, if_true] at h
    cases h
    exact absurd rfl hpart
  · rw [pathGetPartMem_eq hlen hne] at h
    split at h
    · cases h
      exact absurd rfl hpart
    · cases h
      rfl

/-! ## 部分を一つ読む -/

variable {ps : List Word}

/-- 名前のバッファと記録を書いた後のメモリ。 -/
def partMemory (mem : Memory) (b c : Nat) (name : List Byte) : Memory :=
  ((((mem.zero (blockAddr b) ENKI_MAX_PATH).write (blockAddr b) name).zero (blockAddr c) 8).setWord (blockAddr c)
    (blockAddr b)).setWord (blockAddr c + 4) 0

/-- 名前が空なら、バッファを割り当てて、すぐに解放する。 -/
theorem pathParsePart_end (hg : Grown h₀ heap ps) (hk : KernelHeap h₀) (hroom : ps.length < h₀.table.freeCount)
    (hlen : path.length < 2 ^ 32) (hnil : (pathSplit path).1 = []) :
    ∃ b < 25600, blockAddr b ∉ ps ∧ ∃ heap', (CleanHeap h₀ → Grown h₀ heap' ps) ∧
      pathParsePart heap path = .ok (none, (pathSplit path).2, heap') ∧ ∀ mem last,
        pathParsePartMem heap mem last path = .ok (0, (pathSplit path).2, heap', mem.zero (blockAddr b) ENKI_MAX_PATH) := by
  obtain ⟨b, hb, heq, hg'⟩ := hg.kzalloc hk (show 0 < ENKI_MAX_PATH by decide) (by decide) hroom
  have hne := blockAddr_ne_zero (Nat.le_of_lt hb)
  refine ⟨b, hb, (List.nodup_cons.1 hg'.nodup).1, _, fun hc => hg'.kfree hc, ?_, ?_⟩
  · simp only [pathParsePart, pathGetPart, heq, hnil, if_true, bind, Except.bind]
    rfl
  · intro mem last
    have hget := pathGetPartMem_eq hlen (by rw [heq]; exact hne) mem
    rw [if_pos hnil, heq] at hget
    simp only [pathParsePartMem, hget, bind, Except.bind, if_true, pure, Except.pure]

/-- 名前が空でなければ、バッファと記録を割り当て、手前の記録につなぐ。 -/
theorem pathParsePart_next (hg : Grown h₀ heap ps) (hk : KernelHeap h₀) (hroom : ps.length + 2 ≤ h₀.table.freeCount)
    (hlen : path.length < 2 ^ 32) (hname : (pathSplit path).1 ≠ []) :
    ∃ b < 25600, ∃ c < 25600, ∃ heap', Grown h₀ heap' (blockAddr c :: blockAddr b :: ps) ∧
      pathParsePart heap path =
        .ok (some ⟨blockAddr c, blockAddr b, (pathSplit path).1⟩, (pathSplit path).2, heap') ∧ ∀ mem last, last ≠ 0 →
        pathParsePartMem heap mem last path = .ok (blockAddr c, (pathSplit path).2, heap',
          (partMemory mem b c (pathSplit path).1).setWord (last + 4) (blockAddr c)) := by
  obtain ⟨b, hb, heq, hg₁⟩ := hg.kzalloc hk (show 0 < ENKI_MAX_PATH by decide) (by decide) (by omega)
  obtain ⟨c, hc, heq₂, hg₂⟩ := hg₁.kzalloc hk (show 0 < 8 by decide) (by decide) (by rw [List.length_cons]; omega)
  have hne := blockAddr_ne_zero (Nat.le_of_lt hb)
  have hne₂ := blockAddr_ne_zero (Nat.le_of_lt hc)
  refine ⟨b, hb, c, hc, _, hg₂, ?_, ?_⟩
  · simp only [pathParsePart, pathGetPart, heq, if_neg hname, if_neg hne, bind, Except.bind, heq₂, if_neg hne₂]
    rfl
  · intro mem last hlast
    have hget := pathGetPartMem_eq hlen (by rw [heq]; exact hne) mem
    rw [if_neg hname, heq] at hget
    simp only [pathParsePartMem, hget, kzallocMem, bind, Except.bind, pure, Except.pure, if_neg hne, heq₂, if_neg hne₂, if_neg hlast]
    rfl

section

variable {b c l : Nat} (hb : b < 25600) (hc : c < 25600) (hl : l < 25600) (hbc : b ≠ c) (hbl : b ≠ l) (hcl : c ≠ l)
  {name : List Byte}

include hc in
theorem partMemory_word : (partMemory mem b c name).word (blockAddr c) = blockAddr b ∧
    (partMemory mem b c name).word (blockAddr c + 4) = 0 := by
  refine ⟨?_, Memory.setWord_word _ _ _⟩
  have hto := blockAddr_toNat (Nat.le_of_lt hc)
  rw [partMemory, Memory.setWord_other _ _ (by bv_omega) (by bv_omega), Memory.setWord_word]

theorem partMemory_other {x : Word} (hlen : name.length < ENKI_MAX_PATH) (hxb : OffBlock b x) (hxc : OffBlock c x) :
    partMemory mem b c name x = mem x := by
  have hmax : ENKI_MAX_PATH = 108 := rfl
  have hnext : ∀ (m : Memory) v, m.setWord (blockAddr c + 4) v x = m x := fun _ => hxc.setWord (i := 4) (by decide)
  rw [partMemory, hnext, hxc.setWord_start, hxc.zero (by decide), hxb.write_start (by omega), hxb.zero (by decide)]

include hb hc hbc in
theorem partMemory_byte (hlen : name.length < ENKI_MAX_PATH) {k : Nat} (hk : k < ENKI_MAX_PATH) :
    partMemory mem b c name (blockAddr b + BitVec.ofNat 32 k) = byteAt name k := by
  have hmax : ENKI_MAX_PATH = 108 := rfl
  have hx : OffBlock c (blockAddr b + BitVec.ofNat 32 k) := offBlock_of_ne hc hb hbc.symm (by omega)
  have hnext : ∀ (m : Memory) v, m.setWord (blockAddr c + 4) v (blockAddr b + BitVec.ofNat 32 k) =
    m (blockAddr b + BitVec.ofNat 32 k) := fun _ => hx.setWord (i := 4) (by decide)
  rw [partMemory, hnext, hx.setWord_start, hx.zero (by decide)]
  exact Memory.zero_write_at _ _ hk (by omega) (by omega)

include hb hc hl hbc hbl hcl in
/-- つないだ後に、手前の記録から、新しい記録とバッファが読める。書くのは、二つの新しいブロックと、手前の記録の `next` だけである。 -/
theorem partMemory_linked (mem : Memory) (hlen : name.length < ENKI_MAX_PATH) :
    let mem' := (partMemory mem b c name).setWord (blockAddr l + 4) (blockAddr c)
    (∀ x, OffBlock b x → OffBlock c x → OffBlock l x → mem' x = mem x) ∧ mem'.AgreeOn mem (blockAddr l) 4 ∧
      mem'.word (blockAddr l + 4) = blockAddr c ∧ mem'.word (blockAddr c) = blockAddr b ∧ mem'.word (blockAddr c + 4) = 0 ∧
      ∀ k < ENKI_MAX_PATH, mem' (blockAddr b + BitVec.ofNat 32 k) = byteAt name k := by
  have hmax : ENKI_MAX_PATH = 108 := rfl
  have hoff : ∀ x, OffBlock l x →
      (partMemory mem b c name).setWord (blockAddr l + 4) (blockAddr c) x = partMemory mem b c name x :=
    fun x hx => hx.setWord (i := 4) (by decide) _
  have hsame : ((partMemory mem b c name).setWord (blockAddr l + 4) (blockAddr c)).AgreeOn (partMemory mem b c name)
      (blockAddr c) 8 := fun k hk => hoff _ (offBlock_of_ne hl hc hcl.symm (by omega))
  have hpart := hsame.sub (k := 4) (l := 4) (by decide)
  have hhead : Memory.AgreeOn _ _ (blockAddr c) 4 := fun k hk => hsame k (by omega)
  obtain ⟨hword, hnext⟩ : (partMemory mem b c name).word (blockAddr c) = blockAddr b ∧ _ := partMemory_word hc
  refine ⟨?_, ?_, Memory.setWord_word _ _ _, ?_, ?_, ?_⟩
  · intro x hxb hxc hxl
    rw [hoff x hxl, partMemory_other hlen hxb hxc]
  · intro k hk
    refine (setWord_block_before (i := 4) hl hl (by omega) (by decide) (fun _ => hk) _).trans ?_
    exact partMemory_other hlen (offBlock_of_ne hb hl hbl (by omega)) (offBlock_of_ne hc hl hcl (by omega))
  · exact hhead.word.trans hword
  · exact hpart.word.trans hnext
  · intro k hk
    rw [hoff _ (offBlock_of_ne hl hb hbl.symm (by omega)), partMemory_byte hb hc hbc hlen hk]

end

/-! ## すべての部分を読む -/

/-- 経路の、最初の空の部分より手前の部分。 -/
def pathComponents (path : List Byte) : List (List Byte) := leading (· = 0x2F) path

theorem pathComponents_eq (path : List Byte) : pathComponents path =
    if (pathSplit path).1 = [] then [] else (pathSplit path).1 :: pathComponents (pathSplit path).2 := by
  have hbool : (fun c : Byte => !decide (c = 0x2F)) = fun c => decide (c ≠ 0x2F) := by
    funext c
    rw [decide_not]
  have h := leading_takeWhile (fun c : Byte => decide (c = 0x2F)) path
  rw [hbool] at h
  exact h

theorem pathParseParts_end {rest : List Byte} {heap' : Heap} (h : pathParsePart heap path = .ok (none, rest, heap')) :
    pathParseParts heap path = .ok ([], heap') := by
  rw [pathParseParts]
  split
  · rename_i heq
    cases h.symm.trans heq
  · rename_i heq
    cases h.symm.trans heq
    rfl
  · rename_i heq
    cases h.symm.trans heq

theorem pathParseParts_next {part : PathPart} {rest : List Byte} {heap' : Heap}
    (h : pathParsePart heap path = .ok (some part, rest, heap')) :
    pathParseParts heap path = (pathParseParts heap' rest).bind fun (parts, heap) => .ok (part :: parts, heap) := by
  rw [pathParseParts]
  split
  · rename_i heq
    cases h.symm.trans heq
  · rename_i heq
    cases h.symm.trans heq
  · rename_i heq
    cases h.symm.trans heq
    rfl

/-- 部分の読み取りの結果。`l` の記録の `next` から、読んだ部分が並び、他の割り当ての中身は変わらない。 -/
structure PartsRead (h₀ : Heap) (mem : Memory) (l : Nat) (ps : List Word) (path : List Byte) (parts : List PathPart)
    (heap' : Heap) (mem' : Memory) : Prop where
  names : parts.map PathPart.name = pathComponents path
  grown : CleanHeap h₀ → Grown h₀ heap' (partAddrs parts ++ blockAddr l :: ps)
  others : ∀ a ∈ ps, mem'.AgreeOn mem a 4096
  head : mem'.AgreeOn mem (blockAddr l) 4
  partsAt : PartsAt mem' (mem'.word (blockAddr l + 4)) parts

theorem Grown.block_of_mem (hg : Grown h₀ heap ps) {a : Word} (ha : a ∈ ps) : ∃ d < 25600, a = blockAddr d :=
  let ⟨d, hd, he, _⟩ := hg.fresh a ha
  ⟨d, hd, he⟩

theorem PartsRead.nil {b l : Nat} (hb : b < 25600) (hg : Grown h₀ heap (blockAddr l :: ps))
    (hnew : blockAddr b ∉ blockAddr l :: ps) (hnil : (pathSplit path).1 = []) (hnext : mem.word (blockAddr l + 4) = 0)
    {heap' : Heap} (hgrown : CleanHeap h₀ → Grown h₀ heap' (blockAddr l :: ps)) :
    PartsRead h₀ mem l ps path [] heap' (mem.zero (blockAddr b) ENKI_MAX_PATH) := by
  have hsame : ∀ a ∈ blockAddr l :: ps, (mem.zero (blockAddr b) ENKI_MAX_PATH).AgreeOn mem a 4096 := by
    intro a ha k hk
    obtain ⟨d, hd, rfl⟩ := hg.block_of_mem ha
    exact (offBlock_of_ne hb hd (fun he => hnew (he ▸ ha)) hk).zero (by decide)
  have hlast := hsame _ List.mem_cons_self
  refine ⟨?_, hgrown, fun a ha => hsame a (List.mem_cons_of_mem _ ha), fun k hk => hlast k (by omega), ?_⟩
  · rw [pathComponents_eq, if_pos hnil]
    rfl
  · exact (hlast.sub (k := 4) (l := 4) (by decide)).word.trans hnext

theorem blocks_ne_of_nodup {b c l : Nat} (h : (blockAddr c :: blockAddr b :: blockAddr l :: ps).Nodup) :
    b ≠ c ∧ b ≠ l ∧ c ≠ l := by
  simp only [List.nodup_cons, List.mem_cons, not_or] at h
  obtain ⟨⟨hcb, hcl, -⟩, ⟨hbl, -⟩, -⟩ := h
  exact ⟨fun h => hcb (congrArg blockAddr h.symm), fun h => hbl (congrArg blockAddr h), fun h => hcl (congrArg blockAddr h)⟩

/-- 一つの部分を読んでつなぎ、残りを新しい記録から読む。 -/
theorem PartsRead.cons {b c l : Nat} (hb : b < 25600) (hc : c < 25600) (hl : l < 25600)
    (hg : Grown h₀ heap (blockAddr c :: blockAddr b :: blockAddr l :: ps)) (hne : (pathSplit path).1 ≠ [])
    (hlen : (pathSplit path).1.length < ENKI_MAX_PATH) {parts : List PathPart} {heap' : Heap} {mem' : Memory}
    (hread : PartsRead h₀ ((partMemory mem b c (pathSplit path).1).setWord (blockAddr l + 4) (blockAddr c)) c
      (blockAddr b :: blockAddr l :: ps) (pathSplit path).2 parts heap' mem') :
    PartsRead h₀ mem l ps path (⟨blockAddr c, blockAddr b, (pathSplit path).1⟩ :: parts) heap' mem' := by
  have hmax : ENKI_MAX_PATH = 108 := rfl
  obtain ⟨hbc, hbl, hcl⟩ := blocks_ne_of_nodup hg.nodup
  obtain ⟨hc', hb', hl', -⟩ : blockAddr c ∉ blockAddr b :: blockAddr l :: ps ∧ blockAddr b ∉ blockAddr l :: ps ∧
      blockAddr l ∉ ps ∧ ps.Nodup := by simpa only [List.nodup_cons] using hg.nodup
  obtain ⟨hoff, hhead, hlink, hword, -, hbuffer⟩ := partMemory_linked hb hc hl hbc hbl hcl mem hlen
  have hlast := hread.others _ (List.mem_cons_of_mem _ List.mem_cons_self)
  refine ⟨?_, ?_, ?_, ?_, ?_⟩
  · rw [pathComponents_eq path, if_neg hne, List.map_cons, hread.names]
  · intro hclean
    refine (hread.grown hclean).perm (List.perm_middle.trans ?_)
    exact (List.perm_middle.cons _).trans (List.Perm.swap _ _ _)
  · intro a ha k hk
    have ha₁ := List.mem_cons_of_mem (blockAddr l) ha
    have ha₂ := List.mem_cons_of_mem (blockAddr b) ha₁
    obtain ⟨d, hd, rfl⟩ := hg.block_of_mem (List.mem_cons_of_mem _ ha₂)
    have hdl : l ≠ d := fun he => hl' (he ▸ ha)
    have hdb : b ≠ d := fun he => hb' (he ▸ ha₁)
    have hdc : c ≠ d := fun he => hc' (he ▸ ha₂)
    refine (hread.others _ ha₂ k hk).trans (hoff _ ?_ ?_ ?_)
    · exact offBlock_of_ne hb hd hdb hk
    · exact offBlock_of_ne hc hd hdc hk
    · exact offBlock_of_ne hl hd hdl hk
  · exact fun k hk => (hlast k (by omega)).trans (hhead k hk)
  · have hlink' : mem'.word (blockAddr l + 4) = blockAddr c :=
      (hlast.sub (k := 4) (l := 4) (by decide)).word.trans hlink
    rw [hlink']
    refine ⟨rfl, blockAddr_ne_zero (Nat.le_of_lt hc), hread.head.word.trans hword, by simp only; omega, ?_, hread.partsAt⟩
    exact fun k hk => (hread.others _ List.mem_cons_self k (by omega)).trans (hbuffer k hk)

theorem pathParseRest_eq (hk : KernelHeap h₀) {fuel l : Nat} (hl : l < 25600) (hg : Grown h₀ heap (blockAddr l :: ps))
    (hroom : 2 * (pathComponents path).length + ps.length + 2 ≤ h₀.table.freeCount) (hfuel : path.length < fuel)
    (hlen : path.length < ENKI_MAX_PATH) (hnext : mem.word (blockAddr l + 4) = 0) :
    ∃ parts heap' mem', pathParseParts heap path = .ok (parts, heap') ∧
      pathParseRest fuel heap mem (blockAddr l) path = .ok (heap', mem') ∧ PartsRead h₀ mem l ps path parts heap' mem' := by
  have hmax : ENKI_MAX_PATH = 108 := rfl
  induction fuel generalizing heap mem l ps path with
  | zero => omega
  | succ fuel ih =>
      have hcomponents := pathComponents_eq path
      by_cases hnil : (pathSplit path).1 = []
      · obtain ⟨b, hb, hnew, heap', hgrown, hpart, hmem⟩ := pathParsePart_end hg hk (by rw [List.length_cons]; omega) (by omega) hnil
        exact ⟨[], heap', _, pathParseParts_end hpart, bind_ok.2 ⟨_, hmem mem _, rfl⟩, .nil hb hg hnew hnil hnext hgrown⟩
      · rw [if_neg hnil] at hcomponents
        rw [hcomponents, List.length_cons] at hroom
        obtain ⟨b, hb, c, hc, heap₁, hg₁, hpart, hmem⟩ :=
          pathParsePart_next hg hk (by rw [List.length_cons]; omega) (by omega) hnil
        have hshort := pathSplit_decreases hnil
        have hname : (pathSplit path).1.length ≤ path.length := (List.takeWhile_prefix _).length_le
        have hname' : (pathSplit path).1.length < ENKI_MAX_PATH := by omega
        obtain ⟨hbc, hbl, hcl⟩ := blocks_ne_of_nodup hg₁.nodup
        obtain ⟨-, -, -, -, hnext', -⟩ := partMemory_linked hb hc hl hbc hbl hcl mem hname'
        have hroom' : 2 * (pathComponents (pathSplit path).2).length + (blockAddr b :: blockAddr l :: ps).length + 2 ≤
            h₀.table.freeCount := by
          rw [List.length_cons, List.length_cons]
          omega
        have hfuel' : (pathSplit path).2.length < fuel := by omega
        obtain ⟨parts, heap', mem', hparts, hrest, hread⟩ := ih hc hg₁ hroom' hfuel' (by omega) hnext'
        refine ⟨⟨blockAddr c, blockAddr b, (pathSplit path).1⟩ :: parts, heap', mem', ?_, ?_, .cons hb hc hl hg₁ hnil hname' hread⟩
        · rw [pathParseParts_next hpart, hparts]
          rfl
        · refine bind_ok.2 ⟨_, hmem mem _ (blockAddr_ne_zero (Nat.le_of_lt hl)), ?_⟩
          simp only [if_neg (blockAddr_ne_zero (Nat.le_of_lt hc))]
          exact hrest

/-! ## 経路を読む -/

/-- 数字と `:/` で始まる。 -/
def StartsWithDrive (path : List Byte) : Prop := ∃ c rest, path = c :: 0x3A :: 0x2F :: rest ∧ isdigit c = true

theorem pathGetDrive_drive {c : Byte} {rest : List Byte} (hc : isdigit c = true) :
    pathGetDrive (c :: 0x3A :: 0x2F :: rest) = (todigit c, rest) := by
  have hmin : 3 ≤ min (c :: 0x3A :: 0x2F :: rest : List Byte).length ENKI_MAX_PATH :=
    Nat.le_min.2 ⟨by simp, by decide⟩
  have hvalid : pathIsValid (c :: 0x3A :: 0x2F :: rest) = true := decide_eq_true ⟨hmin, hc, rfl, rfl⟩
  rw [pathGetDrive, if_pos hvalid]
  rfl

theorem pathGetDrive_bad (h : ¬StartsWithDrive path) : pathGetDrive path = (-EBADPATH, path) := by
  rw [pathGetDrive, if_neg]
  intro hvalid
  obtain ⟨hlen, hdigit, hcolon, hslash⟩ := of_decide_eq_true hvalid
  have hlen' := (Nat.le_min.1 hlen).1
  match path, hlen', hdigit, hcolon, hslash with
  | c :: c₁ :: c₂ :: rest, _, hdigit, hcolon, hslash =>
      exact h ⟨c, rest, by rw [show c₁ = 0x3A from hcolon, show c₂ = 0x2F from hslash], hdigit⟩

theorem todigit_nonneg {c : Byte} (hc : isdigit c = true) : 0 ≤ todigit c := by
  have h := of_decide_eq_true hc
  rw [todigit]
  omega

/-- 最初の部分は、根の記録につなぐのと同じである。 -/
theorem pathParsePartMem_root {root : Word} (hroot : root ≠ 0) (heap : Heap) (mem : Memory) (path : List Byte) :
    pathParsePartMem heap mem root path = (pathParsePartMem heap mem 0 path).map fun (first, path, heap, mem) =>
      (first, path, heap, if first = 0 then mem else mem.setWord (root + 4) first) := by
  simp only [pathParsePartMem]
  cases pathGetPartMem heap mem path with
  | error fault => rfl
  | ok r =>
      obtain ⟨partStr, rest, heap₁, mem₁⟩ := r
      simp only [bind, Except.bind, pure, Except.pure]
      by_cases hstr : partStr = 0
      · rw [if_pos hstr, if_pos hstr]
        rfl
      · rw [if_neg hstr, if_neg hstr]
        by_cases hpart : (kzallocMem heap₁ mem₁ 8).1 = 0
        · rw [if_pos hpart, if_pos hpart]
          rfl
        · rw [if_neg hpart, if_neg hpart]
          simp only [if_neg hroot, if_true, Except.map, if_neg hpart]

theorem pathParseMem_rest {root : Word} (hroot : root ≠ 0) (fuel : Nat) (heap : Heap) (mem : Memory) (path : List Byte) :
    (do
      let (first, path, heap, mem) ← pathParsePartMem heap mem 0 path
      if first = 0 then return (root, heap, mem)
      let (heap, mem) ← pathParseRest fuel heap (mem.setWord (root + 4) first) first path
      return (root, heap, mem)) =
    (pathParseRest (fuel + 1) heap mem root path).map fun (heap, mem) => (root, heap, mem) := by
  rw [pathParseRest, pathParsePartMem_root hroot]
  cases pathParsePartMem heap mem 0 path with
  | error fault => rfl
  | ok r =>
      obtain ⟨first, rest, heap₁, mem₁⟩ := r
      simp only [bind, Except.bind, pure, Except.pure, Except.map]
      by_cases hfirst : first = 0
      · simp only [if_pos hfirst]
      · simp only [if_neg hfirst]

/-- 根の記録を書いた後のメモリ。 -/
def rootMemory (mem : Memory) (l : Nat) (driveNo : Int) : Memory :=
  ((mem.zero (blockAddr l) 8).setWord (blockAddr l) (BitVec.ofInt 32 driveNo)).setWord (blockAddr l + 4) 0

theorem rootMemory_word {l : Nat} (hl : l < 25600) (mem : Memory) (driveNo : Int) :
    (rootMemory mem l driveNo).word (blockAddr l) = BitVec.ofInt 32 driveNo ∧
      (rootMemory mem l driveNo).word (blockAddr l + 4) = 0 := by
  have hto := blockAddr_toNat (Nat.le_of_lt hl)
  refine ⟨?_, Memory.setWord_word _ _ _⟩
  rw [rootMemory, Memory.setWord_other _ _ (by bv_omega) (by bv_omega), Memory.setWord_word]

/-- 読み取りに足りる空きがある。根の記録と、部分ごとのバッファと記録、終わりの空のバッファである。 -/
def PathRoom (heap : Heap) (rest : List Byte) : Prop := 2 * (pathComponents rest).length + 2 ≤ heap.table.freeCount

/-- 経路の読み取り。メモリに置いた結果は、`pathParse` の結果と同じである。 -/
theorem pathParseMem_eq (hk : KernelHeap heap) {c : Byte} {rest : List Byte} (hc : isdigit c = true)
    (hlen : (c :: 0x3A :: 0x2F :: rest).length ≤ ENKI_MAX_PATH) (hroom : PathRoom heap rest) {fuel : Nat}
    (hfuel : rest.length ≤ fuel) (mem : Memory) :
    ∃ root parts heap' mem', pathParse heap (c :: 0x3A :: 0x2F :: rest) = .ok (some ⟨root, todigit c, parts⟩, heap') ∧
      pathParseMem fuel heap mem (c :: 0x3A :: 0x2F :: rest) = .ok (root, heap', mem') ∧ root ≠ 0 ∧
      mem'.word root = BitVec.ofInt 32 (todigit c) ∧ parts.map PathPart.name = pathComponents rest ∧
      PartsAt mem' (mem'.word (root + 4)) parts ∧ (CleanHeap heap → Grown heap heap' (partAddrs parts ++ [root])) := by
  have hmax : ENKI_MAX_PATH = 108 := rfl
  have hlen' := hlen
  simp only [List.length_cons] at hlen'
  obtain ⟨l, hl, heq, hg⟩ := (Grown.refl heap).kzalloc hk (show 0 < 8 by decide) (by decide)
    (by rw [PathRoom] at hroom; simp only [List.length_nil]; omega)
  have hne := blockAddr_ne_zero (Nat.le_of_lt hl)
  obtain ⟨hdrive, hfirst⟩ := rootMemory_word hl mem (todigit c)
  have hroom' : 2 * (pathComponents rest).length + ([] : List Word).length + 2 ≤ heap.table.freeCount := hroom
  obtain ⟨parts, heap', mem', hparts, hrest, hread⟩ :=
    pathParseRest_eq hk hl hg hroom' (Nat.lt_succ_of_le hfuel) (by omega) hfirst
  refine ⟨blockAddr l, parts, heap', mem', ?_, ?_, hne, hread.head.word.trans hdrive, hread.names, hread.partsAt, hread.grown⟩
  · simp only [pathParse, if_neg (Nat.not_lt.2 hlen), pathGetDrive_drive hc, if_neg (Int.not_lt.2 (todigit_nonneg hc)),
      pathCreateRoot, heq, if_neg hne, bind, Except.bind, hparts]
    rfl
  · have hcreate : pathCreateRootMem heap mem (todigit c) =
        .ok (blockAddr l, heapMarkBlocksTaken heap l 1, rootMemory mem l (todigit c)) := by
      simp only [pathCreateRootMem, kzallocMem, heq, if_neg hne]
      rfl
    have htail := pathParseMem_rest hne fuel (heapMarkBlocksTaken heap l 1) (rootMemory mem l (todigit c)) rest
    rw [hrest] at htail
    rw [pathParseMem, if_neg (Nat.not_lt.2 hlen), pathGetDrive_drive hc]
    simp only [if_neg (Int.not_lt.2 (todigit_nonneg hc))]
    exact bind_ok.2 ⟨_, hcreate, htail⟩

/-- 長すぎる経路と、ドライブの指定のない経路では、何も割り当てずに 0 を返す。 -/
theorem pathParseMem_bad (h : ENKI_MAX_PATH < path.length ∨ ¬StartsWithDrive path) (fuel : Nat) (heap : Heap) (mem : Memory) :
    pathParseMem fuel heap mem path = .ok (0, heap, mem) := by
  rw [pathParseMem]
  by_cases hlong : ENKI_MAX_PATH < path.length
  · rw [if_pos hlong]
    rfl
  · rw [if_neg hlong, pathGetDrive_bad (h.resolve_left hlong)]
    rfl

end EnkiOs
