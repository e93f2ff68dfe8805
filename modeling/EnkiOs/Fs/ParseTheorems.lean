import EnkiOs.Fs.PathMemory

/-!
# 経路の読み取りと解放

書き出した経路の読み取りは、元の部分に戻る。続く区切りは、後の部分を落とす。読み取りの割り当ては、解放ですべて戻る。
-/

namespace EnkiOs
open Machine Segments

variable {heap : Heap} {mem : Memory} {path rest : List Byte} {c : Byte}

/-! ## 書き出した経路 -/

/-- `d:/c1/c2/.../cn` -/
def renderPath (d : Nat) (cs : List (List Byte)) : List Byte :=
  BitVec.ofNat 8 (0x30 + d) :: 0x3A :: 0x2F :: [0x2F].intercalate cs

theorem renderPath_digit {d : Nat} (hd : d ≤ 9) :
    isdigit (BitVec.ofNat 8 (0x30 + d)) = true ∧ todigit (BitVec.ofNat 8 (0x30 + d)) = d := by
  have hall : ∀ d < 10, isdigit (BitVec.ofNat 8 (0x30 + d)) = true ∧ todigit (BitVec.ofNat 8 (0x30 + d)) = d := by decide
  exact hall d (by omega)

theorem pathComponents_render {cs : List (List Byte)} (hcs : ∀ c ∈ cs, c ≠ [] ∧ 0x2F ∉ c) :
    pathComponents ([0x2F].intercalate cs) = cs ∧ pathComponents ([0x2F].intercalate cs ++ [0x2F]) = cs := by
  have hws : ∀ w ∈ cs, w ≠ [] ∧ ∀ x ∈ w, decide (x = 0x2F) = false := by
    intro w hw
    refine ⟨(hcs w hw).1, fun x hx => decide_eq_false ?_⟩
    rintro rfl
    exact (hcs w hw).2 hx
  exact ⟨leading_intercalate hws (by decide), leading_intercalate_append hws (by decide)⟩

/-- メモリの `root` に、ドライブの番号が `d` で、部分が順に `cs` である経路がある。 -/
def PathAt (mem : Memory) (root : Word) (d : Int) (cs : List (List Byte)) : Prop :=
  mem.word root = BitVec.ofInt 32 d ∧ ∃ parts, PartsAt mem (mem.word (root + 4)) parts ∧ parts.map PathPart.name = cs

/-- 書き出した経路は、終わりに区切りが一つ付いても、元の番号と部分に戻る。長すぎる経路と、ドライブの指定のない経路では、0 を返す。 -/
theorem pathParse_render :
    (∀ heap, KernelHeap heap → ∀ d ≤ 9, ∀ cs : List (List Byte), (∀ c ∈ cs, c ≠ [] ∧ 0x2F ∉ c ∧ 0 ∉ c) → ∀ path,
      path = renderPath d cs ∨ path = renderPath d cs ++ [0x2F] → path.length ≤ ENKI_MAX_PATH →
      2 * cs.length + 2 ≤ heap.table.freeCount → ∀ fuel, path.length ≤ fuel → ∀ mem,
      ∃ root heap' mem', pathParseMem fuel heap mem path = .ok (root, heap', mem') ∧ root ≠ 0 ∧ PathAt mem' root d cs) ∧
    ∀ path, ENKI_MAX_PATH < path.length ∨ ¬StartsWithDrive path → ∀ fuel heap mem,
      pathParseMem fuel heap mem path = .ok (0, heap, mem) := by
  refine ⟨?_, fun path hbad => pathParseMem_bad hbad⟩
  intro heap hk d hd cs hcs path hpath hlen hroom fuel hfuel mem
  obtain ⟨hdigit, hvalue⟩ := renderPath_digit hd
  obtain ⟨hplain, htrailing⟩ := pathComponents_render fun c hc => ⟨(hcs c hc).1, (hcs c hc).2.1⟩
  obtain ⟨rest, rfl, hrest⟩ : ∃ rest, path = BitVec.ofNat 8 (0x30 + d) :: 0x3A :: 0x2F :: rest ∧ pathComponents rest = cs := by
    rcases hpath with rfl | rfl
    · exact ⟨_, rfl, hplain⟩
    · exact ⟨_, rfl, htrailing⟩
  have hroom' : PathRoom heap rest := by rwa [PathRoom, hrest]
  have hfuel' : rest.length ≤ fuel := by
    simp only [List.length_cons] at hfuel
    omega
  obtain ⟨root, parts, heap', mem', -, hparse, hne, hdrive, hnames, hparts, -⟩ :=
    pathParseMem_eq hk hdigit hlen hroom' hfuel' mem
  rw [hvalue] at hdrive
  exact ⟨root, heap', mem', hparse, hne, hdrive, parts, hparts, hnames.trans hrest⟩

theorem pathParse_render_boot :
    (∃ root heap' mem', pathParseMem 8 bootHeap (fun _ => 0) [0x30, 0x3A, 0x2F, 0x61, 0x2F, 0x62, 0x63, 0x2F] =
      .ok (root, heap', mem') ∧ root ≠ 0 ∧ PathAt mem' root 0 [[0x61], [0x62, 0x63]]) ∧
    pathParseMem 8 bootHeap (fun _ => 0) [0x61, 0x3A, 0x2F] = .ok (0, bootHeap, fun _ => 0) := by
  refine ⟨pathParse_render.1 bootHeap cleanHeap_boot.toKernelHeap 0 (by decide) [[0x61], [0x62, 0x63]] (by decide) _ (.inr rfl)
    (by decide) (by rw [freeCount_boot]; decide) 8 (by decide) _, pathParse_render.2 _ (.inr ?_) 8 bootHeap _⟩
  rintro ⟨c, rest, heq, hdigit⟩
  cases heq
  exact absurd hdigit (by decide)

/-! ## 続く区切り -/

theorem pathParse_names (hk : KernelHeap heap) (hc : isdigit c = true) (hlen : (c :: 0x3A :: 0x2F :: rest).length ≤ ENKI_MAX_PATH)
    (hroom : PathRoom heap rest) :
    ∃ root heap', pathParse heap (c :: 0x3A :: 0x2F :: rest) = .ok (some root, heap') ∧ root.driveNo = todigit c ∧
      root.parts.map PathPart.name = pathComponents rest := by
  obtain ⟨root, parts, heap', mem', hparse, -, -, -, hnames, -, -⟩ :=
    pathParseMem_eq hk hc hlen hroom (Nat.le_refl _) fun _ => 0
  exact ⟨_, heap', hparse, rfl, hnames⟩

/-- 続く区切りをまとめても、ドライブの番号と部分は変わらず、空の部分の後にも、落ちる部分はない。 -/
def SeparatorsHarmless (path : List Byte) : Prop :=
  ∀ heap heap', KernelHeap heap → KernelHeap heap' → 2 * path.length + 2 ≤ heap.table.freeCount →
    2 * path.length + 2 ≤ heap'.table.freeCount →
    ∃ root root' heap₁ heap₂, pathParse heap path = .ok (some root, heap₁) ∧
      pathParse heap' (collapse (· = 0x2F) path) = .ok (some root', heap₂) ∧ root.driveNo = root'.driveNo ∧
      root.parts.map PathPart.name = root'.parts.map PathPart.name ∧
      root.parts.map PathPart.name = words (· = 0x2F) (path.drop 3)

theorem not_slash_of_isdigit (hc : isdigit c = true) : c ≠ 0x2F := by
  rintro rfl
  exact absurd hc (by decide)

/-- まとめた経路には、空の部分が手前に残らない。 -/
theorem collapse_path (hc : isdigit c = true) (rest : List Byte) :
    ∃ rest', collapse (· = 0x2F) (c :: 0x3A :: 0x2F :: rest) = c :: 0x3A :: 0x2F :: rest' ∧ rest'.length ≤ rest.length ∧
      pathComponents rest' = words (· = 0x2F) rest := by
  obtain ⟨d, rest', heq, hd, hwords⟩ := leading_collapse (p := fun c : Byte => decide (c = 0x2F)) (c := 0x2F) (l := rest) (by decide)
  rw [of_decide_eq_true hd] at heq
  have hlen := length_collapse_le (fun c : Byte => decide (c = 0x2F)) (0x2F :: rest)
  rw [heq, List.length_cons, List.length_cons] at hlen
  refine ⟨rest', ?_, by omega, hwords⟩
  have hhead : ∀ x ∈ [c, 0x3A], decide (x = 0x2F) = false := by
    intro x hx
    rcases List.mem_pair.1 hx with rfl | rfl
    · exact decide_eq_false (not_slash_of_isdigit hc)
    · rfl
  have happend := collapse_word_append hhead (0x2F :: rest)
  rw [heq] at happend
  exact happend

theorem separatorsHarmless_iff_words (hc : isdigit c = true) (hlen : (c :: 0x3A :: 0x2F :: rest).length ≤ ENKI_MAX_PATH) :
    SeparatorsHarmless (c :: 0x3A :: 0x2F :: rest) ↔ pathComponents rest = words (· = 0x2F) rest := by
  have hmax : ENKI_MAX_PATH = 108 := rfl
  obtain ⟨rest', hcollapse, hshort, hwords⟩ := collapse_path hc rest
  have hlen' : (c :: 0x3A :: 0x2F :: rest').length ≤ ENKI_MAX_PATH := by
    simp only [List.length_cons] at hlen ⊢
    omega
  have hroom : ∀ heap, 2 * (c :: 0x3A :: 0x2F :: rest).length + 2 ≤ heap.table.freeCount →
      ∀ l : List Byte, l.length ≤ rest.length → PathRoom heap l := by
    intro heap hroom l hl
    have hcount := length_leading_le (fun c : Byte => decide (c = 0x2F)) l
    simp only [List.length_cons] at hroom
    rw [PathRoom, pathComponents]
    omega
  constructor
  · intro h
    have hboot : 2 * (c :: 0x3A :: 0x2F :: rest).length + 2 ≤ bootHeap.table.freeCount := by
      rw [freeCount_boot]
      omega
    obtain ⟨root, root', heap₁, heap₂, hparse, -, -, -, hall⟩ :=
      h bootHeap bootHeap cleanHeap_boot.toKernelHeap cleanHeap_boot.toKernelHeap hboot hboot
    obtain ⟨root₂, heap₃, hparse', -, hnames⟩ :=
      pathParse_names cleanHeap_boot.toKernelHeap hc hlen (hroom bootHeap hboot rest (Nat.le_refl _))
    cases hparse.symm.trans hparse'
    exact hnames.symm.trans hall
  · intro h heap heap' hk hk' hfree hfree'
    obtain ⟨root, heap₁, hparse, hdrive, hnames⟩ := pathParse_names hk hc hlen (hroom heap hfree rest (Nat.le_refl _))
    obtain ⟨root', heap₂, hparse', hdrive', hnames'⟩ := pathParse_names hk' hc hlen' (hroom heap' hfree' rest' hshort)
    rw [← hcollapse] at hparse'
    exact ⟨root, root', heap₁, heap₂, hparse, hparse', hdrive.trans hdrive'.symm,
      by rw [hnames, hnames', h, hwords], hnames.trans h⟩

/-- 区切りが続いても害がないのは、続いた後に区切りしかないときである。 -/
theorem separatorsHarmless_iff (hstart : StartsWithDrive path) (hlen : path.length ≤ ENKI_MAX_PATH) :
    SeparatorsHarmless path ↔ Gapless (· = 0x2F) path := by
  obtain ⟨c, rest, rfl, hc⟩ := hstart
  rw [separatorsHarmless_iff_words hc hlen, pathComponents, leading_eq_words_iff (c := 0x2F) (by decide), gapless_cons_cons,
    gapless_cons_cons]
  simp

/-- `0:/a/b//` -/
theorem separatorsHarmless_iff_trailing : SeparatorsHarmless [0x30, 0x3A, 0x2F, 0x61, 0x2F, 0x62, 0x2F, 0x2F] := by
  refine (separatorsHarmless_iff ⟨0x30, [0x61, 0x2F, 0x62, 0x2F, 0x2F], rfl, by decide⟩ (by decide)).2 ?_
  simp [gapless_cons_cons, gapless_singleton]

/-- `0:/a//b` -/
theorem separatorsHarmless_fails : StartsWithDrive [0x30, 0x3A, 0x2F, 0x61, 0x2F, 0x2F, 0x62] ∧
    ¬SeparatorsHarmless [0x30, 0x3A, 0x2F, 0x61, 0x2F, 0x2F, 0x62] := by
  refine ⟨⟨0x30, _, rfl, by decide⟩, ?_⟩
  rw [separatorsHarmless_iff_words (by decide) (by decide)]
  decide

/-! ## 解放 -/

/-- 読み取った経路を解放すると、ヒープは元に戻る。 -/
theorem pathFree_restores (hclean : CleanHeap heap) (hstart : StartsWithDrive path) (hlen : path.length ≤ ENKI_MAX_PATH)
    (hroom : PathRoom heap (path.drop 3)) {fuel : Nat} (hfuel : path.length ≤ fuel) (mem : Memory) :
    ∃ root heap' mem', pathParseMem fuel heap mem path = .ok (root, heap', mem') ∧ root ≠ 0 ∧
      pathFreeMem fuel heap' mem' root = .ok heap := by
  obtain ⟨c, rest, rfl, hc⟩ := hstart
  simp only [List.length_cons] at hfuel
  have hfuel' : rest.length ≤ fuel := by omega
  obtain ⟨root, parts, heap', mem', -, hparse, hne, -, hnames, hparts, hgrown⟩ :=
    pathParseMem_eq hclean.toKernelHeap hc hlen hroom hfuel' mem
  have hcount : parts.length < fuel := by
    have hle := length_leading_le (fun c : Byte => decide (c = 0x2F)) rest
    have hmap := congrArg List.length hnames
    rw [List.length_map, pathComponents] at hmap
    omega
  refine ⟨root, heap', mem', hparse, hne, ?_⟩
  have hfree : pathFree heap' ⟨root, todigit c, parts⟩ = heap :=
    (pathFree_eq _ _).trans ((hgrown hclean).foldl_kfree hclean)
  rw [pathFreeMem_eq hparts hcount heap' (todigit c), hfree]

theorem pathFree_restores_boot : ∃ root heap' mem',
    pathParseMem 7 bootHeap (fun _ => 0) [0x30, 0x3A, 0x2F, 0x61, 0x2F, 0x2F, 0x62] = .ok (root, heap', mem') ∧ root ≠ 0 ∧
      pathFreeMem 7 heap' mem' root = .ok bootHeap := by
  refine pathFree_restores cleanHeap_boot ⟨0x30, _, rfl, by decide⟩ (by decide) ?_ (by decide) _
  rw [PathRoom, freeCount_boot]
  decide

end EnkiOs
