import EnkiOs.Elf.Lemmas
import EnkiOs.Process.Theorems
import EnkiOs.Lib.Extreme
import Mathlib.Data.List.Basic

/-!
# 読み込む範囲

`virt_base_addr` と `virt_end_addr` は、0 を、まだ決まっていない印にも使う。`PT_LOAD` のヘッダの範囲が 0 から始まらず、`2^32` に
届かなければ、印と値が混ざることはない。
-/

namespace EnkiOs
open Machine

/-- ヘッダのアドレス `a` から読むプログラムヘッダの並び。 -/
def elfProgramHeaders (mem : Memory) (a : Word) : List Elf32Phdr :=
  (List.range (ElfHeader.at mem a).ePhnum.toNat).map (elfProgramHeader mem a)

/-- そのうち `PT_LOAD` のもの。 -/
def elfLoadHeaders (mem : Memory) (a : Word) : List Elf32Phdr :=
  (elfProgramHeaders mem a).filter fun phdr => phdr.pType = PT_LOAD

/-- ファイルにある部分の始まりと終わり。 -/
def segmentBase (phdr : Elf32Phdr) : Nat := phdr.pVaddr.toNat

def segmentEnd (phdr : Elf32Phdr) : Nat := phdr.pVaddr.toNat + phdr.pFilesz.toNat

/-- 範囲は 0 から始まらず、`2^32` に届かない。 -/
structure SegmentFits (phdr : Elf32Phdr) : Prop where
  pos : 1 ≤ segmentBase phdr
  lt : segmentEnd phdr < 2 ^ 32

/-- 仮想アドレスの始まりは一番小さい始まり、終わりは一番大きい終わりで、物理アドレスの方は、それを与えるヘッダから決まる。 -/
structure SegmentBounds (elfMemory : Word) (loads : List Elf32Phdr) (file : ElfFile) : Prop where
  first : ∃ phdr, Extreme (· ≤ ·) segmentBase loads phdr ∧ file.virtBaseAddr = phdr.pVaddr ∧
    file.physBaseAddr = elfMemory + phdr.pOffset
  last : ∃ phdr, Extreme (· ≥ ·) segmentEnd loads phdr ∧ file.virtEndAddr.toNat = segmentEnd phdr ∧
    file.physEndAddr = elfMemory + phdr.pOffset + phdr.pFilesz

variable {mem : Memory} {elfMemory : Word} {file : ElfFile} {phdr : Elf32Phdr} {loads : List Elf32Phdr}

/-! ## 畳み込み -/

/-- 繰り返しは、ヘッダを順に処理する畳み込みである。どのヘッダの処理も失敗しないので、途中で終わらない。 -/
theorem elfProcessPheadersLoop_foldl (mem : Memory) (header : Word) (k i : Nat) (result : Int) (file : ElfFile) :
    (elfProcessPheadersLoop mem header k i result file).2 =
      ((List.range' i k).map (elfProgramHeader mem header)).foldl (fun file phdr => (elfProcessPheader file phdr).2) file := by
  induction k generalizing i result file with
  | zero => rfl
  | succ k ih =>
      simp only [elfProcessPheadersLoop, elfProcessPheader_result, Int.lt_irrefl, if_false, ih]
      rfl

/-- `PT_LOAD` でないヘッダは、何も変えない。 -/
theorem elfProcessPheaders_loads (mem : Memory) (file : ElfFile) :
    elfProcessPheaders mem file =
      (0, (elfLoadHeaders mem file.elfMemory).foldl (fun file phdr => (elfProcessPhdrPtLoad file phdr).2) file) := by
  have hresult : (elfProcessPheaders mem file).1 = 0 := by
    rw [elfProcessPheaders, elfProcessPheadersLoop_result, ite_self]
  have hfold := elfProcessPheadersLoop_foldl mem file.elfMemory (ElfHeader.at mem file.elfMemory).ePhnum.toNat 0 0 file
  refine Prod.ext hresult (hfold.trans ?_)
  rw [← List.range_eq_range', elfLoadHeaders, List.foldl_filter]
  refine List.foldl_ext _ _ file fun file phdr _ => ?_
  simp only [elfProcessPheader, decide_eq_true_eq]
  split <;> rfl

/-! ## 一つのヘッダ -/

/-- `file` の始まりは、`phdr` から決めた。 -/
def BaseFrom (elfMemory : Word) (file : ElfFile) (phdr : Elf32Phdr) : Prop :=
  file.elfMemory = elfMemory ∧ file.virtBaseAddr = phdr.pVaddr ∧ file.physBaseAddr = elfMemory + phdr.pOffset

/-- `file` の終わりは、`phdr` から決めた。 -/
def EndFrom (elfMemory : Word) (file : ElfFile) (phdr : Elf32Phdr) : Prop :=
  file.elfMemory = elfMemory ∧ file.virtEndAddr = phdr.pVaddr + phdr.pFilesz ∧
    file.physEndAddr = elfMemory + phdr.pOffset + phdr.pFilesz

theorem elfProcessPhdrPtLoad_base (hmemory : file.elfMemory = elfMemory)
    (hcond : phdr.pVaddr ≤ file.virtBaseAddr ∨ file.virtBaseAddr = 0) :
    BaseFrom elfMemory (elfProcessPhdrPtLoad file phdr).2 phdr := by
  simp only [elfProcessPhdrPtLoad]
  rw [if_pos hcond]
  split
  · exact ⟨hmemory, rfl, congrArg (· + phdr.pOffset) hmemory⟩
  · exact ⟨hmemory, rfl, congrArg (· + phdr.pOffset) hmemory⟩

theorem elfProcessPhdrPtLoad_keepsBase {old : Elf32Phdr} (hold : BaseFrom elfMemory file old)
    (hcond : ¬(phdr.pVaddr ≤ file.virtBaseAddr ∨ file.virtBaseAddr = 0)) :
    BaseFrom elfMemory (elfProcessPhdrPtLoad file phdr).2 old := by
  simp only [elfProcessPhdrPtLoad]
  rw [if_neg hcond]
  split
  · exact hold
  · exact hold

/-- 始まりを決める文は、終わりを変えない。 -/
theorem elfProcessPhdrPtLoad_end (hmemory : file.elfMemory = elfMemory)
    (hcond : file.virtEndAddr ≤ phdr.pVaddr + phdr.pFilesz ∨ file.virtEndAddr = 0) :
    EndFrom elfMemory (elfProcessPhdrPtLoad file phdr).2 phdr := by
  have hphys : file.elfMemory + phdr.pOffset + phdr.pFilesz = elfMemory + phdr.pOffset + phdr.pFilesz := by rw [hmemory]
  by_cases hbase : phdr.pVaddr ≤ file.virtBaseAddr ∨ file.virtBaseAddr = 0
  · simp only [elfProcessPhdrPtLoad, if_pos hbase, if_pos hcond]
    exact ⟨hmemory, rfl, hphys⟩
  · simp only [elfProcessPhdrPtLoad, if_neg hbase, if_pos hcond]
    exact ⟨hmemory, rfl, hphys⟩

theorem elfProcessPhdrPtLoad_keepsEnd {old : Elf32Phdr} (hold : EndFrom elfMemory file old)
    (hcond : ¬(file.virtEndAddr ≤ phdr.pVaddr + phdr.pFilesz ∨ file.virtEndAddr = 0)) :
    EndFrom elfMemory (elfProcessPhdrPtLoad file phdr).2 old := by
  by_cases hbase : phdr.pVaddr ≤ file.virtBaseAddr ∨ file.virtBaseAddr = 0
  · simp only [elfProcessPhdrPtLoad, if_pos hbase, if_neg hcond]
    exact hold
  · simp only [elfProcessPhdrPtLoad, if_neg hbase, if_neg hcond]
    exact hold

/-! ## 範囲の中では、印と値は混ざらない -/

theorem SegmentFits.vaddr_ne_zero (h : SegmentFits phdr) : phdr.pVaddr ≠ 0 := by
  intro h0
  have hpos := h.pos
  rw [segmentBase, h0] at hpos
  exact absurd hpos (by decide)

theorem SegmentFits.end_toNat (h : SegmentFits phdr) : (phdr.pVaddr + phdr.pFilesz).toNat = segmentEnd phdr := by
  rw [BitVec.toNat_add]
  exact Nat.mod_eq_of_lt h.lt

theorem SegmentFits.end_ne_zero (h : SegmentFits phdr) : phdr.pVaddr + phdr.pFilesz ≠ 0 := by
  intro h0
  have hend := h.end_toNat
  have hpos := h.pos
  rw [h0] at hend
  simp only [segmentEnd, segmentBase] at hend hpos
  have hzero : (0 : Word).toNat = 0 := rfl
  omega

theorem loads_base (elfMemory : Word) (hne : loads ≠ []) (hfits : ∀ phdr ∈ loads, SegmentFits phdr) :
    ∃ phdr, Extreme (· ≤ ·) segmentBase loads phdr ∧ BaseFrom elfMemory
      (loads.foldl (fun file phdr => (elfProcessPhdrPtLoad file phdr).2) { elfMemory := elfMemory }) phdr := by
  refine foldl_extreme hne ?_ ?_
  · intro phdr _
    exact elfProcessPhdrPtLoad_base rfl (.inr rfl)
  · intro file old hold phdr _ hfrom
    have hset : file.virtBaseAddr ≠ 0 := hfrom.2.1 ▸ (hfits old hold).vaddr_ne_zero
    by_cases hle : phdr.pVaddr ≤ old.pVaddr
    · exact .inl ⟨elfProcessPhdrPtLoad_base hfrom.1 (.inl (hfrom.2.1 ▸ hle)), hle⟩
    · refine .inr ⟨elfProcessPhdrPtLoad_keepsBase hfrom ?_, Nat.le_of_not_le hle⟩
      rw [hfrom.2.1]
      exact not_or.2 ⟨hle, (hfits old hold).vaddr_ne_zero⟩

theorem loads_end (elfMemory : Word) (hne : loads ≠ []) (hfits : ∀ phdr ∈ loads, SegmentFits phdr) :
    ∃ phdr, Extreme (· ≥ ·) segmentEnd loads phdr ∧ EndFrom elfMemory
      (loads.foldl (fun file phdr => (elfProcessPhdrPtLoad file phdr).2) { elfMemory := elfMemory }) phdr := by
  refine foldl_extreme hne ?_ ?_
  · intro phdr _
    exact elfProcessPhdrPtLoad_end rfl (.inr rfl)
  · intro file old hold phdr hphdr hfrom
    have hle_iff : old.pVaddr + old.pFilesz ≤ phdr.pVaddr + phdr.pFilesz ↔ segmentEnd old ≤ segmentEnd phdr := by
      rw [BitVec.le_def, (hfits old hold).end_toNat, (hfits phdr hphdr).end_toNat]
    by_cases hle : segmentEnd old ≤ segmentEnd phdr
    · exact .inl ⟨elfProcessPhdrPtLoad_end hfrom.1 (.inl (hfrom.2.1 ▸ hle_iff.2 hle)), hle⟩
    · refine .inr ⟨elfProcessPhdrPtLoad_keepsEnd hfrom ?_, Nat.le_of_not_le hle⟩
      rw [hfrom.2.1]
      exact not_or.2 ⟨fun h => hle (hle_iff.1 h), (hfits old hold).end_ne_zero⟩

/-- `PT_LOAD` のヘッダがあれば、範囲は一番小さい始まりから一番大きい終わりまでになる。 -/
theorem elfProcessPheaders_segmentBounds (hne : elfLoadHeaders mem elfMemory ≠ [])
    (hfits : ∀ phdr ∈ elfLoadHeaders mem elfMemory, SegmentFits phdr) :
    SegmentBounds elfMemory (elfLoadHeaders mem elfMemory) (elfProcessPheaders mem { elfMemory := elfMemory }).2 := by
  rw [elfProcessPheaders_loads]
  obtain ⟨base, hbase, -, hvirt, hphys⟩ := loads_base elfMemory hne hfits
  obtain ⟨last, hlast, -, hvirtEnd, hphysEnd⟩ := loads_end elfMemory hne hfits
  refine ⟨⟨base, hbase, hvirt, hphys⟩, ⟨last, hlast, ?_, hphysEnd⟩⟩
  rw [hvirtEnd, (hfits last hlast.mem).end_toNat]

/-- 仮想アドレスの範囲は、ヘッダの並べ方によらない。 -/
theorem SegmentBounds.perm {elfMemory' : Word} {loads' : List Elf32Phdr} {file' : ElfFile}
    (h : SegmentBounds elfMemory loads file) (h' : SegmentBounds elfMemory' loads' file') (hperm : loads'.Perm loads) :
    file'.virtBaseAddr = file.virtBaseAddr ∧ file'.virtEndAddr = file.virtEndAddr := by
  obtain ⟨base, hbase, hvirt, -⟩ := h.first
  obtain ⟨base', hbase', hvirt', -⟩ := h'.first
  obtain ⟨last, hlast, hvirtEnd, -⟩ := h.last
  obtain ⟨last', hlast', hvirtEnd', -⟩ := h'.last
  constructor
  · rw [hvirt, hvirt']
    exact BitVec.eq_of_toNat_eq ((hbase'.perm hperm).value_eq hbase)
  · apply BitVec.eq_of_toNat_eq
    rw [hvirtEnd, hvirtEnd']
    exact (hlast'.perm hperm).value_eq hlast

/-- 一つ以上の `PT_LOAD` のヘッダがあり、どれも 0 から始まらず `2^32` に届かないとき、範囲はその両端である。ほかの種類のヘッダは
関わらず、仮想アドレスの範囲はヘッダの順によらない。 -/
theorem elfProcessPheaders_bounds {mem : Memory} {elfMemory : Word} (hne : elfLoadHeaders mem elfMemory ≠ [])
    (hfits : ∀ phdr ∈ elfLoadHeaders mem elfMemory, SegmentFits phdr) :
    SegmentBounds elfMemory (elfLoadHeaders mem elfMemory) (elfProcessPheaders mem { elfMemory := elfMemory }).2 ∧
    (∀ mem', elfLoadHeaders mem' elfMemory = elfLoadHeaders mem elfMemory →
      elfProcessPheaders mem' { elfMemory := elfMemory } = elfProcessPheaders mem { elfMemory := elfMemory }) ∧
    ∀ mem' elfMemory', (elfLoadHeaders mem' elfMemory').Perm (elfLoadHeaders mem elfMemory) →
      (elfProcessPheaders mem' { elfMemory := elfMemory' }).2.virtBaseAddr =
        (elfProcessPheaders mem { elfMemory := elfMemory }).2.virtBaseAddr ∧
      (elfProcessPheaders mem' { elfMemory := elfMemory' }).2.virtEndAddr =
        (elfProcessPheaders mem { elfMemory := elfMemory }).2.virtEndAddr := by
  have hbounds := elfProcessPheaders_segmentBounds hne hfits
  refine ⟨hbounds, ?_, ?_⟩
  · intro mem' hsame
    rw [elfProcessPheaders_loads, elfProcessPheaders_loads, hsame]
  · intro mem' elfMemory' hperm
    have hne' : elfLoadHeaders mem' elfMemory' ≠ [] := by
      intro hnil
      rw [hnil] at hperm
      exact hne hperm.nil_eq.symm
    have hfits' : ∀ phdr ∈ elfLoadHeaders mem' elfMemory', SegmentFits phdr := by
      intro phdr hphdr
      exact hfits phdr (hperm.mem_iff.1 hphdr)
    exact hbounds.perm (elfProcessPheaders_segmentBounds hne' hfits') hperm

/-- 後ろの `PT_LOAD` が先に並び、間に `PT_NOTE` のヘッダがあるファイル。 -/
def segmentsMemory : Memory :=
  Memory.write (fun _ => 0) 0x01000000 ((elfImage 84 0).take 44 ++ [3, 0, 0, 0, 0, 0, 0, 0] ++
    wordBytes PT_LOAD ++ wordBytes 0x1000 ++ wordBytes 0x401000 ++ wordBytes 0x401000 ++ wordBytes 16 ++ wordBytes 16 ++
    wordBytes 6 ++ wordBytes 0x1000 ++
    wordBytes 4 ++ wordBytes 0 ++ wordBytes 1 ++ wordBytes 1 ++ wordBytes 2 ++ wordBytes 2 ++ wordBytes 4 ++ wordBytes 4 ++
    ((elfImage 84 0).drop 52).take 32)

theorem elfProcessPheaders_bounds_segments :
    SegmentBounds 0x01000000 [⟨PT_LOAD, 0x1000, 0x401000, 16, 16, 6⟩, ⟨PT_LOAD, 0, 0x400000, 84, 84, 7⟩]
      (elfProcessPheaders segmentsMemory { elfMemory := 0x01000000 }).2 := by
  have hloads : elfLoadHeaders segmentsMemory 0x01000000 =
      [⟨PT_LOAD, 0x1000, 0x401000, 16, 16, 6⟩, ⟨PT_LOAD, 0, 0x400000, 84, 84, 7⟩] := rfl
  have hfits : ∀ phdr ∈ elfLoadHeaders segmentsMemory 0x01000000, SegmentFits phdr := by
    intro phdr hphdr
    rw [hloads] at hphdr
    rcases List.mem_pair.1 hphdr with rfl | rfl
    · exact ⟨by decide, by decide⟩
    · exact ⟨by decide, by decide⟩
  have hne : elfLoadHeaders segmentsMemory 0x01000000 ≠ [] := by
    rw [hloads]
    exact List.cons_ne_nil _ _
  exact hloads ▸ (elfProcessPheaders_bounds hne hfits).1

end EnkiOs
