import EnkiOs.Fs.LifeTheorems

/-!
# 開いて閉じた後のヒープ

`path_parse` の割り当ては、`fopen` でも `fclose` でも解放されない。
-/

namespace EnkiOs
open Machine

variable {s s' : FileState} {fileName mode : List Byte} {addr : Word} {content : FatFileDescriptor} {heap' : Heap} {fd : Int}

/-- 経路の先頭に割り当てたブロックは、開いて閉じた後も塞がっている。 -/
theorem Opens.holds_root (h : Opens s fileName mode addr content heap') (hkeep : Keeps [] s.heap)
    (hopen : fopen s fileName mode = .ok (fd, s')) (hpos : 0 < fd) :
    ∃ b < 25600, s.heap.table.freeAt b = true ∧ Held b (fclose s' fd).2.heap := by
  obtain ⟨i, hslot, hne, rfl, rfl⟩ := h.fopen_pos hopen hpos
  obtain ⟨priv, heap, part, next, hreach, hfat, hcomplete⟩ := h.resolved
  obtain ⟨root, first, rest, hparse, -⟩ := hreach.parsed
  obtain ⟨hroot, b, hlt, hb, hfree⟩ := pathParse_owns hkeep hparse
  obtain ⟨hkeep₁, hc⟩ := fat16Open_keeps hroot hcomplete hfat
  have hkeep₂ := hkeep₁.alloc (show 0 < 16 by decide) (by decide) hne
  have hilt : i < 512 := Nat.zero_add 512 ▸ fileFreeSlot_lt hslot
  have hclosed : Keeps [root.addr]
      (fclose (newDescriptorState (openedState s addr (some content) heap') i addr) ((i : Int) + 1)).2.heap := by
    by_cases hlast : i = 511
    · have hmiss : Misses (newDescriptorState (openedState s addr (some content) heap') i addr) ((i : Int) + 1) :=
        misses_of_zero (by simp [fileGetDescriptor, hlast])
      rw [hmiss.fclose]
      exact hkeep₂.mono ((List.sublist_append_right (addr :: content.item.owned) [root.addr]).cons _)
    · exact (EntryAt.new hc ⟨priv, hreach.mounted⟩ (show i < 511 by omega)).fclose_keeps hkeep₂
  obtain ⟨c, hc, hheld⟩ := hclosed.held root.addr List.mem_cons_self
  have hclt := hheld.lt
  obtain rfl : b = c := blockAddr_inj (by omega) (by omega) (hb.symm.trans hc)
  exact ⟨b, hlt, hfree, hheld⟩

/-- 通常のファイルでもディレクトリでも、正の番号を返した `fopen` の後に `fclose` を呼ぶと、ヒープの表は必ず初めと違う。 -/
theorem fopen_fclose_table_ne (hkeep : Keeps [] s.heap) (h : Opens s fileName [0x72] addr content heap')
    (hopen : fopen s fileName [0x72] = .ok (fd, s')) (hpos : 0 < fd) : (fclose s' fd).2.heap.table ≠ s.heap.table := by
  intro he
  obtain ⟨b, -, hfree, hheld⟩ := h.holds_root hkeep hopen hpos
  have htaken := hheld.taken
  rw [he, hfree] at htaken
  cases htaken

theorem stateWith_opened {v : Volume} (hv : v.disk = fragmentedDisk) :
    ∃ addr content heap' s', Opens (stateWith v 0) [0x30, 0x3A, 0x2F, 0x41] [0x72] addr content heap' ∧
      fopen (stateWith v 0) [0x30, 0x3A, 0x2F, 0x41] [0x72] = .ok (1, s') := by
  obtain ⟨addr, content, heap', hopens, -⟩ := fragmented_opens hv (s := stateWith v 0) rfl rfl bootHeap_packed (by decide)
  obtain ⟨-, hopen⟩ := hopens.fopen_slot (fileFreeSlot_eq (show 0 < 512 by decide) (by simp) rfl)
  exact ⟨addr, content, heap', _, hopens, hopen⟩

theorem fopen_fclose_table_ne_fragmented : ∃ (v : Volume) (s' : FileState), v.disk = fragmentedDisk ∧
    fopen (stateWith v 0) [0x30, 0x3A, 0x2F, 0x41] [0x72] = .ok (1, s') ∧
    (fclose s' 1).2.heap.table ≠ (stateWith v 0).heap.table := by
  obtain ⟨v, hv⟩ := fragmented_resolved
  obtain ⟨addr, content, heap', s', hopens, hopen⟩ := stateWith_opened hv
  exact ⟨v, s', hv, hopen, fopen_fclose_table_ne keeps_boot hopens hopen (by decide)⟩

/-- 起動した直後に `"0:/A"` を開いて閉じると、表のブロックが塞がったまま残る。 -/
theorem fopen_fclose_fails_fragmented : ∃ (v : Volume) (s' : FileState), v.disk = fragmentedDisk ∧
    Keeps [] (stateWith v 0).heap ∧ fopen (stateWith v 0) [0x30, 0x3A, 0x2F, 0x41] [0x72] = .ok (1, s') ∧
    ∃ b : Nat, (fclose s' 1).2.heap.table.entries b ≠ (stateWith v 0).heap.table.entries b := by
  obtain ⟨v, hv⟩ := fragmented_resolved
  obtain ⟨addr, content, heap', s', hopens, hopen⟩ := stateWith_opened hv
  obtain ⟨b, -, hfree, hheld⟩ := hopens.holds_root keeps_boot hopen (by decide)
  refine ⟨v, s', hv, keeps_boot, hopen, b, ?_⟩
  intro he
  have htaken := hheld.taken
  rw [HeapTable.freeAt] at hfree htaken
  rw [he, hfree] at htaken
  cases htaken

end EnkiOs
