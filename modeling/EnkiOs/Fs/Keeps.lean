import EnkiOs.Fs.Descriptors
import EnkiOs.Heap.Keeps

/-!
# 開いたファイルの持つアドレス

経路の読み取りとディレクトリの探索は、ほかで持っているアドレスを解放せず、作った項目のアドレスだけを新しく持つ。
-/

namespace EnkiOs
open Machine

variable {heap heap' : Heap} {d : Disk} {priv : FatPrivate} {kept : List Word}

/-! ## 経路 -/

theorem pathGetPart_keeps {path rest : List Byte} {part : Option (Word × List Byte)} (hkeep : Keeps kept heap)
    (h : pathGetPart heap path = .ok (part, rest, heap')) : Keeps kept heap' := by
  simp only [pathGetPart] at h
  split at h
  · cases h
    exact hkeep.kfree_made (by decide) (by decide)
  · split at h
    · cases h
    · cases h
      exact hkeep.kzalloc ENKI_MAX_PATH

theorem pathParsePart_keeps {path rest : List Byte} {part : Option PathPart} (hkeep : Keeps kept heap)
    (h : pathParsePart heap path = .ok (part, rest, heap')) : Keeps kept heap' := by
  obtain ⟨⟨got, rest₁, heap₁⟩, hget, h⟩ := bind_ok.1 h
  have hkeep₁ := pathGetPart_keeps hkeep hget
  cases got with
  | none =>
      cases h
      exact hkeep₁
  | some got =>
      simp only at h
      split at h
      · cases h
      · cases h
        exact hkeep₁.kzalloc 8

theorem pathParseParts_keeps {path : List Byte} {parts : List PathPart} (hkeep : Keeps kept heap)
    (h : pathParseParts heap path = .ok (parts, heap')) : Keeps kept heap' := by
  induction hn : path.length using Nat.strongRecOn generalizing path parts heap with
  | ind n ih =>
      subst hn
      rw [pathParseParts] at h
      split at h
      · cases h
      · rename_i hpart
        cases h
        exact pathParsePart_keeps hkeep hpart
      · rename_i hpart
        obtain ⟨⟨rest, heap₁⟩, hrest, h⟩ := bind_ok.1 h
        cases h
        exact ih _ (pathParsePart_decreases hpart) (pathParsePart_keeps hkeep hpart) hrest rfl

/-- 読み取った経路の先頭のアドレスは、空いていたブロックであり、並びに加わる。 -/
theorem pathParse_owns {path : List Byte} {root : PathRoot} (hkeep : Keeps kept heap)
    (h : pathParse heap path = .ok (some root, heap')) :
    Keeps (root.addr :: kept) heap' ∧ ∃ b < 25600, root.addr = blockAddr b ∧ heap.table.freeAt b = true := by
  simp only [pathParse] at h
  split at h
  · cases h
  · split at h
    · cases h
    · obtain ⟨⟨root₁, heap₁⟩, hroot, h⟩ := bind_ok.1 h
      obtain ⟨⟨parts, heap₂⟩, hparts, h⟩ := bind_ok.1 h
      cases h
      obtain ⟨addr, heap₃, hk⟩ : ∃ addr heap₃, kzalloc heap 8 = (addr, heap₃) := ⟨_, _, rfl⟩
      simp only [pathCreateRoot, hk] at hroot
      split at hroot
      · cases hroot
      · rename_i hne
        cases hroot
        obtain ⟨b, hlt, hb, hfree, -⟩ :=
          held_of_kzalloc hkeep.toKernelHeap hkeep.ends hkeep.guarded (by decide) (by decide) hk hne
        exact ⟨pathParseParts_keeps (hkeep.made (by decide) (by decide) hk hne) hparts, b, hlt, hb, hfree⟩

theorem pathParse_keeps {path : List Byte} {root : PathRoot} (hkeep : Keeps kept heap)
    (h : pathParse heap path = .ok (some root, heap')) : Keeps kept heap' :=
  (pathParse_owns hkeep h).1.mono (List.sublist_cons_self _ _)

/-! ## 項目 -/

/-- 項目が持つアドレス。読み込んだディレクトリは含まない。 -/
def FatItem.owned (item : FatItem) : List Word :=
  match item.type with
  | .file (some (copy, _)) => [copy, item.addr]
  | _ => [item.addr]

/-- 項目のための割り当てに、失敗が無い。ディレクトリの配列は、割り当てに成功するとすぐに解放される。 -/
def FatItem.Complete (item : FatItem) : Prop :=
  match item.type with
  | .file (some _) => True
  | .dir none => True
  | _ => False

def ownedBy : Option FatItem → List Word
  | none => []
  | some item => item.owned

/-- 項目を解放すると、項目の持つアドレスだけが並びから除かれる。 -/
theorem fat16FatItemFree_keeps {item : FatItem} (hcomplete : item.Complete) (hkeep : Keeps (item.owned ++ kept) heap) :
    Keeps kept (fat16FatItemFree heap item) := by
  obtain ⟨addr, type⟩ := item
  cases type with
  | dir dir =>
      cases dir with
      | none => exact hkeep.kfree
      | some dir => exact absurd hcomplete id
  | file item =>
      cases item with
      | none => exact absurd hcomplete id
      | some item => exact hkeep.kfree.kfree

theorem fat16LoadFatDir_keeps {item : FatDirItem} {dir : Option (Word × FatDir)} (hkeep : Keeps kept heap)
    (h : fat16LoadFatDir heap d priv item = .ok (dir, heap')) : Keeps kept heap' := by
  simp only [fat16LoadFatDir] at h
  split at h
  · cases h
    exact hkeep
  · split at h
    · cases h
      exact hkeep.kzalloc 16
    · rename_i hne
      obtain ⟨total, -, h⟩ := bind_ok.1 h
      have hmade := (hkeep.alloc (by decide) (by decide) hne).kzalloc
        (BitVec.ofInt 32 (i32 (total * FAT_DIR_ITEM_SIZE))).toNat
      split at h
      · rename_i hitems
        cases h
        simp only [fat16FreeDir]
        rw [if_neg hitems]
        exact hmade.kfree
      · rename_i hitems
        obtain ⟨read, -, h⟩ := bind_ok.1 h
        cases h
        split
        · simp only [fat16FreeDir]
          rw [if_pos (not_not.1 hitems), not_not.1 hitems]
          exact hmade.kfree_zero.kfree
        · exact hmade.mono (List.sublist_cons_self _ _)

theorem fat16NewItemForDir_keeps {entry : FatDirItem} {item : Option FatItem} (hkeep : Keeps kept heap)
    (h : fat16NewItemForDir heap d priv entry = .ok (item, heap')) : Keeps (ownedBy item ++ kept) heap' := by
  simp only [fat16NewItemForDir] at h
  split at h
  · cases h
    exact hkeep.kzalloc 8
  · rename_i hne
    have hmade := hkeep.alloc (by decide) (by decide) hne
    split at h
    · obtain ⟨⟨dir, heap₁⟩, hload, h⟩ := bind_ok.1 h
      cases h
      exact fat16LoadFatDir_keeps hmade hload
    · simp only [fat16CloneDirItem] at h
      split at h
      · cases h
        exact hmade.kzalloc FAT_DIR_ITEM_SIZE
      · rename_i hcopy
        cases h
        exact hmade.alloc (by decide) (by decide) hcopy

theorem fat16FindItemLoop_keeps {dir : FatDir} {name : List Byte} {k i : Nat} {start item : Option FatItem}
    (hkeep : Keeps (ownedBy start ++ kept) heap)
    (h : fat16FindItemLoop d priv dir name k i start heap = .ok (item, heap')) : Keeps (ownedBy item ++ kept) heap' := by
  induction k generalizing i start heap with
  | zero =>
      cases h
      exact hkeep
  | succ k ih =>
      rw [fat16FindItemLoop] at h
      split at h
      · cases h
      · split at h
        · obtain ⟨⟨made, heap₁⟩, hmade, h⟩ := bind_ok.1 h
          have hkeep₁ := fat16NewItemForDir_keeps hkeep hmade
          -- 前に見つけた項目は、持ったままだが、もう使わない。
          refine ih (hkeep₁.mono ?_) h
          exact (List.sublist_append_right _ _).append_left _
        · exact ih hkeep h

/-- ルートディレクトリで見つけた項目に欠けが無ければ、開けるのは、経路がその項目で終わるときである。 -/
theorem fat16GetDirEntry_keeps {part : List Byte} {next : List (List Byte)} {item : FatItem} (hkeep : Keeps kept heap)
    (hcomplete : ∀ item heap', fat16FindItemInDir heap d priv priv.root part = .ok (some item, heap') → item.Complete)
    (h : fat16GetDirEntry heap d priv part next = .ok (some item, heap')) :
    Keeps (item.owned ++ kept) heap' ∧ item.Complete := by
  obtain ⟨⟨root, heap₁⟩, hroot, h⟩ := bind_ok.1 h
  cases root with
  | none => cases h
  | some root =>
      have hc := hcomplete root heap₁ hroot
      have hkeep₁ : Keeps (ownedBy (some root) ++ kept) heap₁ := by
        have hstart : Keeps (ownedBy none ++ kept) heap := hkeep
        exact fat16FindItemLoop_keeps hstart hroot
      cases next with
      | nil =>
          cases h
          exact ⟨hkeep₁, hc⟩
      | cons p rest =>
          obtain ⟨addr, type⟩ := root
          cases type with
          | file item => cases h
          | dir dir =>
              cases dir with
              | none => cases h
              | some dir => exact absurd hc id

theorem fat16Open_keeps {part : List Byte} {next : List (List Byte)} {mode : FileMode} {addr : Word}
    {content : FatFileDescriptor} (hkeep : Keeps kept heap)
    (hcomplete : ∀ item heap', fat16FindItemInDir (kzalloc heap 8).2 d priv priv.root part = .ok (some item, heap') →
      item.Complete)
    (h : fat16Open heap d priv part next mode = .ok (addr, some content, heap')) :
    Keeps (addr :: content.item.owned ++ kept) heap' ∧ content.item.Complete := by
  simp only [fat16Open] at h
  split at h
  · cases h
  · split at h
    · cases h
    · rename_i hne
      obtain ⟨⟨item, heap₁⟩, hitem, h⟩ := bind_ok.1 h
      cases item with
      | none => cases h
      | some item =>
          cases h
          obtain ⟨hkeep₁, hc⟩ := fat16GetDirEntry_keeps (hkeep.alloc (by decide) (by decide) hne) hcomplete hitem
          exact ⟨hkeep₁.perm List.perm_middle, hc⟩

end EnkiOs
