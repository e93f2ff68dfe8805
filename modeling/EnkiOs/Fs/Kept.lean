import EnkiOs.Fs.Basic
import EnkiOs.Heap.Lemmas.Kernel

/-!
# ファイルの操作で保たれるヒープの性質

経路の解釈、項目の探索、ファイルの開閉は、自分で割り当てたものだけを解放する。割り当てと解放で保たれる性質
（`HeapKept`）は、これらの操作でも保たれる。
-/

namespace EnkiOs
open Machine

variable {P : Heap → Prop} {Q : Word → Prop} (hkept : HeapKept P Q) {heap heap' : Heap} {d : Disk} {priv : FatPrivate}

/-! ## 経路 -/

section

include hkept

theorem pathGetPart_kept {path rest : List Byte} {part : Option (Word × List Byte)} (hP : P heap)
    (h : pathGetPart heap path = .ok (part, rest, heap')) : P heap' := by
  have hz := hkept.kzalloc ENKI_MAX_PATH hP
  simp only [pathGetPart] at h
  split at h
  · cases h
    exact hkept.kfree hz.1 hz.2
  · split at h
    · cases h
    · cases h
      exact hz.1

theorem pathParsePart_kept {path rest : List Byte} {part : Option PathPart} (hP : P heap)
    (h : pathParsePart heap path = .ok (part, rest, heap')) : P heap' := by
  obtain ⟨⟨got, rest₁, heap₁⟩, hget, h⟩ := bind_ok.1 h
  have hP₁ := pathGetPart_kept hkept hP hget
  cases got with
  | none =>
      cases h
      exact hP₁
  | some got =>
      have hz := hkept.kzalloc 8 hP₁
      simp only at h
      split at h
      · cases h
      · cases h
        exact hz.1

theorem pathParseParts_kept {path : List Byte} {parts : List PathPart} (hP : P heap)
    (h : pathParseParts heap path = .ok (parts, heap')) : P heap' := by
  induction heap, path using pathParseParts.induct generalizing parts with
  | case1 heap path fault hpart =>
      rw [pathParseParts] at h
      split at h <;> simp_all
  | case2 heap path rest heap₁ hpart =>
      rw [pathParseParts] at h
      split at h
      · cases h
      · rename_i hpart'
        cases h
        exact pathParsePart_kept hkept hP hpart'
      · simp_all
  | case3 heap path part rest heap₁ hpart ih =>
      rw [pathParseParts] at h
      split at h
      · cases h
      · simp_all
      · rename_i part' rest' heap₂ hpart'
        rw [hpart] at hpart'
        cases hpart'
        obtain ⟨⟨parts', heap₃⟩, hrest, h⟩ := bind_ok.1 h
        cases h
        exact ih (pathParsePart_kept hkept hP hpart) hrest

theorem pathParse_kept {path : List Byte} {root : Option PathRoot} (hP : P heap)
    (h : pathParse heap path = .ok (root, heap')) : P heap' := by
  simp only [pathParse] at h
  split at h
  · cases h
    exact hP
  · split at h
    · cases h
      exact hP
    · obtain ⟨⟨root₁, heap₁⟩, hroot, h⟩ := bind_ok.1 h
      obtain ⟨⟨parts, heap₂⟩, hparts, h⟩ := bind_ok.1 h
      cases h
      have hz := hkept.kzalloc 8 hP
      simp only [pathCreateRoot] at hroot
      split at hroot
      · cases hroot
      · cases hroot
        exact pathParseParts_kept hkept hz.1 hparts

end

/-! ## 項目 -/

/-- 項目の解放で渡すアドレスが、どれも `Q` を満たす。 -/
def FatItem.Frees (Q : Word → Prop) (item : FatItem) : Prop :=
  Q item.addr ∧ match item.type with
    | .dir (some (addr, _)) => Q addr
    | .file (some (addr, _)) => Q addr
    | _ => True

include hkept

theorem fat16CloneDirItem_kept {item : FatDirItem} {copy : Option (Word × FatDirItem)} (hP : P heap)
    (h : fat16CloneDirItem heap item = (copy, heap')) : P heap' ∧ ∀ addr content, copy = some (addr, content) → Q addr := by
  have hz := hkept.kzalloc FAT_DIR_ITEM_SIZE hP
  simp only [fat16CloneDirItem] at h
  split at h
  · cases h
    exact ⟨hz.1, by simp⟩
  · cases h
    refine ⟨hz.1, ?_⟩
    intro addr content he
    cases he
    exact hz.2

theorem fat16FreeDir_kept {dir : Option (Word × FatDir)} (hP : P heap)
    (hdir : ∀ addr content, dir = some (addr, content) → Q addr) : P (fat16FreeDir heap dir) := by
  cases dir with
  | none => exact hP
  | some dir =>
      obtain ⟨addr, content⟩ := dir
      simp only [fat16FreeDir]
      split
      · rename_i h0
        rw [h0]
        exact hkept.kfree (hkept.kfree hP hkept.null) (hdir _ _ rfl)
      · exact hkept.kfree hP (hdir _ _ rfl)

theorem fat16FatItemFree_kept {item : FatItem} (hP : P heap) (hitem : item.Frees Q) :
    P (fat16FatItemFree heap item) := by
  obtain ⟨addr, type⟩ := item
  obtain ⟨haddr, htype⟩ := hitem
  cases type with
  | dir dir =>
      refine hkept.kfree (fat16FreeDir_kept hkept hP ?_) haddr
      rintro a content rfl
      exact htype
  | file item =>
      cases item with
      | none => exact hkept.kfree (hkept.kfree hP hkept.null) haddr
      | some item => exact hkept.kfree (hkept.kfree hP htype) haddr

theorem fat16LoadFatDir_kept {item : FatDirItem} {dir : Option (Word × FatDir)} (hP : P heap)
    (h : fat16LoadFatDir heap d priv item = .ok (dir, heap')) :
    P heap' ∧ ∀ addr content, dir = some (addr, content) → Q addr := by
  have hz := hkept.kzalloc 16 hP
  simp only [fat16LoadFatDir] at h
  split at h
  · cases h
    exact ⟨hP, by simp⟩
  · split at h
    · cases h
      exact ⟨hz.1, by simp⟩
    · obtain ⟨total, -, h⟩ := bind_ok.1 h
      have hz₂ := hkept.kzalloc (BitVec.ofInt 32 (i32 (total * FAT_DIR_ITEM_SIZE))).toNat hz.1
      have hfree : ∀ {h₀ : Heap} (content : FatDir), P h₀ →
          P (fat16FreeDir h₀ (some ((kzalloc heap 16).1, content))) := by
        intro h₀ content hP₀
        refine fat16FreeDir_kept hkept hP₀ ?_
        rintro a c he
        cases he
        exact hz.2
      split at h
      · cases h
        exact ⟨hfree _ hz₂.1, by simp⟩
      · obtain ⟨read, -, h⟩ := bind_ok.1 h
        cases h
        refine ⟨?_, ?_⟩
        · split
          · exact hfree _ hz₂.1
          · exact hz₂.1
        · intro addr content he
          cases he
          exact hz.2

theorem fat16NewItemForDir_kept {entry : FatDirItem} {item : Option FatItem} (hP : P heap)
    (h : fat16NewItemForDir heap d priv entry = .ok (item, heap')) :
    P heap' ∧ ∀ it, item = some it → it.Frees Q := by
  have hz := hkept.kzalloc 8 hP
  simp only [fat16NewItemForDir] at h
  split at h
  · cases h
    exact ⟨hz.1, by simp⟩
  · split at h
    · obtain ⟨⟨dir, heap₁⟩, hload, h⟩ := bind_ok.1 h
      obtain ⟨hP₁, hdir⟩ := fat16LoadFatDir_kept hkept hz.1 hload
      cases h
      refine ⟨hP₁, ?_⟩
      rintro it he
      cases he
      refine ⟨hz.2, ?_⟩
      cases dir with
      | none => trivial
      | some dir => exact hdir dir.1 dir.2 rfl
    · generalize hmade : fat16CloneDirItem _ entry = made at h
      obtain ⟨copy, heap₁⟩ := made
      obtain ⟨hP₁, hcopy⟩ := fat16CloneDirItem_kept hkept hz.1 hmade
      cases h
      refine ⟨hP₁, ?_⟩
      rintro it he
      cases he
      refine ⟨hz.2, ?_⟩
      cases copy with
      | none => trivial
      | some copy => exact hcopy copy.1 copy.2 rfl

theorem fat16FindItemLoop_kept {dir : FatDir} {name : List Byte} {k i : Nat} {start item : Option FatItem} (hP : P heap)
    (hstart : ∀ it, start = some it → it.Frees Q)
    (h : fat16FindItemLoop d priv dir name k i start heap = .ok (item, heap')) :
    P heap' ∧ ∀ it, item = some it → it.Frees Q := by
  induction k generalizing i start heap with
  | zero =>
      cases h
      exact ⟨hP, hstart⟩
  | succ k ih =>
      rw [fat16FindItemLoop] at h
      split at h
      · cases h
      · split at h
        · obtain ⟨⟨made, heap₁⟩, hmade, h⟩ := bind_ok.1 h
          obtain ⟨hP₁, hit⟩ := fat16NewItemForDir_kept hkept hP hmade
          exact ih hP₁ hit h
        · exact ih hP hstart h

theorem fat16FindItemInDir_kept {dir : FatDir} {name : List Byte} {item : Option FatItem} (hP : P heap)
    (h : fat16FindItemInDir heap d priv dir name = .ok (item, heap')) :
    P heap' ∧ ∀ it, item = some it → it.Frees Q :=
  fat16FindItemLoop_kept hkept hP (by simp) h

theorem fat16WalkPath_kept {parts : List (List Byte)} {current item : Option FatItem} (hP : P heap)
    (hcurrent : ∀ it, current = some it → it.Frees Q)
    (h : fat16WalkPath d priv parts current heap = .ok (item, heap')) :
    P heap' ∧ ∀ it, item = some it → it.Frees Q := by
  induction parts generalizing current heap with
  | nil =>
      cases h
      exact ⟨hP, hcurrent⟩
  | cons part parts ih =>
      simp only [fat16WalkPath] at h
      split at h
      · cases h
      · cases h
        exact ⟨hP, by simp⟩
      · cases h
      · obtain ⟨⟨found, heap₁⟩, hfound, h⟩ := bind_ok.1 h
        obtain ⟨hP₁, hit⟩ := fat16FindItemInDir_kept hkept hP hfound
        exact ih (fat16FatItemFree_kept hkept hP₁ (hcurrent _ rfl)) hit h

theorem fat16GetDirEntry_kept {part : List Byte} {next : List (List Byte)} {item : Option FatItem} (hP : P heap)
    (h : fat16GetDirEntry heap d priv part next = .ok (item, heap')) :
    P heap' ∧ ∀ it, item = some it → it.Frees Q := by
  obtain ⟨⟨root, heap₁⟩, hroot, h⟩ := bind_ok.1 h
  obtain ⟨hP₁, hit⟩ := fat16FindItemInDir_kept hkept hP hroot
  cases root with
  | none =>
      cases h
      exact ⟨hP₁, by simp⟩
  | some root => exact fat16WalkPath_kept hkept hP₁ hit h

/-! ## ファイルの開閉 -/

omit hkept in
/-- `fat16_open` の状態コードを、ポインタとして読んだ値。 -/
def IsErrorPointer (a : Word) : Prop :=
  a = BitVec.ofInt 32 (-ERDONLY) ∨ a = BitVec.ofInt 32 (-ENOMEM) ∨ a = BitVec.ofInt 32 (- EIO)

/-- 開いた結果は、解放してよいアドレスの記述子か、状態コードである。 -/
theorem fat16Open_kept {part : List Byte} {next : List (List Byte)} {mode : FileMode} {desc : Word}
    {content : Option FatFileDescriptor} (hP : P heap)
    (h : fat16Open heap d priv part next mode = .ok (desc, content, heap')) :
    P heap' ∧ ((content = none ∧ IsErrorPointer desc) ∨ ∃ c, content = some c ∧ Q desc ∧ c.item.Frees Q) := by
  have hz := hkept.kzalloc 8 hP
  simp only [fat16Open] at h
  split at h
  · cases h
    exact ⟨hP, .inl ⟨rfl, .inl rfl⟩⟩
  · split at h
    · cases h
      exact ⟨hz.1, .inl ⟨rfl, .inr (.inl rfl)⟩⟩
    · obtain ⟨⟨item, heap₁⟩, hitem, h⟩ := bind_ok.1 h
      obtain ⟨hP₁, hit⟩ := fat16GetDirEntry_kept hkept hz.1 hitem
      cases item with
      | none =>
          cases h
          exact ⟨hkept.kfree hP₁ hz.2, .inl ⟨rfl, .inr (.inr rfl)⟩⟩
      | some item =>
          cases h
          exact ⟨hP₁, .inr ⟨_, rfl, hz.2, hit item rfl⟩⟩

/-- 状態コードをポインタとして読んだ先の内容も、解放してよい。 -/
def StraySafe (Q : Word → Prop) (s : FileState) : Prop :=
  ∀ a, IsErrorPointer a → Q a ∧ (s.fatFiles a).item.Frees Q

/-- `fclose(fd)` の解放するアドレスが、どれも `Q` を満たす。 -/
def Closable (Q : Word → Prop) (s : FileState) (fd : Int) : Prop :=
  fileGetDescriptor s fd ≠ 0 → Q (fileGetDescriptor s fd) ∧
    Q (s.files (fileGetDescriptor s fd)).privateData ∧
    (s.fatFiles (s.files (fileGetDescriptor s fd)).privateData).item.Frees Q

variable {s s' : FileState} {fd : Int}

theorem fclose_kept (hP : P s.heap) (hclose : Closable Q s fd) : P (fclose s fd).2.heap := by
  simp only [fclose]
  split
  · exact hP
  · rename_i hne
    obtain ⟨hdesc, hpriv, hitem⟩ := hclose hne
    simp only [fat16Close, if_true]
    exact hkept.kfree (hkept.kfree (fat16FatItemFree_kept hkept hP hitem) hpriv) hdesc

theorem fopenDescriptor_kept {descPrivate : Word} (hP : P s.heap) (hpriv : Q descPrivate)
    (hitem : (s.fatFiles descPrivate).item.Frees Q) (h : fopenDescriptor s descPrivate = .ok (fd, s')) :
    P s'.heap ∧ s'.fatFiles = s.fatFiles ∧ Closable Q s' fd := by
  obtain ⟨⟨desc, s₁⟩, hnew, h⟩ := bind_ok.1 h
  have hz := hkept.kzalloc 16 hP
  simp only [fileNewDescriptor] at hnew
  split at hnew
  · cases hnew
    cases h
    refine ⟨hP, rfl, ?_⟩
    intro hne
    exact absurd rfl hne
  · rename_i i hslot
    split at hnew
    · cases hnew
    · cases hnew
      simp only [if_true] at h
      cases h
      refine ⟨hz.1, rfl, ?_⟩
      intro hne
      have hget : ∀ {t : FileState}, t.fileDescriptors = (fun j => if j = i then (kzalloc s.heap 16).1 else
          s.fileDescriptors j) → fileGetDescriptor t ((i : Int) + 1) ≠ 0 →
          fileGetDescriptor t ((i : Int) + 1) = (kzalloc s.heap 16).1 := by
        intro t ht hne
        simp only [fileGetDescriptor] at hne ⊢
        split at hne
        · exact absurd rfl hne
        · rename_i hrange
          rw [if_neg hrange, ht, show ((i : Int) + 1 - 1).toNat = i by omega]
          exact if_pos rfl
      rw [hget rfl hne]
      simp only [if_true]
      exact ⟨hz.2, hpriv, hitem⟩

theorem fopen_kept {fileName mode : List Byte} (hP : P s.heap) (hstray : StraySafe Q s)
    (h : fopen s fileName mode = .ok (fd, s')) : P s'.heap ∧ StraySafe Q s' ∧ Closable Q s' fd := by
  have hneg : ∀ {t : FileState} {fd : Int}, fd ≤ 0 → Closable Q t fd := by
    intro t fd hfd hne
    exact absurd (if_pos (.inl hfd)) hne
  obtain ⟨⟨root, heap₁⟩, hparse, h⟩ := bind_ok.1 h
  have hP₁ := pathParse_kept hkept hP hparse
  cases root with
  | none =>
      cases h
      exact ⟨hP₁, hstray, hneg (by decide)⟩
  | some root =>
      simp only at h
      split at h
      · cases h
        exact ⟨hP₁, hstray, hneg (by decide)⟩
      · split at h
        · cases h
          exact ⟨hP₁, hstray, hneg (by decide)⟩
        · split at h
          · cases h
            exact ⟨hP₁, hstray, hneg (by decide)⟩
          · split at h
            · cases h
              exact ⟨hP₁, hstray, hneg (by decide)⟩
            · obtain ⟨⟨descPrivate, content, heap₂⟩, hopen, h⟩ := bind_ok.1 h
              obtain ⟨hP₂, hcontent⟩ := fat16Open_kept hkept hP₁ hopen
              -- 書き換えた後も、状態コードの先と、開いた記述子の内容は解放してよい。
              have hput : ∀ a, (a = descPrivate ∨ IsErrorPointer a) →
                  Q a ∧ (if a = descPrivate then content.getD (s.fatFiles a) else s.fatFiles a).item.Frees Q := by
                intro a ha
                rcases hcontent with ⟨rfl, herr⟩ | ⟨c, rfl, hdesc, hitem⟩
                · have ha' : IsErrorPointer a := ha.elim (fun he => he ▸ herr) id
                  simp only [Option.getD_none, ite_self]
                  exact hstray a ha'
                · by_cases he : a = descPrivate
                  · rw [if_pos he, he]
                    exact ⟨hdesc, hitem⟩
                  · rw [if_neg he]
                    exact hstray a (ha.resolve_left he)
              obtain ⟨hP', hfat, hclose⟩ := fopenDescriptor_kept hkept hP₂
                (hput descPrivate (.inl rfl)).1 (hput descPrivate (.inl rfl)).2 h
              refine ⟨hP', ?_, hclose⟩
              intro a ha
              rw [hfat]
              exact hput a (.inr ha)

omit hkept in
theorem fclose_fatFiles (s : FileState) (fd : Int) : (fclose s fd).2.fatFiles = s.fatFiles := by
  simp only [fclose]
  split
  · rfl
  · rfl

omit hkept in
theorem fstat_error_neg {code : Int} (h : fstat s fd = .ok (.error code)) : code < 0 := by
  simp only [fstat] at h
  split at h
  · cases h
    decide
  · simp only [fat16Stat] at h
    split at h
    · cases h
      decide
    · cases h
    · cases h

omit hkept in
theorem fread_heap {buf size blocks : Word} {result : Int} (h : fread s buf size blocks fd = .ok (result, s')) :
    ∃ mem, s' = { s with mem := mem } := by
  simp only [fread] at h
  split at h
  · cases h
    exact ⟨s.mem, rfl⟩
  · split at h
    · cases h
      exact ⟨s.mem, rfl⟩
    · split at h
      · cases h
      · obtain ⟨⟨code, mem⟩, -, h⟩ := bind_ok.1 h
        cases h
        exact ⟨mem, rfl⟩

end EnkiOs
