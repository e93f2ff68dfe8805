import EnkiOs.Fs.Lemmas

/-!
# 記述子の表

`fopen` がファイルシステムの `open` を呼ぶまでの条件と、その後の、記述子の表の変化。
-/

namespace EnkiOs
open Machine

variable {s s' : FileState} {fileName mode : List Byte}

/-! ## 空いた番号 -/

theorem fileFreeSlot_none_iff {k i : Nat} :
    fileFreeSlot s k i = none ↔ ∀ j, i ≤ j → j < i + k → s.fileDescriptors j ≠ 0 := by
  rw [fileFreeSlot_find, List.find?_range'_eq_none]
  simp

theorem fileFreeSlot_some {k i j : Nat} (h : fileFreeSlot s k i = some j) :
    s.fileDescriptors j = 0 ∧ ∀ j', i ≤ j' → j' < j → s.fileDescriptors j' ≠ 0 := by
  rw [fileFreeSlot_find, List.find?_range'_eq_some] at h
  obtain ⟨h0, -, hbefore⟩ := h
  exact ⟨by simpa using h0, by simpa using hbefore⟩

theorem fileFreeSlot_eq {k j : Nat} (hlt : j < k) (hused : ∀ i < j, s.fileDescriptors i ≠ 0) (hfree : s.fileDescriptors j = 0) :
    fileFreeSlot s k 0 = some j := by
  cases hslot : fileFreeSlot s k 0 with
  | none => exact absurd hfree (fileFreeSlot_none_iff.1 hslot j (Nat.zero_le j) (by omega))
  | some i =>
      obtain ⟨h0, hbefore⟩ := fileFreeSlot_some hslot
      rcases Nat.lt_trichotomy i j with hij | rfl | hij
      · exact absurd h0 (hused i hij)
      · rfl
      · exact absurd hfree (hbefore j (Nat.zero_le j) hij)

/-- どの番号も使われている。 -/
def FilesFull (s : FileState) : Prop := ∀ i < ENKI_MAX_FILE_DESCRIPTORS, s.fileDescriptors i ≠ 0

theorem filesFull_iff : FilesFull s ↔ fileFreeSlot s ENKI_MAX_FILE_DESCRIPTORS 0 = none := by
  rw [fileFreeSlot_none_iff, Nat.zero_add]
  exact ⟨fun h j _ hj => h j hj, fun h j hj => h j (Nat.zero_le j) hj⟩

/-! ## 記述子の作成 -/

/-- 番号 `i` に記述子を作った後の状態。 -/
def newDescriptorState (s : FileState) (i : Nat) (descPrivate : Word) : FileState :=
  let desc := (kzalloc s.heap 16).1
  { s with
    heap := (kzalloc s.heap 16).2
    files := fun a => if a = desc then ⟨i + 1, descPrivate⟩ else s.files a
    fileDescriptors := fun j => if j = i then desc else s.fileDescriptors j }

theorem fopenDescriptor_full (h : fileFreeSlot s ENKI_MAX_FILE_DESCRIPTORS 0 = none) (descPrivate : Word) :
    fopenDescriptor s descPrivate = .ok (0, s) := by
  simp only [fopenDescriptor, fileNewDescriptor, h]
  rfl

theorem fopenDescriptor_null {i : Nat} (h : fileFreeSlot s ENKI_MAX_FILE_DESCRIPTORS 0 = some i) (descPrivate : Word)
    (h0 : (kzalloc s.heap 16).1 = 0) : fopenDescriptor s descPrivate = .error .nullDeref := by
  simp only [fopenDescriptor, fileNewDescriptor, h, h0, if_true]
  rfl

theorem fopenDescriptor_new {i : Nat} (h : fileFreeSlot s ENKI_MAX_FILE_DESCRIPTORS 0 = some i) (descPrivate : Word)
    (hne : (kzalloc s.heap 16).1 ≠ 0) :
    fopenDescriptor s descPrivate = .ok ((i : Int) + 1, newDescriptorState s i descPrivate) := by
  simp only [fopenDescriptor, fileNewDescriptor, h, hne, if_false, bind, Except.bind, if_true, newDescriptorState, pure,
    Except.pure]
  congr 3
  funext a
  by_cases ha : a = (kzalloc s.heap 16).1
  · rw [if_pos ha, if_pos ha, if_pos ha]
  · rw [if_neg ha, if_neg ha, if_neg ha]

/-! ## `fopen` の場合分け -/

/-- 経路が読め、ドライブとファイルシステムがあり、モードが正しいので、`fopen` は `open` を呼ぶ。`part` と `next` は経路の部分、
`heap` は経路を読んだ後のヒープである。 -/
structure ReachesOpen (s : FileState) (fileName mode : List Byte) (priv : FatPrivate) (heap : Heap) (part : List Byte)
    (next : List (List Byte)) : Prop where
  parsed : ∃ root first rest, pathParse s.heap fileName = .ok (some root, heap) ∧ root.driveNo = 0 ∧
    root.parts = first :: rest ∧ first.name = part ∧ rest.map PathPart.name = next
  mounted : s.priv = some priv
  valid : fileGetModeFromStr mode ≠ .invalid

/-- `open` の返した値を記録した状態。 -/
def openedState (s : FileState) (addr : Word) (content : Option FatFileDescriptor) (heap : Heap) : FileState :=
  { s with
    heap := heap
    fatFiles := fun a => if a = addr then content.getD (s.fatFiles a) else s.fatFiles a }

@[simp] theorem fileFreeSlot_openedState (s : FileState) (addr : Word) (content : Option FatFileDescriptor) (heap : Heap)
    (k i : Nat) : fileFreeSlot (openedState s addr content heap) k i = fileFreeSlot s k i := by
  apply fileFreeSlot_congr
  rfl

theorem ReachesOpen.unique {priv priv' : FatPrivate} {heap heap' : Heap} {part part' : List Byte}
    {next next' : List (List Byte)} (h : ReachesOpen s fileName mode priv heap part next)
    (h' : ReachesOpen s fileName mode priv' heap' part' next') :
    priv = priv' ∧ heap = heap' ∧ part = part' ∧ next = next' := by
  obtain ⟨⟨root, first, rest, hparse, -, hparts, hpart, hnext⟩, hmount, -⟩ := h
  obtain ⟨⟨root', first', rest', hparse', -, hparts', hpart', hnext'⟩, hmount', -⟩ := h'
  cases hparse.symm.trans hparse'
  cases hparts.symm.trans hparts'
  cases hmount.symm.trans hmount'
  exact ⟨rfl, rfl, hpart.symm.trans hpart', hnext.symm.trans hnext'⟩

theorem ReachesOpen.fopen_eq {priv : FatPrivate} {heap : Heap} {part : List Byte} {next : List (List Byte)}
    (h : ReachesOpen s fileName mode priv heap part next) :
    fopen s fileName mode = (do
      let (addr, content, heap) ← fat16Open heap s.disk priv part next (fileGetModeFromStr mode)
      fopenDescriptor (openedState s addr content heap) addr) := by
  obtain ⟨⟨root, first, rest, hparse, hdrive, hparts, rfl, rfl⟩, hmount, hvalid⟩ := h
  obtain ⟨heap₀, mem, disk, priv₀, fatFiles, files, fileDescriptors⟩ := s
  cases hmount
  simp only [fopen, hparse, bind, Except.bind, hparts, hdrive, ne_eq, not_true_eq_false, if_false, hvalid]
  rfl

/-- 経路が読めても `open` を呼ばないなら、0 以下の値を返して、表を変えない。 -/
theorem fopen_early {root : Option PathRoot} {heap : Heap} (hparse : pathParse s.heap fileName = .ok (root, heap))
    (hno : ¬∃ priv heap part next, ReachesOpen s fileName mode priv heap part next) :
    ∃ fd s', fopen s fileName mode = .ok (fd, s') ∧ fd ≤ 0 ∧ s'.fileDescriptors = s.fileDescriptors := by
  simp only [fopen, hparse, bind, Except.bind]
  split
  · exact ⟨_, _, rfl, by decide, rfl⟩
  · rename_i root
    split
    · exact ⟨_, _, rfl, by decide, rfl⟩
    · rename_i first rest hparts
      split
      · exact ⟨_, _, rfl, by decide, rfl⟩
      · rename_i hdrive
        split
        · exact ⟨_, _, rfl, by decide, rfl⟩
        · rename_i priv hmount
          split
          · exact ⟨_, _, rfl, by decide, rfl⟩
          · rename_i hvalid
            exact absurd ⟨priv, heap, first.name, rest.map PathPart.name,
              ⟨root, first, rest, hparse, not_not.1 hdrive, hparts, rfl, rfl⟩, hmount, hvalid⟩ hno

theorem fopen_unparsed {fault : Fault} (hparse : pathParse s.heap fileName = .error fault) :
    fopen s fileName mode = .error fault := by
  simp only [fopen, hparse, bind, Except.bind]

/-! ## 名前と番号 -/

/-- 経路が読め、ドライブ 0 のファイルシステムの中の名前になっている。 -/
def NamesFile (s : FileState) (fileName : List Byte) : Prop :=
  fileName.length ≤ ENKI_MAX_PATH ∧ (pathGetDrive fileName).1 = 0 ∧ (pathSplit (pathGetDrive fileName).2).1 ≠ [] ∧
    s.priv ≠ none

theorem pathParsePart_none_iff {heap heap' : Heap} {path rest : List Byte} {part : Option PathPart}
    (h : pathParsePart heap path = .ok (part, rest, heap')) : part = none ↔ (pathSplit path).1 = [] := by
  obtain ⟨⟨got, rest₁, heap₁⟩, hget, h⟩ := bind_ok.1 h
  simp only [pathGetPart] at hget
  split at hget
  · rename_i hnil
    cases hget
    cases h
    exact iff_of_true rfl hnil
  · rename_i hne
    split at hget
    · cases hget
    · cases hget
      simp only at h
      split at h
      · cases h
      · cases h
        exact iff_of_false (by simp) hne

theorem pathParseParts_nil_iff {heap heap' : Heap} {path : List Byte} {parts : List PathPart}
    (h : pathParseParts heap path = .ok (parts, heap')) : parts = [] ↔ (pathSplit path).1 = [] := by
  rw [pathParseParts] at h
  split at h
  · cases h
  · rename_i hpart
    cases h
    exact iff_of_true rfl ((pathParsePart_none_iff hpart).1 rfl)
  · rename_i hpart
    obtain ⟨⟨rest, heap₁⟩, -, h⟩ := bind_ok.1 h
    cases h
    exact iff_of_false (by simp) fun hnil => by cases (pathParsePart_none_iff hpart).2 hnil

/-- 読み取りの結果のうち、割り当てによらない部分。 -/
theorem pathParse_root {heap heap' : Heap} {root : Option PathRoot} (h : pathParse heap fileName = .ok (root, heap')) :
    match root with
    | none => ENKI_MAX_PATH < fileName.length ∨ (pathGetDrive fileName).1 < 0
    | some root => fileName.length ≤ ENKI_MAX_PATH ∧ root.driveNo = (pathGetDrive fileName).1 ∧
        (root.parts = [] ↔ (pathSplit (pathGetDrive fileName).2).1 = []) := by
  simp only [pathParse] at h
  split at h
  · rename_i hlong
    cases h
    exact .inl hlong
  · rename_i hshort
    split at h
    · rename_i hneg
      cases h
      exact .inr hneg
    · obtain ⟨⟨root₁, heap₁⟩, hroot, h⟩ := bind_ok.1 h
      obtain ⟨⟨parts, heap₂⟩, hparts, h⟩ := bind_ok.1 h
      cases h
      simp only [pathCreateRoot] at hroot
      split at hroot
      · cases hroot
      · cases hroot
        exact ⟨Nat.not_lt.1 hshort, rfl, pathParseParts_nil_iff hparts⟩

theorem namesFile_iff {root : Option PathRoot} {heap : Heap} (hparse : pathParse s.heap fileName = .ok (root, heap))
    (hvalid : fileGetModeFromStr mode ≠ .invalid) :
    NamesFile s fileName ↔ ∃ priv heap part next, ReachesOpen s fileName mode priv heap part next := by
  have hroot := pathParse_root hparse
  constructor
  · rintro ⟨hlen, hdrive, hpart, hmount⟩
    obtain ⟨priv, hpriv⟩ := Option.ne_none_iff_exists'.1 hmount
    cases root with
    | none =>
        rcases hroot with hlong | hneg
        · exact absurd hlen (Nat.not_le.2 hlong)
        · rw [hdrive] at hneg
          exact absurd hneg (Int.lt_irrefl 0)
    | some root =>
        obtain ⟨-, hno, hnil⟩ := hroot
        cases hparts : root.parts with
        | nil => exact absurd (hnil.1 hparts) hpart
        | cons first rest =>
            exact ⟨priv, heap, first.name, rest.map PathPart.name,
              ⟨root, first, rest, hparse, hno.trans hdrive, hparts, rfl, rfl⟩, hpriv, hvalid⟩
  · rintro ⟨priv, heap', part, next, ⟨root', first, rest, hparse', hdrive, hparts, -, -⟩, hmount, -⟩
    cases hparse.symm.trans hparse'
    obtain ⟨hlen, hno, hnil⟩ := hroot
    refine ⟨hlen, hno.symm.trans hdrive, ?_, ?_⟩
    · intro h
      rw [hparts] at hnil
      cases hnil.2 h
    · rw [hmount]
      simp

/-! ## 表の変化 -/

/-- `s'` の表は、番号 `i` に記述子が載ったことのほかは、`s` の表と同じである。 -/
structure SlotAt (s s' : FileState) (i : Nat) : Prop where
  slot : fileFreeSlot s ENKI_MAX_FILE_DESCRIPTORS 0 = some i
  other : ∀ j, j ≠ i → s'.fileDescriptors j = s.fileDescriptors j
  present : s'.fileDescriptors i ≠ 0
  index : (s'.files (s'.fileDescriptors i)).index = (i : Int) + 1

/-- `fopen` は、表を変えずに 0 以下の値を返すか、空いている最初の番号を使う。 -/
theorem fopen_cases {fd : Int} (h : fopen s fileName mode = .ok (fd, s')) (hvalid : fileGetModeFromStr mode ≠ .invalid) :
    (fd ≤ 0 ∧ s'.fileDescriptors = s.fileDescriptors ∧ (¬NamesFile s fileName ∨ FilesFull s)) ∨
      ∃ i : Nat, fd = (i : Int) + 1 ∧ NamesFile s fileName ∧ SlotAt s s' i := by
  cases hparse : pathParse s.heap fileName with
  | error fault =>
      rw [fopen_unparsed hparse] at h
      cases h
  | ok parsed =>
      obtain ⟨root, heap⟩ := parsed
      have hnames := namesFile_iff hparse hvalid
      by_cases hname : NamesFile s fileName
      · obtain ⟨priv, heap, part, next, hreach⟩ := hnames.1 hname
        rw [hreach.fopen_eq] at h
        obtain ⟨⟨addr, content, heap'⟩, -, h⟩ := bind_ok.1 h
        have hcongr := fileFreeSlot_openedState s addr content heap' ENKI_MAX_FILE_DESCRIPTORS 0
        cases hslot : fileFreeSlot s ENKI_MAX_FILE_DESCRIPTORS 0 with
        | none =>
            cases (fopenDescriptor_full (hcongr.trans hslot) addr).symm.trans h
            exact .inl ⟨Int.le_refl 0, rfl, .inr (filesFull_iff.2 hslot)⟩
        | some i =>
            by_cases hnull : (kzalloc heap' 16).1 = 0
            · cases (fopenDescriptor_null (hcongr.trans hslot) addr hnull).symm.trans h
            · cases (fopenDescriptor_new (hcongr.trans hslot) addr hnull).symm.trans h
              refine .inr ⟨i, rfl, hname, hslot, fun j hj => if_neg hj, ?_, ?_⟩
              · simp only [newDescriptorState, if_true, openedState]
                exact hnull
              · simp only [newDescriptorState, if_true, openedState]
      · obtain ⟨fd', s₁, hopen, hle, htable⟩ := fopen_early hparse fun hreach => hname (hnames.2 hreach)
        cases hopen.symm.trans h
        exact .inl ⟨hle, htable, .inl hname⟩

/-- 開いている番号の集まりが同じである。 -/
def SameOpen (s s' : FileState) : Prop :=
  ∀ i < ENKI_MAX_FILE_DESCRIPTORS, s'.fileDescriptors i ≠ 0 ↔ s.fileDescriptors i ≠ 0

namespace SlotAt

variable {i : Nat} (h : SlotAt s s' i)
include h

theorem lt : i < 512 := Nat.zero_add 512 ▸ fileFreeSlot_lt h.slot

theorem not_sameOpen : ¬SameOpen s s' := by
  intro hsame
  exact (hsame i h.lt).1 h.present (fileFreeSlot_some h.slot).1

theorem congr {s₁ : FileState} (htable : s₁.fileDescriptors = s'.fileDescriptors) (hfiles : s₁.files = s'.files) :
    SlotAt s s₁ i := by
  refine ⟨h.slot, ?_, ?_, ?_⟩
  · rw [htable]
    exact h.other
  · rw [htable]
    exact h.present
  · rw [htable, hfiles]
    exact h.index

/-- 最後の番号のほかは、`fclose` で元の表に戻る。 -/
theorem fclose_table (hlast : i ≠ 511) : (fclose s' ((i : Int) + 1)).2.fileDescriptors = s.fileDescriptors := by
  have hlt := h.lt
  have hidx : ((i : Int) + 1 - 1).toNat = i := by omega
  have hget : fileGetDescriptor s' ((i : Int) + 1) = s'.fileDescriptors i := by
    rw [fileGetDescriptor, if_neg, hidx]
    show ¬((i : Int) + 1 ≤ 0 ∨ ((512 : Nat) : Int) ≤ (i : Int) + 1)
    omega
  simp only [fclose, hget, h.present, if_false, fat16Close, if_true, fileFreeDescriptor, h.index, hidx]
  funext j
  split
  · rename_i hj
    rw [hj]
    exact (fileFreeSlot_some h.slot).1.symm
  · rename_i hj
    exact h.other j hj

/-- `fclose` が番号を返すのは、最後の番号でないときである。 -/
theorem fclose_sameOpen_iff : SameOpen s (fclose s' ((i : Int) + 1)).2 ↔ i ≠ 511 := by
  constructor
  · rintro hsame rfl
    have hclose : fclose s' ((511 : Nat) + 1 : Int) = (- EIO, s') := by
      simp [fclose, fileGetDescriptor]
    rw [hclose] at hsame
    exact h.not_sameOpen hsame
  · intro hne j _
    rw [h.fclose_table hne]

end SlotAt

end EnkiOs
