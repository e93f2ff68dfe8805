import EnkiOs.Fs.Keeps
import Mathlib.Logic.Relation

/-!
# 記述子の一生

`fopen` と `fclose` の列で到達する状態を定める。状態は、ファイルの状態と、開いているファイルの並びの組である。後の方は C の側には無く、
仕様のためだけに持つ。
-/

namespace EnkiOs
open Machine

/-- 開いているファイル。`desc` は表の記述子、`descPrivate` と `content` は FAT16 の記述子のアドレスと内容である。 -/
structure OpenFile where
  fd : Int
  desc : Word
  descPrivate : Word
  content : FatFileDescriptor

def OpenFile.owned (e : OpenFile) : List Word := e.desc :: e.descPrivate :: e.content.item.owned

structure FileTable where
  state : FileState
  opened : List OpenFile

inductive FileOp
  | fopen (fileName mode : List Byte)
  | fclose (fd : Int)

/-- 経路が見つかり、割り当てに失敗しない呼び出し。`addr` と `content` は `fat16_open` が作った記述子、`heap'` はその後のヒープである。
表に載せる記録は、空いた番号があるときにだけ割り当てる。 -/
structure Opens (s : FileState) (fileName mode : List Byte) (addr : Word) (content : FatFileDescriptor) (heap' : Heap) :
    Prop where
  resolved : ∃ priv heap part next, ReachesOpen s fileName mode priv heap part next ∧
    fat16Open heap s.disk priv part next (fileGetModeFromStr mode) = .ok (addr, some content, heap') ∧
    ∀ item heap₁, fat16FindItemInDir (kzalloc heap 8).2 s.disk priv priv.root part = .ok (some item, heap₁) → item.Complete
  alloc : FilesFull s ∨ (kzalloc heap' 16).1 ≠ 0

/-- 一回の呼び出し。正の番号を返した `fopen` は並びに加わり、`fclose` は並びから除く。 -/
inductive FileStep : FileTable → FileOp → FileTable → Prop
  | opened {s s' l fileName mode addr content heap' fd} (hopens : Opens s fileName mode addr content heap')
      (h : fopen s fileName mode = .ok (fd, s')) (hpos : 0 < fd) :
      FileStep ⟨s, l⟩ (.fopen fileName mode) ⟨s', ⟨fd, (kzalloc heap' 16).1, addr, content⟩ :: l⟩
  | refused {s s' l fileName mode addr content heap' fd} (hopens : Opens s fileName mode addr content heap')
      (h : fopen s fileName mode = .ok (fd, s')) (hle : fd ≤ 0) : FileStep ⟨s, l⟩ (.fopen fileName mode) ⟨s', l⟩
  | closed {s l₁ l₂ e} : FileStep ⟨s, l₁ ++ e :: l₂⟩ (.fclose e.fd) ⟨(fclose s e.fd).2, l₁ ++ l₂⟩

/-- 空いた番号が、最後の一つだけである。 -/
def OnlyLastFree (s : FileState) : Prop := (∀ i < 511, s.fileDescriptors i ≠ 0) ∧ s.fileDescriptors 511 = 0

def FileOp.Safe (s : FileState) : FileOp → Prop
  | .fopen _ _ => ¬OnlyLastFree s
  | .fclose _ => True

def FileRun : FileTable → FileTable → Prop := Relation.ReflTransGen fun t t' => ∃ op, FileStep t op t'

def SafeFileRun : FileTable → FileTable → Prop :=
  Relation.ReflTransGen fun t t' => ∃ op, FileStep t op t' ∧ op.Safe t.state

/-- `fs_init` の直後。表は空で、ヒープは割り当てと解放だけを経ている。 -/
structure FsStarted (s : FileState) : Prop where
  empty : ∀ i, s.fileDescriptors i = 0
  heap : Keeps [] s.heap

/-! ## 記述子への到達 -/

/-- 番号を受け取る操作が、どれも `fopen` の作った記述子に届く。 -/
structure Reaches (s : FileState) (e : OpenFile) : Prop where
  fread : ∃ priv, s.priv = some priv ∧ ∀ buf size blocks, size ≠ 0 → blocks ≠ 0 →
    fread s buf size blocks e.fd = (do
      let (result, mem) ← fat16Read s.disk priv e.content size blocks buf s.mem
      return (result, { s with mem := mem }))
  fseek : ∀ offset mode, fseek s e.fd offset mode = (do
    let (result, content) ← fat16Seek e.content (BitVec.ofInt 32 offset) mode
    return (result, { s with fatFiles := fun a => if a = e.descPrivate then content else s.fatFiles a }))
  fstat : fstat s e.fd = fat16Stat e.content
  fclose : fclose s e.fd =
    (0, fileFreeDescriptor { s with heap := (fat16Close s.heap e.descPrivate e.content).2 } e.desc)

/-- 番号を受け取る操作が、どれも記述子に届かず、何も変えない。 -/
structure Misses (s : FileState) (fd : Int) : Prop where
  fread : ∀ buf size blocks, fread s buf size blocks fd = .ok (-EINVARG, s)
  fseek : ∀ offset mode, fseek s fd offset mode = .ok (- EIO, s)
  fstat : fstat s fd = .ok (.error (- EIO))
  fclose : fclose s fd = (- EIO, s)

/-- 開いている番号は自分の記述子に届き、ほかの番号は何にも届かない。次の `fopen` の返す正の番号は、開いているどの番号とも違い、
失敗するのは、すべての番号が使われているときだけである。 -/
structure LifeCycle (t : FileTable) : Prop where
  reaches : ∀ e ∈ t.opened, Reaches t.state e
  misses : ∀ fd, (∀ e ∈ t.opened, e.fd ≠ fd) → Misses t.state fd
  fopen : ∀ fileName mode addr content heap', Opens t.state fileName mode addr content heap' →
    ∃ fd s', fopen t.state fileName mode = .ok (fd, s') ∧ (0 < fd → ∀ e ∈ t.opened, e.fd ≠ fd) ∧
      (fd ≤ 0 → FilesFull t.state)

variable {s s' : FileState} {fd : Int}

theorem misses_of_zero (h : fileGetDescriptor s fd = 0) : Misses s fd := by
  refine ⟨?_, ?_, ?_, ?_⟩
  · intro buf size blocks
    simp only [fread, h, if_true]
    split <;> rfl
  · intro offset mode
    simp only [fseek, h, if_true]
    rfl
  · simp only [fstat, h, if_true]
  · simp only [fclose, h, if_true]

/-- 512 番は、どの記述子にも届かない。 -/
theorem not_reaches_last {e : OpenFile} (he : e.fd = 512) : ¬Reaches s e := by
  intro h
  have hmiss : Misses s 512 := misses_of_zero (by simp [fileGetDescriptor])
  have hclose := h.fclose
  rw [he, hmiss.fclose] at hclose
  exact absurd (congrArg Prod.fst hclose) (show ¬(- EIO : Int) = 0 by decide)

/-! ## 不変条件 -/

/-- 開いているファイルの記録が、表と記述子に残っている。 -/
structure EntryAt (s : FileState) (e : OpenFile) : Prop where
  low : 1 ≤ e.fd
  high : e.fd < 512
  table : s.fileDescriptors (e.fd - 1).toNat = e.desc
  file : s.files e.desc = ⟨e.fd, e.descPrivate⟩
  content : s.fatFiles e.descPrivate = e.content
  complete : e.content.item.Complete
  mounted : ∃ priv, s.priv = some priv

/-- 開いているファイルの持つアドレスは互いに違い、使われている番号は、どれも開いているファイルの番号である。 -/
structure FilesInv (t : FileTable) : Prop where
  keeps : Keeps (t.opened.flatMap OpenFile.owned) t.state.heap
  entries : ∀ e ∈ t.opened, EntryAt t.state e
  slots : ∀ i < 512, t.state.fileDescriptors i ≠ 0 → ∃ e ∈ t.opened, e.fd = (i : Int) + 1

theorem FsStarted.inv (h : FsStarted s) : FilesInv ⟨s, []⟩ where
  keeps := h.heap
  entries := by simp
  slots i _ hne := absurd (h.empty i) hne

theorem EntryAt.get {e : OpenFile} (h : EntryAt s e) : fileGetDescriptor s e.fd = e.desc := by
  have hlow := h.low
  have hhigh := h.high
  rw [fileGetDescriptor, if_neg, h.table]
  show ¬(e.fd ≤ 0 ∨ ((512 : Nat) : Int) ≤ e.fd)
  omega

theorem EntryAt.reaches {e : OpenFile} (h : EntryAt s e) (hne : e.desc ≠ 0) : Reaches s e := by
  refine ⟨?_, ?_, ?_, ?_⟩
  · obtain ⟨priv, hpriv⟩ := h.mounted
    refine ⟨priv, hpriv, ?_⟩
    intro buf size blocks hsize hblocks
    have hargs : ¬(size = 0 ∨ blocks = 0 ∨ e.fd < 1) := by
      rintro (h0 | h0 | h0)
      · exact hsize h0
      · exact hblocks h0
      · exact absurd h.low (Int.not_le.2 h0)
    simp only [fread, hargs, if_false, h.get, hne, hpriv, h.file, h.content]
  · intro offset mode
    simp only [fseek, h.get, hne, if_false, h.file, h.content]
  · simp only [fstat, h.get, hne, if_false, h.file, h.content]
  · simp only [fclose, h.get, hne, if_false, h.file, h.content, fat16Close, if_true]

/-- 表と記述子の内容が同じなら、記録も残る。 -/
theorem EntryAt.frame {e : OpenFile} (h : EntryAt s e)
    (htable : s'.fileDescriptors (e.fd - 1).toNat = s.fileDescriptors (e.fd - 1).toNat)
    (hfile : s'.files e.desc = s.files e.desc) (hcontent : s'.fatFiles e.descPrivate = s.fatFiles e.descPrivate)
    (hpriv : s'.priv = s.priv) : EntryAt s' e where
  low := h.low
  high := h.high
  table := htable.trans h.table
  file := hfile.trans h.file
  content := hcontent.trans h.content
  complete := h.complete
  mounted := by
    rw [hpriv]
    exact h.mounted

namespace FilesInv

variable {t : FileTable}

theorem desc_ne (hi : FilesInv t) {e : OpenFile} (he : e ∈ t.opened) : e.desc ≠ 0 :=
  hi.keeps.ne_zero (List.mem_flatMap.2 ⟨e, he, List.mem_cons_self⟩)

theorem misses (hi : FilesInv t) (hno : ∀ e ∈ t.opened, e.fd ≠ fd) : Misses t.state fd := by
  apply misses_of_zero
  rw [fileGetDescriptor]
  split
  · rfl
  · rename_i hrange
    have hrange' : ¬(fd ≤ 0 ∨ ((512 : Nat) : Int) ≤ fd) := hrange
    by_contra hne
    obtain ⟨e, he, hfd⟩ := hi.slots (fd - 1).toNat (by omega) hne
    exact hno e he (by omega)

theorem fresh (hi : FilesInv t) {i : Nat} (hfree : t.state.fileDescriptors i = 0) {e : OpenFile} (he : e ∈ t.opened) :
    e.fd ≠ (i : Int) + 1 := by
  intro hfd
  have htable := (hi.entries e he).table
  rw [hfd, Int.add_sub_cancel, Int.toNat_natCast, hfree] at htable
  exact hi.desc_ne he htable.symm

end FilesInv

/-! ## 一回の呼び出しの結果 -/

section

variable {fileName mode : List Byte} {addr : Word} {content : FatFileDescriptor} {heap' : Heap}

theorem Opens.fopen_full (h : Opens s fileName mode addr content heap') (hfull : FilesFull s) :
    fopen s fileName mode = .ok (0, openedState s addr (some content) heap') := by
  obtain ⟨priv, heap, part, next, hreach, hopen, -⟩ := h.resolved
  rw [hreach.fopen_eq, hopen]
  apply fopenDescriptor_full
  rw [fileFreeSlot_openedState]
  exact filesFull_iff.1 hfull

theorem Opens.fopen_slot (h : Opens s fileName mode addr content heap') {i : Nat}
    (hslot : fileFreeSlot s ENKI_MAX_FILE_DESCRIPTORS 0 = some i) :
    (kzalloc heap' 16).1 ≠ 0 ∧ fopen s fileName mode =
      .ok ((i : Int) + 1, newDescriptorState (openedState s addr (some content) heap') i addr) := by
  have hne : (kzalloc heap' 16).1 ≠ 0 := by
    rcases h.alloc with hfull | hne
    · rw [filesFull_iff, hslot] at hfull
      cases hfull
    · exact hne
  refine ⟨hne, ?_⟩
  obtain ⟨priv, heap, part, next, hreach, hopen, -⟩ := h.resolved
  rw [hreach.fopen_eq, hopen]
  have hfree : fileFreeSlot (openedState s addr (some content) heap') ENKI_MAX_FILE_DESCRIPTORS 0 = some i := by
    rw [fileFreeSlot_openedState]
    exact hslot
  exact fopenDescriptor_new hfree addr hne

/-- 正の番号は、空いている最初の番号から決まる。 -/
theorem Opens.fopen_pos (h : Opens s fileName mode addr content heap') (hopen : fopen s fileName mode = .ok (fd, s'))
    (hpos : 0 < fd) : ∃ i, fileFreeSlot s ENKI_MAX_FILE_DESCRIPTORS 0 = some i ∧ (kzalloc heap' 16).1 ≠ 0 ∧
      fd = (i : Int) + 1 ∧ s' = newDescriptorState (openedState s addr (some content) heap') i addr := by
  cases hslot : fileFreeSlot s ENKI_MAX_FILE_DESCRIPTORS 0 with
  | none =>
      cases hopen.symm.trans (h.fopen_full (filesFull_iff.2 hslot))
      exact absurd hpos (Int.lt_irrefl 0)
  | some i =>
      obtain ⟨hne, heq⟩ := h.fopen_slot hslot
      cases hopen.symm.trans heq
      exact ⟨i, rfl, hne, rfl, rfl⟩

theorem Opens.fopen_nonpos (h : Opens s fileName mode addr content heap') (hopen : fopen s fileName mode = .ok (fd, s'))
    (hle : fd ≤ 0) : FilesFull s ∧ s' = openedState s addr (some content) heap' := by
  cases hslot : fileFreeSlot s ENKI_MAX_FILE_DESCRIPTORS 0 with
  | none =>
      have hfull := filesFull_iff.2 hslot
      cases hopen.symm.trans (h.fopen_full hfull)
      exact ⟨hfull, rfl⟩
  | some i =>
      obtain ⟨-, heq⟩ := h.fopen_slot hslot
      cases hopen.symm.trans heq
      omega

theorem Opens.total (h : Opens s fileName mode addr content heap') : ∃ fd s', fopen s fileName mode = .ok (fd, s') := by
  cases hslot : fileFreeSlot s ENKI_MAX_FILE_DESCRIPTORS 0 with
  | none => exact ⟨_, _, h.fopen_full (filesFull_iff.2 hslot)⟩
  | some i => exact ⟨_, _, (h.fopen_slot hslot).2⟩

end

theorem onlyLastFree_iff : OnlyLastFree s ↔ fileFreeSlot s ENKI_MAX_FILE_DESCRIPTORS 0 = some 511 := by
  constructor
  · rintro ⟨hused, hfree⟩
    exact fileFreeSlot_eq (by decide) hused hfree
  · intro h
    obtain ⟨h0, hbefore⟩ := fileFreeSlot_some h
    exact ⟨fun i hi => hbefore i (Nat.zero_le i) hi, h0⟩

theorem FilesInv.lifeCycle {t : FileTable} (hi : FilesInv t) : LifeCycle t where
  reaches e he := (hi.entries e he).reaches (hi.desc_ne he)
  misses _ hno := hi.misses hno
  fopen fileName mode addr content heap' hopens := by
    obtain ⟨fd, s', hopen⟩ := hopens.total
    refine ⟨fd, s', hopen, ?_, fun hle => (hopens.fopen_nonpos hopen hle).1⟩
    intro hpos e he
    obtain ⟨i, hslot, -, rfl, -⟩ := hopens.fopen_pos hopen hpos
    exact hi.fresh (fileFreeSlot_some hslot).1 he

/-! ## 不変条件の保存 -/

/-- 新しいファイルの持つアドレスは、開いているどのファイルのアドレスでもない。 -/
theorem owned_disjoint {l : List OpenFile} {e e' : OpenFile} {p : Word} (hn : (e.owned ++ l.flatMap OpenFile.owned).Nodup)
    (he' : e' ∈ l) (hp : p ∈ e.owned) (hp' : p ∈ e'.owned) : False :=
  (List.nodup_append.1 hn).2.2 p hp p (List.mem_flatMap.2 ⟨e', he', hp'⟩) rfl

theorem OpenFile.desc_mem (e : OpenFile) : e.desc ∈ e.owned := List.mem_cons_self

theorem OpenFile.descPrivate_mem (e : OpenFile) : e.descPrivate ∈ e.owned :=
  List.mem_cons_of_mem _ List.mem_cons_self

section

variable {l : List OpenFile} {fileName mode : List Byte} {addr : Word} {content : FatFileDescriptor} {heap' : Heap}

theorem Opens.keeps {kept : List Word} (h : Opens s fileName mode addr content heap') (hkeep : Keeps kept s.heap) :
    Keeps (addr :: content.item.owned ++ kept) heap' ∧ content.item.Complete ∧ ∃ priv, s.priv = some priv := by
  obtain ⟨priv, heap, part, next, hreach, hopen, hcomplete⟩ := h.resolved
  obtain ⟨root, first, rest, hparse, -⟩ := hreach.parsed
  obtain ⟨hkeep', hc⟩ := fat16Open_keeps (pathParse_keeps hkeep hparse) hcomplete hopen
  exact ⟨hkeep', hc, priv, hreach.mounted⟩

theorem EntryAt.new (hc : content.item.Complete) (hmount : ∃ priv, s.priv = some priv) {i : Nat} (hi : i < 511) :
    EntryAt (newDescriptorState (openedState s addr (some content) heap') i addr)
      ⟨(i : Int) + 1, (kzalloc heap' 16).1, addr, content⟩ := by
  have hidx : ((i : Int) + 1 - 1).toNat = i := by omega
  refine ⟨?_, ?_, ?_, ?_, ?_, hc, hmount⟩
  · exact Int.le_add_of_nonneg_left (Int.natCast_nonneg i)
  · show (i : Int) + 1 < 512
    omega
  · simp only [newDescriptorState, hidx, if_true, openedState]
  · simp only [newDescriptorState, if_true, openedState]
  · simp only [newDescriptorState, if_true, openedState, Option.getD_some]

theorem FilesInv.opened (hi : FilesInv ⟨s, l⟩) (h : Opens s fileName mode addr content heap') {i : Nat}
    (hslot : fileFreeSlot s ENKI_MAX_FILE_DESCRIPTORS 0 = some i) (hlast : i ≠ 511) (hne : (kzalloc heap' 16).1 ≠ 0) :
    FilesInv ⟨newDescriptorState (openedState s addr (some content) heap') i addr,
      ⟨(i : Int) + 1, (kzalloc heap' 16).1, addr, content⟩ :: l⟩ := by
  obtain ⟨hkeep, hc, hmount⟩ := h.keeps hi.keeps
  have hkeep' := hkeep.alloc (show 0 < 16 by decide) (by decide) hne
  have hlt : i < 512 := Nat.zero_add 512 ▸ fileFreeSlot_lt hslot
  constructor
  · exact hkeep'
  · intro e he
    rcases List.mem_cons.1 he with rfl | he
    · exact .new hc hmount (by omega)
    · have hentry := hi.entries e he
      have hlow := hentry.low
      have hfd := hi.fresh (fileFreeSlot_some hslot).1 he
      have hfresh : ∀ p ∈ OpenFile.owned ⟨(i : Int) + 1, (kzalloc heap' 16).1, addr, content⟩, p ∉ e.owned :=
        fun p hp hp' => owned_disjoint (e := ⟨(i : Int) + 1, (kzalloc heap' 16).1, addr, content⟩) hkeep'.nodup he hp hp'
      have hdesc : e.desc ≠ (kzalloc heap' 16).1 := by
        intro heq
        exact hfresh _ (OpenFile.desc_mem _) (heq ▸ e.desc_mem)
      have hpriv : e.descPrivate ≠ addr := by
        intro heq
        exact hfresh _ (OpenFile.descPrivate_mem _) (heq ▸ e.descPrivate_mem)
      exact hentry.frame (if_neg (by omega)) (if_neg hdesc) (if_neg hpriv) rfl
  · intro j hj hused
    by_cases hji : j = i
    · exact ⟨_, List.mem_cons_self, by rw [hji]⟩
    · simp only [newDescriptorState, hji, if_false] at hused
      obtain ⟨e, he, hfd⟩ := hi.slots j hj hused
      exact ⟨e, List.mem_cons_of_mem _ he, hfd⟩

/-- 番号が足りないときも、開いているファイルは変わらない。`fat16_open` の作った記述子は、失われる。 -/
theorem FilesInv.refused (hi : FilesInv ⟨s, l⟩) (h : Opens s fileName mode addr content heap') :
    FilesInv ⟨openedState s addr (some content) heap', l⟩ := by
  obtain ⟨hkeep, -, -⟩ := h.keeps hi.keeps
  refine ⟨hkeep.mono (List.sublist_append_right _ _), ?_, hi.slots⟩
  intro e he
  refine (hi.entries e he).frame rfl rfl (if_neg ?_) rfl
  rintro rfl
  have hmem : e.descPrivate ∈ l.flatMap OpenFile.owned := List.mem_flatMap.2 ⟨e, he, e.descPrivate_mem⟩
  exact (List.nodup_cons.1 hkeep.nodup).1 (List.mem_append_right _ hmem)

end

theorem owned_middle (l₁ l₂ : List OpenFile) (e : OpenFile) :
    ((l₁ ++ e :: l₂).flatMap OpenFile.owned).Perm (e.owned ++ (l₁ ++ l₂).flatMap OpenFile.owned) := by
  have h : ((l₁ ++ e :: l₂).flatMap OpenFile.owned).Perm ((e :: (l₁ ++ l₂)).flatMap OpenFile.owned) :=
    List.perm_middle.flatMap_right _
  rwa [List.flatMap_cons] at h

/-- 閉じると、開いているファイルの持つアドレスだけが並びから除かれる。 -/
theorem EntryAt.fclose_keeps {e : OpenFile} {kept : List Word} (hentry : EntryAt s e)
    (hkeep : Keeps (e.owned ++ kept) s.heap) : Keeps kept (fclose s e.fd).2.heap := by
  have hne : e.desc ≠ 0 := hkeep.ne_zero (List.mem_append_left _ e.desc_mem)
  have hperm : (e.owned ++ kept).Perm (e.content.item.owned ++ (e.descPrivate :: e.desc :: kept)) :=
    (List.Perm.swap _ _ _).trans ((List.perm_middle.symm.cons _).trans List.perm_middle.symm)
  rw [(hentry.reaches hne).fclose]
  exact (fat16FatItemFree_keeps hentry.complete (hkeep.perm hperm)).kfree.kfree

theorem FilesInv.closed {l₁ l₂ : List OpenFile} {e : OpenFile} (hi : FilesInv ⟨s, l₁ ++ e :: l₂⟩) :
    FilesInv ⟨(fclose s e.fd).2, l₁ ++ l₂⟩ := by
  have he : e ∈ l₁ ++ e :: l₂ := List.mem_append_right _ List.mem_cons_self
  have hentry : EntryAt s e := hi.entries e he
  have hlow := hentry.low
  have hkeep := hi.keeps.perm (owned_middle l₁ l₂ e)
  have hkeep' := hentry.fclose_keeps hkeep
  rw [(hentry.reaches (hi.desc_ne he)).fclose] at hkeep' ⊢
  simp only [fileFreeDescriptor, hentry.file, fat16Close, fat16FreeFileDescriptor] at hkeep' ⊢
  have hsub : ∀ e' ∈ l₁ ++ l₂, e' ∈ l₁ ++ e :: l₂ := by
    intro e' he'
    rcases List.mem_append.1 he' with h | h
    · exact List.mem_append_left _ h
    · exact List.mem_append_right _ (List.mem_cons_of_mem _ h)
  -- 番号が同じなら記述子も同じなので、ほかのファイルの番号は違う。
  have hother : ∀ e' ∈ l₁ ++ l₂, e'.fd ≠ e.fd := by
    intro e' he' hfd
    have htable := (hi.entries e' (hsub e' he')).table
    rw [hfd, hentry.table] at htable
    exact owned_disjoint hkeep.nodup he' e.desc_mem (htable ▸ e'.desc_mem)
  constructor
  · exact hkeep'
  · intro e' he'
    have hentry' := hi.entries e' (hsub e' he')
    have hlow' := hentry'.low
    have hfd := hother e' he'
    exact hentry'.frame (if_neg (by omega)) rfl rfl rfl
  · intro i hlt hused
    simp only at hused
    split at hused
    · exact absurd rfl hused
    · rename_i hne
      obtain ⟨e', he', hfd⟩ := hi.slots i hlt hused
      refine ⟨e', ?_, hfd⟩
      rcases List.mem_append.1 he' with h | h
      · exact List.mem_append_left _ h
      · rcases List.mem_cons.1 h with rfl | h
        · exact absurd hfd (by omega)
        · exact List.mem_append_right _ h

theorem FileStep.inv {t t' : FileTable} {op : FileOp} (h : FileStep t op t') (hsafe : op.Safe t.state) (hi : FilesInv t) :
    FilesInv t' := by
  cases h with
  | opened hopens hopen hpos =>
      obtain ⟨i, hslot, hne, rfl, rfl⟩ := hopens.fopen_pos hopen hpos
      refine hi.opened hopens hslot ?_ hne
      rintro rfl
      exact hsafe (onlyLastFree_iff.2 hslot)
  | refused hopens hopen hle =>
      obtain ⟨-, rfl⟩ := hopens.fopen_nonpos hopen hle
      exact hi.refused hopens
  | closed => exact hi.closed

theorem SafeFileRun.inv {t t' : FileTable} (h : SafeFileRun t t') (hi : FilesInv t) : FilesInv t' := by
  induction h with
  | refl => exact hi
  | tail _ hstep ih =>
      obtain ⟨op, hstep, hsafe⟩ := hstep
      exact hstep.inv hsafe ih

end EnkiOs
