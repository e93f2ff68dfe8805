import EnkiOs.Fs.LifeTheorems
import EnkiOs.Fs.Views
import Mathlib.Data.List.Find

/-!
# 開いたファイルの独立

どの番号への呼び出しがどの順に混ざっても、返す値とメモリは、番号ごとの項目と位置だけを持つ機械のものと同じである。
-/

namespace EnkiOs
open Machine

variable {d : Disk} {priv : FatPrivate} {s s' : FileState} {f : FileViews} {l : List OpenFile} {fd : Int}
  {fileName mode : List Byte} {heap heap' : Heap}

/-! ## 対応 -/

/-- `fopen` は、経路が読め、ファイルシステムの `open` を呼ぶなら記述子ができ、空いた番号が最後の一つだけではない。 -/
def FileCall.Resolves (s : FileState) : FileCall → Prop
  | .fopen fileName mode => ¬OnlyLastFree s ∧ (∃ root heap, pathParse s.heap fileName = .ok (root, heap)) ∧
      ∀ priv heap part next, ReachesOpen s fileName mode priv heap part next →
        ∃ addr content heap', Opens s fileName mode addr content heap'
  | _ => True

/-- 番号ごとの見え方は、開いているファイルの記述子のものである。 -/
structure Represents (d : Disk) (priv : FatPrivate) (s : FileState) (f : FileViews) : Prop where
  disk : s.disk = d
  mounted : s.priv = some priv
  mem : f.mem = s.mem
  table : ∃ l, FilesInv ⟨s, l⟩ ∧ ∀ fd, f.opened fd = (l.find? fun e => e.fd = fd).map fun e => e.content.view

theorem FsStarted.represents (h : FsStarted s) (hpriv : s.priv = some priv) : Represents s.disk priv s (.start s.mem) :=
  ⟨rfl, hpriv, rfl, [], h.inv, fun _ => rfl⟩

/-- 番号は、開いているファイルの番号であるか、何にも届かない。 -/
theorem FilesInv.find_cases (hi : FilesInv ⟨s, l⟩) (fd : Int) :
    (∃ e ∈ l, e.fd = fd ∧ (l.find? fun e => e.fd = fd) = some e) ∨
      (l.find? fun e => e.fd = fd) = none ∧ Misses s fd := by
  cases hfind : l.find? fun e => e.fd = fd with
  | some e =>
      exact .inl ⟨e, List.mem_of_find?_eq_some hfind, by simpa using List.find?_some hfind, rfl⟩
  | none =>
      rw [List.find?_eq_none] at hfind
      exact .inr ⟨rfl, hi.misses fun e he => by simpa using hfind e he⟩

/-- ヒープとメモリだけの変化。 -/
theorem FilesInv.keep (hi : FilesInv ⟨s, l⟩) (hkeep : Keeps (l.flatMap OpenFile.owned) heap) (mem : Memory) :
    FilesInv ⟨{ s with heap := heap, mem := mem }, l⟩ :=
  ⟨hkeep, fun e he => (hi.entries e he).frame rfl rfl rfl rfl, hi.slots⟩

/-! ## 位置の変化 -/

/-- 番号 `fd` のファイルの位置を変えた並び。 -/
def movedFiles (l : List OpenFile) (fd : Int) (pos : Word) : List OpenFile :=
  l.map fun e => if e.fd = fd then { e with content := { e.content with pos := pos } } else e

theorem movedFiles_find (l : List OpenFile) (fd : Int) (pos : Word) (i : Int) :
    ((movedFiles l fd pos).find? fun e => e.fd = i) =
      (l.find? fun e => e.fd = i).map fun e => if e.fd = fd then { e with content := { e.content with pos := pos } } else e := by
  have hsame : (fun e : OpenFile => decide (e.fd = i)) ∘
      (fun e => if e.fd = fd then { e with content := { e.content with pos := pos } } else e) = fun e => decide (e.fd = i) := by
    funext e
    simp only [Function.comp]
    split <;> rfl
  rw [movedFiles, List.find?_map, hsame]

theorem movedFiles_owned (l : List OpenFile) (fd : Int) (pos : Word) :
    (movedFiles l fd pos).flatMap OpenFile.owned = l.flatMap OpenFile.owned := by
  rw [movedFiles, List.flatMap_map]
  refine List.flatMap_congr fun e _ => ?_
  split <;> rfl

theorem FilesInv.move (hi : FilesInv ⟨s, l⟩) {e : OpenFile} (he : e ∈ l) (pos : Word) :
    FilesInv ⟨{ s with fatFiles := fun a => if a = e.descPrivate then { e.content with pos := pos } else s.fatFiles a },
      movedFiles l e.fd pos⟩ := by
  have hkeep := hi.keeps
  rw [← movedFiles_owned l e.fd pos] at hkeep
  refine ⟨hkeep, ?_, ?_⟩
  · intro x hx
    obtain ⟨e', he', rfl⟩ := List.mem_map.1 hx
    have hentry := hi.entries e' he'
    by_cases hfd : e'.fd = e.fd
    · -- 同じ番号の記録は、同じ記述子を指す。
      have hdesc : e'.desc = e.desc := by
        rw [← hentry.table, hfd, (hi.entries e he).table]
      have hpriv : e'.descPrivate = e.descPrivate := by
        have hfile := hentry.file
        rw [hdesc, (hi.entries e he).file] at hfile
        exact (congrArg FileDescriptor.privateData hfile).symm
      have hcontent : e'.content = e.content := by
        rw [← hentry.content, hpriv, (hi.entries e he).content]
      rw [if_pos hfd]
      refine ⟨hentry.low, hentry.high, hentry.table, hentry.file, ?_, hentry.complete, hentry.mounted⟩
      simp only [hpriv, if_true, hcontent]
    · rw [if_neg hfd]
      refine hentry.frame rfl rfl (if_neg ?_) rfl
      intro heq
      -- 別の番号のファイルは、記述子のアドレスを共有しない。
      obtain ⟨l₁, l₂, rfl⟩ := List.append_of_mem he
      have hnodup := (hi.keeps.perm (owned_middle l₁ l₂ e)).nodup
      have hother : e' ∈ l₁ ++ l₂ := by
        rcases List.mem_append.1 he' with h | h
        · exact List.mem_append_left _ h
        · rcases List.mem_cons.1 h with rfl | h
          · exact absurd rfl hfd
          · exact List.mem_append_right _ h
      exact owned_disjoint hnodup hother e.descPrivate_mem (heq ▸ e'.descPrivate_mem)
  · intro i hi' hne
    obtain ⟨e', he', hfd⟩ := hi.slots i hi' hne
    refine ⟨_, List.mem_map_of_mem he', ?_⟩
    split
    · exact hfd
    · exact hfd

/-! ## `fopen` -/

theorem pathParse_root_names {root : PathRoot} (h : pathParse heap fileName = .ok (some root, heap')) :
    ¬(ENKI_MAX_PATH < fileName.length ∨ (pathGetDrive fileName).1 < 0) ∧ root.driveNo = (pathGetDrive fileName).1 ∧
      root.parts.map PathPart.name = pathComponents (pathGetDrive fileName).2 := by
  simp only [pathParse] at h
  split at h
  · cases h
  · rename_i hshort
    split at h
    · cases h
    · rename_i hdrive
      obtain ⟨⟨root₁, heap₁⟩, hroot, h⟩ := bind_ok.1 h
      obtain ⟨⟨parts, heap₂⟩, hparts, h⟩ := bind_ok.1 h
      cases h
      simp only [pathCreateRoot] at hroot
      split at hroot
      · cases hroot
      · cases hroot
        exact ⟨fun hor => hor.elim hshort hdrive, rfl, pathParseParts_names hparts⟩

/-- ファイルシステムの `open` を呼ばない `fopen` は、ヒープのほかを変えない。 -/
theorem FileViews.fopen_unreached {root : Option PathRoot} (f : FileViews) (hpriv : s.priv = some priv)
    (hparse : pathParse s.heap fileName = .ok (root, heap))
    (hno : ¬∃ priv heap part next, ReachesOpen s fileName mode priv heap part next) :
    EnkiOs.fopen s fileName mode = .ok ((f.fopen priv fileName mode).1, { s with heap := heap }) ∧
      (f.fopen priv fileName mode).2 = f := by
  simp only [EnkiOs.fopen, FileViews.fopen, hparse, bind, Except.bind]
  cases root with
  | none =>
      have hbad := pathParse_root hparse
      rw [if_pos hbad]
      exact ⟨rfl, rfl⟩
  | some root =>
      obtain ⟨hgood, hdrive, hnames⟩ := pathParse_root_names hparse
      rw [if_neg hgood]
      cases hparts : root.parts with
      | nil =>
          rw [hparts] at hnames
          simp only [← hnames, hparts, List.map_nil]
          exact ⟨rfl, trivial⟩
      | cons first rest =>
          rw [hparts] at hnames
          simp only [← hnames, hparts, List.map_cons, ← hdrive]
          by_cases hdrive0 : root.driveNo = 0
          · by_cases hvalid : fileGetModeFromStr mode = .invalid
            · simp only [hdrive0, ne_eq, not_true, if_false, hvalid, if_true, hpriv]
              exact ⟨rfl, trivial⟩
            · exact absurd ⟨priv, heap, first.name, rest.map PathPart.name,
                ⟨root, first, rest, hparse, hdrive0, hparts, rfl, rfl⟩, hpriv, hvalid⟩ hno
          · simp only [if_pos hdrive0]
            exact ⟨rfl, trivial⟩

/-- 空いた番号は、表の空いたところである。 -/
theorem Represents.freeSlot (hi : FilesInv ⟨s, l⟩)
    (hviews : ∀ fd, f.opened fd = (l.find? fun e => e.fd = fd).map fun e => e.content.view) :
    f.freeSlot = fileFreeSlot s ENKI_MAX_FILE_DESCRIPTORS 0 := by
  rw [FileViews.freeSlot, fileFreeSlot_find]
  refine List.find?_congr fun i hmem => ?_
  have hlt : i < 512 := by
    have := (List.mem_range'_1.1 hmem).2
    omega
  rw [hviews]
  rcases hi.find_cases ((i : Int) + 1) with ⟨e, he, hfd, hfind⟩ | ⟨hfind, -⟩
  · have htable := (hi.entries e he).table
    rw [hfd, Int.add_sub_cancel, Int.toNat_natCast] at htable
    rw [hfind, htable, decide_eq_false (hi.desc_ne he)]
    rfl
  · rw [hfind]
    refine (decide_eq_true ?_).symm
    by_contra hne
    obtain ⟨e, he, hfd⟩ := hi.slots i hlt hne
    rw [List.find?_eq_none] at hfind
    exact hfind e he (by simpa using hfd)

theorem Represents.fopen (hr : Represents d priv s f) (hresolves : FileCall.Resolves s (.fopen fileName mode)) :
    Matches (Represents d priv) (fileCall s (.fopen fileName mode)) (f.call d priv (.fopen fileName mode)) := by
  obtain ⟨hsafe, ⟨root, heap, hparse⟩, hopens⟩ := hresolves
  obtain ⟨hdisk, hmount, hmem, l, hi, hviews⟩ := hr
  by_cases hreach : ∃ priv heap part next, ReachesOpen s fileName mode priv heap part next
  · obtain ⟨priv', heap₁, part, next, hreach⟩ := hreach
    obtain ⟨addr, content, heap', hopen⟩ := hopens _ _ _ _ hreach
    obtain ⟨priv₂, heap₂, part₂, next₂, hreach₂, hmade, hcomplete⟩ := hopen.resolved
    obtain ⟨rfl, rfl, rfl, rfl⟩ := hreach.unique hreach₂
    obtain ⟨⟨root', first, rest, hparse', hdrive, hparts, hfirst, -⟩, hmount', hvalid⟩ := hreach
    cases hmount.symm.trans hmount'
    obtain ⟨hgood, hno, hnames⟩ := pathParse_root_names hparse'
    -- 表の番号 511 は空いているので、番号は足りる。
    have hlast : s.fileDescriptors 511 = 0 := by
      by_contra hne
      obtain ⟨e, he, hfd⟩ := hi.slots 511 (by decide) hne
      have := (hi.entries e he).high
      omega
    have hslots := Represents.freeSlot hi hviews
    cases hslot : fileFreeSlot s ENKI_MAX_FILE_DESCRIPTORS 0 with
    | none => exact absurd hlast (filesFull_iff.2 hslot 511 (by decide))
    | some i =>
        obtain ⟨hne, heq⟩ := hopen.fopen_slot hslot
        have hi' := hi.opened hopen hslot (fun h => hsafe (onlyLastFree_iff.2 (h ▸ hslot))) hne
        obtain rfl := fat16Open_root hcomplete hmade
        have hview := fat16Open_view hmade (hopen.keeps hi.keeps).2.1
        have habs : f.fopen priv fileName mode = ((i : Int) + 1, f.set ((i : Int) + 1) (some content.view)) := by
          rw [hparts, List.map_cons, hfirst] at hnames
          simp only [FileViews.fopen]
          rw [if_neg hgood, ← hnames]
          simp only [← hno, hdrive, ne_eq, not_true, if_false, hvalid, hslots, hslot, hview]
        simp only [fileCall, heq, FileViews.call, habs]
        refine ⟨rfl, hdisk, hmount, hmem, _, hi', fun fd => ?_⟩
        rw [FileViews.set, List.find?_cons]
        by_cases hfd : (i : Int) + 1 = fd
        · simp only [hfd, decide_true, if_true, Option.map_some]
        · simp only [hfd, Ne.symm hfd, decide_false, if_false]
          exact hviews fd
  · obtain ⟨heq, hsame⟩ := FileViews.fopen_unreached f hmount hparse hreach
    simp only [fileCall, heq, FileViews.call, hsame]
    refine ⟨rfl, hdisk, hmount, hmem, l, hi.keep ?_ s.mem, hviews⟩
    cases root with
    | none =>
        have hsame : heap = s.heap := by
          simp only [pathParse] at hparse
          split at hparse
          · cases hparse
            rfl
          · split at hparse
            · cases hparse
              rfl
            · obtain ⟨⟨root₁, heap₁⟩, -, hparse⟩ := bind_ok.1 hparse
              obtain ⟨⟨parts, heap₂⟩, -, hparse⟩ := bind_ok.1 hparse
              cases hparse
        rw [hsame]
        exact hi.keeps
    | some root => exact pathParse_keeps hi.keeps hparse

/-! ## 番号への呼び出し -/

theorem Represents.fread (hr : Represents d priv s f) (buf size blocks : Word) (fd : Int) :
    Matches (Represents d priv) (fileCall s (.fread buf size blocks fd)) (f.call d priv (.fread buf size blocks fd)) := by
  obtain ⟨rfl, hmount, hmem, l, hi, hviews⟩ := hr
  have hr : Represents s.disk priv s f := ⟨rfl, hmount, hmem, l, hi, hviews⟩
  simp only [fileCall, FileViews.call, FileViews.fread]
  by_cases hargs : size = 0 ∨ blocks = 0
  · have heq : EnkiOs.fread s buf size blocks fd = .ok (-EINVARG, s) := by
      rw [EnkiOs.fread, if_pos (hargs.imp id .inl)]
      rfl
    rw [heq, if_pos hargs]
    exact ⟨rfl, hr⟩
  · rw [if_neg hargs, hviews]
    rcases hi.find_cases fd with ⟨e, he, rfl, hfind⟩ | ⟨hfind, hmiss⟩
    · obtain ⟨hsize, hblocks⟩ := not_or.1 hargs
      have hentry := hi.entries e he
      obtain ⟨priv', hpriv', hread⟩ := (hentry.reaches (hi.desc_ne he)).fread
      cases hmount.symm.trans hpriv'
      rw [hread buf size blocks hsize hblocks, fat16Read_view hentry.complete, hfind, hmem]
      simp only [Option.map_some]
      cases e.content.view.read s.disk priv size blocks buf s.mem with
      | error fault => exact rfl
      | ok out => exact ⟨rfl, rfl, hmount, rfl, l, hi.keep hi.keeps _, hviews⟩
    · rw [hmiss.fread, hfind]
      exact ⟨rfl, hr⟩

theorem Represents.fseek (hr : Represents d priv s f) (fd offset : Int) (mode : Nat) :
    Matches (Represents d priv) (fileCall s (.fseek fd offset mode)) (f.call d priv (.fseek fd offset mode)) := by
  obtain ⟨hdisk, hmount, hmem, l, hi, hviews⟩ := hr
  simp only [fileCall, FileViews.call, FileViews.fseek]
  rw [hviews]
  rcases hi.find_cases fd with ⟨e, he, rfl, hfind⟩ | ⟨hfind, hmiss⟩
  · have hentry := hi.entries e he
    rw [(hentry.reaches (hi.desc_ne he)).fseek, fat16Seek_view hentry.complete, hfind]
    refine ⟨rfl, hdisk, hmount, hmem, _, hi.move he _, fun i => ?_⟩
    simp only [movedFiles_find, Option.map_some, FileViews.set]
    by_cases hie : i = e.fd
    · rw [hie, hfind]
      simp only [if_true, Option.map_some]
      exact congrArg some (FileView.seek_eq e.content.view (BitVec.ofInt 32 offset) mode)
    · simp only [if_neg hie]
      rw [hviews]
      cases hother : l.find? fun e => e.fd = i with
      | none => rfl
      | some e' =>
          have hfd : e'.fd = i := by simpa using List.find?_some hother
          rw [Option.map_some, Option.map_some, Option.map_some, if_neg (hfd ▸ hie)]
  · rw [hmiss.fseek, hfind]
    exact ⟨rfl, hdisk, hmount, hmem, l, hi, hviews⟩

theorem Represents.fstat (hr : Represents d priv s f) (fd : Int) :
    Matches (Represents d priv) (fileCall s (.fstat fd)) (f.call d priv (.fstat fd)) := by
  obtain ⟨rfl, hmount, hmem, l, hi, hviews⟩ := hr
  have hr : Represents s.disk priv s f := ⟨rfl, hmount, hmem, l, hi, hviews⟩
  simp only [fileCall, FileViews.call, FileViews.fstat]
  rw [hviews]
  rcases hi.find_cases fd with ⟨e, he, rfl, hfind⟩ | ⟨hfind, hmiss⟩
  · have hentry := hi.entries e he
    rw [(hentry.reaches (hi.desc_ne he)).fstat, fat16Stat_view hentry.complete, hfind]
    exact ⟨rfl, hr⟩
  · rw [hmiss.fstat, hfind]
    exact ⟨rfl, hr⟩

theorem Represents.fclose (hr : Represents d priv s f) (fd : Int) :
    Matches (Represents d priv) (fileCall s (.fclose fd)) (f.call d priv (.fclose fd)) := by
  obtain ⟨hdisk, hmount, hmem, l, hi, hviews⟩ := hr
  simp only [fileCall, FileViews.call, FileViews.fclose]
  rw [hviews]
  rcases hi.find_cases fd with ⟨e, he, rfl, hfind⟩ | ⟨hfind, hmiss⟩
  · obtain ⟨l₁, l₂, rfl⟩ := List.append_of_mem he
    have hentry := hi.entries e he
    have hclose := (hentry.reaches (hi.desc_ne he)).fclose
    have hi' := hi.closed
    -- 閉じた番号は、残りのどのファイルの番号でもない。
    have hgone : ∀ e' ∈ l₁ ++ l₂, e'.fd ≠ e.fd := by
      intro e' he' hfd
      have htable := (hi'.entries e' he').table
      simp only [hclose, fileFreeDescriptor] at htable
      rw [hentry.file, hfd, if_pos rfl] at htable
      exact hi'.desc_ne he' htable.symm
    rw [hfind]
    refine ⟨?_, ?_, ?_, ?_, l₁ ++ l₂, hi', fun i => ?_⟩
    · rw [hclose]
      rfl
    · rw [hclose]
      exact hdisk
    · rw [hclose]
      exact hmount
    · rw [hclose]
      exact hmem
    · simp only [Option.map_some, FileViews.set]
      by_cases hie : i = e.fd
      · simp only [if_pos hie]
        rw [hie, List.find?_eq_none.2 fun e' he' => by simpa using hgone e' he']
        rfl
      · simp only [if_neg hie]
        rw [hviews, List.find?_append, List.find?_append, List.find?_cons, decide_eq_false (Ne.symm hie)]
  · rw [hmiss.fclose, hfind]
    exact ⟨rfl, hdisk, hmount, hmem, l, hi, hviews⟩

theorem Represents.call (hr : Represents d priv s f) (call : FileCall) (hresolves : call.Resolves s) :
    Matches (Represents d priv) (fileCall s call) (f.call d priv call) := by
  cases call with
  | fopen fileName mode => exact hr.fopen hresolves
  | fread buf size blocks fd => exact hr.fread buf size blocks fd
  | fseek fd offset mode => exact hr.fseek fd offset mode
  | fstat fd => exact hr.fstat fd
  | fclose fd => exact hr.fclose fd

theorem Misses.get (h : Misses s fd) : fileGetDescriptor s fd = 0 := by
  by_contra hne
  have hclose := congrArg Prod.fst h.fclose
  simp only [EnkiOs.fclose, hne, if_false, fat16Close, if_true] at hclose
  exact absurd hclose (by decide)

/-- 何かに届く番号は、見え方のある番号である。 -/
theorem Represents.opened_iff (hr : Represents d priv s f) (fd : Int) : f.opened fd = none ↔ fileGetDescriptor s fd = 0 := by
  obtain ⟨-, -, -, l, hi, hviews⟩ := hr
  rw [hviews]
  rcases hi.find_cases fd with ⟨e, he, rfl, hfind⟩ | ⟨hfind, hmiss⟩
  · have hentry : EntryAt s e := hi.entries e he
    rw [hfind, hentry.get]
    exact iff_of_false (by simp) (hi.desc_ne he)
  · rw [hfind]
    exact iff_of_true rfl hmiss.get

/-- `fs_init` の直後から、どの番号への `fopen`、`fread`、`fseek`、`fstat`、`fclose` がどの順に続いても、返す値と失敗とメモリは、
番号ごとに項目と位置だけを持つ機械のものと同じであり、記述子に届く番号も同じである。`fopen` には、ファイルシステムの `open` を
呼ぶなら記述子ができ、空いた番号が最後の一つだけではないことを求める。 -/
theorem fileCalls_refine (hstart : FsStarted s) (hpriv : s.priv = some priv) {calls : List FileCall}
    (hallows : Allows fileCall FileCall.Resolves s calls) :
    Matches (fun s' f => f.mem = s'.mem ∧ ∀ fd, f.opened fd = none ↔ fileGetDescriptor s' fd = 0)
      (runAll fileCall s calls) (runAll (FileViews.call s.disk priv) (.start s.mem) calls) :=
  (Matches.run (fun _ _ call hr hresolves => hr.call call hresolves) (hstart.represents hpriv) hallows).imp
    fun _ _ hr => ⟨hr.mem, hr.opened_iff⟩

/-- ファイルを開き、位置を移し、読み、閉じて、閉じた番号をもう一度閉じる。 -/
def fragmentedCalls : List FileCall :=
  [.fopen [0x30, 0x3A, 0x2F, 0x41] [0x72], .fseek 1 512 SEEK_SET, .fread 0x02000000 512 1 1, .fstat 2, .fclose 1, .fclose 1]

theorem fileCalls_refine_fragmented : ∃ v : Volume, v.disk = fragmentedDisk ∧
    Matches (fun s' f => f.mem = s'.mem ∧ ∀ fd, f.opened fd = none ↔ fileGetDescriptor s' fd = 0)
      (runAll fileCall (stateWith v 0) fragmentedCalls)
      (runAll (FileViews.call (stateWith v 0).disk v.priv) (.start (stateWith v 0).mem) fragmentedCalls) := by
  obtain ⟨v, hv⟩ := fragmented_resolved
  have h₀ := stateWith_filled v
  obtain ⟨addr, content, heap', hopens, -⟩ := fragmented_opens hv h₀.disk_eq h₀.priv_eq h₀.packed (by decide)
  obtain ⟨priv, heap, part, next, ⟨⟨root, first, rest, hparse, -⟩, -, -⟩, -⟩ := hopens.resolved
  have hresolves : FileCall.Resolves (stateWith v 0) (.fopen [0x30, 0x3A, 0x2F, 0x41] [0x72]) :=
    ⟨fun h => h.1 0 (by decide) rfl, ⟨some root, heap, hparse⟩, fun _ _ _ _ _ => ⟨addr, content, heap', hopens⟩⟩
  refine ⟨v, hv, fileCalls_refine (stateWith_started v) rfl ⟨hresolves, fun _ _ _ => ?_⟩⟩
  exact ⟨trivial, fun _ _ _ => ⟨trivial, fun _ _ _ => ⟨trivial, fun _ _ _ => ⟨trivial, fun _ _ _ => ⟨trivial, fun _ _ _ =>
    trivial⟩⟩⟩⟩⟩

end EnkiOs
