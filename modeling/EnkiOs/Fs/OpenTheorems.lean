import EnkiOs.Fs.Descriptors
import EnkiOs.Fs.Theorems

/-!
# `fopen` の失敗

`fat16_open` はエラーの番号をポインタに変換して返す。`fopen` の `desc_private < 0` は、ポインタの比較なので成り立たず、
エラーの番号がそのまま記述子に入る。
-/

namespace EnkiOs
open Machine

variable {s s' : FileState} {fileName mode : List Byte}

/-- 経路が読め、ドライブがあり、モードが正しく、ファイルシステムが記述子を作る。 -/
def RealOpen (s : FileState) (fileName mode : List Byte) : Prop :=
  ∃ priv heap part next addr content heap', ReachesOpen s fileName mode priv heap part next ∧
    fat16Open heap s.disk priv part next (fileGetModeFromStr mode) = .ok (addr, some content, heap')

/-- `fopen` が値を返す。正の番号を返すのは記述子ができたときだけで、そのほかは 0 以下の値を返して、表を変えない。 -/
def ReportsFailure (s : FileState) (fileName mode : List Byte) : Prop :=
  ∃ fd s', fopen s fileName mode = .ok (fd, s') ∧ (0 < fd → RealOpen s fileName mode) ∧
    (¬RealOpen s fileName mode → fd ≤ 0 ∧ s'.fileDescriptors = s.fileDescriptors)

/-- `open` の結果からの、`fopen` の結果。 -/
theorem reportsFailure_of_opened {priv : FatPrivate} {heap heap' : Heap} {part : List Byte} {next : List (List Byte)}
    {addr : Word} {content : Option FatFileDescriptor} (hreach : ReachesOpen s fileName mode priv heap part next)
    (hopen : fat16Open heap s.disk priv part next (fileGetModeFromStr mode) = .ok (addr, content, heap')) :
    ReportsFailure s fileName mode ↔ FilesFull s ∨ ((∃ made, content = some made) ∧ (kzalloc heap' 16).1 ≠ 0) := by
  have hreal : RealOpen s fileName mode ↔ ∃ made, content = some made := by
    constructor
    · rintro ⟨priv', heap₁, part', next', addr', made, heap₂, hreach', hopen'⟩
      obtain ⟨rfl, rfl, rfl, rfl⟩ := hreach.unique hreach'
      cases hopen.symm.trans hopen'
      exact ⟨made, rfl⟩
    · rintro ⟨made, rfl⟩
      exact ⟨priv, heap, part, next, addr, made, heap', hreach, hopen⟩
  have hfopen : fopen s fileName mode = fopenDescriptor (openedState s addr content heap') addr := by
    rw [hreach.fopen_eq, hopen]
    rfl
  rw [ReportsFailure, hfopen, hreal]
  have hcongr := fileFreeSlot_openedState s addr content heap' ENKI_MAX_FILE_DESCRIPTORS 0
  rw [filesFull_iff]
  cases hslot : fileFreeSlot s ENKI_MAX_FILE_DESCRIPTORS 0 with
  | none =>
      refine iff_of_true ⟨0, _, fopenDescriptor_full (hcongr.trans hslot) addr, ?_, fun _ => ⟨Int.le_refl 0, rfl⟩⟩ (.inl rfl)
      intro h
      exact absurd h (Int.lt_irrefl 0)
  | some i =>
      have hfree : ¬some i = none := by simp
      by_cases hnull : (kzalloc heap' 16).1 = 0
      · refine iff_of_false ?_ ?_
        · rintro ⟨fd, s', h, -⟩
          rw [fopenDescriptor_null (hcongr.trans hslot) addr hnull] at h
          cases h
        · rintro (h | ⟨-, h⟩)
          · exact hfree h
          · exact h hnull
      · rw [fopenDescriptor_new (hcongr.trans hslot) addr hnull]
        constructor
        · rintro ⟨fd, s', h, hpos, -⟩
          cases h
          exact .inr ⟨hpos (by omega), hnull⟩
        · rintro (h | ⟨h, -⟩)
          · exact absurd h hfree
          · exact ⟨_, _, rfl, fun _ => h, fun hno => absurd h hno⟩

/-- `fopen` が失敗を正しく返すのは、経路の読み取りが値を返し、`open` を呼ぶなら、それが値を返して、番号がすべて使われているか、
または、記述子を作っていて、表に載せる記録も割り当てられるとき、そのときに限る。 -/
theorem reportsFailure_iff (s : FileState) (fileName mode : List Byte) :
    ReportsFailure s fileName mode ↔
      (∀ fault, pathParse s.heap fileName ≠ .error fault) ∧
      ∀ priv heap part next, ReachesOpen s fileName mode priv heap part next →
        ∃ addr content heap', fat16Open heap s.disk priv part next (fileGetModeFromStr mode) = .ok (addr, content, heap') ∧
          (FilesFull s ∨ ((∃ made, content = some made) ∧ (kzalloc heap' 16).1 ≠ 0)) := by
  cases hparse : pathParse s.heap fileName with
  | error fault =>
      refine iff_of_false ?_ (fun h => h.1 fault rfl)
      rintro ⟨fd, s', h, -⟩
      rw [fopen_unparsed hparse] at h
      cases h
  | ok parsed =>
      by_cases hreach : ∃ priv heap part next, ReachesOpen s fileName mode priv heap part next
      · obtain ⟨priv, heap, part, next, hreach⟩ := hreach
        cases hopen : fat16Open heap s.disk priv part next (fileGetModeFromStr mode) with
        | error fault =>
            refine iff_of_false ?_ ?_
            · rintro ⟨fd, s', h, -⟩
              rw [hreach.fopen_eq, hopen] at h
              cases h
            · rintro ⟨-, h⟩
              obtain ⟨addr, content, heap', h, -⟩ := h priv heap part next hreach
              cases hopen.symm.trans h
        | ok made =>
            obtain ⟨addr, content, heap'⟩ := made
            rw [reportsFailure_of_opened hreach hopen]
            constructor
            · intro h
              refine ⟨by simp, ?_⟩
              intro priv' heap₁ part' next' hreach'
              obtain ⟨rfl, rfl, rfl, rfl⟩ := hreach.unique hreach'
              exact ⟨addr, content, heap', hopen, h⟩
            · rintro ⟨-, h⟩
              obtain ⟨addr', content', heap₁, hopen', h⟩ := h priv heap part next hreach
              cases hopen.symm.trans hopen'
              exact h
      · obtain ⟨fd, s', hfopen, hle, htable⟩ := fopen_early hparse hreach
        refine iff_of_true ⟨fd, s', hfopen, fun hpos => by omega, fun _ => ⟨hle, htable⟩⟩ ⟨by simp, ?_⟩
        intro priv heap part next h
        exact absurd ⟨priv, heap, part, next, h⟩ hreach

/-! ## 書き込みのモード -/

theorem stateWith_reaches (v : Volume) (n : Nat) {mode : List Byte} (hvalid : fileGetModeFromStr mode ≠ .invalid) :
    ∃ heap, ReachesOpen (stateWith v n) [0x30, 0x3A, 0x2F, 0x41] mode v.priv heap [0x41] [] ∧ Packed heap 3 := by
  obtain ⟨heap, hparse, hp⟩ := pathParse_packed bootHeap_packed (by decide) (show [(0x41 : Byte)] ≠ [] by decide)
    (by decide) (by decide)
  exact ⟨heap, ⟨⟨_, _, [], hparse, rfl, rfl, rfl, rfl⟩, rfl, hvalid⟩, hp⟩

/-- 読み込み専用なのに、書き込みのモードで開いても、正の番号が返る。 -/
theorem reportsFailure_fails_write : ∃ (v : Volume) (s : FileState), v.disk = fragmentedDisk ∧
    fopen (stateWith v 0) [0x30, 0x3A, 0x2F, 0x41] [0x77] = .ok (1, s) ∧ s.fileDescriptors 0 ≠ 0 ∧
    ¬RealOpen (stateWith v 0) [0x30, 0x3A, 0x2F, 0x41] [0x77] ∧
    ¬ReportsFailure (stateWith v 0) [0x30, 0x3A, 0x2F, 0x41] [0x77] := by
  obtain ⟨v, hv⟩ := fragmented_resolved
  obtain ⟨heap, hreach, hp⟩ := stateWith_reaches v 0 (show fileGetModeFromStr [0x77] ≠ .invalid by decide)
  have hopen : fat16Open heap v.disk v.priv [0x41] [] (fileGetModeFromStr [0x77]) =
      .ok (BitVec.ofInt 32 (-ERDONLY), none, heap) := rfl
  obtain ⟨heap', hk, hne, -⟩ := hp.small (show 0 < 16 by decide) (by decide) (by decide)
  have hslot : fileFreeSlot (openedState (stateWith v 0) (BitVec.ofInt 32 (-ERDONLY)) none heap)
      ENKI_MAX_FILE_DESCRIPTORS 0 = some 0 := by
    rw [fileFreeSlot_openedState]
    exact stateWith_freeSlot v (by decide)
  have halloc : (kzalloc heap 16).1 ≠ 0 := by
    rw [hk]
    exact hne
  have hfopen : fopen (stateWith v 0) [0x30, 0x3A, 0x2F, 0x41] [0x77] = .ok (1,
      newDescriptorState (openedState (stateWith v 0) (BitVec.ofInt 32 (-ERDONLY)) none heap) 0
        (BitVec.ofInt 32 (-ERDONLY))) := by
    rw [hreach.fopen_eq]
    refine bind_ok.2 ⟨_, hopen, ?_⟩
    exact fopenDescriptor_new hslot _ halloc
  refine ⟨v, _, hv, hfopen, ?_, ?_, ?_⟩
  · simp only [newDescriptorState, if_true]
    exact halloc
  · rintro ⟨priv', heap₁, part', next', addr', made, heap₂, hreach', hopen'⟩
    obtain ⟨rfl, rfl, rfl, rfl⟩ := hreach.unique hreach'
    cases hopen.symm.trans hopen'
  · rw [reportsFailure_of_opened hreach hopen]
    rintro (hfull | ⟨⟨made, hmade⟩, -⟩)
    · exact hfull 0 (by decide) rfl
    · cases hmade

end EnkiOs
