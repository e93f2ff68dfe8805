import EnkiOs.Fs.Theorems

/-!
# ファイルの位置の移動

`fat16_seek` は、位置を足す前の値だけを、ファイルの大きさと比べる。
-/

namespace EnkiOs
open Machine

variable {s : FileState} {fd : Int} {item : FatDirItem}

/-! ## 位置だけの変化 -/

/-- 番号 `fd` の位置だけを変えた状態。 -/
def FileState.setPos (s : FileState) (fd : Int) (pos : Word) : FileState :=
  let private_ := (s.files (s.fileDescriptors (fd - 1).toNat)).privateData
  { s with fatFiles := fun a => if a = private_ then { s.fatFiles private_ with pos := pos } else s.fatFiles a }

@[simp] theorem FileState.setPos_descriptor (s : FileState) (fd : Int) (pos : Word) :
    (s.setPos fd pos).descriptor fd = { s.descriptor fd with pos := pos } := if_pos rfl

theorem FileAt.setPos (h : FileAt s fd item) (pos : Word) : FileAt (s.setPos fd pos) fd item := by
  refine ⟨h.present, ?_⟩
  rw [FileState.setPos_descriptor]
  exact h.item_eq

/-! ## 一回の呼び出し -/

/-- 返すコードと、新しい位置。 -/
def seekResult (fileSize pos offset : Word) (mode : Nat) : Int × Word :=
  if fileSize ≤ offset then (- EIO, pos)
  else if mode = SEEK_SET then (0, offset)
  else if mode = SEEK_CUR then (0, pos + offset)
  else if mode = SEEK_END then (-EUNIMP, pos)
  else (-EINVARG, pos)

theorem dirItem_ok {content : FatFileDescriptor} (h : content.item.dirItem = .ok item) :
    ∃ addr, content.item.type = .file (some (addr, item)) := by
  rw [FatItem.dirItem] at h
  split at h
  · rename_i addr dirItem htype
    cases h
    exact ⟨addr, htype⟩
  · cases h
  · cases h
  · cases h

theorem fat16Seek_eq {content : FatFileDescriptor} (h : content.item.dirItem = .ok item) (offset : Word) (mode : Nat) :
    fat16Seek content offset mode = .ok ((seekResult item.fileSize content.pos offset mode).1,
      { content with pos := (seekResult item.fileSize content.pos offset mode).2 }) := by
  obtain ⟨addr, htype⟩ := dirItem_ok h
  rw [fat16Seek, htype, seekResult]
  by_cases hout : item.fileSize ≤ offset
  · simp only [if_pos hout]
  · by_cases hset : mode = SEEK_SET
    · simp only [if_neg hout, if_pos hset]
    · by_cases hcur : mode = SEEK_CUR
      · simp only [if_neg hout, if_neg hset, if_pos hcur]
      · by_cases hend : mode = SEEK_END
        · simp only [if_neg hout, if_neg hset, if_neg hcur, if_pos hend]
        · simp only [if_neg hout, if_neg hset, if_neg hcur, if_neg hend]

theorem FileAt.fseek_eq (h : FileAt s fd item) (offset : Int) (mode : Nat) :
    fseek s fd offset mode =
      .ok ((seekResult item.fileSize (s.descriptor fd).pos (BitVec.ofInt 32 offset) mode).1,
        s.setPos fd (seekResult item.fileSize (s.descriptor fd).pos (BitVec.ofInt 32 offset) mode).2) := by
  have hseek := fat16Seek_eq h.item_eq (BitVec.ofInt 32 offset) mode
  simp only [fseek, h.get, if_neg (h.get ▸ h.present)]
  exact bind_ok.2 ⟨_, hseek, rfl⟩

/-- 位置が決まるのは、ファイルの大きさより小さい値での、二つのモードだけである。 -/
theorem seekResult_cases (fileSize pos offset : Word) (mode : Nat) :
    (offset < fileSize ∧ mode = SEEK_SET ∧ seekResult fileSize pos offset mode = (0, offset)) ∨
    (offset < fileSize ∧ mode = SEEK_CUR ∧ seekResult fileSize pos offset mode = (0, pos + offset)) ∨
    ((offset < fileSize → mode ≠ SEEK_SET ∧ mode ≠ SEEK_CUR) ∧
      ∃ code < 0, seekResult fileSize pos offset mode = (code, pos)) := by
  rw [seekResult]
  by_cases hout : fileSize ≤ offset
  · rw [if_pos hout]
    exact .inr (.inr ⟨fun hlt => absurd hlt (BitVec.not_lt.2 hout), _, by decide, rfl⟩)
  · rw [if_neg hout]
    have hin := BitVec.not_le.1 hout
    by_cases hset : mode = SEEK_SET
    · rw [if_pos hset]
      exact .inl ⟨hin, hset, rfl⟩
    · rw [if_neg hset]
      by_cases hcur : mode = SEEK_CUR
      · rw [if_pos hcur]
        exact .inr (.inl ⟨hin, hcur, rfl⟩)
      · rw [if_neg hcur]
        refine .inr (.inr ⟨fun _ => ⟨hset, hcur⟩, ?_⟩)
        split
        · exact ⟨_, by decide, rfl⟩
        · exact ⟨_, by decide, rfl⟩

/-! ## 呼び出しの列 -/

structure SeekCall where
  offset : Int
  mode : Nat

/-- `pos` が位置のときに、ファイルの終わりを越えない。越えるのは、`SEEK_CUR` の `offset` が大きさより小さく、位置に足すと大きさ以上に
なるときで、`2^32` で折り返せば越えない。 -/
def SeekCall.Lands (call : SeekCall) (fileSize pos : Word) : Prop :=
  call.mode = SEEK_CUR → BitVec.ofInt 32 call.offset < fileSize →
    pos.toNat + (BitVec.ofInt 32 call.offset).toNat < fileSize.toNat ∨
      2 ^ 32 ≤ pos.toNat + (BitVec.ofInt 32 call.offset).toNat

/-- どの呼び出しの後にも、位置はファイルの中にあり、負のコードの返った呼び出しでは変わらない。 -/
def SeeksInside (fd : Int) (item : FatDirItem) : FileState → List SeekCall → Prop
  | _, [] => True
  | s, call :: calls => ∃ result s', fseek s fd call.offset call.mode = .ok (result, s') ∧
      (s'.descriptor fd).pos < item.fileSize ∧ (result < 0 → (s'.descriptor fd).pos = (s.descriptor fd).pos) ∧
      SeeksInside fd item s' calls

/-- どの呼び出しも、その前の位置から、ファイルの終わりを越えない。 -/
def SeeksLand (fd : Int) (item : FatDirItem) : FileState → List SeekCall → Prop
  | _, [] => True
  | s, call :: calls => call.Lands item.fileSize (s.descriptor fd).pos ∧
      ∀ result s', fseek s fd call.offset call.mode = .ok (result, s') → SeeksLand fd item s' calls

theorem seekResult_lt_iff {fileSize pos : Word} (hpos : pos < fileSize) (call : SeekCall) :
    (seekResult fileSize pos (BitVec.ofInt 32 call.offset) call.mode).2 < fileSize ↔ call.Lands fileSize pos := by
  have hlt := (BitVec.ofInt 32 call.offset).isLt
  have hsize := fileSize.isLt
  have hpos' := BitVec.lt_def.1 hpos
  rw [SeekCall.Lands]
  rcases seekResult_cases fileSize pos (BitVec.ofInt 32 call.offset) call.mode with
    ⟨hin, hmode, heq⟩ | ⟨hin, hmode, heq⟩ | ⟨hno, code, -, heq⟩
  · rw [heq, hmode]
    exact iff_of_true hin fun h => absurd h (by decide)
  · rw [heq, BitVec.lt_def, BitVec.toNat_add]
    constructor
    · intro h _ _
      omega
    · intro h
      have hoff := BitVec.lt_def.1 hin
      have := h hmode hin
      omega
  · rw [heq]
    exact iff_of_true hpos fun hmode hin => absurd hmode (hno hin).2

theorem seekResult_failed (fileSize pos offset : Word) (mode : Nat) (h : (seekResult fileSize pos offset mode).1 < 0) :
    (seekResult fileSize pos offset mode).2 = pos := by
  rcases seekResult_cases fileSize pos offset mode with ⟨-, -, heq⟩ | ⟨-, -, heq⟩ | ⟨-, code, -, heq⟩
  · rw [heq] at h
    exact absurd h (Int.lt_irrefl 0)
  · rw [heq] at h
    exact absurd h (Int.lt_irrefl 0)
  · rw [heq]

theorem seeksInside_iff_of_lt (h : FileAt s fd item) (hpos : (s.descriptor fd).pos < item.fileSize) (calls : List SeekCall) :
    SeeksInside fd item s calls ↔ SeeksLand fd item s calls := by
  induction calls generalizing s with
  | nil => exact Iff.rfl
  | cons call calls ih =>
      have hseek := h.fseek_eq call.offset call.mode
      obtain ⟨r, hr⟩ : ∃ r, seekResult item.fileSize (s.descriptor fd).pos (BitVec.ofInt 32 call.offset) call.mode = r := ⟨_, rfl⟩
      have hlands := seekResult_lt_iff hpos call
      have hfailed := seekResult_failed item.fileSize (s.descriptor fd).pos (BitVec.ofInt 32 call.offset) call.mode
      rw [hr] at hseek hlands hfailed
      have hdesc : ((s.setPos fd r.2).descriptor fd).pos = r.2 := by rw [FileState.setPos_descriptor]
      have hnext : r.2 < item.fileSize →
          (SeeksInside fd item (s.setPos fd r.2) calls ↔ SeeksLand fd item (s.setPos fd r.2) calls) :=
        fun hlt => ih (h.setPos r.2) (by rwa [hdesc])
      constructor
      · rintro ⟨result, s', heq, hlt, -, hrest⟩
        cases hseek.symm.trans heq
        rw [hdesc] at hlt
        refine ⟨hlands.1 hlt, fun result' s'' heq' => ?_⟩
        cases hseek.symm.trans heq'
        exact (hnext hlt).1 hrest
      · rintro ⟨hland, hrest⟩
        have hlt := hlands.2 hland
        refine ⟨r.1, s.setPos fd r.2, hseek, by rwa [hdesc], fun hneg => by rw [hdesc, hfailed hneg], ?_⟩
        exact (hnext hlt).2 (hrest _ _ hseek)

/-- 位置がファイルの中に残るのは、どの呼び出しも終わりを越えないときである。 -/
theorem seeksInside_iff (h : FileAt s fd item) (hpos : (s.descriptor fd).pos = 0) (hsize : 1 ≤ item.fileSize.toNat)
    (calls : List SeekCall) : SeeksInside fd item s calls ↔ SeeksLand fd item s calls := by
  refine seeksInside_iff_of_lt h ?_ calls
  rw [hpos, BitVec.lt_def]
  exact hsize

theorem fragmented_seek {s : FileState} (hat : FileAt s 1 fragmentedItem) (hpos : (s.descriptor 1).pos = 0) :
    fseek s 1 600 SEEK_SET = .ok (0, s.setPos 1 600) ∧ ((s.setPos 1 600).descriptor 1).pos = 600 := by
  have hseek := hat.fseek_eq 600 SEEK_SET
  have hresult : seekResult fragmentedItem.fileSize 0 (BitVec.ofInt 32 600) SEEK_SET = (0, 600) := by decide
  rw [hpos, hresult] at hseek
  exact ⟨hseek, by rw [FileState.setPos_descriptor]⟩

theorem seeksInside_iff_short : ∃ (v : Volume) (s : FileState), v.disk = fragmentedDisk ∧
    fopen (stateWith v 0) [0x30, 0x3A, 0x2F, 0x41] [0x72] = .ok (1, s) ∧
    SeeksInside 1 fragmentedItem s [⟨600, SEEK_SET⟩, ⟨400, SEEK_CUR⟩] := by
  obtain ⟨v, s, hv, hfopen, hopen⟩ := fragmented_opened
  have hat := hopen.fileAt (by decide)
  obtain ⟨hseek, hpos⟩ := fragmented_seek hat hopen.pos_eq
  refine ⟨v, s, hv, hfopen, (seeksInside_iff hat hopen.pos_eq (by decide) _).2 ⟨fun h => absurd h (by decide), ?_⟩⟩
  intro result s' heq
  cases hseek.symm.trans heq
  refine ⟨fun _ _ => ?_, fun _ _ _ => trivial⟩
  rw [hpos]
  exact .inl (by decide)

/-- 1024 バイトのファイルで、位置 600 から 600 バイト進む。 -/
theorem seeksInside_fails : ∃ (v : Volume) (s : FileState), v.disk = fragmentedDisk ∧
    fopen (stateWith v 0) [0x30, 0x3A, 0x2F, 0x41] [0x72] = .ok (1, s) ∧ FileAt s 1 fragmentedItem ∧
    (s.descriptor 1).pos = 0 ∧ ¬SeeksInside 1 fragmentedItem s [⟨600, SEEK_SET⟩, ⟨600, SEEK_CUR⟩] := by
  obtain ⟨v, s, hv, hfopen, hopen⟩ := fragmented_opened
  have hat := hopen.fileAt (by decide)
  obtain ⟨hseek, hpos⟩ := fragmented_seek hat hopen.pos_eq
  refine ⟨v, s, hv, hfopen, hat, hopen.pos_eq, ?_⟩
  rw [seeksInside_iff_of_lt hat (by rw [hopen.pos_eq]; decide)]
  rintro ⟨-, hnext⟩
  obtain ⟨hland, -⟩ := hnext _ _ hseek
  rw [hpos] at hland
  exact absurd (hland rfl (by decide)) (by decide)

end EnkiOs
