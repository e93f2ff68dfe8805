import EnkiOs.Fat.Volume

/-!
# 一回の呼び出し

`fat16_read_internal_stream` の一回の呼び出しを、続きの呼び出しから切り離す。
-/

namespace EnkiOs
open Machine

variable {d : Disk} {priv : FatPrivate} {cluster offset total : Int}

/-- `start_pos`。クラスタ `clusterTarget` の中での、位置 `offset` の読み始めである。 -/
def fat16StartPos (d : Disk) (priv : FatPrivate) (clusterTarget offset : Int) : Int :=
  i32 (i32 (fat16ClusterToSector priv clusterTarget * d.sectorSize) + Int.tmod offset (fat16ClusterSize d priv))

/-- 一回の呼び出しの読んだものと、続きの呼び出しの `offset` と `total`。 -/
structure StreamCall where
  read : ClusterRead
  next : Option (Int × Int)

def fat16ReadCall (d : Disk) (priv : FatPrivate) (cluster offset total : Int) : Except Fault StreamCall := do
  let clusterTarget ← fat16GetClusterOffset d priv cluster offset
  if clusterTarget < 0 then return ⟨⟨clusterTarget, []⟩, none⟩
  let toRead := fat16ToRead (fat16ClusterSize d priv) total
  let read := diskStreamRead d (fat16StartPos d priv clusterTarget offset) toRead
  if read.result ≠ 0 then return ⟨⟨read.result, read.bytes⟩, none⟩
  if total - toRead > 0 then return ⟨⟨read.result, read.bytes⟩, some (i32 (offset + toRead), total - toRead)⟩
  return ⟨⟨read.result, read.bytes⟩, none⟩

/-- 手続きは、一回の呼び出しの後に、続きがあれば同じ手続きを呼ぶ。 -/
theorem fat16ReadInternalStream_call : fat16ReadInternalStream d priv cluster offset total = (do
    let call ← fat16ReadCall d priv cluster offset total
    match call.next with
    | none => return call.read
    | some next =>
        let rest ← fat16ReadInternalStream d priv cluster next.1 next.2
        return ⟨rest.result, call.read.bytes ++ rest.bytes⟩) := by
  rw [fat16ReadInternalStream, fat16ReadCall]
  split
  · rename_i fault hfault
    rw [hfault]
    rfl
  · rename_i target htarget
    rw [htarget]
    obtain ⟨read, hstream⟩ : ∃ read, diskStreamRead d (fat16StartPos d priv target offset)
      (fat16ToRead (fat16ClusterSize d priv) total) = read := ⟨_, rfl⟩
    rw [fat16StartPos] at hstream
    simp only [bind, Except.bind, diskStreamSeek, ne_eq, not_true_eq_false, if_false, fat16StartPos, hstream]
    by_cases hneg : target < 0
    · simp only [hneg, if_true]
      rfl
    · by_cases hread : read.result = 0
      · by_cases hmore : total - fat16ToRead (fat16ClusterSize d priv) total > 0
        · simp only [hneg, hread, hmore, not_true_eq_false, if_false, dite_true, if_true]
          rfl
        · simp only [hneg, hread, hmore, not_true_eq_false, if_false, dite_false]
          rfl
      · simp only [hneg, hread, not_false_eq_true, if_false, if_true]
        rfl

/-- クラスタの大きさが 0 でなければ、一回の呼び出しは終わり、続きの長さはクラスタ一つぶん短い。 -/
theorem fat16ReadCall_ok (hsize : fat16ClusterSize d priv ≠ 0) (cluster offset total : Int) :
    ∃ call, fat16ReadCall d priv cluster offset total = .ok call ∧
      ∀ next, call.next = some next → fat16ClusterSize d priv < total ∧
        next = (i32 (offset + fat16ClusterSize d priv), total - fat16ClusterSize d priv) := by
  obtain ⟨target, htarget⟩ : ∃ target, fat16GetClusterOffset d priv cluster offset = .ok target := by
    simp only [fat16GetClusterOffset, hsize, if_false]
    exact ⟨_, rfl⟩
  simp only [fat16ReadCall, htarget, bind, Except.bind]
  split
  · exact ⟨_, rfl, by simp⟩
  · split
    · exact ⟨_, rfl, by simp⟩
    · split
      · rename_i hmore
        refine ⟨_, rfl, ?_⟩
        rintro next hnext
        cases hnext
        by_cases hlt : fat16ClusterSize d priv < total
        · rw [fat16ToRead, if_pos hlt]
          exact ⟨hlt, rfl⟩
        · rw [fat16ToRead, if_neg hlt, Int.sub_self] at hmore
          exact absurd hmore (Int.lt_irrefl 0)
      · exact ⟨_, rfl, by simp⟩

theorem fat16ReadCall_divide (hsize : fat16ClusterSize d priv = 0) :
    fat16ReadCall d priv cluster offset total = .error .divide := by
  simp only [fat16ReadCall, fat16GetClusterOffset, hsize, if_true]
  rfl

end EnkiOs
