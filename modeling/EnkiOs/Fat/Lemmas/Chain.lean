import EnkiOs.Fat.Volume

/-!
# FAT の鎖

`fat16_get_cluster_offset` は、列挙された値に出会わない限り、FAT の項目を順にたどる。
-/

namespace EnkiOs.Volume
open Machine

variable (v : Volume)

/-- `start` から項目を `k` 回たどったクラスタ。 -/
def cluster (start k : Nat) : Nat := v.fatEntry^[k] start

@[simp] theorem cluster_zero (start : Nat) : v.cluster start 0 = start := rfl

theorem cluster_succ (start k : Nat) : v.cluster start (k + 1) = v.cluster (v.fatEntry start) k := rfl

theorem cluster_succ' (start k : Nat) : v.cluster start (k + 1) = v.fatEntry (v.cluster start k) :=
  Function.iterate_succ_apply' _ _ _

theorem cluster_lt {start : Nat} (h : start < 2 ^ 16) (k : Nat) : v.cluster start k < 2 ^ 16 := by
  cases k with
  | zero => exact h
  | succ k =>
      rw [cluster_succ']
      exact v.fatEntry_lt _

theorem fat16ClusterLoop_of_noStop {start k : Nat} (hs : start < 2 ^ 16)
    (h : ∀ i < k, fat16IsStop (v.cluster start (i + 1)) = false) :
    fat16ClusterLoop v.disk v.priv k start = v.cluster start k := by
  induction k generalizing start with
  | zero => rfl
  | succ k ih =>
      have hfirst : fat16IsStop (v.fatEntry start) = false := h 0 (Nat.succ_pos k)
      simp only [fat16ClusterLoop, v.fat16GetFatEntry_eq hs, hfirst, Bool.false_eq_true, if_false]
      rw [cluster_succ]
      exact ih (v.fatEntry_lt start) fun i hi => h (i + 1) (Nat.succ_lt_succ hi)

theorem fat16ClusterLoop_of_stop {start k : Nat} (hs : start < 2 ^ 16)
    (h : ∃ i < k, fat16IsStop (v.cluster start (i + 1)) = true) :
    fat16ClusterLoop v.disk v.priv k start = - EIO := by
  induction k generalizing start with
  | zero =>
      obtain ⟨i, hi, _⟩ := h
      exact absurd hi (Nat.not_lt_zero i)
  | succ k ih =>
      simp only [fat16ClusterLoop, v.fat16GetFatEntry_eq hs]
      cases hfirst : fat16IsStop (v.fatEntry start) with
      | true => rfl
      | false =>
          -- 最初の項目で止まらないので、止まる項目は次のクラスタから先にある。
          obtain ⟨i, hi, hstop⟩ := h
          cases i with
          | zero => exact absurd (hstop.symm.trans hfirst) (by decide)
          | succ i => exact ih (v.fatEntry_lt start) ⟨i, Nat.lt_of_succ_lt_succ hi, hstop⟩

/-- `offset` を渡したときに、たどる項目の数。 -/
def ahead (offset : Nat) : Nat := (Int.tdiv (i32 offset) v.clusterSize).toNat

/-- `int` に収まる位置までは、クラスタの番号である。 -/
theorem ahead_of_lt {offset : Nat} (h : offset < 2 ^ 31) : v.ahead offset = offset / v.clusterSize := by
  rw [ahead, i32_of_bounds (by omega) (by omega)]
  rfl

theorem fat16GetClusterOffset_of_zero (h : v.sectPerCluster = 0) (start offset : Int) :
    fat16GetClusterOffset v.disk v.priv start offset = .error .divide := by
  simp [fat16GetClusterOffset, fat16ClusterSize_eq, clusterSize, h]

theorem clusterSize_pos (h : v.sectPerCluster ≠ 0) : 0 < v.clusterSize := by
  rw [clusterSize]
  omega

theorem fat16GetClusterOffset_eq (hspc : v.sectPerCluster ≠ 0) (start offset : Nat) :
    fat16GetClusterOffset v.disk v.priv start offset = .ok (fat16ClusterLoop v.disk v.priv (v.ahead offset) start) := by
  have hne : (v.clusterSize : Int) ≠ 0 := by have := v.clusterSize_pos hspc; omega
  simp only [fat16GetClusterOffset, fat16ClusterSize_eq, hne, if_false, ahead]

theorem fat16GetClusterOffset_ahead_noStop (hspc : v.sectPerCluster ≠ 0) {start offset : Nat} (hs : start < 2 ^ 16)
    (h : ∀ i < v.ahead offset, fat16IsStop (v.cluster start (i + 1)) = false) :
    fat16GetClusterOffset v.disk v.priv start offset = .ok (v.cluster start (v.ahead offset) : Int) := by
  rw [v.fat16GetClusterOffset_eq hspc, v.fat16ClusterLoop_of_noStop hs h]

theorem fat16GetClusterOffset_ahead_stop (hspc : v.sectPerCluster ≠ 0) {start offset : Nat} (hs : start < 2 ^ 16)
    (h : ∃ i < v.ahead offset, fat16IsStop (v.cluster start (i + 1)) = true) :
    fat16GetClusterOffset v.disk v.priv start offset = .ok (- EIO) := by
  rw [v.fat16GetClusterOffset_eq hspc, v.fat16ClusterLoop_of_stop hs h]

/-- 位置 `offset` までに止まる項目が無ければ、その位置のクラスタが返る。 -/
theorem fat16GetClusterOffset_of_noStop (hspc : v.sectPerCluster ≠ 0) {start : Nat} {offset : Nat} (hlt : offset < 2 ^ 31)
    (hs : start < 2 ^ 16)
    (h : ∀ i < offset / v.clusterSize, fat16IsStop (v.cluster start (i + 1)) = false) :
    fat16GetClusterOffset v.disk v.priv start offset = .ok (v.cluster start (offset / v.clusterSize) : Int) := by
  rw [← v.ahead_of_lt hlt] at h ⊢
  exact v.fat16GetClusterOffset_ahead_noStop hspc hs h

end EnkiOs.Volume
