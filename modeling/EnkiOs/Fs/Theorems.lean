import EnkiOs.Fat.LookupTheorems
import EnkiOs.Fs.Descriptors
import EnkiOs.Fs.Packed

/-!
# ファイル全体の読み取り
-/

namespace EnkiOs
open Machine

/-- ボリューム `v` を読み込み、記述子の先頭の `n` 個が使われている状態。 -/
def stateWith (v : Volume) (n : Nat) : FileState where
  heap := bootHeap
  mem := fun _ => 0
  disk := v.disk
  priv := some v.priv
  fatFiles := fun _ => ⟨⟨0, .file none⟩, 0⟩
  files := fun _ => ⟨0, 0⟩
  fileDescriptors := fun i => if i < n then 1 else 0

theorem stateWith_freeSlot (v : Volume) {n k : Nat} (hlt : n < k) : fileFreeSlot (stateWith v n) k 0 = some n :=
  fileFreeSlot_eq hlt (fun i hi => by simp [stateWith, hi]) (by simp [stateWith])

theorem fragmented_onlyAt {v : Volume} (hv : v.disk = fragmentedDisk) : OnlyAt v [0x41] v.priv.root.total.toNat 0 := by
  have hitem := fragmented_rootItem hv
  have htotal : v.priv.root.total.toNat = 1 := by
    rw [Volume.root_total (small_rootTerminated hv fragmented_root), Int.toNat_natCast]
    exact fragmented_liveCount hv
  rw [htotal]
  refine ⟨by decide, ?_, by omega, ?_⟩
  · rw [NameAt, hitem]
    decide
  · rw [hitem]
    decide

/-- `"0:/A"` を開くと、空いている最初の番号が返る。 -/
theorem stateWith_fopen {v : Volume} (hv : v.disk = fragmentedDisk) {n : Nat} (hn : n < 512) :
    ∃ s, fopen (stateWith v n) [0x30, 0x3A, 0x2F, 0x41] [0x72] = .ok ((n : Int) + 1, s) ∧
      Opened s v (n + 1) fragmentedItem := by
  have hroot := small_rootTerminated hv fragmented_root
  have hle : 1 ≤ v.rootEntries := by
    rw [small_rootEntries hv]
    decide
  obtain ⟨s, h, hopen, -⟩ := fopen_packed hroot (by decide) (fragmented_onlyAt hv) hle (by decide) (by decide) (by decide)
    (s := stateWith v n) rfl rfl bootHeap_packed (by decide) (stateWith_freeSlot v (by omega))
  rw [fragmented_rootItem hv] at hopen
  exact ⟨s, h, hopen⟩

/-- 飛び飛びの鎖のファイルを、最初に開いた状態がある。 -/
theorem fragmented_opened : ∃ (v : Volume) (s : FileState), v.disk = fragmentedDisk ∧
    fopen (stateWith v 0) [0x30, 0x3A, 0x2F, 0x41] [0x72] = .ok (1, s) ∧ Opened s v 1 fragmentedItem := by
  obtain ⟨v, hv⟩ := fragmented_resolved
  obtain ⟨s, hfopen, hopen⟩ := stateWith_fopen hv (show 0 < 512 by decide)
  exact ⟨v, s, hv, hfopen, hopen⟩

end EnkiOs
