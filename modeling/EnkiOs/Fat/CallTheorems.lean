import EnkiOs.Fat.Lemmas.Call
import EnkiOs.Fat.Theorems
import Mathlib.Logic.Relation

/-!
# 読み取りの停止についての結果

`fat16_read_internal_stream` は自分自身を呼ぶ。続きの呼び出しの長さは、クラスタの大きさだけ減る。
-/

namespace EnkiOs
open Machine Relation

/-- 引数が `a` の呼び出しが、引数が `b` の呼び出しを行う。引数は `offset` と `total` の組である。 -/
def CallsNext (d : Disk) (priv : FatPrivate) (cluster : Int) (a b : Int × Int) : Prop :=
  ∃ call, fat16ReadCall d priv cluster a.1 a.2 = .ok call ∧ call.next = some b

/-- どの呼び出しも 0 での割り算をせずに終わり、続きの呼び出しの長さは正で、元より短く、呼び出しの列は限りなくは続かない。 -/
structure ReadsSafely (d : Disk) (priv : FatPrivate) (cluster offset total : Int) : Prop where
  call : ∀ a, ReflTransGen (CallsNext d priv cluster) (offset, total) a →
    ∃ call, fat16ReadCall d priv cluster a.1 a.2 = .ok call
  decreases : ∀ a b, ReflTransGen (CallsNext d priv cluster) (offset, total) a → CallsNext d priv cluster a b →
    0 < b.2 ∧ b.2 < a.2
  ends : Acc (fun b a => CallsNext d priv cluster a b) (offset, total)
  result : ∃ read, fat16ReadInternalStream d priv cluster offset total = .ok read

section

variable {d : Disk} {priv : FatPrivate} {cluster : Int} (hsize : 0 < fat16ClusterSize d priv)
include hsize

theorem CallsNext.decreases {a b : Int × Int} (h : CallsNext d priv cluster a b) : 0 < b.2 ∧ b.2 < a.2 := by
  obtain ⟨call, hcall, hnext⟩ := h
  obtain ⟨call', hcall', hstep⟩ := fat16ReadCall_ok (Ne.symm (Int.ne_of_lt hsize)) cluster a.1 a.2
  cases hcall.symm.trans hcall'
  obtain ⟨hlt, rfl⟩ := hstep b hnext
  exact ⟨Int.sub_pos_of_lt hlt, Int.sub_lt_self _ hsize⟩

theorem callsNext_acc (cluster : Int) (a : Int × Int) : Acc (fun b a => CallsNext d priv cluster a b) a := by
  -- 長さについての帰納法。
  induction hn : a.2.toNat using Nat.strongRecOn generalizing a with
  | _ n ih =>
      refine Acc.intro a fun b hb => ?_
      obtain ⟨hpos, hlt⟩ := hb.decreases hsize
      exact ih b.2.toNat (by omega) b rfl

theorem fat16ReadInternalStream_total (cluster : Int) (a : Int × Int) :
    ∃ read, fat16ReadInternalStream d priv cluster a.1 a.2 = .ok read := by
  induction callsNext_acc hsize cluster a with
  | intro a _ ih =>
      obtain ⟨call, hcall, -⟩ := fat16ReadCall_ok (Ne.symm (Int.ne_of_lt hsize)) cluster a.1 a.2
      rw [fat16ReadInternalStream_call, hcall]
      cases hnext : call.next with
      | none =>
          simp only [bind, Except.bind, hnext]
          exact ⟨_, rfl⟩
      | some next =>
          obtain ⟨rest, hrest⟩ := ih next ⟨call, hcall, hnext⟩
          simp only [bind, Except.bind, hnext, hrest]
          exact ⟨_, rfl⟩

end

/-- 読み取りが安全に終わるのは、クラスタのセクタの数が 0 でないとき、そのときに限る。FAT の内容にはよらない。 -/
theorem readsSafely_iff (v : Volume) (cluster offset total : Int) :
    ReadsSafely v.disk v.priv cluster offset total ↔ v.sectPerCluster ≠ 0 := by
  constructor
  · intro h hzero
    obtain ⟨call, hcall⟩ := h.call _ .refl
    have hsize : fat16ClusterSize v.disk v.priv = 0 := by
      rw [v.fat16ClusterSize_eq, Volume.clusterSize, hzero]
      rfl
    rw [fat16ReadCall_divide hsize] at hcall
    cases hcall
  · intro hspc
    have hsize : 0 < fat16ClusterSize v.disk v.priv := by
      have := v.clusterSize_pos hspc
      rw [v.fat16ClusterSize_eq]
      omega
    refine ⟨?_, ?_, callsNext_acc hsize cluster _, fat16ReadInternalStream_total hsize cluster (offset, total)⟩
    · intro a _
      obtain ⟨call, hcall, -⟩ := fat16ReadCall_ok (Ne.symm (Int.ne_of_lt hsize)) cluster a.1 a.2
      exact ⟨call, hcall⟩
    · intro a b _ hnext
      exact hnext.decreases hsize

/-- クラスタのセクタの数が 0 の、`smallHeaderBytes` と同じ配置のヘッダ。 -/
def emptyClusterHeaderBytes : List Byte :=
  List.replicate 13 0 ++ [0, 1, 0, 1, 16, 0] ++ List.replicate 3 0 ++ [1] ++ List.replicate 15 0 ++ [0x29] ++
    List.replicate 23 0

/-- 受け入れられたボリュームで、最初の一バイトの読み取りが 0 での割り算になる。 -/
theorem readsSafely_fails_zero : ∃ v : Volume, v.disk = headedDisk emptyClusterHeaderBytes (fun _ => 0) ∧
    fat16ReadInternalStream v.disk v.priv 2 0 1 = .error .divide ∧ ¬ReadsSafely v.disk v.priv 2 0 1 := by
  obtain ⟨v, hv⟩ : ∃ v : Volume, v.disk = headedDisk emptyClusterHeaderBytes (fun _ => 0) :=
    headedDisk_blank_resolved rfl (by decide) (by decide) (by decide)
  have hfault : fat16ReadInternalStream v.disk v.priv 2 0 1 = .error .divide := by
    have hsize : fat16ClusterSize v.disk v.priv = 0 := by
      rw [fat16ClusterSize, Volume.headed_header hv]
      exact Int.zero_mul _
    rw [fat16ReadInternalStream_call, fat16ReadCall_divide hsize]
    rfl
  refine ⟨v, hv, hfault, ?_⟩
  rintro ⟨-, -, -, read, hread⟩
  rw [hfault] at hread
  cases hread

end EnkiOs
