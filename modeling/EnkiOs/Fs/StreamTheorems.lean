import EnkiOs.Fat.Lemmas.Stream
import EnkiOs.Fs.SeekTheorems
import Mathlib.Logic.Relation

/-!
# 続けて読むファイル

一つの番号での `fread` と `fseek` の列を、位置のある流れとして定める。`fat16_read` は、進んだ位置を記述子に戻さない。
-/

namespace EnkiOs
open Machine

variable {v : Volume} {s s' : FileState} {fd : Int} {item : FatDirItem} {chain : List Nat} {buf size blocks : Word}

/-! ## 呼び出しの列 -/

/-- 状態と、流れの位置。位置は、開いたときに 0 で、`fseek` で決まり、`fread` で進む。`moved` は、開くか `SEEK_SET` で位置を決めた後に、
読んだかどうかである。 -/
structure DescriptorState where
  state : FileState
  position : Nat
  moved : Bool

inductive DescriptorCall
  | fread (buf size blocks : Word)
  | fseek (offset : Int) (mode : Nat)

/-- 成功して、ファイルの中に収まる呼び出し。 -/
inductive DescriptorStep (fd : Int) (item : FatDirItem) : DescriptorState → DescriptorCall → DescriptorState → Prop
  | fread {s s' : FileState} {p : Nat} {moved : Bool} {buf size blocks : Word} {result : Int}
      (h : fread s buf size blocks fd = .ok (result, s')) (hr : 0 ≤ result)
      (hin : p + blocks.toNat * size.toNat ≤ item.fileSize.toNat) :
      DescriptorStep fd item ⟨s, p, moved⟩ (.fread buf size blocks) ⟨s', p + blocks.toNat * size.toNat, true⟩
  | set {s s' : FileState} {p q : Nat} {moved : Bool} {offset : Int} (h : fseek s fd offset SEEK_SET = .ok (0, s'))
      (hq : (q : Int) = offset) (hin : q ≤ item.fileSize.toNat) :
      DescriptorStep fd item ⟨s, p, moved⟩ (.fseek offset SEEK_SET) ⟨s', q, false⟩
  | cur {s s' : FileState} {p q : Nat} {moved : Bool} {offset : Int} (h : fseek s fd offset SEEK_CUR = .ok (0, s'))
      (hq : (q : Int) = p + offset) (hin : q ≤ item.fileSize.toNat) :
      DescriptorStep fd item ⟨s, p, moved⟩ (.fseek offset SEEK_CUR) ⟨s', q, moved⟩

def DescriptorRun (fd : Int) (item : FatDirItem) : DescriptorState → DescriptorState → Prop :=
  Relation.ReflTransGen fun t t' => ∃ call, DescriptorStep fd item t call t'

/-- `t` から `t'` への `fread` が、流れの位置からのファイルの内容を `buf` に書いた。 -/
def Delivers (v : Volume) (chain : List Nat) (t : DescriptorState) (buf size blocks : Word) (t' : DescriptorState) : Prop :=
  t'.state.mem.read buf (blocks.toNat * size.toNat) =
    ((chain.flatMap v.clusterBytes).drop t.position).take (blocks.toNat * size.toNat)

/-! ## 一回の呼び出し -/

/-- 成功した `fread` は、メモリだけを書き換える。 -/
theorem FileAt.fread_ok (hat : FileAt s fd item) {priv : FatPrivate} (hpriv : s.priv = some priv) {result : Int}
    (h : fread s buf size blocks fd = .ok (result, s')) (hr : 0 ≤ result) :
    0 < size.toNat ∧ 0 < blocks.toNat ∧ ∃ mem, s' = { s with mem := mem } ∧
      fat16Read s.disk priv (s.descriptor fd) size blocks buf s.mem = .ok (result, mem) := by
  rw [fread] at h
  by_cases hargs : size = 0 ∨ blocks = 0 ∨ fd < 1
  · rw [if_pos hargs] at h
    cases h
    exact absurd hr (by decide)
  · simp only [if_neg hargs, hat.get, if_neg (hat.get ▸ hat.present)] at h
    split at h
    · rename_i hnone
      rw [hpriv] at hnone
      cases hnone
    · rename_i priv' hsome
      obtain ⟨⟨result', mem⟩, hread, h⟩ := bind_ok.1 h
      cases h
      simp only [not_or] at hargs
      rw [hpriv] at hsome
      cases hsome
      exact ⟨BitVec.toNat_pos_of_ne_zero hargs.1,
        BitVec.toNat_pos_of_ne_zero hargs.2.1, mem, rfl, hread⟩

theorem FileAt.fseek_ok (hat : FileAt s fd item) {offset : Int} {mode : Nat} (h : fseek s fd offset mode = .ok (0, s')) :
    (mode = SEEK_SET ∧ s' = s.setPos fd (BitVec.ofInt 32 offset)) ∨
    (mode = SEEK_CUR ∧ s' = s.setPos fd ((s.descriptor fd).pos + BitVec.ofInt 32 offset)) := by
  rw [hat.fseek_eq] at h
  rcases seekResult_cases item.fileSize (s.descriptor fd).pos (BitVec.ofInt 32 offset) mode with
    ⟨-, hmode, heq⟩ | ⟨-, hmode, heq⟩ | ⟨-, code, hneg, heq⟩
  · rw [heq] at h
    cases h
    exact .inl ⟨hmode, rfl⟩
  · rw [heq] at h
    cases h
    exact .inr ⟨hmode, rfl⟩
  · rw [heq] at h
    cases h
    exact absurd hneg (by decide)

/-! ## 不変条件 -/

/-- 読む前なら、記述子の位置は、流れの位置である。 -/
structure DescriptorInv (v : Volume) (fd : Int) (item : FatDirItem) (t : DescriptorState) : Prop where
  disk_eq : t.state.disk = v.disk
  priv_eq : t.state.priv = some v.priv
  file : FileAt t.state fd item
  pos_eq : t.moved = false → (t.state.descriptor fd).pos.toNat = t.position

theorem DescriptorStep.inv {t t' : DescriptorState} {call : DescriptorCall} (hstep : DescriptorStep fd item t call t')
    (hi : DescriptorInv v fd item t) : DescriptorInv v fd item t' := by
  have hsize := item.fileSize.isLt
  cases hstep with
  | fread h hr hin =>
      obtain ⟨-, -, mem, rfl, -⟩ := hi.file.fread_ok hi.priv_eq h hr
      exact ⟨hi.disk_eq, hi.priv_eq, ⟨hi.file.present, hi.file.item_eq⟩, fun h => by cases h⟩
  | @set s s' p q moved offset h hq hin =>
      rcases hi.file.fseek_ok h with ⟨-, rfl⟩ | ⟨hmode, -⟩
      · refine ⟨hi.disk_eq, hi.priv_eq, hi.file.setPos _, fun _ => ?_⟩
        rw [FileState.setPos_descriptor, ← hq]
        show (BitVec.ofInt 32 (q : Int)).toNat = q
        rw [BitVec.ofInt_natCast, BitVec.toNat_ofNat, Nat.mod_eq_of_lt (by omega)]
      · exact absurd hmode (by decide)
  | @cur s s' p q moved offset h hq hin =>
      rcases hi.file.fseek_ok h with ⟨hmode, -⟩ | ⟨-, rfl⟩
      · exact absurd hmode (by decide)
      · refine ⟨hi.disk_eq, hi.priv_eq, hi.file.setPos _, fun hmoved => ?_⟩
        have hpos : (s.descriptor fd).pos.toNat = p := hi.pos_eq hmoved
        rw [FileState.setPos_descriptor]
        show ((s.descriptor fd).pos + BitVec.ofInt 32 offset).toNat = q
        rw [BitVec.toNat_add, BitVec.toNat_ofInt, hpos]
        omega

theorem DescriptorRun.inv {t t' : DescriptorState} (hrun : DescriptorRun fd item t t') (hi : DescriptorInv v fd item t) :
    DescriptorInv v fd item t' := by
  induction hrun with
  | refl => exact hi
  | tail _ hstep ih =>
      obtain ⟨call, hstep⟩ := hstep
      exact hstep.inv ih

/-! ## 流れ -/

end EnkiOs
