import EnkiOs.Lib.Int32

/-!
# 状態コードと設定の定数

`kernel/include/kernel/status.h` と `kernel/include/kernel/config.h` の値のうち、モデルが使うもの。
-/

namespace EnkiOs
open Machine

/-! ## 状態コード -/

abbrev EIO : Int := 1
abbrev EINVARG : Int := 2
abbrev ENOMEM : Int := 3
abbrev EBADPATH : Int := 4
abbrev EFSNOTUS : Int := 5
abbrev ERDONLY : Int := 6
abbrev EUNIMP : Int := 7
abbrev EISTKN : Int := 8
abbrev EINVFMT : Int := 9

/-! ## 設定 -/

abbrev ENKI_SECTOR_SIZE : Int := 512

abbrev ENKI_HEAP_ADDRESS : Word := 0x01000000
abbrev ENKI_HEAP_SIZE_BYTES : Word := 1024 * 1024 * 100
abbrev ENKI_HEAP_BLOCK_SIZE : Nat := 4096

abbrev ENKI_MAX_FILE_DESCRIPTORS : Nat := 512

abbrev ENKI_MAX_PATH : Nat := 108
abbrev ENKI_MAX_PGM_ALLOCATIONS : Nat := 1024
abbrev ENKI_MAX_PROCESSES : Int := 12

abbrev ENKI_KEYBOARD_BUFFER_SIZE : Nat := 1024

abbrev ENKI_USER_PGM_STACK_SIZE : Nat := 1024 * 16
abbrev ENKI_PGM_VIRT_ADDR : Word := 0x400000
abbrev ENKI_PGM_VIRT_STACK_ADDR_START : Word := 0x3FF000
abbrev ENKI_PGM_VIRT_STACK_ADDR_END : Word := 0x3FF000 - 1024 * 16

abbrev USER_DATA_SEG : Word := 0x23
abbrev USER_CODE_SEG : Word := 0x1B

/-! ## 値を返さない計算 -/

/-- 値を返さずに終わる計算。`divide` は 0 での割り算、`hang` は終わらない繰り返し、`outOfBounds` は配列の外の
読み取り、`nullDeref` は空のポインタの参照、`wrongItem` は共用体の別の側の読み取り、`pageFault` は割り付けのない
ページの参照、`panic` は停止である。 -/
inductive Fault
  | divide
  | hang
  | outOfBounds
  | nullDeref
  | wrongItem
  | pageFault
  | panic
deriving DecidableEq, Repr

/-- 続けた計算が値を返すのは、どちらも値を返すときである。 -/
theorem bind_ok {α β : Type} {x : Except Fault α} {f : α → Except Fault β} {b : β} :
    x >>= f = .ok b ↔ ∃ a, x = .ok a ∧ f a = .ok b := by
  cases x with
  | error fault => simp [bind, Except.bind]
  | ok a => simp [bind, Except.bind]

/-- 続けた計算が `fault` で終わらないのは、どちらもそれで終わらないときである。 -/
theorem bind_ne_error {α β : Type} {x : Except Fault α} {f : α → Except Fault β} {fault : Fault} (hx : x ≠ .error fault)
    (hf : ∀ a, x = .ok a → f a ≠ .error fault) : x >>= f ≠ .error fault := by
  cases x with
  | error e =>
      intro h
      cases h
      exact hx rfl
  | ok a => exact hf a rfl

end EnkiOs
