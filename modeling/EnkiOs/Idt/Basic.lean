import EnkiOs.Lib.Gate
import EnkiOs.Lib.Half
import EnkiOs.Status

/-!
# IDT

`kernel/kernel/idt.c` のうち、門の表の初期化。C の手続きと割り込みの入口は、そのアドレスで渡す。手続きの登録は、振り分けとともに別に扱う。
-/

namespace EnkiOs
open Machine

abbrev ENKI_TOTAL_INTERRUPTS : Nat := 512

/-- `sizeof(struct idt_entry)` -/
abbrev IDT_ENTRY_SIZE : Nat := 8

/-- `struct idt_entry` の項目に、ソースの代入の順に書く。 -/
def idtSet (idtEntries : Word) (i : Nat) (addr : Word) (mem : Memory) : Memory :=
  let entry := idtEntries + BitVec.ofNat 32 (IDT_ENTRY_SIZE * i)
  let mem := mem.setHalf entry ((addr &&& 0x0000FFFF).setWidth 16)
  let mem := mem.setHalf (entry + 2) 0x08
  let mem := mem.write (entry + 4) [0x00]
  let mem := mem.write (entry + 5) [0xEE]
  mem.setHalf (entry + 6) ((addr >>> 16).setWidth 16)

/-- `i` からの残りの回数を持つ。`interrupt_ptr_table` は並びで渡す。 -/
def idtSetLoop (idtEntries : Word) (table : List Word) : Nat → Nat → Memory → Except Fault Memory
  | 0, _, mem => .ok mem
  | k + 1, i, mem =>
      match table[i]? with
      | none => .error .outOfBounds
      | some addr => idtSetLoop idtEntries table k (i + 1) (idtSet idtEntries i addr mem)

/-- `idt_init` が `lidt` に渡す `idtr` と、門の表の置かれたメモリ。`idtr` を置く変数と、手続きの登録は、このメモリの外にある。 -/
def idtInit (idtEntries : Word) (table : List Word) (idtZero syscallWrapper : Word) (mem : Memory) :
    Except Fault (BitVec 16 × Word × Memory) := do
  let mem := mem.zero idtEntries (IDT_ENTRY_SIZE * ENKI_TOTAL_INTERRUPTS)
  let limit := BitVec.ofNat 16 (IDT_ENTRY_SIZE * ENKI_TOTAL_INTERRUPTS - 1)
  let mem ← idtSetLoop idtEntries table ENKI_TOTAL_INTERRUPTS 0 mem
  let mem := idtSet idtEntries 0x0 idtZero mem
  let mem := idtSet idtEntries 0x80 syscallWrapper mem
  return (limit, idtEntries, mem)

end EnkiOs
