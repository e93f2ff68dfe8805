import EnkiOs.Lib.Descriptor
import EnkiOs.Status

/-!
# GDT

`kernel/kernel/gdt.c` の `encode_gdt_entry` と `gdt_unstructure`。書き込みは、ソースの代入の順に一バイトずつ行う。
-/

namespace EnkiOs
open Machine

/-- `struct gdt_structured` -/
structure GdtStructured where
  base : Word
  limit : Word
  type : Byte
deriving DecidableEq, Repr

/-- `sizeof(struct gdt)` -/
abbrev GDT_STRUCT_SIZE : Nat := 8

/-- `encode_gdt_entry` の、リミットの単位を決めた後の代入。 -/
def encodeGdtFields (target limit : Word) (src : GdtStructured) (mem : Memory) : Memory :=
  let mem := mem.write target [(limit &&& 0xFF).setWidth 8]
  let mem := mem.write (target + 1) [((limit >>> 8) &&& 0xFF).setWidth 8]
  let mem := mem.write (target + 6) [mem (target + 6) ||| ((limit >>> 16) &&& 0x0F).setWidth 8]
  let mem := mem.write (target + 2) [(src.base &&& 0xFF).setWidth 8]
  let mem := mem.write (target + 3) [((src.base >>> 8) &&& 0xFF).setWidth 8]
  let mem := mem.write (target + 4) [((src.base >>> 16) &&& 0xFF).setWidth 8]
  let mem := mem.write (target + 7) [((src.base >>> 24) &&& 0xFF).setWidth 8]
  mem.write (target + 5) [src.type]

def encodeGdtEntry (target : Word) (src : GdtStructured) (mem : Memory) : Except Fault Memory :=
  if 65536 < src.limit.toNat ∧ src.limit &&& 0xFFF ≠ 0xFFF then .error .panic
  else
    let mem := mem.write (target + 6) [0x40]
    if 65536 < src.limit.toNat then
      .ok (encodeGdtFields target (src.limit >>> 12) src (mem.write (target + 6) [0xC0]))
    else .ok (encodeGdtFields target src.limit src mem)

/-- `i` からの残りの回数を持つ。`gdt_s` は並びで渡す。 -/
def gdtUnstructureLoop (gdt : Word) (gdtS : List GdtStructured) : Nat → Nat → Memory → Except Fault Memory
  | 0, _, mem => .ok mem
  | k + 1, i, mem =>
      match gdtS[i]? with
      | none => .error .outOfBounds
      | some src => do
          let mem ← encodeGdtEntry (gdt + BitVec.ofNat 32 (GDT_STRUCT_SIZE * i)) src mem
          gdtUnstructureLoop gdt gdtS k (i + 1) mem

def gdtUnstructure (gdt : Word) (gdtS : List GdtStructured) (totalEntries : Int) (mem : Memory) : Except Fault Memory :=
  gdtUnstructureLoop gdt gdtS totalEntries.toNat 0 mem

/-- `sizeof(tss)` -/
abbrev TSS_STRUCT_SIZE : Word := 100

/-- `kernel/kernel/kernel.c` の `gdt_structured`。`tss` のアドレスで決まる。 -/
def gdtStructured (tss : Word) : List GdtStructured :=
  [⟨0x00, 0x00, 0x00⟩, ⟨0x00, 0xFFFFFFFF, 0x9A⟩, ⟨0x00, 0xFFFFFFFF, 0x92⟩, ⟨0x00, 0xFFFFFFFF, 0xF8⟩, ⟨0x00, 0xFFFFFFFF, 0xF2⟩,
    ⟨tss, TSS_STRUCT_SIZE, 0xE9⟩]

end EnkiOs
