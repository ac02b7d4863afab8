import Mathlib

/-! The constants that several parts of the kernel share, from `kernel/param.h`,
`kernel/riscv.h`, `kernel/fs.h`, `kernel/stat.h` and `kernel/brd.c`.
-/

namespace Xv6

abbrev NPROC : Nat := 64

abbrev NDEV : Nat := 10

abbrev MAXOPBLOCKS : Nat := 10

abbrev PGSIZE : Nat := 4096

abbrev MAXVA : Nat := 2 ^ 38

abbrev BSIZE : Nat := 1024

abbrev RD_SIZE : Nat := 256 * 1024 * 1024

abbrev RD_PAGES : Nat := RD_SIZE / PGSIZE

/-- `max` of `filewrite`. -/
abbrev maxChunk : Nat := (MAXOPBLOCKS - 1 - 1 - 2) / 2 * BSIZE

abbrev T_DIR : BitVec 16 := 1

end Xv6
