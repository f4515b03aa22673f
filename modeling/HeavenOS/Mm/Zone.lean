/-
# The buddy zone of `mm/frame_alloc.c`

`zone_alloc` and `zone_dealloc` as the source computes them: free lists threaded
through the free blocks, one bitmap bit for each pair of buddies, and addresses
turned into buddies by flipping a bit. A zone descriptor is a C structure whose
list heads live in memory with the nodes; its other fields are written by
`zone_add` only and are plain values here.

Every loop of the source is a structural recursion on its remaining iterations.
-/

import HeavenOS.Utils.List

namespace HeavenOS

open Lib Lib.Ring

def maxOrder : ℕ := 10

def maxZoneCount : ℕ := 10

/-- `allocator_zone_t`. `addr` is the address of the descriptor itself, and
`bitmapPages` keeps the local `bitmap_size` of `zone_add`: how many pages it
reserved for the bitmaps. -/
structure AllocatorZone where
  addr : ℕ
  bitmapPages : ℕ
  /-- `orders[i].bitmap` -/
  bitmap : ℕ → ℕ
  startAddr : ℕ
  endAddr : ℕ
  pagesCount : ℕ

/-- Bytes of a block of the given order, `PAGE_SIZE * (1 << order)`. -/
def blockSize (order : ℕ) : ℕ := pageSize * 2 ^ order

namespace AllocatorZone

variable (zone : AllocatorZone)

/-- `&zone->orders[i].free_blocks_head`: a `free_blocks_list_t` is a list node
followed by the bitmap pointer, 24 bytes in all. -/
def head (order : ℕ) : ℕ := zone.addr + 24 * order

/-- `block_index / 2` for the block at `block`, its index being counted from the
start of the zone in blocks of this order. -/
def buddyIndex (block order : ℕ) : ℕ := subU64 block zone.startAddr / blockSize order / 2

end AllocatorZone

/-- `bitmap[i / 8] = OP(bitmap[i / 8], i % 8)` -/
def updateBit (op : BitVec 8 → ℕ → BitVec 8) (m : Mem) (bitmap i : ℕ) : Mem :=
  m.storeByte (bitmap + i / 8) (op (m (bitmap + i / 8)) (i % 8))

/-- `FLIP_BIT(addr, 12 + order)`: the address of the other half. -/
def buddyAddr (block order : ℕ) : ℕ := (flipBit (BitVec.ofNat 64 block) (12 + order)).toNat

/-! ## Allocation -/

/-- The split loop of `zone_alloc` with `count` halvings to go; the next one
produces two blocks of order `order + count - 1`. -/
def splitBlock (zone : AllocatorZone) (order block : ℕ) : ℕ → Mem → Except Panic Mem
  | 0, m => return m
  | count + 1, m => do
      let j := order + count
      let m := updateBit setBit m (zone.bitmap j) (zone.buddyIndex block j)
      let secondHalf := buddyAddr block j
      let m ← listInit m secondHalf
      let m ← listInsertAfter m (zone.head j) secondHalf
      splitBlock zone order block count m

/-- The search of `zone_alloc` for a block to split, over the orders still to be
tried. Address `0` is `NULL`. -/
def allocLarger (zone : AllocatorZone) (order : ℕ) : List ℕ → Mem → Except Panic (ℕ × Mem)
  | [], m => return (0, m)
  | i :: rest, m => do
      if ← listEmpty m (zone.head i) then
        allocLarger zone order rest m
      else
        let block := next m (zone.head i)
        let m ← listExtract m block
        let m := if i < maxOrder then
            updateBit flipBit m (zone.bitmap i) (zone.buddyIndex block i)
          else m
        let m ← splitBlock zone order block (i - order) m
        return (block, m.memset block 0 (blockSize order))

/-- `zone_alloc` -/
def zoneAlloc (zone : AllocatorZone) (order : ℕ) (m : Mem) : Except Panic (ℕ × Mem) := do
  kassert (zone.addr ≠ 0) "zone != ((void *)0)"
  kassert (order ≤ maxOrder) "order <= 10"
  if ← listEmpty m (zone.head order) then
    -- the search starts at `order` again, whose list was just found empty
    allocLarger zone order (List.range' order (maxOrder + 1 - order)) m
  else
    let block := next m (zone.head order)
    let m ← listExtract m block
    let m := updateBit flipBit m (zone.bitmap order) (zone.buddyIndex block order)
    return (block, m.memset block 0 (blockSize order))

/-! ## Deallocation -/

/-- The coalescing loop of `zone_dealloc` with `count` orders left below
`MAX_ORDER`. It returns `free_block_addr` and `free_order`. -/
def coalesce (zone : AllocatorZone) : ℕ → ℕ → ℕ → Mem → Except Panic (ℕ × ℕ × Mem)
  | 0, block, order, m => return (block, order, m)
  | count + 1, block, order, m => do
      let buddy := buddyAddr block order
      let index := zone.buddyIndex block order
      let bitmap := zone.bitmap order
      if getBit (m (bitmap + index / 8)) (index % 8) = 0 then
        return (block, order, updateBit setBit m bitmap index)
      else
        let m := updateBit clearBit m bitmap index
        let m ← listExtract m buddy
        coalesce zone count (if buddy < block then buddy else block) (order + 1) m

/-- `zone_dealloc` -/
def zoneDealloc (zone : AllocatorZone) (addr order : ℕ) (m : Mem) : Except Panic Mem := do
  kassert (zone.addr ≠ 0) "zone != ((void *)0)"
  kassert (maskDown addr pageSize = addr) "(addr & (~(4096 - 1))) == addr"
  kassert (order ≤ maxOrder) "order <= 10"
  let (freeBlockAddr, freeOrder, m) ← coalesce zone (maxOrder - order) addr order m
  kassert (maskDown addr (2 ^ (12 + freeOrder)) = freeBlockAddr)
    "(addr & (~(((size_t)1 << (12 + free_order)) - 1))) == free_block_addr"
  let m ← listInit m freeBlockAddr
  listInsertAfter m (zone.head freeOrder) freeBlockAddr

end HeavenOS
