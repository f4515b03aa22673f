/-
# Address spaces

The functions of `mm/vmem.c` as the source computes them. Page tables live in memory
and are reached through the direct mapping; the list of areas is a list. What the
allocators answer is not decided here: `frame_alloc` and `object_alloc` take their
answers from a list that is part of the state, and what the frame allocator leaves in
the frames it got back is arbitrary.
-/

import HeavenOS.Lib.Mem
import HeavenOS.Mm.Paging

namespace HeavenOS

open Lib

/-- `ENOMEM` -/
def enomem : Int := 2

/-! ## State -/

/-- `vmem_area_t`; the size is in pages. -/
structure VmemArea where
  start : ℕ
  size : ℕ
  flags : BitVec 64
  deriving DecidableEq

/-- `vmem_t`: the areas in list order, and the address of the PML4 in the direct mapping. -/
structure Vmem where
  areas : List VmemArea
  pml4 : ℕ

/-- What `vmem_destroy` does to page tables and frames, in order. -/
inductive VmemEvent
  | read (tbl : ℕ)
  | free (frame : ℕ)
  deriving DecidableEq

/-- The state that the functions of `vmem.c` work on. -/
structure Kernel where
  mem : Mem
  /-- The answers of `frame_alloc` to come; `none` and the empty list are `NULL`. -/
  frames : List (Option ℕ)
  /-- Whether the calls of `object_alloc` to come succeed. -/
  objects : List Bool
  /-- The frames given back and not handed out again. -/
  freed : List ℕ
  /-- What the frame allocator leaves in the frames given back. -/
  litter : List ℕ → Mem
  trace : List VmemEvent

/-- `frame_alloc`: a zeroed frame, or `0` for `NULL`. -/
def frameAlloc (k : Kernel) : ℕ × Kernel :=
  match k.frames with
  | [] => (0, k)
  | none :: frames => (0, { k with frames := frames })
  | some f :: frames =>
      (f, { k with mem := k.mem.memset f 0 pageSize, frames := frames, freed := k.freed.filter (· ≠ f) })

/-- `frame_free` -/
def frameFree (k : Kernel) (f : ℕ) : Kernel :=
  let freed := f :: k.freed
  { k with
    freed := freed
    mem := fun a => if ∃ g ∈ freed, g ≤ a ∧ a < g + pageSize then k.litter freed a else k.mem a
    trace := k.trace ++ [.free f] }

/-- `object_alloc(&vmem_area_alloc)` -/
def objectAlloc (k : Kernel) : Bool × Kernel :=
  match k.objects with
  | [] => (false, k)
  | ok :: objects => (ok, { k with objects := objects })

/-- `tbl->entries[i]` -/
def entry (m : Mem) (tbl i : ℕ) : BitVec 64 := m.loadWord (tbl + 8 * i)

/-- `tbl->entries[i] = pte` -/
def setEntry (k : Kernel) (tbl i : ℕ) (pte : BitVec 64) : Kernel :=
  { k with mem := k.mem.storeWord (tbl + 8 * i) pte }

/-! ## Flags -/

/-- `VMEM_USER` -/
def vmemUser : BitVec 64 := 1#64 <<< 0

/-- `VMEM_WRITE` -/
def vmemWrite : BitVec 64 := 1#64 <<< 1

/-- `VMEM_ALLOC` -/
def vmemAlloc : BitVec 64 := 1#64 <<< 2

def vmemConvertFlags (flags : BitVec 64) : BitVec 64 :=
  let pteFlags := 0
  let pteFlags := if flags &&& vmemUser ≠ 0 then pteFlags ||| pteUser else pteFlags
  let pteFlags := if flags &&& vmemWrite ≠ 0 then pteFlags ||| pteWriteable else pteFlags
  if flags &&& vmemAlloc ≠ 0 then pteFlags ||| pteAlloc else pteFlags

def vmemUnconvertFlags (flags : BitVec 64) : BitVec 64 :=
  let vmemFlags := 0
  let vmemFlags := if flags &&& pteUser ≠ 0 then vmemFlags ||| vmemUser else vmemFlags
  let vmemFlags := if flags &&& pteWriteable ≠ 0 then vmemFlags ||| vmemWrite else vmemFlags
  if flags &&& pteAlloc ≠ 0 then vmemFlags ||| vmemAlloc else vmemFlags

/-! ## Mapping -/

/-- The table behind an entry, made if there is none; `0` for `NULL`. -/
def vmemEnsureNextTable (k : Kernel) (tbl idx : ℕ) (rawFlags : BitVec 64) : ℕ × Kernel :=
  let pte := entry k.mem tbl idx
  if pte &&& ptePresent ≠ 0 then
    (physToVirt (pteAddr pte), setEntry k tbl idx (pte ||| rawFlags))
  else
    let (nextTbl, k) := frameAlloc k
    if nextTbl = 0 then (0, k)
    else
      let k := { k with mem := k.mem.memset nextTbl 0 pageSize }
      (nextTbl, setEntry k tbl idx (BitVec.ofNat 64 (virtToPhys nextTbl) ||| ptePresent ||| rawFlags))

def vmemMapPage (vm : Vmem) (virtAddr frame : ℕ) (flags : BitVec 64) (k : Kernel) :
    Except Panic (Int × Kernel) := do
  kassert (maskDown virtAddr pageSize = virtAddr)
    "((uint64_t)virt_addr & (~(4096 - 1))) == (uint64_t)virt_addr"
  kassert (maskDown frame pageSize = frame)
    "((uint64_t)frame & (~(4096 - 1))) == (uint64_t)frame"
  let flags := vmemConvertFlags flags
  let (pdpt, k) := vmemEnsureNextTable k vm.pml4 (tableIndex 3 virtAddr) flags
  if pdpt = 0 then return (-enomem, k) else
  let (pgdir, k) := vmemEnsureNextTable k pdpt (tableIndex 2 virtAddr) flags
  if pgdir = 0 then return (-enomem, k) else
  let (pgtbl, k) := vmemEnsureNextTable k pgdir (tableIndex 1 virtAddr) flags
  if pgtbl = 0 then return (-enomem, k) else
  kassert (entry k.mem pgtbl (tableIndex 0 virtAddr) &&& ptePresent = 0)
    "!(pgtbl->entries[PTE_FROM_ADDR(virt_addr)] & PTE_PRESENT)"
  return (0, setEntry k pgtbl (tableIndex 0 virtAddr) (BitVec.ofNat 64 frame ||| ptePresent ||| flags))

def vmemMapPage2mb (vm : Vmem) (virtAddr frame : ℕ) (flags : BitVec 64) (k : Kernel) :
    Except Panic (Int × Kernel) := do
  kassert (maskDown virtAddr (2 ^ 21) = virtAddr)
    "((uint64_t)virt_addr & (~(2 * (1 << 20) - 1))) == (uint64_t)virt_addr"
  kassert (maskDown frame (2 ^ 21) = frame) "((uint64_t)frame & (~(2 * (1 << 20) - 1))) == (uint64_t)frame"
  let flags := vmemConvertFlags flags
  let (pdpt, k) := vmemEnsureNextTable k vm.pml4 (tableIndex 3 virtAddr) flags
  if pdpt = 0 then return (-enomem, k) else
  let (pgdir, k) := vmemEnsureNextTable k pdpt (tableIndex 2 virtAddr) flags
  if pgdir = 0 then return (-enomem, k) else
  let pde := entry k.mem pgdir (tableIndex 1 virtAddr)
  kassert (pde &&& ptePresent = 0 ∧ pde &&& ptePageSize = 0)
    "!(pde & PTE_PRESENT) && !(pde & PTE_PAGE_SIZE)"
  return (0, setEntry k pgdir (tableIndex 1 virtAddr)
    (BitVec.ofNat 64 frame ||| ptePresent ||| ptePageSize ||| flags))

def vmemMapPage1gb (vm : Vmem) (virtAddr frame : ℕ) (flags : BitVec 64) (k : Kernel) :
    Except Panic (Int × Kernel) := do
  kassert (maskDown virtAddr (2 ^ 30) = virtAddr)
    "((uint64_t)virt_addr & (~((1 << 30) - 1))) == (uint64_t)virt_addr"
  kassert (maskDown frame (2 ^ 30) = frame) "((uint64_t)frame & (~((1 << 30) - 1))) == (uint64_t)frame"
  let flags := vmemConvertFlags flags
  let (pdpt, k) := vmemEnsureNextTable k vm.pml4 (tableIndex 3 virtAddr) flags
  if pdpt = 0 then return (-enomem, k) else
  let pdpe := entry k.mem pdpt (tableIndex 2 virtAddr)
  kassert (¬(pdpe &&& ptePresent ≠ 0 ∧ pdpe &&& ptePageSize = 0))
    "!((pdpe & PTE_PRESENT) && !(pdpe & PTE_PAGE_SIZE))"
  return (0, setEntry k pdpt (tableIndex 2 virtAddr)
    (BitVec.ofNat 64 frame ||| ptePresent ||| ptePageSize ||| flags))

/-! ## Areas -/

/-- The test of `vmem_is_mapped` for one area. -/
def VmemArea.Holds (area : VmemArea) (addr : ℕ) : Prop :=
  area.start ≤ addr ∧ addr < (area.start + area.size * pageSize) % 2 ^ 64

instance (area : VmemArea) (addr : ℕ) : Decidable (area.Holds addr) :=
  inferInstanceAs (Decidable (_ ∧ _))

def vmemIsMapped (vm : Vmem) (addr : ℕ) : Option VmemArea :=
  vm.areas.find? fun area => area.Holds addr

def vmemIntersects (vm : Vmem) (otherStartAddr otherSize : ℕ) : Bool :=
  let otherEndAddr := (otherStartAddr + otherSize) % 2 ^ 64
  vm.areas.any fun area =>
    ¬(otherEndAddr ≤ area.start ∨ (area.start + area.size * pageSize) % 2 ^ 64 ≤ otherStartAddr)

def vmemAllocPages (vm : Vmem) (virtAddr pgcnt : ℕ) (flags : BitVec 64) (k : Kernel) :
    Except Panic (Int × Vmem × Kernel) := do
  kassert (maskDown virtAddr pageSize = virtAddr)
    "((uint64_t)virt_addr & (~(4096 - 1))) == (uint64_t)virt_addr"
  if vmemIntersects vm virtAddr pgcnt then
    .error "intersection of virtual regions has occured in vmem at %p"
  else
  let (ok, k) := objectAlloc k
  if ¬ ok then return (-enomem, vm, k) else
  return (0, { vm with areas := ⟨virtAddr, pgcnt, flags⟩ :: vm.areas }, k)

def vmemUnmapPage (vm : Vmem) (virtAddr : ℕ) (k : Kernel) : Kernel :=
  let pml4e := entry k.mem vm.pml4 (tableIndex 3 virtAddr)
  if pml4e &&& ptePresent = 0 then k
  else
    let pdpt := physToVirt (pteAddr pml4e)
    let pdpe := entry k.mem pdpt (tableIndex 2 virtAddr)
    if pdpe &&& ptePresent = 0 then k
    else
      let pgdir := physToVirt (pteAddr pdpe)
      let pde := entry k.mem pgdir (tableIndex 1 virtAddr)
      if pde &&& ptePresent = 0 then k
      else
        let pgtbl := physToVirt (pteAddr pde)
        let pte := entry k.mem pgtbl (tableIndex 0 virtAddr)
        let k := if pte &&& vmemAlloc ≠ 0 then frameFree k (physToVirt (pteAddr pte)) else k
        setEntry k pgtbl (tableIndex 0 virtAddr) 0

/-- The loop of `vmem_free_pages` over the pages still to be unmapped. -/
def unmapPages (vm : Vmem) : (count addr : ℕ) → Kernel → Kernel
  | 0, _, k => k
  | count + 1, addr, k => unmapPages vm count (addr + pageSize) (vmemUnmapPage vm addr k)

def vmemFreePages (vm : Vmem) (virtAddr pgcnt : ℕ) (k : Kernel) : Except Panic (Vmem × Kernel) := do
  kassert (maskDown virtAddr pageSize = virtAddr)
    "((uint64_t)virt_addr & (~(4096 - 1))) == (uint64_t)virt_addr"
  let startAddr := virtAddr
  let endAddr := (startAddr + pageSize * pgcnt) % 2 ^ 64
  let mine (area : VmemArea) : Bool :=
    startAddr = area.start ∧ (area.start + area.size * pageSize) % 2 ^ 64 = endAddr
  if ¬ vm.areas.any mine then .error "alloc-free mismatch in vmem at %p" else
  let vm := { vm with areas := vm.areas.eraseP mine }
  return (vm, unmapPages vm ((endAddr - startAddr + pageSize - 1) / pageSize) startAddr k)

/-- The handler of a page fault at `faultAddr` in the current address space. -/
def vmemHandlePf (vm : Vmem) (faultAddr : ℕ) (k : Kernel) : Except Panic (Bool × Kernel) := do
  match vmemIsMapped vm faultAddr with
  | none => return (false, k)
  | some area =>
      let (frame, k) := frameAlloc k
      -- The source converts before it tests, so only `PHYS_TO_VIRT(0)` counts as no frame.
      let frame := virtToPhys frame
      if frame = 0 then .error "Can't map page: out of memory" else
      let (status, k) ← vmemMapPage vm (roundDown faultAddr pageSize) frame (area.flags ||| vmemAlloc) k
      if status < 0 then .error "Can't map page: %i" else
      return (true, k)

/-! ## Address spaces -/

/-- `vmem_init`; the list of areas is empty also where the list head could not be
allocated. -/
def vmemInit (k : Kernel) : Int × Vmem × Kernel :=
  let (pml4, k) := frameAlloc k
  if pml4 = 0 then (-enomem, ⟨[], 0⟩, k)
  else
    let (ok, k) := objectAlloc k
    if ¬ ok then (-enomem, ⟨[], pml4⟩, k) else (0, ⟨[], pml4⟩, k)

/-- The loop `for (i = 0; i < 512; i++)` over the present entries of a table, with `count`
entries to go from entry `i`; a negative result ends it. -/
def forPresent (body : ℕ → BitVec 64 → Kernel → Except Panic (Int × Kernel)) (tbl : ℕ) :
    (count i : ℕ) → Kernel → Except Panic (Int × Kernel)
  | 0, _, k => return (0, k)
  | count + 1, i, k =>
      let pte := entry k.mem tbl i
      if pte &&& ptePresent = 0 then forPresent body tbl count (i + 1) k
      else do
        let (res, k) ← body i pte k
        if res < 0 then return (res, k) else
        forPresent body tbl count (i + 1) k

/-- The body of the loop over a page table. -/
def clonePte (dst : Vmem) (pml4ei pdpei pdei ptei : ℕ) (pte : BitVec 64) (k : Kernel) :
    Except Panic (Int × Kernel) :=
  let virtAddr := makeAddr pml4ei pdpei pdei ptei 0
  let srcPhysAddr := pteAddr pte
  let flags := vmemUnconvertFlags (pte &&& pteFlagsMask)
  if pte &&& pteAlloc ≠ 0 then
    let (physFrameCopy, k) := frameAlloc k
    if physFrameCopy = 0 then .ok (-enomem, k)
    else
      let k := { k with mem := k.mem.memcpy physFrameCopy (physToVirt srcPhysAddr) pageSize }
      vmemMapPage dst virtAddr (virtToPhys physFrameCopy) (flags ||| vmemAlloc) k
  else vmemMapPage dst virtAddr srcPhysAddr flags k

/-- The body of the loop over a page directory. -/
def clonePde (dst : Vmem) (pml4ei pdpei pdei : ℕ) (pde : BitVec 64) (k : Kernel) :
    Except Panic (Int × Kernel) :=
  if pde &&& ptePageSize ≠ 0 then
    vmemMapPage2mb dst (makeAddr pml4ei pdpei pdei 0 0) (pteAddr pde)
      (vmemUnconvertFlags (pde &&& pteFlagsMask)) k
  else forPresent (clonePte dst pml4ei pdpei pdei) (physToVirt (pteAddr pde)) 512 0 k

/-- The body of the loop over a page-directory-pointer table. -/
def clonePdpe (dst : Vmem) (pml4ei pdpei : ℕ) (pdpte : BitVec 64) (k : Kernel) :
    Except Panic (Int × Kernel) :=
  if pdpte &&& ptePageSize ≠ 0 then
    vmemMapPage1gb dst (makeAddr pml4ei pdpei 0 0 0) (pteAddr pdpte)
      (vmemUnconvertFlags (pdpte &&& pteFlagsMask)) k
  else forPresent (clonePde dst pml4ei pdpei) (physToVirt (pteAddr pdpte)) 512 0 k

/-- The body of the loop over the PML4. -/
def clonePml4e (dst : Vmem) (pml4ei : ℕ) (pml4e : BitVec 64) (k : Kernel) :
    Except Panic (Int × Kernel) :=
  forPresent (clonePdpe dst pml4ei) (physToVirt (pteAddr pml4e)) 512 0 k

def vmemClonePages (dst : Vmem) (srcPml4 : ℕ) (k : Kernel) : Except Panic (Int × Kernel) :=
  forPresent (clonePml4e dst) srcPml4 512 0 k

/-- The loop of `vmem_clone` over the areas still to be copied. -/
def cloneAreas : List VmemArea → Vmem → Kernel → Int × Vmem × Kernel
  | [], dst, k => (0, dst, k)
  | area :: rest, dst, k =>
      let (ok, k) := objectAlloc k
      if ¬ ok then (-enomem, dst, k)
      else cloneAreas rest { dst with areas := ⟨area.start, area.size, area.flags⟩ :: dst.areas } k

def vmemClone (src : Vmem) (k : Kernel) : Except Panic (Int × Vmem × Kernel) := do
  let (res, dst, k) := vmemInit k
  if res < 0 then return (res, dst, k) else
  let (res, dst, k) := cloneAreas src.areas dst k
  if res < 0 then return (res, dst, k) else
  let (res, k) ← vmemClonePages dst src.pml4 k
  if res < 0 then return (res, dst, k) else
  return (0, dst, k)

/-- One read of an entry by `vmem_destroy`. -/
def readEntry (k : Kernel) (tbl i : ℕ) : BitVec 64 × Kernel :=
  (entry k.mem tbl i, { k with trace := k.trace ++ [.read tbl] })

/-- The loops of `vmem_destroy`, with `count` entries to go from entry `i`. -/
def destroyEntries (body : BitVec 64 → Kernel → Kernel) (tbl : ℕ) : (count i : ℕ) → Kernel → Kernel
  | 0, _, k => k
  | count + 1, i, k =>
      let (pte, k) := readEntry k tbl i
      let k := if pte &&& ptePresent = 0 then k else body pte k
      destroyEntries body tbl count (i + 1) k

def destroyPte (pte : BitVec 64) (k : Kernel) : Kernel :=
  if pte &&& pteAlloc ≠ 0 then frameFree k (physToVirt (pteAddr pte)) else k

def destroyPde (pde : BitVec 64) (k : Kernel) : Kernel :=
  if pde &&& ptePageSize ≠ 0 then k
  else
    let pt := physToVirt (pteAddr pde)
    frameFree (destroyEntries destroyPte pt 512 0 k) pt

def destroyPdpe (pdpte : BitVec 64) (k : Kernel) : Kernel :=
  if pdpte &&& ptePageSize ≠ 0 then k
  else
    let pd := physToVirt (pteAddr pdpte)
    frameFree (destroyEntries destroyPde pd 512 0 k) pd

def destroyPml4e (pml4e : BitVec 64) (k : Kernel) : Kernel :=
  let pdpt := physToVirt (pteAddr pml4e)
  frameFree (destroyEntries destroyPdpe pdpt 512 0 k) pdpt

/-- `vmem_destroy`; `current` says whether `curr_vmem` is this address space. -/
def vmemDestroy (vm : Vmem) (current : Bool) (k : Kernel) : Except Panic Kernel := do
  kassert (¬ current) "curr_vmem != vm"
  return frameFree (destroyEntries destroyPml4e vm.pml4 512 0 k) vm.pml4

/-! ## The walk of the processor -/

/-- What an address translates to, with the effective rights. -/
structure Translation where
  phys : ℕ
  /-- Number of index levels below the entry: 0 for 4 KiB, 1 for 2 MiB, 2 for 1 GiB. -/
  level : ℕ
  rights : Rights
  deriving DecidableEq

/-- The walk from the table of the given level. The effective rights to write and to
access from user mode are those that every entry on the way grants; the software bit
is read from the last one. -/
def walkFrom (m : Mem) (addr : ℕ) : (level tbl : ℕ) → (user write : Bool) → Option Translation
  | level, tbl, user, write =>
      let pte := entry m tbl (tableIndex level addr)
      let user := user && decide (pte &&& pteUser ≠ 0)
      let write := write && decide (pte &&& pteWriteable ≠ 0)
      let here : Translation :=
        { phys := pteAddr pte / 2 ^ (12 + 9 * level) * 2 ^ (12 + 9 * level) + addr % 2 ^ (12 + 9 * level)
          level := level
          rights := ⟨user, write, decide (pte &&& pteAlloc ≠ 0)⟩ }
      if pte &&& ptePresent = 0 then none
      else
        match level with
        | 0 => some here
        | below + 1 =>
            -- In a PML4 the page-size bit is not a size.
            if pte &&& ptePageSize ≠ 0 ∧ below < 2 then some here
            else walkFrom m addr below (physToVirt (pteAddr pte)) user write

/-- The four-level walk of an address. -/
def walk (m : Mem) (pml4 addr : ℕ) : Option Translation := walkFrom m addr 3 pml4 true true

end HeavenOS
