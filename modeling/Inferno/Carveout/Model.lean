import Inferno.Common.Bits
import Inferno.Common.Intervals
import Inferno.DeviceTree.Props

/-!
# The carveout allocator

`carveout_alloc_new`, `carveout_alloc_mem` and `carveout_alloc_finalise` of
`hw/arm/apple-silicon/mem.c`. The allocator hands out memory from the top of DRAM downwards: it
holds the lowest address it has given away, and takes the size of a request from it and rounds the
difference down. All of that is arithmetic of 64-bit words, and nothing compares the result with
`dram_base`. When there is a device tree node, each region is recorded in it under a name of its
own.

A failed assertion has no result.
-/

namespace Inferno.Carveout

open Common DeviceTree

structure CarveoutAllocator where
  dramBase : BitVec 64
  /-- `end`: the lowest address that has been handed out. -/
  endAddr : BitVec 64
  alignment : BitVec 64
  node : Option AppleDTNode
  curId : BitVec 32

/-- A region that was handed out. -/
structure Region where
  addr : BitVec 64
  size : BitVec 64
  deriving DecidableEq

def carveoutAllocNew (carveoutMmap : Option AppleDTNode) (dramBase dramSize alignment : BitVec 64) :
    Option CarveoutAllocator :=
  if dramSize = 0 then none
  else if alignment = 0 then none
  else some
    { dramBase := dramBase, endAddr := dramBase + dramSize, alignment := alignment,
      node := carveoutMmap, curId := 0 }

/-- The name that `snprintf` gives a region, `region-id-%u`. -/
def regionName (id : BitVec 32) : List UInt8 := ascii ("region-id-" ++ toString id.toNat)

/-- The two words `data` as the bytes that are copied into the property. -/
def regionData (r : Region) : Vector UInt8 16 :=
  ⟨(leBytes 8 r.addr.toNat ++ leBytes 8 r.size.toNat).toArray, by simp⟩

/-- The number of the region after this one; 55 is left to the profiler of iBoot. -/
def nextId (id : BitVec 32) : BitVec 32 := if id + 1 = 55 then id + 1 + 1 else id + 1

variable (ca : CarveoutAllocator)

/-- `carveout_alloc_mem`: the region handed out and the allocator after it. -/
def carveoutAllocMem (size : BitVec 64) : Option (Region × CarveoutAllocator) :=
  let r : Region := ⟨roundDown (ca.endAddr - size) ca.alignment, size⟩
  if size = 0 then none
  else match ca.node with
    | none => some (r, { ca with endAddr := r.addr })
    | some node =>
      (node.setProp (regionName ca.curId) 16 (by decide) (some (regionData r))).map fun node' =>
        (r, { ca with endAddr := r.addr, node := some node', curId := nextId ca.curId })

/-- The requests of a list, one after the other: the regions handed out and the allocator after
them. -/
def carveoutAllocAll (ca : CarveoutAllocator) :
    List (BitVec 64) → Option (List Region × CarveoutAllocator)
  | [] => some ([], ca)
  | size :: sizes =>
    (carveoutAllocMem ca size).bind fun (r, ca') =>
      (carveoutAllocAll ca' sizes).map fun (rs, ca'') => (r :: rs, ca'')

/-- `carveout_alloc_finalise`: the size of the memory below everything handed out. -/
def carveoutAllocFinalise : BitVec 64 :=
  roundDown (ca.endAddr - ca.dramBase) ca.alignment

end Inferno.Carveout
