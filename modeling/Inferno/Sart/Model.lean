import Mathlib.Data.List.FinRange

/-!
# The SART address filter

The register file and the translation of `hw/arm/apple-silicon/sart.c`. The guest programs sixteen
regions of pages through a window of 32-bit registers, whose layout depends on the version of the
device. Every register write decodes all regions anew and keeps the decoded form in `regions`, which
is what the translation of a DMA address goes through. A region that changes is unmapped page by
page, as the device held it before, through the IOMMU notifiers.

The version comes from the device tree and is asserted to be 1, 2 or 3 at creation, so the cases of
the decoders that are marked as not reached do not exist here. Registers are words of the 32 KiB
array `reg`.
-/

namespace Inferno.Sart

/-- The versions of the device. -/
inductive Version where
  | v1 | v2 | v3
  deriving DecidableEq

/-- `AppleSARTRegion`: a decoded region, in pages of 4 KiB. -/
structure AppleSARTRegion where
  addr : BitVec 64
  size : BitVec 64
  /-- The flags; a region without any is not in use. -/
  flags : BitVec 32
  deriving DecidableEq

/-- The array `reg`, word by word. -/
abbrev Registers := Fin 0x2000 → BitVec 32

structure AppleSARTState where
  regions : Fin 16 → AppleSARTRegion
  version : Version
  reg : Registers

section

variable (version : Version) (reg : Registers) (region : Fin 16)

/-- `sart_get_reg`: the register at a byte offset. -/
def sartGetReg (offset : ℕ) : BitVec 32 := reg (Fin.ofNat 0x2000 (offset / 4))

def sartGetRegionAddr : BitVec 64 :=
  match version with
  | .v1 | .v2 => (sartGetReg reg (0x40 + region * 4) &&& 0xFFFFFF).setWidth 64
  | .v3 => (sartGetReg reg (0x40 + region * 4) &&& 0x3FFFFFFF).setWidth 64

def sartGetRegionSize : BitVec 64 :=
  match version with
  | .v1 => (sartGetReg reg (0x0 + region * 4) &&& 0x7FFFF).setWidth 64
  | .v2 => (sartGetReg reg (0x0 + region * 4) &&& 0xFFFFFF).setWidth 64
  | .v3 => (sartGetReg reg (0x80 + region * 4) &&& 0x3FFFFFFF).setWidth 64

/-- `sart_get_region_flags`: the mask is a 64-bit word, and the result is cut to 32 bits. -/
def sartGetRegionFlags : BitVec 32 :=
  match version with
  | .v1 =>
    ((sartGetReg reg (0x0 + region * 4)).setWidth 64 &&&
      ~~~((0x7FFFF : BitVec 64) <<< 12)).setWidth 32
  | .v2 =>
    ((sartGetReg reg (0x0 + region * 4)).setWidth 64 &&&
      ~~~((0xFFFFFF : BitVec 64) <<< 12)).setWidth 32
  | .v3 => sartGetReg reg (0x0 + region * 4)

/-- A region as the registers describe it. -/
def decode : AppleSARTRegion :=
  ⟨sartGetRegionAddr version reg region, sartGetRegionSize version reg region,
    sartGetRegionFlags version reg region⟩

end

inductive IOMMUAccessFlags where
  | none | ro | wo | rw
  deriving DecidableEq

/-- What the device fills in of an `IOMMUTLBEntry`. -/
structure IOMMUTLBEntry where
  /-- The first address of the page, as the device issued it. -/
  iova : BitVec 64
  translatedAddr : BitVec 64
  addrMask : BitVec 64
  /-- The accesses that are granted. -/
  perm : IOMMUAccessFlags
  deriving DecidableEq

/-- The unmap event of a page; its entry has no translated address. -/
def unmapEvent (page : BitVec 64) : IOMMUTLBEntry := ⟨page <<< 12, 0, 0xFFF, .none⟩

/-- The body of the loop of `base_reg_write`: a region that the registers describe differently now
is unmapped and decoded. -/
def refreshRegion (a : AppleSARTState × List IOMMUTLBEntry) (i : Fin 16) :
    AppleSARTState × List IOMMUTLBEntry :=
  let s := a.1
  if sartGetRegionAddr s.version s.reg i ≠ (s.regions i).addr ∨
      sartGetRegionSize s.version s.reg i ≠ (s.regions i).size ∨
      sartGetRegionFlags s.version s.reg i ≠ (s.regions i).flags then
    let pages := (List.range (s.regions i).size.toNat).map fun n =>
      (s.regions i).addr + BitVec.ofNat 64 n
    ({ s with regions := Function.update s.regions i (decode s.version s.reg i) },
      a.2 ++ pages.map unmapEvent)
  else a

variable (s : AppleSARTState)

variable (index : Fin 0x2000)

/-- `base_reg_write` of a word: the state and the events sent to the notifiers. -/
def baseRegWrite (data : BitVec 64) : AppleSARTState × List IOMMUTLBEntry :=
  (List.finRange 16).foldl refreshRegion
    ({ s with reg := Function.update s.reg index (data.setWidth 32) }, [])

/-- The region is in use and has the page. -/
def AppleSARTRegion.Covers (r : AppleSARTRegion) (page : BitVec 64) : Prop :=
  r.addr ≤ page ∧ page < r.addr + r.size ∧ r.flags ≠ 0

instance (r : AppleSARTRegion) (page : BitVec 64) : Decidable (r.Covers page) :=
  inferInstanceAs (Decidable (_ ∧ _))

def appleSartTranslate (addr : BitVec 64) : IOMMUTLBEntry :=
  let entry : IOMMUTLBEntry := ⟨addr &&& ~~~0xFFF, addr &&& ~~~0xFFF, 0xFFF, .rw⟩
  match (List.finRange 16).find? fun i => (s.regions i).Covers (addr >>> 12) with
  | some _ => { entry with perm := .rw }
  | none => entry

def appleSartReset : AppleSARTState :=
  { s with reg := fun _ => 0, regions := fun _ => ⟨0, 0, 0⟩ }

end Inferno.Sart
