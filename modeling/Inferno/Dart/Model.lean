import Mathlib.Data.List.Basic
import Inferno.Common.Bits

/-!
# The DART model

`hw/arm/apple-silicon/dart.c`: the registers of a mapper instance and their MMIO handlers, the page
table walk and the translation of an address, and the device with its instances and its interrupt
line.

The three register arrays are modelled by the storage they share. `sid_remap`, `sid_config` and
`ttbr` are the last members of `AppleDARTDARTRegs`, at the byte offsets 44, 60 and 124, so that the
storage from `&sid_remap[0]` on is a sequence of 32-bit words: four words of `sid_remap` bytes,
sixteen of `sid_config`, sixty-four of `ttbr`, and then what follows the arrays in memory. The
handlers index this storage as the code does, whether or not the index is inside its array.
-/

namespace Inferno.Dart

open Common
open BitVec (ofNat)

def maxStreams : ℕ := 16

def maxTtbr : ℕ := 4

/-! ## Configuration -/

/-- What `apple_dart_from_node` takes from the device tree. -/
structure Config where
  page_size : ℕ
  /-- The streams that exist. -/
  sid_mask : BitVec 64
  dart_options : BitVec 32
  /-- The two page shifts that there are tables for; `apple_dart_from_node` stops at others. -/
  page_shift_eq : page_size.log2 = 12 ∨ page_size.log2 = 14

namespace Config

variable (cfg : Config)

def page_shift : ℕ := cfg.page_size.log2

/-- `page_bits`: the bits of an address inside its page. -/
def page_bits : BitVec 64 := ofNat 64 (cfg.page_size - 1)

/-- `page_mask`: the other bits. -/
def page_mask : BitVec 64 := ~~~cfg.page_bits

/-- `l_mask`: the bits of a page number that index the table of a level. -/
def l_mask (level : ℕ) : BitVec 64 :=
  if cfg.page_shift = 12 then [0xC0000, 0x3FE00, 0x1FF].getD level 0
  else [0xC00000, 0x3FF800, 0x7FF].getD level 0

/-- `l_shift`: where these bits start. -/
def l_shift (level : ℕ) : ℕ :=
  if cfg.page_shift = 12 then [0x12, 9, 0].getD level 0 else [0x16, 11, 0].getD level 0

end Config

/-! ## Registers -/

/-- A byte of a little-endian word. -/
def wordByte (v : BitVec 32) (j : ℕ) : BitVec 8 := v.extractLsb' (8 * j) 8

/-- `AppleDARTDARTRegs`, with the storage of its arrays as words. -/
structure Regs where
  params1 : BitVec 32
  params2 : BitVec 32
  tlb_op : BitVec 32
  /-- `tlb_op_set[0]`, the only one. -/
  tlb_op_set : BitVec 64
  error_status : BitVec 32
  error_address : BitVec 64
  config : BitVec 32
  /-- The words from `&sid_remap[0]` on. -/
  words : ℕ → BitVec 32

namespace Regs

/-- The word at which `sid_config` starts. -/
def sidConfigBase : ℕ := 4

/-- The word at which `ttbr` starts. -/
def ttbrBase : ℕ := 20

/-- The first word behind `ttbr`. -/
def wordsEnd : ℕ := 84

variable (regs : Regs)

variable (i : ℕ)

/-- The byte `sid_remap[i]`. -/
def sidRemap : BitVec 8 := wordByte (regs.words (i / 4)) (i % 4)

/-- The word `sid_config[i]`. -/
def sidConfig : BitVec 32 := regs.words (sidConfigBase + i)

/-- The word with the flat index `i` of `ttbr`. -/
def ttbr : BitVec 32 := regs.words (ttbrBase + i)

/-- A store of a word. -/
def setWord (k : ℕ) (val : BitVec 32) : Regs :=
  { regs with words := Function.update regs.words k val }

/-- The store `sid_remap[j] = b`. -/
def setRemap (j : ℕ) (b : BitVec 32) : Regs :=
  regs.setWord (j / 4) (deposit (regs.words (j / 4)) (8 * (j % 4)) 8 b)

/-- The `BUSY` field of `tlb_op`. -/
def busy : Prop := extract regs.tlb_op 2 1 ≠ 0

instance (regs : Regs) : Decidable regs.busy := inferInstanceAs (Decidable (_ ≠ _))

/-- The registers filled with zeros. What lies behind them is not touched. -/
def zeroed : Regs :=
  ⟨0, 0, 0, 0, 0, 0, 0, fun k => if k < wordsEnd then 0 else regs.words k⟩

/-- What `apple_dart_reset` makes of the registers of an instance. -/
def reset (cfg : Config) (regs : Regs) : Regs :=
  let params1 := deposit 0 24 4 (ofNat 32 cfg.page_shift)
  let params1 := deposit params1 31 1 (if cfg.dart_options &&& 2 ≠ 0 then 1 else 0)
  let regs := { regs.zeroed with params1 := params1, params2 := deposit 0 0 1 1 }
  (List.range maxStreams).foldl (fun regs j => regs.setRemap j (ofNat 32 j)) regs

end Regs

/-! ## The register map -/

def rSidRemap (sid : ℕ) : ℕ := (0x80 + sid * 4) / 4

def rSidConfig (sid : ℕ) : ℕ := (0x100 + sid * 4) / 4

/-- `R_DART_TTBR`, with the strides that the macro has. -/
def rTtbr (sid idx : ℕ) : ℕ := (0x200 + (maxStreams * sid + maxTtbr * idx) * 4) / 4

/-- The case labels of the two MMIO handlers; those of a range have the distance to its start. -/
inductive Label where
  | params1
  | params2
  | tlbOp
  | tlbOpSetLow
  | tlbOpSetHigh
  | errorStatus
  | errorAddressLow
  | errorAddressHigh
  | config
  /-- The range from `R_DART_SID_REMAP(0)` on. -/
  | sidRemap (i : ℕ)
  /-- The range from `R_DART_SID_CONFIG(0)` on. -/
  | sidConfig (i : ℕ)
  /-- The range from `R_DART_TTBR(0, 0)` on. -/
  | ttbr (i : ℕ)
  | default
  deriving DecidableEq

/-- The label of `addr >> 2`. -/
def label (r : ℕ) : Label :=
  if r = 0x0 / 4 then .params1
  else if r = 0x4 / 4 then .params2
  else if r = 0x20 / 4 then .tlbOp
  else if r = 0x34 / 4 then .tlbOpSetLow
  else if r = 0x38 / 4 then .tlbOpSetHigh
  else if r = 0x40 / 4 then .errorStatus
  else if r = 0x50 / 4 then .errorAddressLow
  else if r = 0x54 / 4 then .errorAddressHigh
  else if r = 0x60 / 4 then .config
  else if rSidRemap 0 ≤ r ∧ r ≤ rSidRemap maxStreams - 1 then .sidRemap (r - rSidRemap 0)
  else if rSidConfig 0 ≤ r ∧ r ≤ rSidConfig maxStreams - 1 then .sidConfig (r - rSidConfig 0)
  else if rTtbr 0 0 ≤ r ∧ r ≤ rTtbr maxStreams maxTtbr - 1 then .ttbr (r - rTtbr 0 0)
  else .default

/-! ## The MMIO handlers -/

/-- What a register write does besides changing registers. -/
inductive Event where
  /-- `memory_region_notify_iommu` on the region of a stream. -/
  | notify (sid : ℕ)
  /-- `apple_dart_update_irq`. -/
  | updateIrq
  deriving DecidableEq

variable (cfg : Config) (regs : Regs)

section

variable (addr : ℕ) (val : BitVec 32)

/-- The `R_DART_TLB_OP` case of `apple_dart_mapper_reg_write`: `BUSY` is set while the streams are
notified and cleared again. -/
def tlbOp : Regs × List Event :=
  if extract val 0 2 ≠ 0 ∨ extract val 20 12 = 0 ∨ regs.busy then (regs, [])
  else
    let tlb_op := deposit val 2 1 1
    let set_index := extract val 20 12
    let sid_mask := if set_index.getLsbD 0 then regs.tlb_op_set &&& cfg.sid_mask else 0
    let sids := (List.range maxStreams).filter fun i => sid_mask.getLsbD i
    ({ regs with tlb_op := tlb_op &&& ~~~4 }, sids.map .notify)

/-- `apple_dart_mapper_reg_write`. -/
def regWrite : Regs × List Event :=
  match label (addr / 4) with
  | .tlbOp => tlbOp cfg regs val
  | .tlbOpSetLow =>
    if regs.busy then (regs, [])
    else ({ regs with tlb_op_set := deposit regs.tlb_op_set 0 32 (val.setWidth 64) }, [])
  | .tlbOpSetHigh =>
    if regs.busy then (regs, [])
    else ({ regs with tlb_op_set := deposit regs.tlb_op_set 32 32 (val.setWidth 64) }, [])
  | .errorStatus => ({ regs with error_status := regs.error_status &&& ~~~val }, [.updateIrq])
  | .config => ({ regs with config := val }, [])
  -- The byte index `addr - A_DART_SID_REMAP(0)` is the word index `i` from `&sid_remap[0]` on.
  | .sidRemap i => (regs.setWord i val, [])
  | .sidConfig i => (regs.setWord (Regs.sidConfigBase + i) val, [])
  | .ttbr i => (regs.setWord (Regs.ttbrBase + i) val, [])
  | _ => (regs, [])

/-- `apple_dart_mapper_reg_read`. -/
def regRead : BitVec 64 :=
  match label (addr / 4) with
  | .params1 => regs.params1.setWidth 64
  | .params2 => regs.params2.setWidth 64
  | .tlbOp => regs.tlb_op.setWidth 64
  | .tlbOpSetLow => extract regs.tlb_op_set 0 32
  | .tlbOpSetHigh => extract regs.tlb_op_set 32 32
  | .errorStatus => regs.error_status.setWidth 64
  | .errorAddressLow => extract regs.error_address 0 32
  | .errorAddressHigh => extract regs.error_address 32 32
  | .config => regs.config.setWidth 64
  | .sidRemap i => (regs.words i).setWidth 64
  | .sidConfig i => (regs.sidConfig i).setWidth 64
  | .ttbr i => (regs.ttbr i).setWidth 64
  | .default => 0

end

/-! ## Translation -/

inductive IOMMUAccessFlags where
  | none
  | ro
  | wo
  | rw
  deriving DecidableEq

namespace IOMMUAccessFlags

/-- The flag has the bit `IOMMU_RO`. -/
def hasRO : IOMMUAccessFlags → Bool
  | ro | rw => true
  | _ => false

/-- The flag has the bit `IOMMU_WO`. -/
def hasWO : IOMMUAccessFlags → Bool
  | wo | rw => true
  | _ => false

def accessFlag : Bool → Bool → IOMMUAccessFlags
  | false, false => none
  | true, false => ro
  | false, true => wo
  | true, true => rw

@[simp]
theorem hasRO_accessFlag (r w : Bool) : (accessFlag r w).hasRO = r := by
  cases r <;> cases w <;> rfl

@[simp]
theorem hasWO_accessFlag (r w : Bool) : (accessFlag r w).hasWO = w := by
  cases r <;> cases w <;> rfl

end IOMMUAccessFlags

/-- `IOMMUTLBEntry`; the address space is always that of the system. -/
structure IOMMUTLBEntry where
  iova : BitVec 64
  translated_addr : BitVec 64
  addr_mask : BitVec 64
  /-- The accesses allowed. -/
  perm : IOMMUAccessFlags
  deriving DecidableEq

/-- An access to an element of one of the register arrays. -/
inductive Access where
  | sid_remap (i : ℕ)
  | sid_config (i : ℕ)
  | ttbr (sid idx : ℕ)
  deriving DecidableEq

/-- The system memory as `address_space_ldq` sees it: `none` where the transaction fails. -/
abbrev Memory := BitVec 64 → Option (BitVec 64)

/-- The status of a failed walk: `FLAG` and one other bit. -/
def walkError (bit : ℕ) : BitVec 32 := deposit (deposit 0 31 1 1) bit 1 1

def pteAddrMask : BitVec 64 := 0xFFFFFFFFFF

/-- The loop of `apple_dart_mapper_ptw` over the remaining levels: the last entry, or the status of
the level that failed. -/
def ptwLoop (cfg : Config) (mem : Memory) (iova : BitVec 64) :
    List ℕ → BitVec 64 → BitVec 64 → Except (BitVec 32) (BitVec 64)
  | [], _, pte => .ok pte
  | level :: rest, pa, _ =>
    let idx := (iova &&& cfg.l_mask level) >>> cfg.l_shift level
    match mem (pa + 8 * idx) with
    | none => .error (walkError 1)
    | some pte =>
      if pte &&& 1 = 0 then .error (walkError 2)
      else ptwLoop cfg mem iova rest (pte &&& cfg.page_mask &&& pteAddrMask) pte

section

variable (mem : Memory) (stream : ℕ) (addr : BitVec 64)

/-- `apple_dart_mapper_ptw`: the final entry or the status, and the elements of `ttbr` read. -/
def ptw (sid : ℕ) (iova : BitVec 64) : Except (BitVec 32) (BitVec 64) × List Access :=
  let idx := ((iova &&& cfg.l_mask 0) >>> cfg.l_shift 0).toNat
  if sid ≥ maxStreams ∨ cfg.sid_mask.getLsbD sid = false ∨ idx ≥ maxTtbr then
    (.error (walkError 0), [])
  else
    let entry := regs.ttbr (maxTtbr * sid + idx)
    if extract entry 31 1 = 0 then (.error (walkError 0), [.ttbr sid idx])
    else
      let pte : BitVec 64 := entry.setWidth 64
      (ptwLoop cfg mem iova [1, 2] ((pte &&& 0xFFFFFFF) <<< 12) pte, [.ttbr sid idx])

/-- What a translation returns and does. -/
structure Translation where
  entry : IOMMUTLBEntry
  regs : Regs
  /-- Whether `apple_dart_raise_irq` is called. -/
  raised : Bool
  /-- The array elements that are read. -/
  accesses : List Access

/-- The body of the two permission checks, which is the same in both: `FLAG` and `WRITE_PROT` are
set, and the stream and the address are recorded. -/
def protError : Regs :=
  { regs with
    error_address := addr
    error_status := deposit (deposit (deposit regs.error_status 31 1 1) 3 1 1) 24 4
      (ofNat 32 stream) }

/-- `apple_dart_mapper_translate` on the region of a stream. -/
def translate (flag : IOMMUAccessFlags) : Translation :=
  let entry : IOMMUTLBEntry := ⟨addr, 0, cfg.page_bits, .none⟩
  if regs.busy then ⟨entry, regs, false, []⟩
  else
    let sid := (regs.sidRemap stream).toNat
    let accesses := [Access.sid_remap stream, .sid_config sid]
    if extract (regs.sidConfig sid) 7 1 = 0 ∨ extract (regs.sidConfig sid) 8 1 ≠ 0 then
      ⟨entry, regs, false, accesses⟩
    else
      let walk := ptw cfg regs mem sid (addr >>> cfg.page_shift)
      match walk.1 with
      | .error status =>
        let regs := { regs with
          error_address := addr
          error_status := deposit (regs.error_status ||| status) 24 4 (ofNat 32 stream) }
        ⟨entry, regs, true, accesses ++ walk.2⟩
      | .ok pte =>
        let perm := IOMMUAccessFlags.accessFlag (extract pte 8 1 = 0) (extract pte 7 1 = 0)
        let entry := { entry with
          translated_addr := (pte &&& cfg.page_mask &&& pteAddrMask) ||| (addr &&& entry.addr_mask)
          perm := perm }
        let noWrite := flag.hasWO && !perm.hasWO
        let regs := if noWrite then protError regs stream addr else regs
        let noRead := flag.hasRO && !perm.hasRO
        let regs := if noRead then protError regs stream addr else regs
        ⟨entry, regs, noWrite || noRead, accesses ++ walk.2⟩

end

/-! ## The device -/

/-- An instance of the device, by `dart_instance_t`. -/
inductive Instance where
  /-- `DART_DART`, with its registers. -/
  | dart (regs : Regs)
  | smmu
  | dapf
  | unknown

/-- `AppleDARTState`: the instances and the level of the interrupt line. -/
structure AppleDARTState where
  instances : List Instance
  irq : Bool

/-- The loop of `apple_dart_update_irq`: whether it finds an instance with an error. -/
def findError : List Instance → Bool
  | [] => false
  | .dart regs :: rest => if regs.error_status = 0 then findError rest else true
  | _ :: rest => findError rest

namespace AppleDARTState

/-- The device as `apple_dart_from_node` leaves it, with the kinds of the instances given: the
mappers are allocated with `g_new0`. -/
def fresh (instances : List Instance) : AppleDARTState :=
  ⟨instances.map fun
    | .dart regs => .dart regs.zeroed
    | other => other, false⟩

/-- `apple_dart_update_irq`. -/
def updateIrq (dart : AppleDARTState) : AppleDARTState :=
  { dart with irq := findError dart.instances }

/-- `apple_dart_reset`. -/
def reset (cfg : Config) (dart : AppleDARTState) : AppleDARTState :=
  { dart with instances := dart.instances.map fun
      | .dart regs => .dart (regs.reset cfg)
      | other => other }

end AppleDARTState

/-- What happens to the device. -/
inductive Op where
  | regWrite (i addr : ℕ) (val : BitVec 32)
  /-- A translation on a stream of an instance, with the memory that it finds. -/
  | translate (i stream : ℕ) (addr : BitVec 64) (flag : IOMMUAccessFlags) (mem : Memory)
  | reset

/-- The device after an operation. The other kinds of instances have dummy handlers and no
streams. -/
def step (dart : AppleDARTState) : Op → AppleDARTState
  | .regWrite i addr val =>
    match dart.instances[i]? with
    | some (.dart regs) =>
      let r := regWrite cfg regs addr val
      let dart := { dart with instances := dart.instances.set i (.dart r.1) }
      if .updateIrq ∈ r.2 then dart.updateIrq else dart
    | _ => dart
  | .translate i stream addr flag mem =>
    match dart.instances[i]? with
    | some (.dart regs) =>
      let t := translate cfg regs mem stream addr flag
      ⟨dart.instances.set i (.dart t.regs), dart.irq || t.raised⟩
    | _ => dart
  | .reset => dart.reset cfg

end Inferno.Dart
