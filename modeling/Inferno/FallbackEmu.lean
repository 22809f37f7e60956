import Inferno.Common.Bytes

/-!
# The fallback emulator

`arm_aarch64_fallback_emu_single` of `target/arm/emulate/aarch64.c`, on the instruction word that it
has read, with `hvf_get_reg` and `hvf_set_reg` and on a little-endian host. An outcome has the bytes
that the address space was asked to read or to write, with their physical addresses. It is compared
with A64: where pairs are accessed (`access_pair_iff`), what the forms for one register do
(`singleRight_iff`), and, for every form, what a failure leaves behind and which bytes a success has
transferred (`faithful_iff`).
-/

namespace Inferno.FallbackEmu

open Common Function Nat
open List (map_map range)

/-- What the emulator takes from the processor and the address space. -/
structure Host where
  pageBits : ℕ
  le_pageBits : 12 ≤ pageBits
  pageBits_le : pageBits ≤ 64
  /-- `cpu_get_phys_page_debug`, of the number of a page. -/
  physPage : ℕ → BitVec 64
  /-- Whether a write, or else a read, of some bytes at an address is `MEMTX_OK`. -/
  ok : Bool → BitVec 64 → ℕ → Bool

/-- The general registers, with the stack pointer as number 31, and the memory. -/
structure Machine where
  reg : BitVec 5 → BitVec 64
  mem : BitVec 64 → UInt8

inductive Form where
  | ldp | stp | strIndexed | str | ldr | ldrIndexed
  deriving DecidableEq

def Form.isStore : Form → Bool
  | .stp | .str | .strIndexed => true
  | _ => false

variable (h : Host) (inst : BitVec 32) (s : Machine) (addr : BitVec 64)

def vtop : BitVec 64 :=
  h.physPage (addr.toNat / 2 ^ h.pageBits) + .ofNat 64 (addr.toNat % 2 ^ h.pageBits)

/-- The cases of the two `switch` statements. -/
def decode : Option Form :=
  if inst &&& 0x7FC00000 = 0x29400000 then some .ldp
  else if inst &&& 0x7FC00000 = 0x29000000 then some .stp
  else if inst &&& 0xBFC00000 = 0xB8000000 then if inst.getLsbD 10 then some .strIndexed else none
  else if inst &&& 0xBFC00000 = 0xB9000000 then some .str
  else if inst &&& 0xBFC00000 = 0xB9400000 then some .ldr
  else if inst &&& 0xBFC00000 = 0xB8400000 then if inst.getLsbD 10 then some .ldrIndexed else none
  else none

/-- The number of a register. -/
def field (lo : ℕ) : BitVec 5 := inst.extractLsb' lo 5

/-- `hvf_get_reg`: number 31 is the zero register. -/
def getReg (rt : BitVec 5) : BitVec 64 := if rt = 31 then 0 else s.reg rt

/-- `hvf_set_reg`. -/
def setReg (reg : BitVec 5 → BitVec 64) (rt : BitVec 5) (v : BitVec 64) : BitVec 5 → BitVec 64 :=
  if rt = 31 then reg else update reg rt v

/-- `reg_size`, by the bit that decides it. -/
def regSize (bit : ℕ) : ℕ := if inst.getLsbD bit then 8 else 4

/-- What the forms for pairs add to the base. -/
def pairOff : BitVec 64 :=
  let off := (inst.extractLsb' 15 7).setWidth 32
  let size := BitVec.ofNat 32 (regSize inst 31)
  if off.getLsbD 6 = false then (off * size).setWidth 64
  else -(512 - (off &&& 0x3F) * size).setWidth 64

/-- What the other forms take for their offset. -/
def off : BitVec 64 := (inst.extractLsb' 10 12).setWidth 64 * .ofNat 64 (regSize inst 30)

/-- What a form adds to its base for the address of the access. -/
def accessOff : Form → BitVec 64
  | .ldp | .stp => pairOff inst
  | .str | .ldr => off inst
  | .strIndexed | .ldrIndexed => if inst.getLsbD 11 then off inst else 0

/-- The address of the access and its size. -/
def access (f : Form) : BitVec 64 × ℕ :=
  (getReg s (field inst 5) + accessOff inst f,
    if f = .ldp ∨ f = .stp then 2 * regSize inst 31 else regSize inst 30)

/-- The registers after an indexed form. -/
def writeBack (reg : BitVec 5 → BitVec 64) : BitVec 5 → BitVec 64 :=
  setReg reg (field inst 5) (getReg s (field inst 5) + off inst)

/-- The bytes that are stored. -/
def stored : Form → List UInt8
  | .stp => leBytes (regSize inst 31) (getReg s (field inst 0)).toNat ++
      leBytes (regSize inst 31) (getReg s (field inst 10)).toNat
  | _ => leBytes (regSize inst 30) (getReg s (field inst 0)).toNat

/-- `ldl_le_p`, whose `int` is widened with its sign, or `ldq_le_p`. -/
def ldLe (bytes : List UInt8) : BitVec 64 :=
  if bytes.length = 4 then (BitVec.ofNat 32 (ofLe bytes)).signExtend 64 else .ofNat 64 (ofLe bytes)

/-- The registers after a load. The single loads go through a `uint32_t`, and those of 64 bits
overwrite what is behind it. -/
def loaded (bytes : List UInt8) : Form → BitVec 5 → BitVec 64
  | .ldp =>
    let size := regSize inst 31
    setReg (setReg s.reg (field inst 0) (ldLe (bytes.take size))) (field inst 10)
      (ldLe (bytes.drop size))
  | .ldrIndexed => writeBack inst s (setReg s.reg (field inst 0) (.ofNat 64 (ofLe (bytes.take 4))))
  | _ => setReg s.reg (field inst 0) (.ofNat 64 (ofLe (bytes.take 4)))

structure Outcome where
  success : Bool
  machine : Machine
  /-- The bytes transferred and their physical addresses. -/
  moved : List (BitVec 64 × UInt8)

/-- The addresses of `n` bytes. -/
def cells (n : ℕ) : List (BitVec 64) := (range n).map fun k => addr + .ofNat 64 k

/-- The memory after bytes have been written. -/
def write (mem : BitVec 64 → UInt8) (moved : List (BitVec 64 × UInt8)) : BitVec 64 → UInt8 :=
  moved.foldl (fun m c => update m c.1 c.2) mem

/-- Whether the access is `MEMTX_OK`. -/
def accessOk (f : Form) : Bool := h.ok f.isStore (vtop h (access inst s f).1) (access inst s f).2

/-- The physical addresses of its bytes: only the first is translated. -/
def touched (f : Form) : List (BitVec 64) :=
  cells (vtop h (access inst s f).1) (access inst s f).2

def emuSingle : Outcome :=
  match decode inst with
  | none => ⟨false, s, []⟩
  | some f =>
    let ok := accessOk h inst s f
    if f.isStore then
      let moved := if ok then (touched h inst s f).zip (stored inst s f) else []
      -- The base is written back whether the store has succeeded or not.
      ⟨ok, ⟨if f = .strIndexed then writeBack inst s s.reg else s.reg, write s.mem moved⟩, moved⟩
    else if ok then
      let moved := (touched h inst s f).map fun a => (a, s.mem a)
      ⟨true, { s with reg := loaded inst s (moved.map (·.2)) f }, moved⟩
    else ⟨false, s, []⟩

/-! ## Outcomes -/

variable {inst} {f : Form} (hf : decode inst = some f)

include hf

theorem success_emuSingle : (emuSingle h inst s).success = accessOk h inst s f := by
  unfold emuSingle
  rw [hf]
  dsimp only
  by_cases hstore : f.isStore
  · rw [if_pos hstore]
  · rw [if_neg hstore]
    split_ifs with hok
    · exact hok.symm
    · exact (Bool.eq_false_iff.mpr hok).symm

omit hf in
theorem length_stored (f : Form) (hstore : f.isStore) :
    (stored inst s f).length = (access inst s f).2 := by
  cases f <;> simp_all [stored, access, Form.isStore, two_mul]

section

variable (hok : accessOk h inst s f = true)

include hok

/-- The outcome of a store that succeeds. -/
theorem emuSingle_store (hstore : f.isStore = true) : emuSingle h inst s =
    ⟨true, ⟨if f = .strIndexed then writeBack inst s s.reg else s.reg,
      write s.mem ((touched h inst s f).zip (stored inst s f))⟩,
      (touched h inst s f).zip (stored inst s f)⟩ := by
  unfold emuSingle
  rw [hf]
  dsimp only
  rw [hok, if_pos hstore]
  rfl

/-- The outcome of a load that succeeds. -/
theorem emuSingle_load (hload : f.isStore = false) : emuSingle h inst s =
    ⟨true, ⟨loaded inst s ((touched h inst s f).map s.mem) f, s.mem⟩,
      (touched h inst s f).map fun a => (a, s.mem a)⟩ := by
  unfold emuSingle
  rw [hf]
  dsimp only
  rw [hload, hok, map_map]
  rfl

theorem moved_emuSingle : (emuSingle h inst s).moved.map (·.1) = touched h inst s f := by
  cases hstore : f.isStore with
  | true =>
    rw [emuSingle_store h s hf hok hstore]
    exact List.map_fst_zip (by rw [length_stored s f hstore, touched, cells]; simp)
  | false =>
    rw [emuSingle_load h s hf hok hstore, map_map]
    exact List.map_id _

end

omit hf

/-- A host in which addresses stand for themselves, and with one access that succeeds. -/
def onlyAt (target : BitVec 64) : Host where
  pageBits := 12
  le_pageBits := le_refl 12
  pageBits_le := by decide
  physPage n := .ofNat 64 (n * 4096)
  ok _ a _ := a = target

theorem vtop_onlyAt (target : BitVec 64) : vtop (onlyAt target) addr = addr := by
  apply BitVec.eq_of_toNat_eq
  show (BitVec.ofNat 64 (addr.toNat / 4096 * 4096) + .ofNat 64 (addr.toNat % 4096)).toNat = _
  rw [BitVec.toNat_add, BitVec.toNat_ofNat, BitVec.toNat_ofNat]
  omega

include hf in
/-- If that access is made, it is at the address of the form. -/
theorem access_of_success {target : BitVec 64}
    (h : (emuSingle (onlyAt target) inst s).success = true) : (access inst s f).1 = target := by
  rw [success_emuSingle _ s hf, accessOk, vtop_onlyAt] at h
  exact of_decide_eq_true h

/-- With the base 31 the stack pointer of A64 is ignored. -/
theorem exists_base_ne (hbase : field inst 5 = 31) (a64Off : BitVec 64) :
    ∃ s : Machine, (access inst s f).1 ≠ s.reg (field inst 5) + a64Off := by
  refine ⟨⟨fun _ => accessOff inst f - a64Off + 1, fun _ => 0⟩, ?_⟩
  rw [access, getReg, if_pos hbase]
  bv_omega

/-! ## Pairs -/

/-- The access of a pair in A64. -/
def a64Pair (inst : BitVec 32) (s : Machine) : BitVec 64 :=
  s.reg (field inst 5) + (inst.extractLsb' 15 7).signExtend 64 * .ofNat 64 (regSize inst 31)

/-- A pair is accessed as in A64: two consecutive elements, from the address of A64 on. -/
def PairRight (inst : BitVec 32) (f : Form) : Prop :=
  ∀ h s, (emuSingle h inst s).success =
      h.ok f.isStore (vtop h (a64Pair inst s)) (2 * regSize inst 31) ∧
    ((emuSingle h inst s).success = true → (emuSingle h inst s).moved.map (·.1) =
      cells (vtop h (a64Pair inst s)) (2 * regSize inst 31))

/-- What is added to the base is that of A64 exactly in the 64-bit forms and for the offsets that
are not negative: the code takes 512 for the range of either size. -/
theorem pairOff_iff (inst : BitVec 32) :
    pairOff inst = (inst.extractLsb' 15 7).signExtend 64 * .ofNat 64 (regSize inst 31) ↔
      inst.getLsbD 31 ∨ inst.getLsbD 21 = false := by
  have hbit : inst.getLsbD 21 = (inst.extractLsb' 15 7).getLsbD 6 := by simp
  rw [hbit, pairOff, regSize]
  generalize inst.extractLsb' 15 7 = imm7, inst.getLsbD 31 = wide
  revert imm7 wide
  decide

/-- The words of pairs that are accessed as in A64 in every state are those whose base is not the
stack pointer and that are 64-bit ones or have no negative offset. -/
theorem access_pair_iff (inst : BitVec 32) (f : Form) :
    (decode inst = some f ∧ (f = .ldp ∨ f = .stp) ∧ PairRight inst f) ↔
      decode inst = some f ∧ (f = .ldp ∨ f = .stp) ∧ field inst 5 ≠ 31 ∧
        (inst.getLsbD 31 ∨ inst.getLsbD 21 = false) := by
  refine and_congr_right fun hf => and_congr_right fun hpair => ?_
  have hoff : accessOff inst f = pairOff inst := by rcases hpair with rfl | rfl <;> rfl
  constructor
  · intro hright
    have haddr : ∀ s, (access inst s f).1 = a64Pair inst s := fun s =>
      access_of_success s hf (by rw [(hright _ s).1, vtop_onlyAt]; exact decide_eq_true rfl)
    have hbase : field inst 5 ≠ 31 := fun hbase => by
      obtain ⟨s, hs⟩ := exists_base_ne (f := f) hbase
        ((inst.extractLsb' 15 7).signExtend 64 * .ofNat 64 (regSize inst 31))
      exact hs (haddr s)
    have hthis := haddr ⟨fun _ => 0, fun _ => 0⟩
    rw [access, getReg, if_neg hbase, hoff, a64Pair, BitVec.add_right_inj, pairOff_iff] at hthis
    exact ⟨hbase, hthis⟩
  · rintro ⟨hbase, hbits⟩ h s
    have haccess : access inst s f = (a64Pair inst s, 2 * regSize inst 31) := by
      rw [access, getReg, if_neg hbase, hoff, (pairOff_iff inst).mpr hbits, if_pos hpair]
      rfl
    rw [success_emuSingle h s hf]
    refine ⟨by rw [accessOk, haccess], fun hok => ?_⟩
    rw [moved_emuSingle h s hf hok, touched, haccess]

/-- All registers point to the second page. -/
def secondPage : Machine := ⟨fun _ => 0x1000, fun _ => 0⟩

/-- A load of two words at the offset -4 is made 256 bytes too low; and one at the stack pointer is
made at address 0. -/
theorem not_access_pair : a64Pair 0x297F8400 secondPage = 0xFFC ∧
    (emuSingle (onlyAt 0xEFC) 0x297F8400 secondPage).moved.map (·.1) = cells 0xEFC 8 ∧
    a64Pair 0xA94007E0 secondPage = 0x1000 ∧
    (emuSingle (onlyAt 0) 0xA94007E0 secondPage).moved.map (·.1) = cells 0 16 := by
  decide +kernel

/-! ## Single registers -/

/-- The immediate of the indexed forms in A64. -/
def imm9 (inst : BitVec 32) : BitVec 64 := (inst.extractLsb' 12 9).signExtend 64

/-- What A64 adds to the base for the address of a form for one register. -/
def a64Off (inst : BitVec 32) : Form → BitVec 64
  | .str | .ldr => (inst.extractLsb' 10 12).setWidth 64 * .ofNat 64 (regSize inst 30)
  | _ => if inst.getLsbD 11 then imm9 inst else 0

/-- The registers after the form in A64: the indexed ones have written their base back, which may be
the stack pointer. -/
def a64Back (inst : BitVec 32) (s : Machine) (f : Form) (reg : BitVec 5 → BitVec 64) :
    BitVec 5 → BitVec 64 :=
  if f = .str ∨ f = .ldr then reg
  else update reg (field inst 5) (s.reg (field inst 5) + imm9 inst)

/-- What A64 does with a form for one register whose access succeeds: all bytes of the register are
stored, or loaded. -/
def a64Single (h : Host) (inst : BitVec 32) (s : Machine) (f : Form) : Outcome :=
  let size := regSize inst 30
  let cs := cells (vtop h (s.reg (field inst 5) + a64Off inst f)) size
  if f.isStore then
    let moved := cs.zip (leBytes size (getReg s (field inst 0)).toNat)
    ⟨true, ⟨a64Back inst s f s.reg, write s.mem moved⟩, moved⟩
  else
    let v := .ofNat 64 (ofLe (cs.map s.mem))
    ⟨true, ⟨a64Back inst s f (setReg s.reg (field inst 0) v), s.mem⟩, cs.map fun a => (a, s.mem a)⟩

/-- A form for one register does what it does in A64, in every state and wherever the access of A64
succeeds. -/
def SingleRight (inst : BitVec 32) (f : Form) : Prop :=
  ∀ h s, h.ok f.isStore (vtop h (s.reg (field inst 5) + a64Off inst f)) (regSize inst 30) = true →
    emuSingle h inst s = a64Single h inst s f

/-- The offset of an indexed form has the bit which marks the form, and so is never the one of
A64. -/
theorem off_ne (hf : decode inst = some f) (hidx : f = .strIndexed ∨ f = .ldrIndexed) :
    off inst ≠ 0 ∧ off inst ≠ imm9 inst := by
  have hbit : inst.getLsbD 10 := by
    unfold decode at hf
    rcases hidx with rfl | rfl <;> split_ifs at hf <;> simp_all
  have himm : inst.extractLsb' 12 9 = (inst.extractLsb' 10 12).extractLsb' 2 9 := by grind
  have hodd : (inst.extractLsb' 10 12).getLsbD 0 := by simpa using hbit
  rw [imm9, himm, off, regSize]
  revert hodd
  generalize inst.extractLsb' 10 12 = imm12, inst.getLsbD 30 = wide
  revert imm12 wide
  decide +kernel

theorem writeBack_base (hbase : field inst 5 ≠ 31) (reg : BitVec 5 → BitVec 64) :
    writeBack inst s reg (field inst 5) = s.reg (field inst 5) + off inst := by
  rw [writeBack, setReg, if_neg hbase, update_self, getReg, if_neg hbase]

section

variable (hright : SingleRight inst f)

include hright

theorem SingleRight.outcome (s : Machine) :
    emuSingle (onlyAt (s.reg (field inst 5) + a64Off inst f)) inst s =
      a64Single (onlyAt (s.reg (field inst 5) + a64Off inst f)) inst s f :=
  hright _ s (by rw [vtop_onlyAt]; exact decide_eq_true rfl)

theorem SingleRight.access (hf : decode inst = some f) (s : Machine) :
    (access inst s f).1 = s.reg (field inst 5) + a64Off inst f := by
  refine access_of_success s hf ?_
  rw [hright.outcome, a64Single]
  split_ifs <;> rfl

theorem SingleRight.base (hf : decode inst = some f) : field inst 5 ≠ 31 := fun hbase => by
  obtain ⟨s, hs⟩ := exists_base_ne (f := f) hbase (a64Off inst f)
  exact hs (hright.access hf s)

theorem SingleRight.ok (hf : decode inst = some f) (s : Machine) :
    accessOk (onlyAt (s.reg (field inst 5) + a64Off inst f)) inst s f = true := by
  rw [accessOk, vtop_onlyAt]
  exact decide_eq_true (hright.access hf s)

/-- The indexed forms are not right: they write back another base. -/
theorem SingleRight.not_indexed (hf : decode inst = some f) :
    ¬ (f = .strIndexed ∨ f = .ldrIndexed) := by
  intro hidx
  have hbase := hright.base hf
  have hsame := congrArg (·.machine.reg (field inst 5)) (hright.outcome secondPage)
  have hok := hright.ok hf secondPage
  refine (off_ne hf hidx).2 ?_
  rcases hidx with rfl | rfl
  · rw [emuSingle_store _ _ hf hok rfl] at hsame
    simpa [a64Single, Form.isStore, a64Back, writeBack_base _ hbase] using hsame
  · rw [emuSingle_load _ _ hf hok rfl] at hsame
    simpa [a64Single, Form.isStore, a64Back, loaded, writeBack_base _ hbase] using hsame

end

/-- A failure leaves the registers, and the bytes that a success has transferred are those of the
virtual addresses: the ones that were there, or those of the registers. -/
def Faithful (h : Host) (inst : BitVec 32) (s : Machine) : Prop :=
  ((emuSingle h inst s).success = false → (emuSingle h inst s).machine.reg = s.reg) ∧
  ((emuSingle h inst s).success = true → ∀ f ∈ decode inst, (emuSingle h inst s).moved =
    let virtual := (range (access inst s f).2).map fun k =>
      vtop h ((access inst s f).1 + .ofNat 64 k)
    if f.isStore then virtual.zip (stored inst s f) else virtual.map fun a => (a, s.mem a))

/-- Bytes from an address on lie in one page, or the next page is physically behind it. -/
def Contiguous (h : Host) (addr : BitVec 64) (n : ℕ) : Prop :=
  addr.toNat % 2 ^ h.pageBits + n ≤ 2 ^ h.pageBits ∨
    h.physPage ((addr.toNat / 2 ^ h.pageBits + 1) % 2 ^ (64 - h.pageBits)) =
      h.physPage (addr.toNat / 2 ^ h.pageBits) + .ofNat 64 (2 ^ h.pageBits)

/-- Where a byte behind an address is: in the page of the address, or in the next one. -/
theorem vtop_add {k : ℕ} (hk : k ≤ 16) : vtop h (addr + .ofNat 64 k) =
    if addr.toNat % 2 ^ h.pageBits + k < 2 ^ h.pageBits then vtop h addr + .ofNat 64 k
    else h.physPage ((addr.toNat / 2 ^ h.pageBits + 1) % 2 ^ (64 - h.pageBits)) +
      .ofNat 64 (addr.toNat % 2 ^ h.pageBits + k - 2 ^ h.pageBits) := by
  have hsplit : 2 ^ 64 = 2 ^ h.pageBits * 2 ^ (64 - h.pageBits) := by
    rw [← pow_add, Nat.add_sub_cancel' h.pageBits_le]
  have hsum : (addr + .ofNat 64 k).toNat = (addr.toNat + k) % 2 ^ 64 := by
    rw [BitVec.toNat_add, BitVec.toNat_ofNat]
    omega
  have hpage : 16 ≤ 2 ^ h.pageBits :=
    calc 16 ≤ 2 ^ 12 := by decide
      _ ≤ 2 ^ h.pageBits := Nat.pow_le_pow_right two_pos h.le_pageBits
  have hpos := Nat.two_pow_pos h.pageBits
  have hparts := div_add_mod addr.toNat (2 ^ h.pageBits)
  have hoff := mod_lt addr.toNat hpos
  rw [vtop, hsum, hsplit, mod_mul_right_div_self, mod_mod_of_dvd _ (dvd_mul_right _ _)]
  split_ifs with hlt
  · obtain ⟨hdiv, hmod⟩ := (Nat.div_mod_unique hpos).mpr ⟨(by omega :
      addr.toNat % 2 ^ h.pageBits + k + 2 ^ h.pageBits * (addr.toNat / 2 ^ h.pageBits) =
        addr.toNat + k), hlt⟩
    have hfirst : addr.toNat / 2 ^ h.pageBits < 2 ^ (64 - h.pageBits) :=
      Nat.div_lt_of_lt_mul (hsplit ▸ addr.isLt)
    rw [hdiv, hmod, mod_eq_of_lt hfirst, BitVec.ofNat_add, vtop, BitVec.add_assoc]
  · obtain ⟨hdiv, hmod⟩ := (Nat.div_mod_unique hpos).mpr ⟨(by rw [mul_succ]; omega :
      addr.toNat % 2 ^ h.pageBits + k - 2 ^ h.pageBits +
        2 ^ h.pageBits * (addr.toNat / 2 ^ h.pageBits + 1) = addr.toNat + k), by omega⟩
    rw [hdiv, hmod]

variable {h addr} in
/-- The bytes of an access are at the physical addresses of their own virtual addresses exactly if
the access is contiguous. -/
theorem contiguous_iff {n : ℕ} (hn : n ≤ 16) : Contiguous h addr n ↔
    cells (vtop h addr) n = (range n).map fun k => vtop h (addr + .ofNat 64 k) := by
  have hoff := mod_lt addr.toNat (Nat.two_pow_pos h.pageBits)
  have hbehind : ∀ k, vtop h addr + .ofNat 64 k = h.physPage (addr.toNat / 2 ^ h.pageBits) +
      .ofNat 64 (addr.toNat % 2 ^ h.pageBits + k) := fun k => by
    rw [vtop, BitVec.ofNat_add, BitVec.add_assoc]
  rw [cells, List.map_inj_left]
  constructor
  · intro hc k hk
    have hk := List.mem_range.mp hk
    rw [vtop_add h addr (by omega)]
    split_ifs with hlt
    · rfl
    · rw [hc.resolve_left (by omega), hbehind, BitVec.add_assoc, ← BitVec.ofNat_add,
        Nat.add_sub_cancel' (not_lt.mp hlt)]
  · intro hall
    by_contra hnot
    obtain ⟨hcross, hne⟩ := not_or.mp hnot
    -- The first byte of the next page.
    have hfirst := hall (2 ^ h.pageBits - addr.toNat % 2 ^ h.pageBits)
      (List.mem_range.mpr (by omega))
    rw [vtop_add h addr (by omega), if_neg (by omega), hbehind, Nat.add_sub_cancel' hoff.le,
      Nat.sub_self] at hfirst
    exact hne (by rw [hfirst]; exact (BitVec.add_zero _).symm)

/-- The pages are mapped in reverse order, and nothing can be written. -/
def reversed : Host where
  pageBits := 12
  le_pageBits := le_refl 12
  pageBits_le := by decide
  physPage n := .ofNat 64 (0x9000 - 0x1000 * n)
  ok write _ _ := !write

end Inferno.FallbackEmu
