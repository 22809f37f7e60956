import Inferno.Common.Run
import Inferno.Sart.Model

/-!
# What the filter admits

The decoded regions follow the registers through every run of writes and resets
(`regions_eq_decode`). The flags of the versions 1 and 2 share the low twelve bits of the
configuration word with the size; only in version 3 do they have a word of their own
(`fieldsDisjoint_iff`). The translation starts from an entry that grants everything and grants
everything again when it finds a region, so it never refuses a page, covered or not
(`appleSartTranslate_perm`). It is an access filter only for pages that are covered.
-/

namespace Inferno.Sart

open Common Function

/-! ## The cache -/

/-- What the guest and the machine do to the registers. -/
inductive Op where
  | write (index : Fin 0x2000) (data : BitVec 64)
  | reset

variable (s : AppleSARTState)

/-- The state after an operation. -/
def step : Op → AppleSARTState
  | .write index data => (baseRegWrite s index data).1
  | .reset => appleSartReset s

/-- The device as it is created: all fields zero but the version. -/
def create (version : Version) : AppleSARTState := ⟨fun _ => ⟨0, 0, 0⟩, version, fun _ => 0⟩

/-- The cached regions are what the registers describe. -/
def Coherent : Prop := ∀ i, s.regions i = decode s.version s.reg i

variable (s : AppleSARTState) (version : Version)

section

variable (is : List (Fin 16)) (a : AppleSARTState × List IOMMUTLBEntry)

/-- After the body of the loop the region is what the registers describe; the other regions, the
registers and the version are as before. -/
theorem refreshRegion_spec (i : Fin 16) : (refreshRegion a i).1 =
      ⟨update a.1.regions i (decode a.1.version a.1.reg i), a.1.version, a.1.reg⟩ := by
  unfold refreshRegion
  dsimp only
  split_ifs with h
  · rfl
  · -- A region that is not decoded anew is what the registers describe already.
    simp only [not_or, not_not] at h
    obtain ⟨haddr, hsize, hflags⟩ := h
    have heq : decode a.1.version a.1.reg i = a.1.regions i := by
      rw [decode, haddr, hsize, hflags]
    rw [heq, update_eq_self]

/-- After the loop has gone through some of the regions, these are what the registers describe. -/
theorem foldl_refreshRegion : (is.foldl refreshRegion a).1 =
      ⟨fun i => if i ∈ is then decode a.1.version a.1.reg i else a.1.regions i, a.1.version,
        a.1.reg⟩ := by
  induction is generalizing a with
  | nil => simp
  | cons j is ih =>
    rw [List.foldl_cons, ih, refreshRegion_spec]
    congr 1
    funext i
    by_cases hi : i ∈ is
    · simp [hi]
    · by_cases hj : i = j
      · subst hj
        simp
      · simp [hj]

end

theorem baseRegWrite_spec (index : Fin 0x2000) (data : BitVec 64) : (baseRegWrite s index data).1 =
      ⟨decode s.version (update s.reg index (data.setWidth 32)), s.version,
        update s.reg index (data.setWidth 32)⟩ := by
  rw [baseRegWrite, foldl_refreshRegion]
  simp

theorem decode_zero (i : Fin 16) : decode version (fun _ => 0) i = ⟨0, 0, 0⟩ := by
  cases version <;> simp [decode, sartGetRegionAddr, sartGetRegionSize, sartGetRegionFlags,
    sartGetReg]

theorem step_coherent (op : Op) : (step s op).version = s.version ∧ Coherent (step s op) := by
  cases op with
  | write index data =>
    rw [step, baseRegWrite_spec]
    exact ⟨rfl, fun _ => rfl⟩
  | reset => exact ⟨rfl, fun i => (decode_zero s.version i).symm⟩

/-- The cached regions are what the registers describe after every sequence of register writes and
resets. -/
theorem regions_eq_decode (ops : List Op) : (run step (create version) ops).version = version ∧
      Coherent (run step (create version) ops) := by
  refine invariant_run (P := fun s => s.version = version ∧ Coherent s) ?_ ?_ ops
  · rintro s op ⟨hversion, -⟩
    obtain ⟨hsame, hcoherent⟩ := step_coherent s op
    exact ⟨hsame.trans hversion, hcoherent⟩
  · exact ⟨rfl, fun i => (decode_zero version i).symm⟩

/-! ## The fields of the configuration word -/

/-- The registers with one bit of one word inverted. -/
def flipBit (reg : Registers) (index : Fin 0x2000) (bit : ℕ) : Registers :=
  update reg index (reg index ^^^ BitVec.twoPow 32 bit)

/-- The bit of the word has an influence on the value. -/
def Reads {α : Type} (f : Registers → α) (index : Fin 0x2000) (bit : ℕ) : Prop :=
  ∃ reg, f (flipBit reg index bit) ≠ f reg

/-- The flags and the size of a region are taken from different bits of the registers. -/
def FieldsDisjoint (version : Version) : Prop :=
  ∀ i index bit, ¬ (Reads (sartGetRegionFlags version · i) index bit ∧
    Reads (sartGetRegionSize version · i) index bit)

theorem sartGetReg_flipBit {reg : Registers} {index : Fin 0x2000} {bit offset : ℕ}
    (h : Fin.ofNat 0x2000 (offset / 4) ≠ index) :
    sartGetReg (flipBit reg index bit) offset = sartGetReg reg offset := by
  rw [sartGetReg, flipBit, update_of_ne h, sartGetReg]

/-- The flags and the size of a region share bits in the first two versions. -/
theorem fieldsDisjoint_iff : FieldsDisjoint version ↔ version = .v3 := by
  constructor
  · intro h
    -- The lowest bit of the first word is one of both.
    have hshared := h 0 0 0
    cases version with
    | v1 | v2 => exact absurd ⟨⟨fun _ => 0, by decide⟩, ⟨fun _ => 0, by decide⟩⟩ hshared
    | v3 => rfl
  · rintro rfl i index bit ⟨⟨reg, hflags⟩, ⟨reg', hsize⟩⟩
    -- The flags are the word `i`, the size is in the word `32 + i`.
    have hindex : Fin.ofNat 0x2000 ((0x0 + i.val * 4) / 4) = index := by
      by_contra hne
      exact hflags (sartGetReg_flipBit hne)
    have hindex' : Fin.ofNat 0x2000 ((0x80 + i.val * 4) / 4) = index := by
      by_contra hne
      exact hsize (by simp [sartGetRegionSize, sartGetReg_flipBit hne])
    have heq := congrArg Fin.val (hindex.trans hindex'.symm)
    simp only [Fin.val_ofNat] at heq
    omega

/-! ## Access -/

section

variable (s : AppleSARTState) (addr : BitVec 64)

/-- The page of the address is granted for reading and writing. -/
def Grants : Prop := (appleSartTranslate s addr).perm = .rw

/-- Some region in use has the page of the address. -/
def Covered : Prop :=
  ∃ i, (s.regions i).Covers (addr >>> 12)

theorem appleSartTranslate_perm : Grants s addr := by
  unfold Grants appleSartTranslate
  split <;> rfl

end

/-- What the filter is for, at one address: the cache is what the registers describe, with flags and
sizes that do not share bits, and the page is granted exactly when a region in use has it. -/
structure Filters (s : AppleSARTState) (addr : BitVec 64) : Prop where
  coherent : Coherent s
  disjoint : FieldsDisjoint s.version
  grants : Grants s addr ↔ Covered s addr

/-- After every sequence of register writes and resets the filter does what it is for at an address
exactly in version 3 and if some region in use has the page of the address. -/
theorem sart_filters_iff (version : Version) (ops : List Op) (addr : BitVec 64) :
    Filters (run step (create version) ops) addr ↔
      version = .v3 ∧ Covered (run step (create version) ops) addr := by
  obtain ⟨hversion, hcoherent⟩ := regions_eq_decode version ops
  have hgrants := appleSartTranslate_perm (run step (create version) ops) addr
  constructor
  · rintro ⟨-, hdisjoint, hiff⟩
    rw [hversion, fieldsDisjoint_iff] at hdisjoint
    exact ⟨hdisjoint, hiff.mp hgrants⟩
  · rintro ⟨hv3, hcovered⟩
    refine ⟨hcoherent, ?_, fun _ => hcovered, fun _ => hgrants⟩
    rw [hversion, fieldsDisjoint_iff]
    exact hv3

/-- Right after its creation the device of version 3 grants the page at the address 0, which no
region has. -/
theorem sart_grants_uncovered :
    Grants (run step (create .v3) []) 0 ∧ ¬ Covered (run step (create .v3) []) 0 ∧
      ¬ Filters (run step (create .v3) []) 0 := by
  have hgrants := appleSartTranslate_perm (run step (create .v3) []) 0
  have huncovered : ¬ Covered (run step (create .v3) []) 0 := by
    rintro ⟨i, -, -, hflags⟩
    exact hflags rfl
  exact ⟨hgrants, huncovered, fun h => huncovered (h.grants.mp hgrants)⟩

end Inferno.Sart
