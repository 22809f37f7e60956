import Mathlib.Data.Fintype.Card
import Mathlib.Data.List.Iterate
import Mathlib.Data.Nat.Digits.Defs
import Inferno.Carveout.Model

/-!
# What the allocator records

Each region gets the next number, and a property with its address and size under the name made from
that number. The name tells the number (`regionName_injective`), and the numbers do not repeat
before `2^32 - 1` of them are used up (`iterate_nextId_nodup`). Until then each property keeps what
it was given, and no property with another name is touched (`carveoutAllocAll_spec`).
-/

namespace Inferno.Carveout

open Common DeviceTree List Option
open List (iterate)
open BitVec (ofNat toNat toNat_ofNat)

/-! ## Names -/

theorem eq_of_digit_byte_eq {c d : Char} (hc : c.isDigit = true) (hd : d.isDigit = true)
    (h : UInt8.ofNat c.toNat = UInt8.ofNat d.toNat) : c = d := by
  simp only [Char.isDigit, Bool.and_eq_true, decide_eq_true_eq] at hc hd
  have hc' : c.toNat ≤ 57 := hc.2
  have hd' : d.toNat ≤ 57 := hd.2
  have hbyte := congrArg UInt8.toNat h
  simp only [UInt8.toNat_ofNat'] at hbyte
  rw [Nat.mod_eq_of_lt (by omega), Nat.mod_eq_of_lt (by omega)] at hbyte
  exact Char.toNat_inj.mp hbyte

theorem eq_of_digit_bytes_eq {cs ds : List Char} (hc : ∀ c ∈ cs, c.isDigit = true)
    (hd : ∀ d ∈ ds, d.isDigit = true)
    (h : (cs.map fun c => UInt8.ofNat c.toNat) = ds.map fun d => UInt8.ofNat d.toNat) :
    cs = ds := by
  induction cs generalizing ds with
  | nil => exact (map_eq_nil_iff.mp h.symm).symm
  | cons c cs ih =>
    cases ds with
    | nil => simp at h
    | cons d ds =>
      obtain ⟨hhead, htail⟩ := cons.inj h
      rw [eq_of_digit_byte_eq (hc c mem_cons_self) (hd d mem_cons_self) hhead,
        ih (fun x hx => hc x (mem_cons_of_mem _ hx))
          (fun x hx => hd x (mem_cons_of_mem _ hx)) htail]

variable (id : BitVec 32)

theorem regionName_eq : regionName id =
      ascii "region-id-" ++ (Nat.toDigits 10 id.toNat).map fun c => UInt8.ofNat c.toNat := by
  simp [regionName, ascii]

theorem regionName_injective : Function.Injective regionName := by
  intro i j h
  rw [regionName_eq, regionName_eq] at h
  have hdigits := eq_of_digit_bytes_eq
    (fun c hc => Nat.isDigit_of_mem_toDigits (by decide) (by decide) hc)
    (fun d hd => Nat.isDigit_of_mem_toDigits (by decide) (by decide) hd)
    (append_cancel_left h)
  have hvalue := congrArg (fun ds => Nat.ofDigitChars 10 ds 0) hdigits
  simp only [Nat.ofDigitChars_toDigits (by decide : 1 < 10) (by decide)] at hvalue
  exact BitVec.eq_of_toNat_eq hvalue

theorem regionName_length_lt : (regionName id).length < propNameLen := by
  have hdigits := Nat.toDigits_length 10 id.toNat 10 (by decide) (by have := id.isLt; omega)
  have hfixed : (ascii "region-id-").length = 10 := by decide
  rw [regionName_eq, length_append, length_map, propNameLen]
  omega

/-! ## Numbers -/

/-- The number of the region with `k` regions before it, as long as the counter does not wrap. -/
def regionId (k : ℕ) : ℕ := if k < 55 then k else k + 1

/-- The counter goes through the numbers in order. -/
theorem nextId_regionId (k : ℕ) (hk : k + 1 < 2^32) :
    nextId (ofNat 32 (regionId k)) = ofNat 32 (regionId (k + 1)) := by
  have hsucc : ofNat 32 (regionId k) + 1 = ofNat 32 (regionId k + 1) := by
    rw [BitVec.ofNat_add]
    rfl
  have hskip : ofNat 32 (regionId k + 1) = 55 ↔ regionId k + 1 = 55 := by
    rw [BitVec.toNat_eq]
    show (regionId k + 1) % 2^32 = 55 ↔ _
    unfold regionId
    split_ifs <;> omega
  rw [nextId, hsucc]
  by_cases h : k = 54
  · subst h
    decide
  · have hnot : ¬ regionId k + 1 = 55 := by
      unfold regionId
      split_ifs <;> omega
    rw [if_neg (hskip.not.mpr hnot)]
    congr 1
    unfold regionId
    split_ifs <;> omega

/-- The numbers of `n` regions in a row. -/
theorem iterate_nextId (k n : ℕ) (h : k + n < 2^32) : iterate nextId (ofNat 32 (regionId k)) n =
      (range' k n).map fun j => ofNat 32 (regionId j) := by
  induction n generalizing k with
  | zero => rfl
  | succ n ih =>
    rw [iterate, range'_succ, map_cons, nextId_regionId k (by omega), ih (k + 1) (by omega)]

theorem iterate_nextId_nodup {n : ℕ} (h : n < 2^32) : (iterate nextId 0 n).Nodup := by
  have hids := iterate_nextId 0 n (by omega)
  rw [show ofNat 32 (regionId 0) = 0 from rfl] at hids
  rw [hids]
  refine List.Nodup.map_on ?_ nodup_range'
  intro i hi j hj hij
  rw [mem_range'_1] at hi hj
  have hval := congrArg toNat hij
  simp only [toNat_ofNat, regionId] at hval
  split_ifs at hval <;> omega

theorem nextId_ne : nextId id ≠ 55 := by
  unfold nextId
  split_ifs with h
  · rw [h]
    decide
  · exact h

theorem not_mem_iterate_nextId (n : ℕ) {id : BitVec 32} (h : id ≠ 55) :
    55 ∉ iterate nextId id n := by
  induction n generalizing id with
  | zero => simp
  | succ n ih =>
    rw [iterate, mem_cons, not_or]
    exact ⟨h.symm, ih (nextId_ne id)⟩

/-! ## Properties -/

theorem recordLength_lt : 16 < 2^32 := by decide

/-- The property that a region is recorded as. -/
def regionProp (r : Region) : AppleDTProp :=
  ⟨16, false, (regionData r).toList, recordLength_lt, by simp⟩

/-- The node `after` has the regions recorded under the numbers, and is otherwise like `before`. -/
structure Records (ids : List (BitVec 32)) (rs : List Region) (before after : AppleDTNode) :
    Prop where
  /-- Each region is the property under its own number. -/
  regions : List.Forall₂ (fun id r => after.getProp (regionName id) = some (regionProp r)) ids rs
  /-- Every name that is not made from one of the numbers leads to what it led to before. -/
  others : ∀ name, (∀ id ∈ ids, name ≠ regionName id) → after.getProp name = before.getProp name

/-- Recording one more region first, under a number that is not used again, records it too. -/
theorem Records.cons {id : BitVec 32} {r : Region} {ids : List (BitVec 32)} {rs : List Region}
    {before node after : AppleDTNode} (hid : id ∉ ids)
    (hset : node.getProp (regionName id) = some (regionProp r))
    (hother : ∀ name, name ≠ regionName id → node.getProp name = before.getProp name)
    (h : Records ids rs node after) : Records (id :: ids) (r :: rs) before after := by
  constructor
  · refine List.Forall₂.cons ?_ h.regions
    -- The later numbers lead elsewhere.
    rw [h.others (regionName id) fun j hj hname => hid (regionName_injective hname ▸ hj)]
    exact hset
  · intro name hname
    rw [h.others name fun j hj => hname j (mem_cons_of_mem _ hj)]
    exact hother name (hname id mem_cons_self)

/-! ## Runs -/

/-- The regions handed out for a list of requests, from the lowest address `e` downwards. -/
def regionsFrom (alignment : BitVec 64) : BitVec 64 → List (BitVec 64) → List Region
  | _, [] => []
  | e, size :: sizes =>
    let r : Region := ⟨roundDown (e - size) alignment, size⟩
    r :: regionsFrom alignment r.addr sizes

theorem regionsFrom_length (alignment e : BitVec 64) (sizes : List (BitVec 64)) :
    (regionsFrom alignment e sizes).length = sizes.length := by
  induction sizes generalizing e with
  | nil => rfl
  | cons size sizes ih => exact congrArg (· + 1) (ih _)

/-- The lowest address after some regions were handed out. -/
def lowest : BitVec 64 → List Region → BitVec 64
  | e, [] => e
  | _, r :: rs => lowest r.addr rs

/-- What is known of an allocator after a list of requests. -/
structure Served (ca : CarveoutAllocator) (sizes : List (BitVec 64)) (ca' : CarveoutAllocator) :
    Prop where
  dramBase : ca'.dramBase = ca.dramBase
  alignment : ca'.alignment = ca.alignment
  endAddr : ca'.endAddr = lowest ca.endAddr (regionsFrom ca.alignment ca.endAddr sizes)
  without : ca.node = none → ca'.node = none
  /-- With a node, and numbers that do not repeat, the regions are recorded in it. -/
  recorded : ∀ node, ca.node = some node → (iterate nextId ca.curId sizes.length).Nodup →
    ∃ node', ca'.node = some node' ∧ Records (iterate nextId ca.curId sizes.length)
      (regionsFrom ca.alignment ca.endAddr sizes) node node'

theorem carveoutAllocAll_spec {ca : CarveoutAllocator} {sizes : List (BitVec 64)}
    (hopen : ∀ node, ca.node = some node → node.finalised = false) (hpos : ∀ s ∈ sizes, s ≠ 0) :
    ∃ ca', carveoutAllocAll ca sizes = some (regionsFrom ca.alignment ca.endAddr sizes, ca') ∧
      Served ca sizes ca' := by
  induction sizes generalizing ca with
  | nil =>
    refine ⟨ca, rfl, rfl, rfl, rfl, id, ?_⟩
    intro node hnode _
    exact ⟨node, hnode, List.Forall₂.nil, fun _ _ => rfl⟩
  | cons size sizes ih =>
    have hsize : size ≠ 0 := hpos size mem_cons_self
    have hrest : ∀ s ∈ sizes, s ≠ 0 := fun s hs => hpos s (mem_cons_of_mem _ hs)
    cases hnode : ca.node with
    | none =>
      -- Nothing is recorded, and only the lowest address moves.
      obtain ⟨ca', hrun, hserved⟩ :=
        @ih { ca with endAddr := roundDown (ca.endAddr - size) ca.alignment } hopen hrest
      refine ⟨ca', ?_, hserved.dramBase, hserved.alignment, hserved.endAddr, hserved.without,
        fun node h => absurd h (by rw [hnode]; nofun)⟩
      simp only [carveoutAllocAll, carveoutAllocMem, hsize, if_false, hnode, bind_some]
      rw [← hnode, hrun]
      rfl
    | some node =>
      obtain ⟨node₁, hset, hopen₁, hthis, hother⟩ := AppleDTNode.setProp_spec
        (by decide) (regionData ⟨roundDown (ca.endAddr - size) ca.alignment, size⟩)
        (regionName_length_lt ca.curId) (hopen node hnode)
      obtain ⟨ca', hrun, hserved⟩ := @ih
        { ca with endAddr := roundDown (ca.endAddr - size) ca.alignment, node := some node₁,
                  curId := nextId ca.curId }
        (fun n h => some.inj h ▸ hopen₁) hrest
      refine ⟨ca', ?_, hserved.dramBase, hserved.alignment, hserved.endAddr,
        fun h => absurd h (by rw [hnode]; nofun), ?_⟩
      · simp only [carveoutAllocAll, carveoutAllocMem, hsize, if_false, hnode, hset,
          map_some, bind_some, hrun]
        rfl
      · intro n hn hnodup
        obtain rfl := some.inj (hnode.symm.trans hn)
        obtain ⟨hid, hnodup'⟩ := nodup_cons.mp hnodup
        obtain ⟨node', hnode', hrec⟩ := hserved.recorded node₁ rfl hnodup'
        exact ⟨node', hnode', hrec.cons hid hthis hother⟩

end Inferno.Carveout
