import Mathlib.Data.List.TakeWhile
import Inferno.DeviceTree.Layout

/-!
# The round trip of the device tree codec

A tree without placeholders is read back from what `serialise` leaves in a buffer: the same
property map at every node, the same children in the same order, and a cursor that ends where the
bytes end. The old contents of the buffer, which show through in the padding, do not matter.

The stores of the tree are pairwise disjoint (`stores_confined`), so each of them can be read back,
and the reader is followed along them, a property, a node and a list of children at a time. The
counts in front of a node are 32-bit words, so a node with `2^32` children is not read back
(`not_roundTrip_wide`).
-/

namespace Inferno.DeviceTree

open Common List Nat Option
open AppleDTNode (All AllList depth depthList)

/-! ## What is compared -/

/-- Two trees have the same property map at every node, and the same children in the same order. -/
inductive AppleDTNode.Same : AppleDTNode → AppleDTNode → Prop
  | mk {props props' : PropTable} {children children' : List AppleDTNode} {f f' : Bool}
      (hprops : ∀ name, props.lookup name = props'.lookup name)
      (hchildren : List.Forall₂ Same children children') :
      Same (.mk props children f) (.mk props' children' f')

/-- A property that the format can hold as it is: no placeholder, a name that fits its slot with a
NUL behind it, and a length that leaves the high bit free. -/
structure Plain (e : PropEntry) : Prop where
  no_placeholder : e.2.placeholder = false
  name_nul_free : 0 ∉ e.1
  name_length : e.1.length < propNameLen
  len_lt : e.2.len < 2^31

/-- Every property of the tree is plain, and no node is finalised yet. -/
def Encodable (t : AppleDTNode) : Prop :=
  t.All fun props _ finalised => finalised = false ∧ ∀ e ∈ props.entries, Plain e

/-- The numbers of properties and children of every node fit in their 32-bit words. -/
def CountsFit (t : AppleDTNode) : Prop :=
  t.All fun props children _ => props.entries.length < 2^32 ∧ children.length < 2^32

variable (strtoull : List UInt8 → ℕ)

/-- `finalise`, `serialise` into `buf` and `deserialise`, with a stack that is deep enough, give
the tree back, and the cursor of the reader ends where that of the writer did. -/
def RoundTrip (t : AppleDTNode) (buf : ℕ → UInt8) : Prop :=
  ∃ len t' ws stop, finalise strtoull t = some (len, t') ∧ serialise strtoull t' = some (ws, stop) ∧
    ∀ fuel, t.depth ≤ fuel →
      ∃ t'', deserialise fuel (applyAll buf ws) = some (t'', stop) ∧ t.Same t''

/-! ## Reading one property -/

variable {m : ℕ → UInt8} (ps : List PropEntry) {t : AppleDTNode}

theorem Plain.emission_eq {e : PropEntry} (h : Plain e) :
    emission strtoull e.2 = some e.2.data := by
  unfold emission
  rw [h.no_placeholder]
  rfl

/-- A stored word is read back, modulo `2^32`. -/
theorem ldlLe_of_written {p v : ℕ}
    (h : load m (stlLe p v).off (stlLe p v).bytes.length = (stlLe p v).bytes) :
    ldlLe m p = v % 2^32 := by
  rw [stlLe_length, stlLe_off] at h
  rw [ldlLe, h]
  exact ofLe_leBytes 4 v

/-- A NUL-free string shorter than the slot is what `strncpy` left in it, up to the first NUL. -/
theorem takeWhile_strncpy (s : List UInt8) (h0 : 0 ∉ s) (hlen : s.length < propNameLen) :
    strncpy s propNameLen = s ++ replicate (propNameLen - s.length) 0 ∧
      ((strncpy s propNameLen).take (propNameLen - 1)).takeWhile (· ≠ 0) = s := by
  have hall : ∀ c ∈ s, decide (c ≠ 0) = true := by
    intro c hc
    exact decide_eq_true fun e => h0 (e ▸ hc)
  have hcopy : strncpy s propNameLen = s ++ replicate (propNameLen - s.length) 0 := by
    simp only [strncpy]
    rw [takeWhile_eq_self_iff.mpr hall, take_of_length_le (by omega)]
  refine ⟨hcopy, ?_⟩
  rw [hcopy, take_append, take_of_length_le (by omega),
    takeWhile_append_of_pos hall]
  cases min (propNameLen - 1 - s.length) (propNameLen - s.length) with
  | zero => simp
  | succ n => simp

/-- The reader of a property gets back a plain property that was written at its cursor. -/
theorem deserialiseProp_of_written {p : ℕ} {e : PropEntry} (he : Plain e)
    (h : Written m (recordStores e.1 p (some e.2.data))) :
    deserialiseProp m p = (e.1, e.2, p + recordSize (some e.2.data)) := by
  obtain ⟨key, ⟨len, placeholder, data, len_lt, data_length⟩⟩ := e
  obtain ⟨hplain, hnul, hname, hlen⟩ := he
  subst hplain data_length
  rw [recordStores, written_cons, written_cons] at h
  obtain ⟨hslot, hword, hdata⟩ := h
  rw [strncpy_length] at hslot
  obtain ⟨hcopy, hwhile⟩ := takeWhile_strncpy key hnul hname
  -- The name, up to its NUL.
  have hstrnlen : strnlen m p (propNameLen - 1) = key.length := by
    rw [strnlen, ← load_take m (sub_le _ _), hslot, hwhile]
  have hkey : load m p key.length = key := by
    rw [← load_take m hname.le, hslot, hcopy, take_left']
    rfl
  -- The length, whose high bit is clear.
  have hldl : ldlLe m (p + propNameLen) = data.length := by
    rw [ldlLe_of_written hword, mod_eq_of_lt len_lt]
  have hbit : data.length.testBit 31 = false := testBit_lt_two_pow hlen
  -- The data, which is not stored at all when it is empty.
  have hload : load m (p + propNameLen + 4) data.length = data := by
    by_cases hnil : data = []
    · rw [hnil]
      rfl
    · rw [if_neg hnil] at hdata
      exact hdata _ mem_cons_self
  simp only [deserialiseProp, hstrnlen, hldl, hbit, Bool.false_eq_true, if_false, hload,
    recordSize]
  congr 2
  by_cases hzero : data.length = 0
  · rw [hzero]
    rfl
  · rw [if_pos hzero, add_assoc, add_assoc, add_assoc]

/-! ## Reading the properties of a node -/

/-- The table after the entries of a list are inserted, in order. -/
def insertAll (props : PropTable) (ps : List PropEntry) : PropTable :=
  ps.foldl (fun props e => props.insert e.1 e.2) props

/-- Inserting entries with distinct names gives a table that looks a name up among them first. -/
theorem lookup_insertAll (h : ps.NodupKeys) (props : PropTable) (name : List UInt8) :
    (insertAll props ps).lookup name = (ps.dlookup name).or (props.lookup name) := by
  induction ps generalizing props with
  | nil => simp [insertAll]
  | cons e ps ih =>
    obtain ⟨hnew, hps⟩ := nodupKeys_cons.mp h
    have htail : (insertAll props (e :: ps)).lookup name =
        (ps.dlookup name).or ((props.insert e.1 e.2).lookup name) := ih hps _
    rw [htail]
    -- The head is inserted first, and no later entry has its name.
    by_cases hname : name = e.1
    · subst hname
      rw [dlookup_eq_none.mpr hnew, dlookup_cons_eq, AList.lookup_insert]
      rfl
    · rw [dlookup_cons_ne _ e hname, AList.lookup_insert_ne hname]

/-- The reader of the property loop gets back plain properties that were written at its cursor. -/
theorem deserialiseProps_of_written (hps : ∀ e ∈ ps, Plain e) (p : ℕ) (props : PropTable)
    (h : Written m (propsStores strtoull ps p)) : deserialiseProps m ps.length p props =
      (insertAll props ps, p + propsSize strtoull ps) := by
  induction ps generalizing p props with
  | nil => rfl
  | cons e ps ih =>
    obtain ⟨he, hrest⟩ := forall_mem_cons.mp hps
    have hemit := he.emission_eq strtoull
    rw [propsStores, hemit, written_append] at h
    have hread := deserialiseProp_of_written he h.1
    have htail := ih hrest (p + recordSize (some e.2.data)) (props.insert e.1 e.2) h.2
    rw [length_cons, deserialiseProps, hread]
    dsimp only
    rw [htail, propsSize, hemit, add_assoc]
    rfl

theorem propsCount_of_plain (hps : ∀ e ∈ ps, Plain e) : propsCount strtoull ps = ps.length := by
  induction ps with
  | nil => rfl
  | cons e ps ih =>
    obtain ⟨he, hrest⟩ := forall_mem_cons.mp hps
    rw [propsCount, he.emission_eq strtoull, ih hrest, add_comm]
    rfl

/-! ## Reading trees -/

mutual

/-- The tree that the reader builds. -/
def decoded : AppleDTNode → AppleDTNode
  | .mk props children _ => .mk (insertAll ∅ props.entries) (decodedList children) false

/-- The list of trees that the reader builds. -/
def decodedList : List AppleDTNode → List AppleDTNode
  | [] => []
  | child :: rest => decoded child :: decodedList rest

end

mutual

theorem same_decoded (t : AppleDTNode) : t.Same (decoded t) := by
  obtain ⟨props, children, finalised⟩ := t
  refine .mk ?_ same_decodedList
  intro name
  rw [lookup_insertAll _ props.nodupKeys, AList.lookup_empty, or_none]
  rfl

theorem same_decodedList {cs : List AppleDTNode} :
    List.Forall₂ AppleDTNode.Same cs (decodedList cs) := by
  cases cs with
  | nil => exact .nil
  | cons c cs => exact .cons (same_decoded c) same_decodedList

end

mutual

/-- The reader, with a stack as deep as the tree, gets back a tree that was written at its
cursor. -/
theorem deserialiseNode_of_written {m : ℕ → UInt8} (t : AppleDTNode) (he : Encodable t)
    (hc : CountsFit t) (fuel p : ℕ) (hfuel : t.depth ≤ fuel) (h : Written m (stores strtoull t p)) :
    deserialiseNode m fuel p = some (decoded t, p + size strtoull t) := by
  obtain ⟨props, children, finalised⟩ := t
  obtain ⟨⟨-, hplain⟩, hechildren⟩ := he
  obtain ⟨⟨hpcount, hccount⟩, hcchildren⟩ := hc
  rw [depth] at hfuel
  -- One level of the stack is for the node, the others for its children.
  obtain ⟨fuel, rfl⟩ : ∃ n, fuel = n + 1 := ⟨fuel - 1, by omega⟩
  rw [stores, cons_append, written_cons, written_append, written_cons] at h
  obtain ⟨hcword, hprops, hpword, hchildren⟩ := h
  -- The two counts, which are stored modulo `2^32`.
  have hp : ldlLe m p = props.entries.length := by
    rw [ldlLe_of_written hpword, propsCount_of_plain strtoull _ hplain, mod_eq_of_lt hpcount]
  have hcs : ldlLe m (p + 4) = children.length := by
    rw [ldlLe_of_written hcword, mod_eq_of_lt hccount]
  have hread := deserialiseProps_of_written strtoull props.entries hplain (p + 4 + 4) ∅ hprops
  have hrest := deserialiseChildren_of_written children hechildren hcchildren fuel
    (p + 4 + 4 + propsSize strtoull props.entries) (by omega) hchildren
  simp only [deserialiseNode, hp, hcs, hread, hrest, some_bind,
    Option.pure_def, decoded, size, some.injEq, Prod.mk.injEq, true_and]
  omega

/-- The reader of the child loop gets back trees that were written one behind the other. -/
theorem deserialiseChildren_of_written {m : ℕ → UInt8} (cs : List AppleDTNode)
    (he : AllList (fun props _ finalised =>
      finalised = false ∧ ∀ e ∈ props.entries, Plain e) cs) (hc : AllList (fun props children _ =>
      props.entries.length < 2^32 ∧ children.length < 2^32) cs)
    (fuel p : ℕ) (hfuel : depthList cs ≤ fuel) (h : Written m (storesList strtoull cs p)) :
    deserialiseChildren (deserialiseNode m fuel) cs.length p =
      some (decodedList cs, p + sizeList strtoull cs) := by
  cases cs with
  | nil => rfl
  | cons c cs =>
    rw [depthList] at hfuel
    rw [storesList, written_append] at h
    have hhead := deserialiseNode_of_written c he.1 hc.1 fuel p (by omega) h.1
    have htail := deserialiseChildren_of_written cs he.2 hc.2 fuel (p + size strtoull c)
      (by omega) h.2
    simp [deserialiseChildren, hhead, htail, decodedList, sizeList, add_assoc]

end

/-! ## The round trip -/

theorem Encodable.finalisable (h : Encodable t) : Finalisable strtoull t := by
  refine All.mono ?_ t h
  rintro props _ _ ⟨hfin, hplain⟩
  refine ⟨hfin, ?_⟩
  intro e he hp
  rw [(hplain e he).no_placeholder] at hp
  exact absurd hp Bool.false_ne_true

theorem Encodable.short (h : Encodable t) : t.All fun props _ _ => Short strtoull props := by
  refine All.mono ?_ t h
  rintro props _ _ ⟨-, hplain⟩ e he bs hbs
  have hlen := (hplain e he).len_lt
  rw [(hplain e he).emission_eq strtoull, some.injEq] at hbs
  rw [← hbs, e.2.data_length]
  omega

/-- What the two passes leave behind: the buffer in which every store of the tree can be read, and
a cursor behind the tree. -/
theorem Encodable.serialise_eq (h : Encodable t) (buf : ℕ → UInt8) :
    finalise strtoull t = some (size strtoull t % 2^64, marked t) ∧
      serialise strtoull (marked t) = some (stores strtoull t 0, size strtoull t) ∧
      Written (applyAll buf (stores strtoull t 0)) (stores strtoull t 0) := by
  obtain ⟨hf, hs⟩ := serialise_finalise strtoull t (h.finalisable strtoull)
  have hd := (stores_confined strtoull t 0 (h.short strtoull)).2
  exact ⟨hf, hs, written_applyAll _ hd buf⟩

/-- Every tree of plain properties whose counts fit in 32 bits survives the round trip through any
buffer. -/
theorem roundTrip_of_encodable (t : AppleDTNode) (he : Encodable t) (hc : CountsFit t)
    (buf : ℕ → UInt8) : RoundTrip strtoull t buf := by
  obtain ⟨hf, hs, hw⟩ := he.serialise_eq strtoull buf
  refine ⟨_, _, _, _, hf, hs, ?_⟩
  intro fuel hfuel
  have hread := deserialiseNode_of_written strtoull t he hc fuel 0 hfuel hw
  rw [zero_add] at hread
  exact ⟨_, hread, same_decoded t⟩

/-- A root with one property and one child without properties. -/
def smallTree : AppleDTNode :=
  .mk (AList.singleton (ascii "name") ⟨3, false, ascii "d1" ++ [0], by decide, by decide⟩)
    [.mk ∅ [] false] false

/-- The round trip of a small tree, through a buffer that is not blank. -/
theorem roundTrip_smallTree : Encodable smallTree ∧ CountsFit smallTree ∧
      RoundTrip gAsciiStrtoull smallTree fun _ => 255 := by
  have he : Encodable smallTree := by
    refine ⟨⟨rfl, ?_⟩, ⟨⟨rfl, ?_⟩, trivial⟩, trivial⟩
    · intro e he
      obtain rfl := mem_singleton.mp he
      exact ⟨rfl, by decide, by decide, by decide⟩
    · intro e he
      exact absurd he not_mem_nil
  have hc : CountsFit smallTree :=
    ⟨⟨by decide, by decide⟩, ⟨⟨by decide, by decide⟩, trivial⟩, trivial⟩
  exact ⟨he, hc, roundTrip_of_encodable gAsciiStrtoull smallTree he hc _⟩

/-- A root with `n` children, none of which has a property or a child. -/
def wideTree (n : ℕ) : AppleDTNode := .mk ∅ (replicate n (.mk ∅ [] false)) false

/-- A property of every tree of a list holds for copies of a tree that has it. -/
theorem allList_replicate {P : PropTable → List AppleDTNode → Bool → Prop} (t : AppleDTNode)
    (h : All P t) (n : ℕ) : AllList P (replicate n t) := by
  induction n with
  | zero => trivial
  | succ n ih => exact ⟨h, ih⟩

/-- The wide tree has no properties, so all of them are plain. -/
theorem encodable_wideTree (n : ℕ) : Encodable (wideTree n) := by
  have hnone : ∀ e ∈ (∅ : PropTable).entries, Plain e := fun e he => absurd he not_mem_nil
  have hleaf : Encodable (.mk ∅ [] false) := ⟨⟨rfl, hnone⟩, trivial⟩
  exact ⟨⟨rfl, hnone⟩, allList_replicate _ hleaf n⟩

/-- Children are counted modulo `2^32`: when that count is zero, none of them is read back. -/
theorem eq_zero_of_roundTrip_wideTree (n : ℕ) (hn : n % 2^32 = 0) (buf : ℕ → UInt8)
    (h : RoundTrip strtoull (wideTree n) buf) : n = 0 := by
  obtain ⟨len, t', ws, stop, hf, hs, hread⟩ := h
  obtain ⟨hf', hs', hw⟩ := (encodable_wideTree n).serialise_eq strtoull buf
  rw [hf'] at hf
  obtain ⟨-, rfl⟩ := hf
  rw [hs', some.injEq, Prod.mk.injEq] at hs
  obtain ⟨rfl, -⟩ := hs
  obtain ⟨t'', ht'', hsame⟩ := hread _ le_rfl
  generalize applyAll buf (stores strtoull (wideTree n) 0) = m at hw ht''
  -- The word that the reader takes for the number of children.
  have hcount : ldlLe m 4 = 0 := by
    rw [wideTree, stores, cons_append, written_cons] at hw
    have h := ldlLe_of_written hw.1
    rw [length_replicate, hn] at h
    exact h
  unfold wideTree at ht''
  rw [depth] at ht''
  simp only [deserialise, deserialiseNode, hcount] at ht''
  obtain ⟨rfl, -⟩ := ht''
  -- The tree that was read has no child, and is the same as one with `n` children.
  obtain ⟨-, hchildren⟩ := hsame
  have hlen := hchildren.length_eq
  rw [length_replicate] at hlen
  exact hlen

/-- The `2^32` children of the wide tree are counted as none, so that none is read back. -/
theorem not_roundTrip_wide :
    Encodable (wideTree (2^32)) ∧ ¬ RoundTrip gAsciiStrtoull (wideTree (2^32)) fun _ => 0 := by
  refine ⟨encodable_wideTree _, ?_⟩
  intro h
  have hzero := eq_zero_of_roundTrip_wideTree gAsciiStrtoull _ (mod_self _) _ h
  exact absurd hzero (by norm_num)

end Inferno.DeviceTree
