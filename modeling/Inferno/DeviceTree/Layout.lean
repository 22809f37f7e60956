import Inferno.Common.Outcome
import Inferno.DeviceTree.Model

/-!
# The layout of a serialised tree

The two passes over a tree, `finalise` and `serialise`, are separate recursions. Both are described
here by the same total functions on trees: `size`, the number of bytes of a tree in exact
arithmetic, and `stores`, what is written and where. `finalise_iff` and `serialiseNode_iff` say
when the passes have a result, and that it is `size` modulo `2^64` and `stores`.

The common ground is `emission`, the bytes that a property contributes: its data, the zeros that
its placeholder asks for, or nothing when it is removed.
-/

namespace Inferno.DeviceTree

open Common List Option Nat

variable (strtoull : List UInt8 → ℕ)

/-! ## One property -/

variable (prop : AppleDTProp)

/-- The placeholder string of the property, if it is one, is parsed inside its own bytes. -/
def AppleDTProp.Parses : Prop :=
  prop.placeholder = true → (propPlaceholderLen strtoull prop).isSome

variable (key : List UInt8) (ps : List PropEntry)

/-- The data bytes recorded for a property, `none` when the property is removed. -/
def emission : Option (List UInt8) :=
  if prop.placeholder then
    match propPlaceholderLen strtoull prop with
    | some (n + 1) => some (replicate (n + 1) 0)
    | _ => none
  else some prop.data

/-- The bytes that a record takes: name slot, length word and padded data. -/
def recordSize : Option (List UInt8) → ℕ
  | none => 0
  | some bs => propNameLen + 4 + roundUp bs.length

/-- The stores that write a record at `buf`. -/
def recordStores (key : List UInt8) (buf : ℕ) : Option (List UInt8) → List Store
  | none => []
  | some bs => ⟨buf, strncpy key propNameLen⟩ :: stlLe (buf + propNameLen) bs.length ::
      if bs = [] then [] else [⟨buf + propNameLen + 4, bs⟩]

/-- `propSerialisedLen` is the size of the record, where the placeholder parses. -/
theorem propSerialisedLen_iff (n : ℕ) : propSerialisedLen strtoull prop = some n ↔
      prop.Parses strtoull ∧ n = recordSize (emission strtoull prop) := by
  unfold propSerialisedLen AppleDTProp.Parses emission
  cases hp : prop.placeholder with
  | false =>
    have hlen : recordSize (some prop.data) = propNameLen + 4 + roundUp prop.len := by
      rw [recordSize, prop.data_length]
    simp only [Bool.false_eq_true, if_false, false_implies, true_and, hlen, some.injEq]
    exact eq_comm
  | true =>
    -- The string does not parse, asks for nothing, or asks for `l + 1` bytes.
    rcases hl : propPlaceholderLen strtoull prop with _ | _ | l
    · simp
    · simp [recordSize, eq_comm]
    · have hlen : recordSize (some (replicate (l + 1) 0)) = propNameLen + 4 + roundUp (l + 1) := by
        rw [recordSize, length_replicate]
      simp [hlen, eq_comm]

section

variable (prop : AppleDTProp) (ps : List PropEntry)

/-- One round of the property loop writes the record, where the placeholder parses. -/
theorem serialiseProp_iff (buf : ℕ) (r : ℕ × List Store × ℕ) :
    serialiseProp strtoull key prop buf = some r ↔
      prop.Parses strtoull ∧ r = ((emission strtoull prop).toList.length,
        recordStores key buf (emission strtoull prop),
        buf + recordSize (emission strtoull prop)) := by
  unfold serialiseProp AppleDTProp.Parses emission
  cases hp : prop.placeholder with
  | false =>
    have hnil : prop.data = [] ↔ prop.len = 0 := by
      rw [← prop.data_length, length_eq_zero_iff]
    simp only [Bool.false_eq_true, if_false, false_implies, true_and, recordSize, recordStores,
      prop.data_length]
    by_cases h0 : prop.len = 0
    · rw [if_neg (not_not.mpr h0), if_pos (hnil.mpr h0), h0, some.injEq]
      exact eq_comm
    · rw [if_pos h0, if_neg (mt hnil.mp h0), some.injEq, add_assoc buf, add_assoc buf]
      exact eq_comm
  | true =>
    simp only [if_true, true_implies, bind_eq_bind]
    rcases hl : propPlaceholderLen strtoull prop with _ | _ | l
    · simp
    · simp [recordSize, recordStores, eq_comm]
    · simp only [recordSize, recordStores, length_replicate, bind_some,
        succ_ne_zero, if_false, Option.pure_def, some.injEq, isSome_some,
        true_and, ← add_assoc]
      exact eq_comm

/-! ## The properties of a node -/

/-- The bytes of a list of records. -/
def propsSize : List PropEntry → ℕ
  | [] => 0
  | ⟨_, prop⟩ :: rest => recordSize (emission strtoull prop) + propsSize rest

/-- The number of records: the properties that are not removed. -/
def propsCount : List PropEntry → ℕ
  | [] => 0
  | ⟨_, prop⟩ :: rest => (emission strtoull prop).toList.length + propsCount rest

/-- The stores that write a list of records at `buf`. -/
def propsStores : List PropEntry → ℕ → List Store
  | [], _ => []
  | ⟨key, prop⟩ :: rest, buf => recordStores key buf (emission strtoull prop) ++
      propsStores rest (buf + recordSize (emission strtoull prop))

/-- Every placeholder among the properties parses. -/
def PropsParse : Prop := ∀ e ∈ ps, e.2.Parses strtoull

theorem propsParse_cons : PropsParse strtoull (⟨key, prop⟩ :: ps) ↔
      prop.Parses strtoull ∧ PropsParse strtoull ps :=
  forall_mem_cons

end

/-- The property loop of `finalise` adds the size of the records, modulo `2^64`. -/
theorem finaliseProps_iff (len r : ℕ) : finaliseProps strtoull ps (len % 2^64) = some r ↔
      PropsParse strtoull ps ∧ r = (len + propsSize strtoull ps) % 2^64 := by
  induction ps generalizing len with
  | nil => simp [finaliseProps, PropsParse, propsSize, eq_comm]
  | cons e ps ih =>
    obtain ⟨key, prop⟩ := e
    -- The loop reduces its sum in every round, which is the same as reducing it once.
    simp only [finaliseProps, bind_eq_bind, bind_eq_some_iff, propsParse_cons,
      propSerialisedLen_iff, mod_add_mod, ih, propsSize, ← add_assoc]
    constructor
    · rintro ⟨l, ⟨hp, rfl⟩, hps, hr⟩
      exact ⟨⟨hp, hps⟩, hr⟩
    · rintro ⟨⟨hp, hps⟩, hr⟩
      exact ⟨_, ⟨hp, rfl⟩, hps, hr⟩

variable (buf : ℕ)

/-- The property loop of `serialiseNode` writes the records. -/
theorem serialiseProps_iff (r : ℕ × List Store × ℕ) : serialiseProps strtoull ps buf = some r ↔
      PropsParse strtoull ps ∧ r = (propsCount strtoull ps, propsStores strtoull ps buf,
        buf + propsSize strtoull ps) := by
  induction ps generalizing buf r with
  | nil => simp [serialiseProps, PropsParse, propsCount, propsStores, propsSize, eq_comm]
  | cons e ps ih =>
    obtain ⟨key, prop⟩ := e
    simp only [serialiseProps, bind_eq_bind, bind_eq_some_iff, serialiseProp_iff,
      propsParse_cons, ih]
    constructor
    · rintro ⟨-, ⟨hp, rfl⟩, -, ⟨hps, rfl⟩, hr⟩
      refine ⟨⟨hp, hps⟩, ?_⟩
      simpa [propsCount, propsStores, propsSize, add_assoc] using hr.symm
    · rintro ⟨⟨hp, hps⟩, rfl⟩
      refine ⟨_, ⟨hp, rfl⟩, _, ⟨hps, rfl⟩, ?_⟩
      simp [propsCount, propsStores, propsSize, add_assoc]

/-! ## Trees -/

mutual

/-- The bytes of a serialised tree. -/
def size : AppleDTNode → ℕ
  | .mk props children _ => 4 + 4 + propsSize strtoull props.entries + sizeList children

/-- The bytes of a list of serialised trees. -/
def sizeList : List AppleDTNode → ℕ
  | [] => 0
  | child :: rest => size child + sizeList rest

end

mutual

/-- The stores that write a tree at `buf`, in the order in which they are made. -/
def stores : AppleDTNode → ℕ → List Store
  | .mk props children _, buf =>
    stlLe (buf + 4) children.length :: propsStores strtoull props.entries (buf + 4 + 4) ++
      stlLe buf (propsCount strtoull props.entries) ::
        storesList children (buf + 4 + 4 + propsSize strtoull props.entries)

/-- The stores that write a list of trees, one behind the other. -/
def storesList : List AppleDTNode → ℕ → List Store
  | [], _ => []
  | child :: rest, buf => stores child buf ++ storesList rest (buf + size strtoull child)

end

mutual

/-- The tree with every node marked as finalised. -/
def marked : AppleDTNode → AppleDTNode
  | .mk props children _ => .mk props (markedList children) true

/-- A list of trees with every node marked as finalised. -/
def markedList : List AppleDTNode → List AppleDTNode
  | [] => []
  | child :: rest => marked child :: markedList rest

end

variable (t : AppleDTNode)

/-- No node is finalised, and every placeholder parses: what `finalise` needs of a tree. -/
def Finalisable : Prop :=
  t.All fun props _ finalised => finalised = false ∧ PropsParse strtoull props.entries

/-- Every node is finalised, and every placeholder parses: what `serialise` needs of a tree. -/
def Serialisable : Prop :=
  t.All fun props _ finalised => finalised = true ∧ PropsParse strtoull props.entries

open AppleDTNode (All AllList)

mutual

/-- `finalise` returns the size of the tree modulo `2^64` and the marked tree. -/
theorem finalise_iff (t : AppleDTNode) (r : ℕ × AppleDTNode) : finalise strtoull t = some r ↔
      Finalisable strtoull t ∧ r = (size strtoull t % 2^64, marked t) := by
  obtain ⟨props, children, finalised⟩ := t
  cases finalised with
  | true => simp [finalise, Finalisable, All]
  | false =>
    -- `finaliseProps_iff` is about a sum that is reduced already, and so is the first one.
    have h8 : (4 + 4) % 2^64 = 4 + 4 := rfl
    simp only [finalise, Bool.false_eq_true, if_false, bind_eq_bind,
      bind_eq_some_iff, Finalisable, All, size, marked]
    rw [← h8]
    simp only [finaliseProps_iff]
    constructor
    · rintro ⟨-, ⟨hp, rfl⟩, r', h, hr⟩
      obtain ⟨hc, rfl⟩ := (finaliseChildren_iff children _ _).mp h
      exact ⟨⟨⟨trivial, hp⟩, hc⟩, by simpa using hr.symm⟩
    · rintro ⟨⟨⟨-, hp⟩, hc⟩, rfl⟩
      exact ⟨_, ⟨hp, rfl⟩, _, (finaliseChildren_iff children _ _).mpr ⟨hc, rfl⟩, rfl⟩

/-- The child loop of `finalise` adds the sizes of the children. -/
theorem finaliseChildren_iff (cs : List AppleDTNode) (len : ℕ) (r : ℕ × List AppleDTNode) :
    finaliseChildren strtoull cs (len % 2^64) = some r ↔
      AllList (fun props _ finalised => finalised = false ∧ PropsParse strtoull props.entries) cs ∧
        r = ((len + sizeList strtoull cs) % 2^64, markedList cs) := by
  cases cs with
  | nil => simp [finaliseChildren, AllList, sizeList, markedList, eq_comm]
  | cons c cs =>
    simp only [finaliseChildren, bind_eq_bind, bind_eq_some_iff, finalise_iff c, sizeList,
      markedList]
    constructor
    · rintro ⟨-, ⟨hc, rfl⟩, r', h, hr⟩
      rw [← add_mod] at h
      obtain ⟨hcs, rfl⟩ := (finaliseChildren_iff cs _ _).mp h
      exact ⟨⟨hc, hcs⟩, by simpa [add_assoc] using hr.symm⟩
    · rintro ⟨⟨hc, hcs⟩, rfl⟩
      have h := (finaliseChildren_iff cs (len + size strtoull c) _).mpr ⟨hcs, rfl⟩
      rw [add_mod, add_assoc] at h
      exact ⟨_, ⟨hc, rfl⟩, _, h, rfl⟩

end

mutual

/-- `serialiseNode` writes the tree and moves its cursor by the size of the tree. -/
theorem serialiseNode_iff (t : AppleDTNode) (buf : ℕ) (r : List Store × ℕ) :
    serialiseNode strtoull t buf = some r ↔
      Serialisable strtoull t ∧ r = (stores strtoull t buf, buf + size strtoull t) := by
  obtain ⟨props, children, finalised⟩ := t
  cases finalised with
  | false => simp [serialiseNode, Serialisable, All]
  | true =>
    simp only [serialiseNode, if_true, bind_eq_bind, bind_eq_some_iff, Serialisable,
      All, size, stores, serialiseProps_iff, serialiseChildren_iff children]
    constructor
    · rintro ⟨-, ⟨hp, rfl⟩, -, ⟨hc, rfl⟩, hr⟩
      exact ⟨⟨⟨trivial, hp⟩, hc⟩, by simpa [add_assoc] using hr.symm⟩
    · rintro ⟨⟨⟨-, hp⟩, hc⟩, rfl⟩
      exact ⟨_, ⟨hp, rfl⟩, _, ⟨hc, rfl⟩, by simp [add_assoc]⟩

theorem serialiseChildren_iff (cs : List AppleDTNode) (buf : ℕ) (r : List Store × ℕ) :
    serialiseChildren strtoull cs buf = some r ↔
      AllList (fun props _ finalised => finalised = true ∧ PropsParse strtoull props.entries) cs ∧
        r = (storesList strtoull cs buf, buf + sizeList strtoull cs) := by
  cases cs with
  | nil => simp [serialiseChildren, AllList, sizeList, storesList, eq_comm]
  | cons c cs =>
    simp only [serialiseChildren, bind_eq_bind, bind_eq_some_iff,
      serialiseNode_iff c, serialiseChildren_iff cs, sizeList, storesList]
    constructor
    · rintro ⟨-, ⟨hc, rfl⟩, -, ⟨hcs, rfl⟩, hr⟩
      exact ⟨⟨hc, hcs⟩, by simpa [add_assoc] using hr.symm⟩
    · rintro ⟨⟨hc, hcs⟩, rfl⟩
      exact ⟨_, ⟨hc, rfl⟩, _, ⟨hcs, rfl⟩, by simp [add_assoc]⟩

end

mutual

/-- Marking a tree changes neither its size nor its stores, and makes it serialisable. -/
theorem marked_spec (t : AppleDTNode) (h : Finalisable strtoull t) :
    Serialisable strtoull (marked t) ∧ size strtoull (marked t) = size strtoull t ∧
      ∀ buf, stores strtoull (marked t) buf = stores strtoull t buf := by
  obtain ⟨props, children, finalised⟩ := t
  obtain ⟨⟨-, hp⟩, hc⟩ := h
  obtain ⟨h1, h2, h3, h4⟩ := markedList_spec children hc
  refine ⟨⟨⟨rfl, hp⟩, h1⟩, ?_, ?_⟩
  · rw [marked, size, size, h2]
  · intro buf
    rw [marked, stores, stores, h3, h4]

/-- Marking a list of trees changes neither their number, their size nor their stores. -/
theorem markedList_spec (cs : List AppleDTNode) (h : AllList (fun props _ finalised =>
      finalised = false ∧ PropsParse strtoull props.entries) cs) : AllList (fun props _ finalised =>
        finalised = true ∧ PropsParse strtoull props.entries) (markedList cs) ∧
      sizeList strtoull (markedList cs) = sizeList strtoull cs ∧
      (markedList cs).length = cs.length ∧
      ∀ buf, storesList strtoull (markedList cs) buf = storesList strtoull cs buf := by
  cases cs with
  | nil => exact ⟨trivial, rfl, rfl, fun _ => rfl⟩
  | cons c cs =>
    obtain ⟨h1, h2, h3⟩ := marked_spec c h.1
    obtain ⟨h4, h5, h6, h7⟩ := markedList_spec cs h.2
    refine ⟨⟨h1, h4⟩, ?_, ?_, ?_⟩
    · rw [markedList, sizeList, sizeList, h2, h5]
    · rw [markedList, length_cons, length_cons, h6]
    · intro buf
      rw [markedList, storesList, storesList, h2, h3, h7]

end

/-- The two passes in a row: `finalise` returns the size modulo `2^64`, and `serialise` on the tree
it leaves makes the stores of the tree and ends behind its last byte. -/
theorem serialise_finalise (h : Finalisable strtoull t) :
    finalise strtoull t = some (size strtoull t % 2^64, marked t) ∧
      serialise strtoull (marked t) = some (stores strtoull t 0, size strtoull t) := by
  obtain ⟨h1, h2, h3⟩ := marked_spec strtoull t h
  refine ⟨(finalise_iff strtoull t _).mpr ⟨h, rfl⟩, ?_⟩
  refine (serialiseNode_iff strtoull (marked t) 0 _).mpr ⟨h1, ?_⟩
  rw [h2, h3, zero_add]

/-! ## The stores of a tree are disjoint -/

/-- The padded size does not wrap for lengths up to `2^32 - 4`. -/
theorem le_roundUp {n : ℕ} (h : n ≤ 2^32 - 4) : n ≤ roundUp n := by
  unfold roundUp
  omega

/-- `strncpy` fills its destination. -/
@[simp]
theorem strncpy_length (s : List UInt8) (n : ℕ) : (strncpy s n).length = n := by
  have h : ((s.takeWhile (· ≠ 0)).take n).length ≤ n := length_take_le _ _
  simp only [strncpy, length_append, length_replicate]
  omega

/-- `stl_le_p` stores four bytes. -/
@[simp]
theorem stlLe_length (p v : ℕ) : (stlLe p v).bytes.length = 4 := leBytes_length 4 v

/-- `stl_le_p` stores at its pointer. -/
@[simp]
theorem stlLe_off (p v : ℕ) : (stlLe p v).off = p := rfl

/-- No property of the node is longer than `2^32 - 4`, so that no padded size wraps. -/
def Short (props : PropTable) : Prop :=
  ∀ e ∈ props.entries, ∀ bs, emission strtoull e.2 = some bs → bs.length ≤ 2^32 - 4

/-- The stores of a record whose padded size does not wrap are disjoint, and inside the record. -/
theorem recordStores_confined (e : Option (List UInt8))
    (h : ∀ bs, e = some bs → bs.length ≤ 2^32 - 4) :
    Confined buf (buf + recordSize e) (recordStores key buf e) := by
  cases e with
  | none => exact Confined.nil _ _
  | some bs =>
    have hlen := le_roundUp (h bs rfl)
    -- The three parts of a record follow each other without a gap.
    have hname : Confined buf (buf + propNameLen) [⟨buf, strncpy key propNameLen⟩] :=
      Confined.singleton ⟨le_rfl, by simp [Store.stop]⟩
    have hword : Confined (buf + propNameLen) (buf + propNameLen + 4)
        [stlLe (buf + propNameLen) bs.length] :=
      Confined.singleton ⟨le_rfl, by simp [Store.stop]⟩
    have hdata : Confined (buf + propNameLen + 4) (buf + propNameLen + 4 + roundUp bs.length)
        (if bs = [] then [] else [⟨buf + propNameLen + 4, bs⟩]) := by
      split_ifs
      · exact Confined.nil _ _
      · exact Confined.singleton ⟨le_rfl, by simpa [Store.stop] using hlen⟩
    have hrest := (hword.append (le_add_right _ _) (le_add_right _ _) hdata).1
    have hall := (hname.append (le_add_right _ _) (by omega) hrest).1
    rw [recordSize, ← add_assoc]
    exact hall

/-- The stores of a list of records are disjoint, and inside the records. -/
theorem propsStores_confined
    (h : ∀ e ∈ ps, ∀ bs, emission strtoull e.2 = some bs → bs.length ≤ 2^32 - 4) :
    Confined buf (buf + propsSize strtoull ps) (propsStores strtoull ps buf) := by
  induction ps generalizing buf with
  | nil => exact Confined.nil _ _
  | cons e ps ih =>
    obtain ⟨key, prop⟩ := e
    obtain ⟨he, hps⟩ := forall_mem_cons.mp h
    have hrec := recordStores_confined key buf (emission strtoull prop) he
    have hrest := ih (buf + recordSize (emission strtoull prop)) hps
    rw [propsSize, ← add_assoc]
    exact (hrec.append (le_add_right _ _) (le_add_right _ _) hrest).1

mutual

/-- The stores of a tree are disjoint, and inside the bytes of the tree. -/
theorem stores_confined (t : AppleDTNode) (buf : ℕ)
    (h : t.All fun props _ _ => Short strtoull props) :
    Confined buf (buf + size strtoull t) (stores strtoull t buf) := by
  obtain ⟨props, children, finalised⟩ := t
  obtain ⟨hs, hc⟩ := h
  have hword : Confined (buf + 4) (buf + 4 + 4) [stlLe (buf + 4) children.length] :=
    Confined.singleton ⟨le_rfl, by simp [Store.stop]⟩
  have hprops := propsStores_confined strtoull props.entries (buf + 4 + 4) hs
  have hcount : Confined buf (buf + 4) [stlLe buf (propsCount strtoull props.entries)] :=
    Confined.singleton ⟨le_rfl, by simp [Store.stop]⟩
  have hchildren := storesList_confined children (buf + 4 + 4 + propsSize strtoull props.entries) hc
  -- The count of the properties is stored behind them, in front of everything else.
  have h1 := (hword.append (le_add_right _ _) (le_add_right _ _) hprops).1
  have h2 := (hcount.append (le_add_right _ _) (by omega) h1).2
  have h3 := (h2.append (by omega) (le_add_right _ _) hchildren).1
  have hstop : buf + size strtoull (.mk props children finalised) =
      buf + 4 + 4 + propsSize strtoull props.entries + sizeList strtoull children := by
    rw [size]
    omega
  rw [hstop, stores]
  simpa using h3

/-- The stores of a list of trees are disjoint, and inside the bytes of the trees. -/
theorem storesList_confined (cs : List AppleDTNode) (buf : ℕ)
    (h : AllList (fun props _ _ => Short strtoull props) cs) :
    Confined buf (buf + sizeList strtoull cs) (storesList strtoull cs buf) := by
  cases cs with
  | nil => exact Confined.nil _ _
  | cons c cs =>
    have hc := stores_confined c buf h.1
    have hcs := storesList_confined cs (buf + size strtoull c) h.2
    rw [sizeList, ← add_assoc]
    exact (hc.append (le_add_right _ _) (le_add_right _ _) hcs).1

end

end Inferno.DeviceTree
