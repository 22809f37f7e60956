import Inferno.DeviceTree.Layout

/-!
# The size contract of the device tree

Callers of `finalise` allocate what it returns and hand the buffer to `serialise`. The contract is
that `serialise` then moves its cursor by exactly that size and stores nothing behind it.

Both passes pad the data of a property with `roundUp`, in 32-bit arithmetic, so the padded size of
a property of `2^32 - 3` bytes or more is zero: the passes agree on the cursor, while the data is
stored in full. The contract therefore holds exactly when such a property is followed by enough
other bytes (`Room`), and the whole size fits in the `uint64_t` that `finalise` returns.
-/

namespace Inferno.DeviceTree

open Common List Nat Option

variable (strtoull : List UInt8 → ℕ)

variable (t : AppleDTNode)

/-- The size contract: the size that `finalise` returns is where the cursor of `serialise` ends,
and every byte that `serialise` stores is in front of it. -/
def SizeContract : Prop :=
  ∃ len t' ws, finalise strtoull t = some (len, t') ∧ serialise strtoull t' = some (ws, len) ∧
    ∀ w ∈ ws, ∀ i < w.bytes.length, w.off + i < len

/-! ## Lengths are 32-bit -/

/-- A length that a token asks for is a `uint32_t`. -/
theorem tokenLen_lt {token : List UInt8} (n : ℕ) (h : tokenLen strtoull token = some n) :
    n < 2^32 := by
  -- The number at the end is assigned to a `uint32_t`; the only other length is six.
  have hsuffix : ∀ k, suffixLen strtoull token k = some n → n < 2^32 := by
    intro k hk
    simp only [suffixLen] at hk
    split_ifs at hk
    obtain rfl := some.inj hk
    exact mod_lt _ (by norm_num)
  unfold tokenLen at h
  split_ifs at h
  · obtain rfl := some.inj h
    norm_num
  · exact hsuffix _ h
  · exact hsuffix _ h

/-- The length that the token loop returns is a `uint32_t`. -/
theorem placeholderLoop_lt (fuel : ℕ) (next : Option (List UInt8)) (n : ℕ)
    (h : placeholderLoop strtoull fuel next = some n) : n < 2^32 := by
  induction fuel generalizing next with
  | zero =>
    cases next with
    | none =>
      obtain rfl := some.inj h
      norm_num
    | some s => exact absurd h (by simp [placeholderLoop])
  | succ fuel ih =>
    cases next with
    | none =>
      obtain rfl := some.inj h
      norm_num
    | some s =>
      rw [placeholderLoop, bind_eq_bind, bind_eq_some_iff] at h
      obtain ⟨⟨token, next⟩, -, h⟩ := h
      cases ht : tokenLen strtoull token with
      | some len =>
        simp only [ht, Option.pure_def, some.injEq] at h
        obtain rfl := h
        exact tokenLen_lt strtoull len ht
      | none =>
        simp only [ht] at h
        exact ih next h

/-- The length of the data recorded for a property is a `uint32_t`. -/
theorem emission_length_lt (prop : AppleDTProp) (bs : List UInt8)
    (h : emission strtoull prop = some bs) : bs.length < 2^32 := by
  unfold emission at h
  split_ifs at h
  · split at h
    next n hn =>
      obtain rfl := some.inj h
      rw [length_replicate]
      unfold propPlaceholderLen at hn
      split_ifs at hn
      · exact absurd (some.inj hn) (succ_ne_zero n).symm
      · exact placeholderLoop_lt strtoull _ _ _ hn
    next => exact absurd h (some_ne_none bs).symm
  · obtain rfl := some.inj h
    rw [prop.data_length]
    exact prop.len_lt

/-! ## Room for the data -/

/-- The padded size of the lengths above `2^32 - 4` is zero. -/
theorem roundUp_of_gt {n : ℕ} (h : 2^32 - 4 < n) (h' : n < 2^32) : roundUp n = 0 := by
  unfold roundUp
  omega

/-- Every property of more than `2^32 - 4` bytes is followed by at least as many bytes: those of
the rest of the node's properties, and the `after` bytes behind these. -/
def PropsRoom : List PropEntry → ℕ → Prop
  | [], _ => True
  | ⟨_, prop⟩ :: rest, after =>
    (∀ bs, emission strtoull prop = some bs → 2^32 - 4 < bs.length →
        bs.length ≤ propsSize strtoull rest + after) ∧
      PropsRoom rest after

mutual

/-- Every property of the tree of more than `2^32 - 4` bytes is followed by at least as many
serialised bytes, where `after` bytes follow the tree. -/
def Room : AppleDTNode → ℕ → Prop
  | .mk props children _, after =>
    PropsRoom strtoull props.entries (sizeList strtoull children + after) ∧ RoomList children after

/-- The same for a list of trees, one behind the other. -/
def RoomList : List AppleDTNode → ℕ → Prop
  | [], _ => True
  | child :: rest, after => Room child (sizeList strtoull rest + after) ∧ RoomList rest after

end

/-! ## The stores stay in front of the end exactly when there is room -/

variable (stop : ℕ)

/-- Every byte of the stores is in front of `stop`. -/
def Below (ws : List Store) : Prop := ∀ w ∈ ws, ∀ i < w.bytes.length, w.off + i < stop

/-- Two lists of stores end below `stop` together when each does. -/
theorem below_append (vs ws : List Store) : Below stop (vs ++ ws) ↔ Below stop vs ∧ Below stop ws :=
  forall_mem_append

/-- A list of stores ends below `stop` when its first store and the others do. -/
theorem below_cons (w : Store) (ws : List Store) :
    Below stop (w :: ws) ↔ (∀ i < w.bytes.length, w.off + i < stop) ∧ Below stop ws :=
  forall_mem_cons

/-- A store of some bytes ends below `stop` when its last byte does. -/
theorem forall_lt_iff (off len stop : ℕ) (h : off ≤ stop) :
    (∀ i < len, off + i < stop) ↔ off + len ≤ stop := by
  constructor
  · intro hall
    rcases Nat.eq_zero_or_pos len with rfl | hpos
    · exact h
    · have := hall (len - 1) (by omega)
      omega
  · intro hle i hi
    omega

/-- Data fits in its padded size and `after` bytes behind it when these make up for a padded size
that wraps. -/
theorem le_roundUp_add_iff {n after : ℕ} (h : n < 2^32) :
    n ≤ roundUp n + after ↔ (2^32 - 4 < n → n ≤ after) := by
  by_cases hn : 2^32 - 4 < n
  · rw [roundUp_of_gt hn h, zero_add]
    exact ⟨fun h _ => h, fun h => h hn⟩
  · have := le_roundUp (Nat.le_of_not_lt hn)
    exact ⟨fun _ h' => absurd h' hn, fun _ => by omega⟩

/-- The stores of a record end in front of what follows it when its data has room. -/
theorem recordStores_below (key : List UInt8) (buf after : ℕ) (e : Option (List UInt8))
    (he : ∀ bs, e = some bs → bs.length < 2^32) :
    Below (buf + recordSize e + after) (recordStores key buf e) ↔
      ∀ bs, e = some bs → 2^32 - 4 < bs.length → bs.length ≤ after := by
  cases e with
  | none => simp [Below, recordStores]
  | some bs =>
    generalize hstop : buf + recordSize (some bs) + after = stop
    have hstop' : buf + (propNameLen + 4 + roundUp bs.length) + after = stop := hstop
    -- The name and the length are in front of the end in any case; the data is the question.
    have hbody : Below stop (if bs = [] then [] else [⟨buf + propNameLen + 4, bs⟩]) ↔
        bs.length ≤ roundUp bs.length + after := by
      split_ifs with h
      · simp [Below, h]
      · have hfit := forall_lt_iff (buf + propNameLen + 4) bs.length stop (by omega)
        simp only [Below, mem_singleton, forall_eq, hfit]
        omega
    have hname : ∀ i < (strncpy key propNameLen).length, buf + i < stop := by
      rw [strncpy_length]
      omega
    have hlen : ∀ i < (stlLe (buf + propNameLen) bs.length).bytes.length,
        (stlLe (buf + propNameLen) bs.length).off + i < stop := by
      rw [stlLe_length, stlLe_off]
      omega
    rw [recordStores, below_cons, below_cons, hbody, le_roundUp_add_iff (he bs rfl)]
    constructor
    · rintro ⟨-, -, h⟩ bs' hbs
      obtain rfl := some.inj hbs
      exact h
    · intro h
      exact ⟨hname, hlen, h bs rfl⟩

/-- The stores of a list of records end in front of what follows when there is room. -/
theorem propsStores_below (ps : List PropEntry) (buf after : ℕ) :
    Below (buf + propsSize strtoull ps + after) (propsStores strtoull ps buf) ↔
      PropsRoom strtoull ps after := by
  induction ps generalizing buf with
  | nil => simp [Below, propsStores, PropsRoom]
  | cons e ps ih =>
    obtain ⟨key, prop⟩ := e
    have hrec := recordStores_below key buf (propsSize strtoull ps + after)
      (emission strtoull prop) (emission_length_lt strtoull prop)
    have hrest := ih (buf + recordSize (emission strtoull prop))
    rw [propsStores, propsSize, PropsRoom, below_append, ← hrec, ← hrest]
    simp only [add_assoc]

mutual

/-- The stores of a tree end in front of what follows it when there is room. -/
theorem stores_below (t : AppleDTNode) (buf after : ℕ) :
    Below (buf + size strtoull t + after) (stores strtoull t buf) ↔ Room strtoull t after := by
  obtain ⟨props, children, finalised⟩ := t
  have hprops := propsStores_below strtoull props.entries (buf + 4 + 4)
    (sizeList strtoull children + after)
  have hchildren := storesList_below children (buf + 4 + 4 + propsSize strtoull props.entries) after
  have hstop : buf + size strtoull (.mk props children finalised) + after =
      buf + 4 + 4 + propsSize strtoull props.entries + sizeList strtoull children + after := by
    rw [size]
    omega
  -- The two counts of the node are in front of its records.
  rw [stores, cons_append, below_cons, below_append, below_cons, hstop,
    add_assoc _ (sizeList strtoull children), hprops, ← add_assoc, hchildren]
  constructor
  · rintro ⟨-, hp, -, hc⟩
    exact ⟨hp, hc⟩
  · rintro ⟨hp, hc⟩
    refine ⟨?_, hp, ?_, hc⟩
    · rw [stlLe_length, stlLe_off]
      omega
    · rw [stlLe_length, stlLe_off]
      omega

/-- The stores of a list of trees end in front of what follows when there is room. -/
theorem storesList_below (cs : List AppleDTNode) (buf after : ℕ) :
    Below (buf + sizeList strtoull cs + after) (storesList strtoull cs buf) ↔
      RoomList strtoull cs after := by
  cases cs with
  | nil => simp [Below, storesList, RoomList]
  | cons c cs =>
    have hc := stores_below c buf (sizeList strtoull cs + after)
    have hcs := storesList_below cs (buf + size strtoull c) after
    rw [storesList, sizeList, RoomList, below_append, ← hc, ← hcs]
    simp only [add_assoc]

end

theorem SizeContract.room {t : AppleDTNode} (h : SizeContract strtoull t) :
    Finalisable strtoull t ∧ size strtoull t < 2^64 ∧ Room strtoull t 0 := by
  obtain ⟨len, t', ws, hf, hs, hws⟩ := h
  obtain ⟨hfin, h⟩ := (finalise_iff strtoull t _).mp hf
  obtain ⟨rfl, rfl⟩ := Prod.mk.inj h
  obtain ⟨-, hser⟩ := serialise_finalise strtoull t hfin
  rw [hser, some.injEq, Prod.mk.injEq] at hs
  obtain ⟨rfl, hlen⟩ := hs
  -- The cursor ends at the exact size, and what was returned is its remainder: they are equal.
  have hlt : size strtoull t % 2^64 < 2^64 := mod_lt _ (by norm_num)
  rw [← hlen] at hlt hws
  refine ⟨hfin, hlt, (stores_below strtoull t 0 0).mp ?_⟩
  rw [zero_add]
  exact hws

/-- The size contract holds exactly for the trees that `finalise` accepts, whose size fits in 64
bits, and in which every property of more than `2^32 - 4` bytes, whose padded size is zero, is
followed by as many bytes. -/
theorem sizeContract_iff : SizeContract strtoull t ↔
      Finalisable strtoull t ∧ size strtoull t < 2^64 ∧ Room strtoull t 0 := by
  constructor
  · intro h
    exact h.room
  · rintro ⟨hfin, hlt, hroom⟩
    obtain ⟨hf, hs⟩ := serialise_finalise strtoull t hfin
    rw [mod_eq_of_lt hlt] at hf
    have hbelow := (stores_below strtoull t 0 0).mpr hroom
    rw [zero_add] at hbelow
    exact ⟨_, _, _, hf, hs, hbelow⟩

/-- The placeholder `zeroes/4294967295`, which asks for `2^32 - 1` zeros. -/
def zeroesProp : AppleDTProp :=
  ⟨18, true, ascii "zeroes/4294967295" ++ [0], by decide, by decide⟩

/-- A root with the placeholder as its only property. -/
def zeroesTree : AppleDTNode := .mk (AList.singleton (ascii "pad") zeroesProp) [] false

/-- The placeholder expands to `2^32 - 1` zeros. -/
theorem emission_zeroesProp :
    emission gAsciiStrtoull zeroesProp = some (replicate 4294967295 0) := by
  have h : propPlaceholderLen gAsciiStrtoull zeroesProp = some (4294967294 + 1) := by decide
  have hp : zeroesProp.placeholder = true := rfl
  simp only [emission, hp, if_true, h]

/-- The expansion of `zeroes/4294967295` takes 36 bytes of the size, and its zeros are stored far
behind the end of the buffer. -/
theorem not_sizeContract_zeroes : ¬ SizeContract gAsciiStrtoull zeroesTree := by
  intro h
  obtain ⟨-, -, hroom, -⟩ := h.room
  have hlen := hroom.1 _ emission_zeroesProp
  have hrest : propsSize gAsciiStrtoull [] + (sizeList gAsciiStrtoull [] + 0) = 0 := rfl
  rw [hrest] at hlen
  exact absurd (hlen (by norm_num)) (by norm_num)

end Inferno.DeviceTree
