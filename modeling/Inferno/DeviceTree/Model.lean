import Mathlib.Data.List.AList
import Inferno.Common.Bytes

/-!
# The Apple device tree

The data model and the codec of `hw/arm/apple-silicon/dt.c`. A node's `GHashTable` of properties is
an `AList`: the list of its entries is the order in which an iterator yields them, which GLib does
not specify and which two passes over an unmodified table share. Buffers are addressed by offsets
from their start, and `serialise` returns the stores that it performs, in order, with the final
position of its cursor.

Failed assertions and reads outside an allocation have no result: the functions that can meet
them return `none` there. `deserialise` recurses as deep as its blob says; its `fuel` is the depth
of the stack that the C code uses without a bound.

`g_ascii_strtoull` belongs to GLib, and is a parameter of every function that parses a placeholder.
-/

namespace Inferno.DeviceTree

open Common

/-! ## Properties and nodes -/

/-- `APPLE_DT_PROP_NAME_LEN`: the width of the name slot of a serialised property. -/
def propNameLen : ℕ := 32

/-- A property: `len` bytes of `data`, or a placeholder whose data is a string that says how to fill
it in. -/
structure AppleDTProp where
  /-- The `uint32_t` length. -/
  len : ℕ
  /-- Whether the data is a placeholder string. -/
  placeholder : Bool
  /-- The bytes behind the `data` pointer. -/
  data : List UInt8
  len_lt : len < 2^32
  /-- The allocation holds exactly `len` bytes. -/
  data_length : data.length = len
  deriving DecidableEq

/-- The `GHashTable` of a node, from names to properties. -/
abbrev PropTable := AList fun _ : List UInt8 => AppleDTProp

/-- An entry of the table, as an iterator yields it. -/
abbrev PropEntry := Sigma fun _ : List UInt8 => AppleDTProp

/-- A node: its properties, its children in order, and whether its size has been computed. -/
inductive AppleDTNode where
  | mk (props : PropTable) (children : List AppleDTNode) (finalised : Bool)

namespace AppleDTNode

/-- The property table of a node. -/
def props : AppleDTNode → PropTable
  | mk props _ _ => props

/-- The children of a node. -/
def children : AppleDTNode → List AppleDTNode
  | mk _ children _ => children

mutual

/-- The property `P` of one node holds at every node of the tree. -/
def All (P : PropTable → List AppleDTNode → Bool → Prop) : AppleDTNode → Prop
  | mk props children finalised => P props children finalised ∧ AllList P children

/-- The property `P` holds at every node of every tree of a list. -/
def AllList (P : PropTable → List AppleDTNode → Bool → Prop) : List AppleDTNode → Prop
  | [] => True
  | child :: rest => All P child ∧ AllList P rest

end

mutual

/-- What follows from `P` at one node follows at every node of the tree. -/
theorem All.mono {P Q : PropTable → List AppleDTNode → Bool → Prop}
    (h : ∀ props children finalised, P props children finalised → Q props children finalised)
    (t : AppleDTNode) (ht : All P t) : All Q t := by
  obtain ⟨props, children, finalised⟩ := t
  exact ⟨h _ _ _ ht.1, AllList.mono h ht.2⟩

/-- What follows from `P` at one node follows at every node of a list of trees. -/
theorem AllList.mono {P Q : PropTable → List AppleDTNode → Bool → Prop}
    (h : ∀ props children finalised, P props children finalised → Q props children finalised)
    {cs : List AppleDTNode} (hcs : AllList P cs) : AllList Q cs := by
  cases cs with
  | nil => trivial
  | cons c cs => exact ⟨All.mono h c hcs.1, AllList.mono h hcs.2⟩

end

mutual

/-- The number of nodes on the longest path down from the root. -/
def depth : AppleDTNode → ℕ
  | mk _ children _ => depthList children + 1

/-- The depth of the deepest tree of a list. -/
def depthList : List AppleDTNode → ℕ
  | [] => 0
  | child :: rest => max (depth child) (depthList rest)

end

end AppleDTNode

/-! ## Strings -/

/-- The bytes of an ASCII string. -/
def ascii (s : String) : List UInt8 := s.toList.map fun c => UInt8.ofNat c.toNat

variable (m : ℕ → UInt8)

/-- `strnlen`: the distance from `p` to the first NUL, at most `n`. -/
def strnlen (p n : ℕ) : ℕ := ((load m p n).takeWhile (· ≠ 0)).length

/-- The `n` bytes that `strncpy` stores: the string up to its NUL, cut at `n`, and zeros. -/
def strncpy (s : List UInt8) (n : ℕ) : List UInt8 :=
  let t := (s.takeWhile (· ≠ 0)).take n
  t ++ List.replicate (n - t.length) 0

/-- `qemu_strsep` on the bytes from a pointer to the end of its allocation: the token and what the
pointer becomes, `none` for `NULL`. Without a delimiter or a NUL it reads past the allocation. -/
def qemuStrsep (delim : List UInt8) : List UInt8 → Option (List UInt8 × Option (List UInt8))
  | [] => none
  | c :: cs =>
    if c = 0 then some ([], none)
    else if c ∈ delim then some ([], some cs)
    else (qemuStrsep delim cs).map fun r => (c :: r.1, r.2)

/-- `ROUND_UP(n, 4)` of a `uint32_t`, in 32-bit arithmetic. -/
def roundUp (n : ℕ) : ℕ := (n + 4 - 1) % 2^32 / 4 * 4

section

variable (strtoull : List UInt8 → ℕ)

/-! ## Placeholders -/

variable (token : List UInt8)

/-- The number at the end of a token as the `uint32_t` it is assigned to; a zero is not a length. -/
def suffixLen (n : ℕ) : Option ℕ :=
  let len := strtoull (token.drop n) % 2^32
  if len = 0 then none else some len

/-- The body of the token loop of `apple_dt_prop_placeholder_len`: the length that it returns, or
`none` where it goes on with the next token. -/
def tokenLen : Option ℕ :=
  if token = [] then none
  -- A token is NUL-terminated, so `strncmp` with a whole prefix compares what `<+:` does.
  else if ascii "macaddr/" <+: token then some 6
  else if ascii "syscfg/" <+: token then
    -- A tag of four bytes and a slash stand in front of the number.
    if token.length < 12 ∨ token[11]? ≠ some 47 then none
    else suffixLen strtoull token 12
  else if ascii "zeroes/" <+: token then suffixLen strtoull token 7
  else none

/-- The token loop of `apple_dt_prop_placeholder_len`, where `next` is what is left of the string.
Every round shortens `next`, so a fuel above its length is never used up. -/
def placeholderLoop : ℕ → Option (List UInt8) → Option ℕ
  | _, none => some 0
  | 0, some _ => none
  | fuel + 1, some next => do
    let (token, next) ← qemuStrsep (ascii ",") next
    match tokenLen strtoull token with
    | some len => return len
    | none => placeholderLoop fuel next

variable (prop : AppleDTProp)

/-- `apple_dt_prop_placeholder_len`: the length that the placeholder string asks for, zero when the
property is to be removed. -/
def propPlaceholderLen : Option ℕ :=
  if prop.len = 0 then some 0
  else placeholderLoop strtoull (prop.len + 1) (some prop.data)

/-! ## Sizes -/

def propSerialisedLen : Option ℕ :=
  if prop.placeholder then do
    let placeholderLen ← propPlaceholderLen strtoull prop
    if placeholderLen = 0 then return 0
    else return propNameLen + 4 + roundUp placeholderLen
  else some (propNameLen + 4 + roundUp prop.len)

/-- The property loop of `apple_dt_finalise`, which adds to the `uint64_t` `len`. -/
def finaliseProps : List PropEntry → ℕ → Option ℕ
  | [], len => some len
  | ⟨_, prop⟩ :: rest, len => do
    let l ← propSerialisedLen strtoull prop
    finaliseProps rest ((len + l) % 2^64)

mutual

/-- `apple_dt_finalise`: the serialised size of the tree as a `uint64_t`, and the tree with every
node marked. It asserts that no node is marked yet. -/
def finalise : AppleDTNode → Option (ℕ × AppleDTNode)
  | .mk props children finalised => do
    if finalised then none
    else
      let len ← finaliseProps strtoull props.entries (4 + 4)
      let (len, children) ← finaliseChildren children len
      return (len, .mk props children true)

/-- The child loop of `apple_dt_finalise`. -/
def finaliseChildren : List AppleDTNode → ℕ → Option (ℕ × List AppleDTNode)
  | [], len => some (len, [])
  | child :: rest, len => do
    let (l, child) ← finalise child
    let (len, rest) ← finaliseChildren rest ((len + l) % 2^64)
    return (len, child :: rest)

end

/-! ## Serialisation -/

/-- `stl_le_p`: a store of the low 32 bits of `v`. -/
def stlLe (p v : ℕ) : Store := ⟨p, leBytes 4 v⟩

/-- One round of the property loop of `apple_dt_serialise_node`: how much `prop_count` grows, the
stores, and the new cursor. -/
def serialiseProp (key : List UInt8) (prop : AppleDTProp) (buf : ℕ) : Option (ℕ × List Store × ℕ) :=
  if prop.placeholder then do
    let placeholderLen ← propPlaceholderLen strtoull prop
    if placeholderLen = 0 then return (0, [], buf)
    else
      let name : Store := ⟨buf, strncpy key propNameLen⟩
      let buf := buf + propNameLen
      let len := stlLe buf placeholderLen
      let buf := buf + 4
      let zeros : Store := ⟨buf, List.replicate placeholderLen 0⟩
      return (1, [name, len, zeros], buf + roundUp placeholderLen)
  else
    let name : Store := ⟨buf, strncpy key propNameLen⟩
    let buf := buf + propNameLen
    let len := stlLe buf prop.len
    let buf := buf + 4
    -- An empty property has no data to store, and no padding.
    if prop.len ≠ 0 then some (1, [name, len, ⟨buf, prop.data⟩], buf + roundUp prop.len)
    else some (1, [name, len], buf)

/-- The property loop of `apple_dt_serialise_node`. -/
def serialiseProps : List PropEntry → ℕ → Option (ℕ × List Store × ℕ)
  | [], buf => some (0, [], buf)
  | ⟨key, prop⟩ :: rest, buf => do
    let (n, stores, buf) ← serialiseProp strtoull key prop buf
    let (count, more, buf) ← serialiseProps rest buf
    return (n + count, stores ++ more, buf)

mutual

/-- `apple_dt_serialise_node`. The property count is stored behind the properties, in the slot left
for it in front. -/
def serialiseNode : AppleDTNode → ℕ → Option (List Store × ℕ)
  | .mk props children finalised, buf =>
    if finalised then do
      -- Room for the number of properties, which is known after the loop.
      let propCountBuf := buf
      let buf := buf + 4
      let childCount := stlLe buf children.length
      let buf := buf + 4
      let (propCount, propStores, buf) ← serialiseProps strtoull props.entries buf
      let (childStores, buf) ← serialiseChildren children buf
      return (childCount :: propStores ++ stlLe propCountBuf propCount :: childStores, buf)
    else none

/-- The `g_list_foreach` of `apple_dt_serialise_node`. -/
def serialiseChildren : List AppleDTNode → ℕ → Option (List Store × ℕ)
  | [], buf => some ([], buf)
  | child :: rest, buf => do
    let (stores, buf) ← serialiseNode child buf
    let (more, buf) ← serialiseChildren rest buf
    return (stores ++ more, buf)

end

/-- `apple_dt_serialise` into a buffer at offset zero. -/
def serialise (root : AppleDTNode) : Option (List Store × ℕ) := serialiseNode strtoull root 0

end

/-! ## `g_ascii_strtoull`

GLib's function as it documents it, for runs on concrete strings. -/

/-- The value of a digit in a base up to 36. -/
def digitValue (c : UInt8) : ℕ :=
  if 48 ≤ c ∧ c ≤ 57 then c.toNat - 48
  else if 65 ≤ c ∧ c ≤ 90 then c.toNat - 55
  else if 97 ≤ c ∧ c ≤ 122 then c.toNat - 87
  else 36

/-- The number spelled by the longest run of digits in front. -/
def digitsValue (base : ℕ) : ℕ → List UInt8 → ℕ
  | acc, [] => acc
  | acc, c :: cs =>
    if digitValue c < base then digitsValue base (acc * base + digitValue c) cs else acc

/-- The magnitude of a number in C notation: `0x` for hexadecimal, `0` for octal. -/
def cNumber : List UInt8 → ℕ
  | 48 :: 120 :: cs => digitsValue 16 0 cs
  | 48 :: 88 :: cs => digitsValue 16 0 cs
  | 48 :: cs => digitsValue 8 0 cs
  | cs => digitsValue 10 0 cs

/-- `g_ascii_strtoull(s, NULL, 0)`: leading white space, a sign, and a number, which is clamped to
`2^64 - 1`; a negative number is taken modulo `2^64`. -/
def gAsciiStrtoull (s : List UInt8) : ℕ :=
  match s.dropWhile fun c => c = 32 ∨ (9 ≤ c ∧ c ≤ 13) with
  | 45 :: cs => if cNumber cs < 2^64 then (2^64 - cNumber cs) % 2^64 else 2^64 - 1
  | 43 :: cs => min (cNumber cs) (2^64 - 1)
  | cs => min (cNumber cs) (2^64 - 1)

/-! ## Deserialisation -/

def ldlLe (p : ℕ) : ℕ := ofLe (load m p 4)

theorem ldlLe_lt (p : ℕ) : ldlLe m p < 2^32 := by
  have h := ofLe_lt (load m p 4)
  rw [load_length] at h
  exact h

/-- `apple_dt_deserialise_prop`: the name, the property, and the new cursor. The high bit of the
length is the placeholder flag. -/
def deserialiseProp (blob : ℕ → UInt8) (p : ℕ) : List UInt8 × AppleDTProp × ℕ :=
  let name := load blob p (strnlen blob p (propNameLen - 1))
  let p := p + propNameLen
  let word := ldlLe blob p
  -- `APPLE_DT_PROP_PLACEHOLDER` is the bit 31.
  let len := if word.testBit 31 then word % 2^31 else word
  have hlen : len < 2^32 := by
    have := ldlLe_lt blob p
    simp only [len]
    split_ifs <;> omega
  let p := p + 4
  let prop : AppleDTProp := ⟨len, word.testBit 31, load blob p len, hlen, load_length _⟩
  (name, prop, if len ≠ 0 then p + roundUp len else p)

/-- The property loop of `apple_dt_deserialise_node`: `count` properties inserted into the table. -/
def deserialiseProps (blob : ℕ → UInt8) : ℕ → ℕ → PropTable → PropTable × ℕ
  | 0, p, props => (props, p)
  | count + 1, p, props =>
    let (key, prop, p) := deserialiseProp blob p
    deserialiseProps blob count p (props.insert key prop)

/-- The child loop of `apple_dt_deserialise_node`, over the function that reads one node. -/
def deserialiseChildren (node : ℕ → Option (AppleDTNode × ℕ)) :
    ℕ → ℕ → Option (List AppleDTNode × ℕ)
  | 0, p => some ([], p)
  | count + 1, p => do
    let (child, p) ← node p
    let (rest, p) ← deserialiseChildren node count p
    return (child :: rest, p)

/-- `apple_dt_deserialise_node`. -/
def deserialiseNode (blob : ℕ → UInt8) : ℕ → ℕ → Option (AppleDTNode × ℕ)
  | 0, _ => none
  | fuel + 1, p => do
    let propCount := ldlLe blob p
    let p := p + 4
    let childrenCount := ldlLe blob p
    let p := p + 4
    let (props, p) := deserialiseProps blob propCount p ∅
    let (children, p) ← deserialiseChildren (deserialiseNode blob fuel) childrenCount p
    return (.mk props children false, p)

/-- `apple_dt_deserialise` of a blob at offset zero, with the final position of the cursor. -/
def deserialise (fuel : ℕ) (blob : ℕ → UInt8) : Option (AppleDTNode × ℕ) :=
  deserialiseNode blob fuel 0

end Inferno.DeviceTree
