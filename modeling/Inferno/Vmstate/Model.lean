import Inferno.Common.Bytes

/-!
# The interpreter of the migration descriptions

`vmstate_save_state` and `vmstate_load_state` walk over the field list of a description. Each field
says with which version it exists, how many elements it has and what is called for an element: the
pair of functions of a `VMStateInfo`, or the interpreter itself when the element is a structure.
The object is passed along, so that a field can read what an earlier one has loaded (the number of
the elements of an array) and so that what no field loads stays what it was.

`none` is an error that is returned, or an assertion or an allocation that fails. The descriptions
that are modelled have neither subsections nor `field_exists` functions. What `g_malloc` returns for
a new element of a queue is not initialised and is a parameter.
-/

namespace Inferno.Vmstate

open Common

variable {σ τ α : Type}

/-! ## Elements -/

/-- `VMStateInfo`: how an element is written to the stream and read into the element that is
there. -/
structure VMStateInfo (α : Type) where
  put : α → Option (List UInt8)
  /-- The element with what is read, and the rest of the stream. -/
  get : α → List UInt8 → Option (α × List UInt8)

/-- `qemu_put_be32` and its like, for `k` bytes. -/
def putBe (k n : ℕ) : List UInt8 := (leBytes k n).reverse

/-- `qemu_get_be32` and its like, for `k` bytes. -/
def getBe (k : ℕ) (f : List UInt8) : Option (ℕ × List UInt8) :=
  if k ≤ f.length then some (ofLe (f.take k).reverse, f.drop k) else none

/-- The unsigned integers of a width that is a number of bytes. -/
def infoUint (w : ℕ) : VMStateInfo (BitVec w) where
  put v := some (putBe (w / 8) v.toNat)
  get _ f := (getBe (w / 8) f).map fun (n, f) => (BitVec.ofNat w n, f)

def vmstateInfoUint8 : VMStateInfo (BitVec 8) := infoUint 8

def vmstateInfoUint32 : VMStateInfo (BitVec 32) := infoUint 32

def vmstateInfoInt32 : VMStateInfo (BitVec 32) := infoUint 32

def vmstateInfoUint64 : VMStateInfo (BitVec 64) := infoUint 64

def vmstateInfoBool : VMStateInfo Bool where
  put b := some [if b then 1 else 0]
  get _
    | b :: f => some (decide (b ≠ 0), f)
    | [] => none

/-- The loop over the elements of a field, when they are saved. -/
def putElems (info : VMStateInfo α) : List α → Option (List UInt8)
  | [] => some []
  | e :: es => do
    let bytes ← info.put e
    let more ← putElems info es
    pure (bytes ++ more)

/-- The loop over the elements of a field, when they are loaded. -/
def getElems (info : VMStateInfo α) : List α → List UInt8 → Option (List α × List UInt8)
  | [], f => some ([], f)
  | e :: es, f => do
    let (e, f) ← info.get e f
    let (es, f) ← getElems info es f
    pure (e :: es, f)

/-! ## Descriptions -/

/-- `VMStateField`, with what the interpreter does for it. -/
structure VMStateField (σ : Type) where
  name : String
  /-- The first version with the field. -/
  version_id : ℕ
  save : σ → Option (List UInt8)
  /-- The object with the field that is read, and the rest of the stream. -/
  load : σ → List UInt8 → Option (σ × List UInt8)

structure VMStateDescription (σ : Type) where
  name : String
  version_id : ℕ
  /-- The oldest version that can be read. -/
  minimum_version_id : ℕ
  pre_load : σ → σ := id
  post_load : σ → Option σ := some
  pre_save : σ → Option σ := some
  fields : List (VMStateField σ)

/-- The loop of `vmstate_save_state_v` over the fields. -/
def saveFields (version : ℕ) (s : σ) : List (VMStateField σ) → Option (List UInt8)
  | [] => some []
  | field :: fields =>
    if field.version_id ≤ version then do
      let bytes ← field.save s
      let more ← saveFields version s fields
      pure (bytes ++ more)
    else saveFields version s fields

variable (vmsd : VMStateDescription σ)

def saveState (s : σ) : Option (List UInt8) := do
  let s ← vmsd.pre_save s
  saveFields vmsd.version_id s vmsd.fields

/-- The loop of `vmstate_load_state` over the fields. -/
def loadFields (version : ℕ) : List (VMStateField σ) → σ → List UInt8 → Option (σ × List UInt8)
  | [], s, f => some (s, f)
  | field :: fields, s, f =>
    if field.version_id ≤ version then do
      let (s, f) ← field.load s f
      loadFields version fields s f
    else loadFields version fields s f

def QEMU_VM_SUBSECTION : UInt8 := 5

section

variable (name : String) (version : ℕ)

/-- The stream goes on with something that has the name of a subsection of the description. There
is no such subsection, and `vmstate_subsection_load` fails. -/
def NamesSubsection : List UInt8 → Prop
  | tag :: len :: f =>
    tag = QEMU_VM_SUBSECTION ∧ name.length < len.toNat ∧ len.toNat ≤ f.length ∧
      name.toList.map (fun c => UInt8.ofNat c.toNat) <+: f
  | _ => False

instance (name : String) : DecidablePred (NamesSubsection name)
  | [] => inferInstanceAs (Decidable False)
  | [_] => inferInstanceAs (Decidable False)
  | _ :: _ :: _ => inferInstanceAs (Decidable (_ ∧ _))

def loadState (s : σ) (f : List UInt8) : Option (σ × List UInt8) :=
  if vmsd.version_id < version ∨ version < vmsd.minimum_version_id then none
  else do
    let (s, f) ← loadFields version vmsd.fields (vmsd.pre_load s) f
    if NamesSubsection vmsd.name f then none
    else do
      let s ← vmsd.post_load s
      pure (s, f)

/-- What the interpreter calls for an element with the flag `VMS_STRUCT`. -/
def VMStateDescription.info : VMStateInfo σ where
  put := saveState vmsd
  get := loadState vmsd vmsd.version_id

/-! ## Fields -/

/-- `VMSTATE_SINGLE`, and `VMSTATE_STRUCT` with the `info` of a description. -/
def vmstateSingle (info : VMStateInfo α) (get : σ → α) (set : α → σ → σ) : VMStateField σ where
  name := name
  version_id := version
  save s := info.put (get s)
  load s f := (info.get (get s) f).map fun (v, f) => (set v s, f)

/-- `VMSTATE_ARRAY`, `VMSTATE_2DARRAY`, and `VMSTATE_STRUCT_ARRAY` with the `info` of a
description. -/
def vmstateArray (n version : ℕ) (info : VMStateInfo α) (get : σ → Fin n → α)
    (set : (Fin n → α) → σ → σ) : VMStateField σ where
  name := name
  version_id := version
  save s := putElems info (List.ofFn (get s))
  load s f := (getElems info (List.ofFn (get s)) f).map fun (es, f) =>
    (set (fun i => (es[i.val]?).getD (get s i)) s, f)

/-- `vmstate_n_elems` of a field with the flag `VMS_VARRAY_UINT32`. -/
def nElems (num : BitVec 32) : ℤ := num.toInt

/-- `VMSTATE_VARRAY_UINT32_ALLOC`, and `VMSTATE_STRUCT_VARRAY_UINT32_ALLOC` with the `info` of a
description. Where the number of elements is zero nothing is allocated and the pointer stays. -/
def vmstateVarrayUint32Alloc (info : VMStateInfo α) (num : σ → BitVec 32) (malloc : ℕ → α)
    (get : σ → List α) (set : List α → σ → σ) : VMStateField σ where
  name := name
  version_id := version
  save s :=
    let n := (nElems (num s)).toNat
    if n ≤ (get s).length then putElems info ((get s).take n) else none
  load s f :=
    let n := nElems (num s)
    if n < 0 then none
    else if n = 0 then some (s, f)
    else (getElems info ((List.range n.toNat).map malloc) f).map fun (es, f) => (set es s, f)

/-- The loop of `put_qtailq`. -/
def putQtailq (vmsd : VMStateDescription τ) : List τ → Option (List UInt8)
  | [] => some [0]
  | e :: es => do
    let bytes ← saveState vmsd e
    let more ← putQtailq vmsd es
    pure (1 :: bytes ++ more)

/-- The loop of `get_qtailq`. Each round takes a byte, so that the length of the stream bounds their
number. -/
def getQtailq (vmsd : VMStateDescription τ) (version : ℕ) (malloc : ℕ → τ) :
    ℕ → List UInt8 → Option (List τ × List UInt8)
  | 0, _ => none
  | _ + 1, [] => none
  | fuel + 1, b :: f =>
    if b = 0 then some ([], f)
    else do
      let (e, f) ← loadState vmsd version (malloc fuel) f
      let (es, f) ← getQtailq vmsd version malloc fuel f
      pure (e :: es, f)

def vmstateQtailqV (vmsd : VMStateDescription τ) (malloc : ℕ → τ) (get : σ → List τ)
    (set : List τ → σ → σ) : VMStateField σ where
  name := name
  version_id := version
  save s := putQtailq vmsd (get s)
  load s f :=
    if vmsd.version_id < version ∨ version < vmsd.minimum_version_id then none
    else
      (getQtailq vmsd version malloc (f.length + 1) f).map fun (es, f) => (set (get s ++ es) s, f)

end

end Inferno.Vmstate
