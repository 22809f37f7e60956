import Mathlib.Data.List.FinRange
import Inferno.Common.Run

/-!
# The SPMI bus

The bus of `hw/spmi/core.c`: a master starts a transfer to a slave id (`spmiStartTransfer`), sends
and receives bytes (`spmiSendRecv`) and ends the transfer (`spmiEndTransfer`). The slave is looked
up when a transfer starts and no slave is selected; a start with a slave selected is taken for a
repeated one, and goes to that slave.

The end of a transfer tells the slave, but it does not deselect it. So the first transfer to a slave
that is on the bus selects it for good, and every transfer after that reaches it, whichever id it is
for (`calls_of_selected`). The transfers of a run are therefore addressed correctly exactly if those
after the first one to a slave on the bus are all for the same id (`spmi_addressing_iff`).
-/

namespace Inferno.Spmi

open Common List

variable {σ : Type*}

/-! ## Slaves -/

/-- `SPMISlave` with its class: the methods work on a state of the slave. -/
structure SPMISlave (σ : Type*) where
  sid : BitVec 8
  /-- Takes a command and returns non-zero to refuse it. -/
  command : Option (σ → BitVec 8 → BitVec 16 → ℤ × σ)
  /-- Takes bytes and returns how many of them. -/
  send : Option (σ → List UInt8 → ℤ × σ)
  /-- Fills in bytes and returns how many. -/
  recv : Option (σ → BitVec 8 → (ℤ × List UInt8) × σ)
  /-- Is told of the end of a transfer. -/
  finish : Option (σ → σ)

/-- The slaves on a bus. -/
structure Slaves (σ : Type*) where
  /-- The children of the bus, in the order they were added. -/
  children : List (SPMISlave σ)
  distinct : (children.map SPMISlave.sid).Nodup

variable (slaves : Slaves σ)

/-- A slave on the bus. -/
abbrev Slaves.Index := Fin slaves.children.length

def Slaves.get (i : slaves.Index) : SPMISlave σ := slaves.children.get i

/-- What the bus hands to a slave. -/
inductive Call where
  | command (opcode : BitVec 8) (address : BitVec 16)
  | send (data : List UInt8)
  | recv (len : BitVec 8)
  | finish
  deriving DecidableEq

/-- `SPMIBus`, with the states of its slaves and a record of the slaves that it has turned to. -/
structure SPMIBus (slaves : Slaves σ) where
  /-- The selected slave, `none` for `NULL`. -/
  currentDev : Option slaves.Index
  states : slaves.Index → σ
  /-- What it has turned to a slave for so far, whether the slave has the method for it or not. -/
  calls : List (slaves.Index × Call)

variable {slaves : Slaves σ}

variable (bus : SPMIBus slaves)

/-- A call reaches a slave, which has a new state after it. -/
def SPMIBus.reach (i : slaves.Index) (call : Call) (state : σ) : SPMIBus slaves :=
  { bus with
    states := Function.update bus.states i state
    calls := bus.calls ++ [(i, call)] }

/-! ## The bus -/

def spmiInitBus (slaves : Slaves σ) (states : slaves.Index → σ) : SPMIBus slaves :=
  ⟨none, states, []⟩

/-- The scan of `spmi_start_transfer`: a later slave with the id takes the place of an earlier
one. -/
def scan (slaves : Slaves σ) (sid : BitVec 8) : Option slaves.Index :=
  (finRange slaves.children.length).foldl
    (fun current kid => if (slaves.get kid).sid = sid then some kid else current) none

def spmiEndTransfer : SPMIBus slaves :=
  match bus.currentDev with
  | none => bus
  | some i =>
    match (slaves.get i).finish with
    | none => bus.reach i .finish (bus.states i)
    | some finish => bus.reach i .finish (finish (bus.states i))

/-- The selected slave is given the command of `spmi_start_transfer`. -/
def spmiCommand (i : slaves.Index) (busScanned : Bool) (opcode : BitVec 8) (address : BitVec 16) :
    ℤ × SPMIBus slaves :=
  match (slaves.get i).command with
  | none => (0, bus.reach i (.command opcode address) (bus.states i))
  | some command =>
    let (rv, state) := command (bus.states i) opcode address
    let bus := bus.reach i (.command opcode address) state
    -- A refusal of the first command terminates the transfer.
    if rv ≠ 0 then (rv, if busScanned then spmiEndTransfer bus else bus) else (0, bus)

def spmiStartTransfer (sid opcode : BitVec 8) (address : BitVec 16) : ℤ × SPMIBus slaves :=
  match bus.currentDev with
  | some i => spmiCommand bus i false opcode address
  | none =>
    let bus := { bus with currentDev := scan slaves sid }
    match bus.currentDev with
    | none => (1, bus)
    | some i => spmiCommand bus i true opcode address

def spmiSend (data : List UInt8) : ℤ × SPMIBus slaves :=
  match bus.currentDev with
  | none => (0, bus)
  | some i =>
    match (slaves.get i).send with
    | none => (-1, bus.reach i (.send data) (bus.states i))
    | some send =>
      let (ret, state) := send (bus.states i) data
      (ret, bus.reach i (.send data) state)

/-- `spmi_recv`, with the bytes that it fills in. -/
def spmiRecv (len : BitVec 8) : (ℤ × List UInt8) × SPMIBus slaves :=
  match bus.currentDev with
  | none => ((0, []), bus)
  | some i =>
    match (slaves.get i).recv with
    | none => ((-1, []), bus.reach i (.recv len) (bus.states i))
    | some recv =>
      let (ret, state) := recv (bus.states i) len
      (ret, bus.reach i (.recv len) state)

/-! ## Transactions -/

/-- What a master does between the start and the end of a transaction. -/
inductive TransferOp where
  | start (opcode : BitVec 8) (address : BitVec 16)
  | send (data : List UInt8)
  | recv (len : BitVec 8)
  deriving DecidableEq

/-- A transaction: its first command, and what follows. -/
structure Transaction where
  sid : BitVec 8
  opcode : BitVec 8
  address : BitVec 16
  /-- What follows the command. -/
  ops : List TransferOp
  deriving DecidableEq

/-- An operation of a transaction for a slave. -/
def transferOp (sid : BitVec 8) (bus : SPMIBus slaves) : TransferOp → SPMIBus slaves
  | .start opcode address => (spmiStartTransfer bus sid opcode address).2
  | .send data => (spmiSend bus data).2
  | .recv len => (spmiRecv bus len).2

variable (t : Transaction)

/-- A transaction, which ends whether or not its command was accepted. -/
def transaction : SPMIBus slaves :=
  spmiEndTransfer (run (transferOp t.sid) (spmiStartTransfer bus t.sid t.opcode t.address).2 t.ops)

/-- The call that an operation is. -/
def TransferOp.call : TransferOp → Call
  | .start opcode address => .command opcode address
  | .send data => .send data
  | .recv len => .recv len

def Transaction.calls : List Call :=
  .command t.opcode t.address :: t.ops.map TransferOp.call

/-- A slave on the bus has the id. -/
def Slaves.Has (slaves : Slaves σ) (sid : BitVec 8) : Prop := ∃ i, (slaves.get i).sid = sid

/-- A transaction is addressed correctly. -/
structure Addressed (bus : SPMIBus slaves) (t : Transaction) : Prop where
  /-- If there is a slave with the id, the commands and the bytes of the transaction reach that
  slave, and the transaction turns to no other. -/
  reaches : ∀ i, (slaves.get i).sid = t.sid → ∃ made,
    (transaction bus t).calls = bus.calls ++ made ∧ (∀ c ∈ made, c.1 = i) ∧
      (made.map Prod.snd).filter (· ≠ .finish) = t.calls
  /-- If there is none, the transaction fails and turns to no slave. -/
  fails : ¬ slaves.Has t.sid → (spmiStartTransfer bus t.sid t.opcode t.address).1 ≠ 0 ∧
      (transaction bus t).calls = bus.calls ∧ (transaction bus t).states = bus.states

/-! ## The scan -/

variable {i : slaves.Index} {sid : BitVec 8} {bus : SPMIBus slaves}

theorem Slaves.index_eq {j : slaves.Index} (h : (slaves.get i).sid = (slaves.get j).sid) :
    i = j := by
  have hlen : (slaves.children.map SPMISlave.sid).length = slaves.children.length :=
    length_map _
  have hinj := slaves.distinct.injective_get
  have hcast : i.cast hlen.symm = j.cast hlen.symm := by
    apply hinj
    simpa [Slaves.get] using h
  simpa using hcast

theorem foldl_scan_of_ne {kids : List slaves.Index} {current : Option slaves.Index}
    (h : ∀ kid ∈ kids, (slaves.get kid).sid ≠ sid) :
    kids.foldl (fun current kid => if (slaves.get kid).sid = sid then some kid else current)
      current = current := by
  induction kids with
  | nil => rfl
  | cons kid kids ih =>
    have hkid := h kid mem_cons_self
    rw [foldl_cons, if_neg hkid]
    exact ih fun k hk => h k (mem_cons_of_mem _ hk)

theorem scan_eq_some (h : (slaves.get i).sid = sid) : scan slaves sid = some i := by
  obtain ⟨before, behind, hsplit⟩ := append_of_mem (mem_finRange i)
  have hnodup := nodup_finRange slaves.children.length
  rw [hsplit] at hnodup
  -- No slave behind the one with the id has it as well.
  have hbehind : ∀ kid ∈ behind, (slaves.get kid).sid ≠ sid := by
    rintro kid hkid hsid
    obtain rfl : kid = i := Slaves.index_eq (hsid.trans h.symm)
    exact (nodup_cons.mp (nodup_append.mp hnodup).2.1).1 hkid
  rw [scan, hsplit, foldl_append, foldl_cons, if_pos h, foldl_scan_of_ne hbehind]

theorem scan_eq_none (h : ¬ slaves.Has sid) : scan slaves sid = none :=
  foldl_scan_of_ne fun kid _ hkid => h ⟨kid, hkid⟩

/-! ## A selected slave -/

/-- From one state of the bus to another, the calls `cs` went to the slave `i`, none went to another
one, and the slave is selected in the end. -/
structure Serves (i : slaves.Index) (bus : SPMIBus slaves) (cs : List Call)
    (bus' : SPMIBus slaves) : Prop where
  selected : bus'.currentDev = some i
  calls : ∃ made, bus'.calls = bus.calls ++ made ∧ (∀ c ∈ made, c.1 = i) ∧
    (made.map Prod.snd).filter (· ≠ .finish) = cs

theorem Serves.trans {bus' bus'' : SPMIBus slaves} {cs cs' : List Call} (h : Serves i bus cs bus')
    (h' : Serves i bus' cs' bus'') : Serves i bus (cs ++ cs') bus'' := by
  obtain ⟨-, made, hmade, hown, hcs⟩ := h
  obtain ⟨hselected, made', hmade', hown', hcs'⟩ := h'
  refine ⟨hselected, made ++ made', ?_, ?_, ?_⟩
  · rw [hmade', hmade, append_assoc]
  · intro c hc
    rcases mem_append.mp hc with hc | hc
    · exact hown c hc
    · exact hown' c hc
  · rw [map_append, filter_append, hcs, hcs']

section

variable (h : bus.currentDev = some i) (sid : BitVec 8) (op : TransferOp)

include h

theorem Serves.refl : Serves i bus [] bus :=
  ⟨h, [], by simp, nofun, rfl⟩

theorem serves_reach (call : Call) (state : σ) :
    Serves i bus ([call].filter (· ≠ .finish)) (bus.reach i call state) :=
  ⟨h, [(i, call)], rfl, by simp, rfl⟩

theorem serves_endTransfer : Serves i bus [] (spmiEndTransfer bus) := by
  rw [spmiEndTransfer, h]
  dsimp only
  cases (slaves.get i).finish with
  | none | some finish => exact serves_reach h .finish _

theorem serves_command (busScanned : Bool) (opcode : BitVec 8) (address : BitVec 16) :
    Serves i bus [.command opcode address] (spmiCommand bus i busScanned opcode address).2 := by
  rw [spmiCommand]
  cases (slaves.get i).command with
  | none => exact serves_reach h (.command opcode address) _
  | some command =>
    have hreach := serves_reach h (.command opcode address)
      (command (bus.states i) opcode address).2
    dsimp only
    split_ifs
    · exact hreach.trans (serves_endTransfer hreach.selected)
    · exact hreach
    · exact hreach

/-- The selected slave gets what follows the command. -/
theorem serves_transferOp : Serves i bus [op.call] (transferOp sid bus op) := by
  cases op with
  | start opcode address =>
    rw [transferOp, spmiStartTransfer, h]
    exact serves_command h false opcode address
  | send data =>
    rw [transferOp, spmiSend, h]
    dsimp only
    cases (slaves.get i).send with
    | none | some send => exact serves_reach h (.send data) _
  | recv len =>
    rw [transferOp, spmiRecv, h]
    dsimp only
    cases (slaves.get i).recv with
    | none | some recv => exact serves_reach h (.recv len) _

/-- The selected slave gets all that follows the command. -/
theorem serves_run (ops : List TransferOp) :
    Serves i bus (ops.map TransferOp.call) (run (transferOp sid) bus ops) := by
  induction ops generalizing bus with
  | nil => exact .refl h
  | cons op ops ih =>
    have hfirst := serves_transferOp h sid op
    exact hfirst.trans (ih hfirst.selected)

end

/-! ## Transactions -/

/-- Once the slave is selected that the command goes to, the rest of the transaction follows it. -/
theorem serves_transaction {t : Transaction} (h : Serves i bus [.command t.opcode t.address]
      (spmiStartTransfer bus t.sid t.opcode t.address).2) :
    Serves i bus t.calls (transaction bus t) := by
  have hops := serves_run h.selected t.sid t.ops
  have hend := serves_endTransfer hops.selected
  have hall := (h.trans hops).trans hend
  rwa [append_nil] at hall

/-- The calls of a transaction go to the slave that is selected before it, whichever id the
transaction is for. -/
theorem calls_of_selected (h : bus.currentDev = some i) (t : Transaction) :
    Serves i bus t.calls (transaction bus t) := by
  apply serves_transaction
  rw [spmiStartTransfer, h]
  exact serves_command h false t.opcode t.address

section

variable (h : bus.currentDev = none) {t : Transaction}

include h

theorem calls_of_has (hsid : (slaves.get i).sid = t.sid) :
    Serves i bus t.calls (transaction bus t) := by
  apply serves_transaction
  have hscan := scan_eq_some hsid
  rw [spmiStartTransfer, h]
  rw [hscan]
  have hselected : ({ bus with currentDev := some i } : SPMIBus slaves).currentDev = some i := rfl
  have hcommand := serves_command hselected true t.opcode t.address
  exact ⟨hcommand.selected, hcommand.calls⟩

theorem spmiStartTransfer_of_not_has (hsid : ¬ slaves.Has sid) (opcode : BitVec 8)
    (address : BitVec 16) : spmiStartTransfer bus sid opcode address = (1, bus) := by
  have hscan := scan_eq_none hsid
  obtain ⟨currentDev, states, calls⟩ := bus
  obtain rfl : currentDev = none := h
  simp [spmiStartTransfer, hscan]

theorem transaction_of_not_has (hsid : ¬ slaves.Has t.sid) : transaction bus t = bus := by
  have hop : ∀ op, transferOp t.sid bus op = bus := by
    intro op
    cases op with
    | start opcode address =>
      rw [transferOp, spmiStartTransfer_of_not_has h hsid]
    | send data => rw [transferOp, spmiSend, h]
    | recv len => rw [transferOp, spmiRecv, h]
  have hrun : run (transferOp t.sid) bus t.ops = bus :=
    invariant_run (P := (· = bus)) (by rintro _ op rfl; exact hop op) rfl t.ops
  rw [transaction, spmiStartTransfer_of_not_has h hsid, hrun, spmiEndTransfer, h]

end

/-- A transaction is addressed correctly exactly if a slave that is selected before it has the id.
-/
theorem addressed_iff (bus : SPMIBus slaves) (t : Transaction) :
    Addressed bus t ↔ ∀ i, bus.currentDev = some i → (slaves.get i).sid = t.sid := by
  cases hcurrent : bus.currentDev with
  | none =>
    refine iff_of_true ⟨?_, ?_⟩ nofun
    · intro i hi
      exact (calls_of_has hcurrent hi).calls
    · intro hsid
      rw [transaction_of_not_has hcurrent hsid, spmiStartTransfer_of_not_has hcurrent hsid]
      exact ⟨Int.one_ne_zero, rfl, rfl⟩
  | some i =>
    obtain ⟨made, hmade, hown, hcalls⟩ := (calls_of_selected hcurrent t).calls
    constructor
    · rintro ⟨hreaches, hfails⟩ i' hi'
      obtain rfl : i = i' := Option.some.inj hi'
      -- The transaction has turned to the selected slave at least with its command.
      have hne : made ≠ [] := by
        rintro rfl
        cases hcalls
      by_contra hsid
      by_cases hhas : slaves.Has t.sid
      · obtain ⟨k, hk⟩ := hhas
        obtain ⟨made', hmade', hown', -⟩ := hreaches k hk
        obtain rfl : made = made' := append_cancel_left (hmade.symm.trans hmade')
        obtain ⟨c, hc⟩ := exists_mem_of_ne_nil made hne
        have hik : i = k := (hown c hc).symm.trans (hown' c hc)
        exact hsid (hik ▸ hk)
      · have hnone := (hfails hhas).2.1
        rw [hmade] at hnone
        exact hne (append_right_eq_self.mp hnone)
    · intro h
      have hi := h i rfl
      refine ⟨?_, fun hsid => absurd ⟨i, hi⟩ hsid⟩
      intro k hk
      obtain rfl : i = k := Slaves.index_eq (hi.trans hk.symm)
      exact ⟨made, hmade, hown, hcalls⟩

/-! ## Runs -/

/-- After a slave was selected, the transactions have to be for its id. -/
theorem guarded_of_selected (h : bus.currentDev = some i) (ts : List Transaction) :
    Guarded transaction Addressed bus ts ↔ ∀ t ∈ ts, t.sid = (slaves.get i).sid := by
  induction ts generalizing bus with
  | nil => simp [Guarded]
  | cons t ts ih =>
    have hnext := (calls_of_selected h t).selected
    rw [Guarded, addressed_iff, h, ih hnext, forall_mem_cons]
    simp [eq_comm]

/-- The transactions of a run are addressed correctly exactly if those after one to a slave that is
on the bus are for the same id. -/
theorem spmi_addressing_iff (slaves : Slaves σ) (states : slaves.Index → σ)
    (ts : List Transaction) : Guarded transaction Addressed (spmiInitBus slaves states) ts ↔
      ts.Pairwise fun t u => slaves.Has t.sid → u.sid = t.sid := by
  have hrun : ∀ bus : SPMIBus slaves, bus.currentDev = none →
      (Guarded transaction Addressed bus ts ↔
        ts.Pairwise fun t u => slaves.Has t.sid → u.sid = t.sid) := by
    induction ts with
    | nil => simp [Guarded]
    | cons t ts ih =>
      intro bus h
      have hfirst : Addressed bus t := by
        rw [addressed_iff, h]
        intro i hi
        cases hi
      rw [Guarded, and_iff_right hfirst, pairwise_cons]
      by_cases hhas : slaves.Has t.sid
      · obtain ⟨i, hi⟩ := hhas
        rw [guarded_of_selected (calls_of_has h hi).selected, hi]
        constructor
        · intro hall
          refine ⟨fun u hu _ => hall u hu, pairwise_of_forall_mem_list ?_⟩
          intro u hu v hv _
          rw [hall u hu, hall v hv]
        · rintro ⟨hall, -⟩ u hu
          exact hall u hu ⟨i, hi⟩
      · rw [transaction_of_not_has h hhas, ih bus h]
        exact (and_iff_right fun u _ ht => absurd ht hhas).symm
  exact hrun _ rfl

/-- A bus with two slaves that take every command. -/
def twoSlaves : Slaves Unit where
  children := [⟨0, some fun _ _ _ => (0, ()), none, none, none⟩,
    ⟨1, some fun _ _ _ => (0, ()), none, none, none⟩]
  distinct := by decide

/-- After a complete transaction for the slave 0, the command of one for the slave 1 reaches the
slave 0, and so does one for the id 2, which no slave has. -/
theorem spmi_addressing_stuck : (run transaction (spmiInitBus twoSlaves fun _ => ())
        [⟨0, 0x20, 0x100, []⟩, ⟨1, 0x20, 0x200, []⟩, ⟨2, 0x20, 0x300, []⟩]).calls.map
          (fun c => (c.1.val, c.2)) =
      [(0, .command 0x20 0x100), (0, .finish), (0, .command 0x20 0x200), (0, .finish),
        (0, .command 0x20 0x300), (0, .finish)] ∧
    ¬ Guarded transaction Addressed (spmiInitBus twoSlaves fun _ => ())
      [⟨0, 0x20, 0x100, []⟩, ⟨1, 0x20, 0x200, []⟩] := by
  refine ⟨rfl, ?_⟩
  rintro ⟨-, h, -⟩
  have hsid := (addressed_iff _ _).mp h ⟨0, by decide⟩ rfl
  cases hsid

end Inferno.Spmi
