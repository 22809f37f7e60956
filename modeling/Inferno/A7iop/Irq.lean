import Inferno.A7iop.Fifo
import Mathlib.Data.List.MinMax

/-!
# The lines of the AP mailbox

The lines of the AP mailbox are those that the interrupt controller sees. They should tell at all
times what both inboxes hold and whether they underflowed (`Coherent`). An operation on an inbox
computes the lines of the mailbox of this inbox anew, and a change of a mask those of its own
mailbox: whatever happens to the inbox of the AP or to the masks leaves the lines of the AP mailbox
coherent. What happens to the inbox of the IOP leaves them as they are. They then stay coherent
exactly when the operation makes no difference to them (`Quiet`), and the runs in which they are
coherent throughout are those in which all operations on the inbox of the IOP are of this kind
(`apLines_throughout_iff`).

The queue of the statuses of the groups 1 and 7 is a set from which the first of those that are
enabled is taken (`QueueLaw`): the loop of the pop finds a least element of an order, whatever the
order of the pushes was.
-/

namespace Inferno.A7iop

open Common Function

/-! ## Coherence -/

variable (p : AppleA7IOP)

/-- A bit of the mask of the AP mailbox is set. -/
def Masked (bit : BitVec 32) : Prop := (p.mailbox .ap).int_mask &&& bit ≠ 0

/-- The lines of the AP mailbox say what the inboxes hold: `IOP_NONEMPTY` and `AP_NONEMPTY` are high
when the inbox is not empty and the line not masked, or when it underflowed, and `IOP_EMPTY` and
`AP_EMPTY` when it is empty and the line not masked. -/
def Coherent : Prop :=
  ∀ d, ((p.mailbox .ap).irqs.nonempty d = true ↔
      (¬ Masked p (nonemptyBit d) ∧ (p.mailbox d).inbox ≠ []) ∨ (p.mailbox d).underflow = true) ∧
    ((p.mailbox .ap).irqs.empty d = true ↔ ¬ Masked p (emptyBit d) ∧ (p.mailbox d).inbox = [])

/-- The operation on the inbox of the IOP makes no difference to the lines. -/
def Quiet : FifoOp Message → Prop
  | .idle => True
  | .put _ => (p.mailbox .iop).inbox ≠ [] ∨ (Masked p (emptyBit .iop) ∧
      (Masked p (nonemptyBit .iop) ∨ (p.mailbox .iop).underflow = true))
  | .get => (p.mailbox .iop).underflow = true ∨ 2 ≤ (p.mailbox .iop).inbox.length ∨
      ((p.mailbox .iop).inbox.length = 1 ∧ Masked p (emptyBit .iop) ∧ Masked p (nonemptyBit .iop))
  | .clear => (p.mailbox .iop).underflow = false ∧ ((p.mailbox .iop).inbox = [] ∨
      (Masked p (emptyBit .iop) ∧ Masked p (nonemptyBit .iop)))

/-- What the lines of the AP mailbox depend on is the same of the AP mailbox. -/
structure SameAp (p p' : AppleA7IOP) : Prop where
  irqs : (p'.mailbox .ap).irqs = (p.mailbox .ap).irqs
  int_mask : (p'.mailbox .ap).int_mask = (p.mailbox .ap).int_mask
  core : (p'.mailbox .ap).core = (p.mailbox .ap).core

variable {p' : AppleA7IOP} (cfg : Config)

theorem SameAp.trans {p p'' : AppleA7IOP} (h : SameAp p p') (h' : SameAp p' p'') : SameAp p p'' :=
  ⟨h'.irqs.trans h.irqs, h'.int_mask.trans h.int_mask, h'.core.trans h.core⟩

theorem SameAp.of_eq {p : AppleA7IOP} (h : p'.mailbox .ap = p.mailbox .ap) : SameAp p p' :=
  ⟨by rw [h], by rw [h], by rw [h]⟩

section

variable {s : Side} {f : AppleA7IOPMailbox → AppleA7IOPMailbox}

theorem sameAp_modify_iop : SameAp p (p.modify .iop f) :=
  .of_eq rfl

theorem sameAp_updateIrq_iop {p : AppleA7IOP} : SameAp p (updateIrq cfg .iop p) :=
  .of_eq (mailbox_ap_updateIrq cfg p)

/-- A register of one of the mailboxes is changed that the lines do not depend on. -/
theorem sameAp_modify
    (hf : ∀ m, (f m).irqs = m.irqs ∧ (f m).int_mask = m.int_mask ∧ (f m).core = m.core) :
    SameAp p (p.modify s f) := by
  cases s with
  | iop => exact sameAp_modify_iop p
  | ap => exact ⟨(hf _).1, (hf _).2.1, (hf _).2.2⟩

end

/-- Inboxes that are the same hold the same messages and have underflowed or not alike. -/
theorem inbox_of_core {m m' : AppleA7IOPMailbox} (h : m'.core = m.core) :
    m'.inbox = m.inbox ∧ m'.underflow = m.underflow :=
  ⟨congrArg (fun c => c.fifo.queue) h, congrArg (fun c => c.fifo.underflow) h⟩

theorem Coherent.congr {p : AppleA7IOP} (h : Coherent p) (hap : SameAp p p')
    (hiop : (p'.mailbox .iop).core = (p.mailbox .iop).core) : Coherent p' := by
  have hcore : ∀ d, (p'.mailbox d).core = (p.mailbox d).core := by
    intro d
    cases d with
    | iop => exact hiop
    | ap => exact hap.core
  intro d
  obtain ⟨hinbox, hunder⟩ := inbox_of_core (hcore d)
  unfold Masked
  rw [hap.irqs, hap.int_mask, hinbox, hunder]
  exact h d

theorem coherent_updateIrqStatus : Coherent (updateIrqStatus .ap p) := by
  have hcore : ∀ d, ((updateIrqStatus .ap p).mailbox d).core = (p.mailbox d).core :=
    fun d => core_modify _ fun _ => rfl
  intro d
  obtain ⟨hinbox, hunder⟩ := inbox_of_core (hcore d)
  have hirqs : ((updateIrqStatus .ap p).mailbox .ap).irqs =
      linesOf p (p.mailbox .ap).int_mask := rfl
  have hmask : ((updateIrqStatus .ap p).mailbox .ap).int_mask = (p.mailbox .ap).int_mask := rfl
  unfold Masked
  rw [hirqs, hmask, hinbox, hunder]
  simp [linesOf, isUnmasked]

/-- The lines are coherent after `apple_a7iop_mailbox_update_irq` was called on the AP mailbox. -/
theorem coherent_updateIrq {p : AppleA7IOP} : Coherent (updateIrq cfg .ap p) := by
  have hown : Coherent (updateOwnIrq cfg .ap p) := by
    unfold updateOwnIrq
    split_ifs
    · refine (coherent_updateIrqStatus p).congr (sameAp_modify _ fun _ => ⟨rfl, rfl, rfl⟩) ?_
      exact core_modify _ fun _ => rfl
    · exact coherent_updateIrqStatus p
  unfold updateIrq
  split_ifs
  · -- The hop to the mailbox of the IOP changes only the lines of this mailbox.
    have hap : (updateOwnIrq cfg .iop (updateOwnIrq cfg .ap p)).mailbox .ap =
        (updateOwnIrq cfg .ap p).mailbox .ap := mailbox_ap_updateOwnIrq cfg _
    exact hown.congr (.of_eq hap) (core_updateOwnIrq _ _ _ _)
  · exact hown

/-! ## Steps -/

/-- The step computed the lines anew and did not touch the inbox of the IOP, or it left alone what
of the AP mailbox the lines depend on. -/
def Follows (p p' : AppleA7IOP) (e : FifoOp Message) : Prop :=
  (Coherent p' ∧ e = .idle) ∨ SameAp p p'

variable (s : Side)

section

variable (d s : Side) (msg : Message) (p : AppleA7IOP)

theorem follows_mask (f : AppleA7IOPMailbox → AppleA7IOPMailbox) :
    Follows p (updateIrq cfg s (p.modify s f)) .idle := by
  cases s with
  | iop => exact .inr ((sameAp_modify_iop p).trans (sameAp_updateIrq_iop cfg))
  | ap => exact .inl ⟨coherent_updateIrq cfg, rfl⟩

theorem follows_sendTo : Follows p (sendTo cfg d s msg p) ((Call.send s d msg).event p .iop) := by
  unfold sendTo
  split_ifs
  · unfold send
    cases d with
    -- Only the lines of the IOP mailbox are computed anew.
    | iop =>
      exact .inr (((sameAp_modify_iop p).trans (sameAp_updateIrq_iop cfg)).trans
        (sameAp_modify_iop _))
    | ap =>
      refine .inl ⟨?_, by simp [Call.event]⟩
      refine (coherent_updateIrq cfg).congr (sameAp_modify _ fun _ => ⟨rfl, rfl, rfl⟩) ?_
      exact core_modify _ fun _ => rfl
  · exact .inr (.of_eq rfl)

theorem follows_recvFrom : Follows p (recvFrom cfg d s p).1 ((Call.recv s d).event p .iop) := by
  unfold recvFrom
  split_ifs
  · unfold recv
    dsimp only
    split_ifs
    · exact .inr (.of_eq rfl)
    · cases d with
      | iop =>
        right
        split <;> exact (sameAp_modify_iop p).trans (sameAp_updateIrq_iop cfg)
      | ap =>
        refine .inl ⟨?_, by simp [Call.event]⟩
        split <;> exact coherent_updateIrq cfg
  · exact .inr (.of_eq rfl)

end

variable {addr size : ℕ}

section

variable {data : BitVec 64} (p : AppleA7IOP)

theorem follows_regWrite : Follows p (regWrite cfg s addr size data p)
      ((writeCall cfg s addr size data p).event p .iop) := by
  unfold regWrite writeCall
  cases cfg.layout.register addr with
  | intMaskSet | intMaskClr => exact follows_mask cfg s p _
  | ctrl d => exact .inr (sameAp_modify _ fun _ => ⟨rfl, rfl, rfl⟩)
  | send d off =>
    dsimp only
    have hfilled : SameAp p (p.modify s fun m => { m with
        send_reg := update m.send_reg d (filled (p.mailbox s) d off size data) }) :=
      sameAp_modify _ fun _ => ⟨rfl, rfl, rfl⟩
    split_ifs
    · -- The register is filled, and then sent.
      have hsent := follows_sendTo cfg d s (filled (p.mailbox s) d off size data)
        (p.modify s fun m => { m with
          send_reg := update m.send_reg d (filled (p.mailbox s) d off size data) })
      rcases hsent with ⟨h, hidle⟩ | h
      · refine .inl ⟨h, ?_⟩
        unfold Call.event at hidle
        dsimp only at hidle
        rwa [AppleA7IOP.mailbox_modify_self] at hidle
      · exact .inr (hfilled.trans h)
    · exact .inr hfilled
  | _ => exact .inr (.of_eq rfl)

theorem follows_regRead :
    Follows p (regRead cfg s addr size p).1 ((readCall cfg s addr).event p .iop) := by
  unfold regRead readCall
  cases cfg.layout.register addr with
  | recv d off =>
    dsimp only
    split_ifs
    · unfold fetch
      have hreg : SameAp (recvFrom cfg d s p).1 ((recvFrom cfg d s p).1.modify s fun m => { m with
          recv_reg := update m.recv_reg d ((recvFrom cfg d s p).2.getD fun _ => 0) }) :=
        sameAp_modify _ fun _ => ⟨rfl, rfl, rfl⟩
      rcases follows_recvFrom cfg d s p with ⟨h, hidle⟩ | h
      · exact .inl ⟨h.congr hreg (core_modify _ fun _ => rfl), hidle⟩
      · exact .inr (h.trans hreg)
    · exact .inr (.of_eq rfl)
  | _ => exact .inr (.of_eq rfl)

theorem sameAp_readInterruptStatus : SameAp p (readInterruptStatus cfg .iop p).1 := by
  have hmask : ∀ p f, SameAp p (updateIrq cfg .iop (p.modify .iop f)) := fun p f =>
    (sameAp_modify_iop p).trans (sameAp_updateIrq_iop cfg)
  have hpop : SameAp p (interruptStatusPop cfg .iop p).1 := by
    unfold interruptStatusPop
    split
    · exact sameAp_updateIrq_iop cfg
    · exact hmask p _
  unfold readInterruptStatus
  dsimp only
  split_ifs
  · exact hmask p _
  · exact hmask p _
  · exact hmask p _
  · exact hmask p _
  · exact hpop.trans (hmask _ _)
  · exact hpop.trans (sameAp_updateIrq_iop cfg)

/-- Every step computes the lines anew, or leaves alone what of the AP mailbox they depend on. -/
theorem follows_step (op : Op) : Follows p (step cfg p op) ((call cfg p op).event p .iop) := by
  cases op with
  | mailboxWrite s addr size data =>
    dsimp only [step, call]
    split_ifs
    · exact follows_regWrite cfg s p
    · exact .inr (.of_eq rfl)
  | mailboxRead s addr size =>
    dsimp only [step, call]
    split_ifs
    · exact follows_regRead cfg s p
    · exact .inr (.of_eq rfl)
  | sendAp msg => exact follows_sendTo cfg .ap .iop msg p
  | recvAp => exact follows_recvFrom cfg .ap .iop p
  | sendIop msg => exact follows_sendTo cfg .iop .ap msg p
  | recvIop => exact follows_recvFrom cfg .iop .ap p
  | a7iopWrite addr data =>
    right
    dsimp only [step, a7iopWrite]
    split
    · exact (sameAp_modify_iop p).trans (sameAp_updateIrq_iop cfg)
    · exact .of_eq rfl
  | readInterruptStatus =>
    right
    dsimp only [step]
    split_ifs
    · exact sameAp_readInterruptStatus cfg p
    · exact .of_eq rfl
  | interruptStatusPush status =>
    right
    dsimp only [step, interruptStatusPush]
    split_ifs
    · exact sameAp_updateIrq_iop cfg
    · exact (sameAp_modify_iop p).trans (sameAp_updateIrq_iop cfg)
  | sepdEnabled data | bottomHalf => exact .inr (.of_eq rfl)
  | enable => exact .inr ⟨rfl, rfl, rfl⟩
  | reset s =>
    cases s with
    | iop => exact .inr (.of_eq rfl)
    | ap => exact .inl ⟨coherent_updateIrqStatus _, rfl⟩

section

variable {p : AppleA7IOP} (h : Coherent p) (hap : SameAp p p')

include h hap

/-- Lines that were coherent and are left as they are stay so exactly when the two of the inbox of
the IOP should be what they should have been before. -/
theorem coherent_iff_lines : Coherent p' ↔
      ((¬ Masked p (nonemptyBit .iop) ∧ (p.mailbox .iop).inbox ≠ []) ∨
          (p.mailbox .iop).underflow = true ↔
        (¬ Masked p (nonemptyBit .iop) ∧ (p'.mailbox .iop).inbox ≠ []) ∨
          (p'.mailbox .iop).underflow = true) ∧
      (¬ Masked p (emptyBit .iop) ∧ (p.mailbox .iop).inbox = [] ↔
        ¬ Masked p (emptyBit .iop) ∧ (p'.mailbox .iop).inbox = []) := by
  have hmasked : ∀ bit, Masked p' bit ↔ Masked p bit := by
    intro bit
    unfold Masked
    rw [hap.int_mask]
  constructor
  · intro h'
    obtain ⟨hne, hem⟩ := h' .iop
    rw [hap.irqs, hmasked] at hne hem
    exact ⟨(h .iop).1.symm.trans hne, (h .iop).2.symm.trans hem⟩
  · rintro ⟨hne, hem⟩ d
    rw [hap.irqs, hmasked, hmasked]
    cases d with
    | iop => exact ⟨(h .iop).1.trans hne, (h .iop).2.trans hem⟩
    | ap =>
      obtain ⟨hinbox, hunder⟩ := inbox_of_core hap.core
      rw [hinbox, hunder]
      exact h .ap

/-- Lines that were coherent and are left as they are stay so exactly when the operation on the
inbox of the IOP makes no difference to them. -/
theorem coherent_iff_quiet {e : FifoOp Message}
    (hiop : (p'.mailbox .iop).core.fifo = (p.mailbox .iop).core.fifo.step e) :
    Coherent p' ↔ Quiet p e := by
  have hinbox : (p'.mailbox .iop).inbox = ((p.mailbox .iop).core.fifo.step e).queue :=
    congrArg Fifo.queue hiop
  have hunder : (p'.mailbox .iop).underflow = ((p.mailbox .iop).core.fifo.step e).underflow :=
    congrArg Fifo.underflow hiop
  rw [coherent_iff_lines h hap, hinbox, hunder]
  unfold Quiet AppleA7IOPMailbox.core Fifo.step
  -- One operation at a time, on an inbox that is empty, has one message, or more of them.
  generalize (p.mailbox .iop).inbox = queue
  generalize (p.mailbox .iop).underflow = underflow
  cases e with
  | idle => simp
  | put msg =>
    by_cases hqueue : queue = [] <;> simp [hqueue]
    tauto
  | get =>
    cases underflow with
    | true => simp
    | false =>
      rcases queue with - | ⟨msg, - | ⟨msg', rest⟩⟩
      · simp
      · tauto
      · simp
  | clear =>
    cases underflow <;> by_cases hqueue : queue = [] <;> simp [hqueue]
    tauto

end

/-- What a step does to the inbox of the IOP makes no difference to the lines. -/
def QuietStep (cfg : Config) (p : AppleA7IOP) (op : Op) : Prop :=
  Quiet p ((call cfg p op).event p .iop)

/-- A step keeps the lines coherent exactly when what it does to the inbox of the IOP makes no
difference to them. -/
theorem coherent_step_quiet (op : Op) (h : Coherent p) :
    Coherent (step cfg p op) ↔ QuietStep cfg p op := by
  unfold QuietStep
  rcases follows_step cfg p op with ⟨hnew, hidle⟩ | hsame
  · rw [hidle]
    exact iff_of_true hnew trivial
  · exact coherent_iff_quiet h hsame (fifo_step cfg .iop p op)

end

/-- The lines are coherent after the reset of the machine. -/
theorem coherent_started : Coherent (started cfg) := coherent_updateIrqStatus _

/-- In a run from the reset of the machine the lines are coherent in every state exactly when all
that happens to the inbox of the IOP makes no difference to them. -/
theorem apLines_throughout_iff (cfg : Config) (ops : List Op) :
    Throughout (step cfg) Coherent (started cfg) ops ↔
      Guarded (step cfg) (QuietStep cfg) (started cfg) ops :=
  throughout_iff_guarded (coherent_step_quiet cfg) (coherent_started cfg)

/-- The first message to the IOP leaves `IOP_EMPTY` high and `IOP_NONEMPTY` low. -/
theorem not_coherent_sendIop :
    ¬ Coherent (run (step sampleConfig) (started sampleConfig) [.sendIop fun _ => 0]) := by
  rw [run_cons, run_nil, coherent_step_quiet _ _ _ (coherent_started sampleConfig)]
  intro hquiet
  rcases hquiet with hinbox | ⟨hmasked, -⟩
  · exact hinbox rfl
  · exact hmasked rfl

/-! ## The status queue -/

section StatusQueue

open List

variable (cfg : Config) (s : Side) (p : AppleA7IOP)

/-- A status of the groups 1 and 7. -/
def Grouped (status : BitVec 32) : Prop := interruptGroup status = 1 ∨ interruptGroup status = 7

/-- A status is pushed, all else in the mailbox is changed, or a status is popped. -/
inductive QueueOp where
  | push (status : BitVec 32) (h : Grouped status)
  | change (m : AppleA7IOPMailbox)
  | pop

def queue : List (BitVec 32) := (p.mailbox s).interrupt_status

def queueStep : QueueOp → AppleA7IOP
  | .push status _ => interruptStatusPush cfg s status p
  | .change m => p.modify s fun old => { m with interrupt_status := old.interrupt_status }
  | .pop => (interruptStatusPop cfg s p).1

/-- The order of the statuses: group 7 before the other, and in a group the lowest value first. -/
def Before (a b : BitVec 32) : Prop :=
  (interruptGroup a = interruptGroup b ∧ a < b) ∨
    (interruptGroup a ≠ interruptGroup b ∧ interruptGroup a = 7)

instance : DecidableRel Before := fun _ _ => inferInstanceAs (Decidable (_ ∨ _))

/-- The queued statuses that are enabled. -/
def enabled : List (BitVec 32) := (queue s p).filter (isInterruptEnabled (p.mailbox s))

/-- A status is queued once, from its push until it is popped, and the first of those that are
enabled is popped. -/
structure QueueLaw : Prop where
  nodup : (queue s p).Nodup
  mem_step : ∀ op a, a ∈ queue s (queueStep cfg s p op) ↔ match op with
    | .push status _ => a ∈ queue s p ∨ a = status
    | .change _ => a ∈ queue s p
    | .pop => a ≠ (interruptStatusPop cfg s p).2 ∧ a ∈ queue s p
  popped : ((interruptStatusPop cfg s p).2 = 0 ∧ enabled s p = []) ∨
    ((interruptStatusPop cfg s p).2 ≠ 0 ∧ (interruptStatusPop cfg s p).2 ∈ enabled s p ∧
      ∀ a ∈ enabled s p, a ≠ (interruptStatusPop cfg s p).2 →
        Before (interruptStatusPop cfg s p).2 a)

/-- What the runs keep. -/
def Queued : Prop := (queue s p).Nodup ∧ ∀ status ∈ queue s p, Grouped status

theorem queue_modify (f : AppleA7IOPMailbox → AppleA7IOPMailbox) :
    queue s (p.modify s f) = (f (p.mailbox s)).interrupt_status := by
  rw [queue, p.mailbox_modify_self]

theorem queue_updateIrq : queue s (updateIrq cfg s p) = queue s p := by
  have hown : ∀ d p, queue s (updateOwnIrq cfg d p) = queue s p := by
    intro d p
    unfold updateOwnIrq updateIrqStatus
    split_ifs <;> cases s <;> cases d <;> rfl
  unfold updateIrq
  split_ifs
  · rw [hown, hown]
  · exact hown s p

/-- The loop of the pop goes over the enabled statuses. -/
theorem foldl_prefer : (queue s p).foldl (prefer (p.mailbox s)) none =
    (enabled s p).foldl (argAux Before) none := by
  rw [enabled, foldl_filter]
  congr 1
  funext best status
  cases best <;> rfl

theorem mem_of_foldl_argAux {l : List (BitVec 32)} {a : BitVec 32} :
    ∀ {best}, l.foldl (argAux Before) best = some a → a ∈ l ∨ best = some a := by
  induction l with
  | nil => exact .inr
  | cons b l ih =>
    intro best h
    rcases ih h with h | h
    · exact .inl (mem_cons_of_mem _ h)
    · cases best with
      | none => exact .inl (Option.some.inj h ▸ mem_cons_self)
      | some c =>
        simp only [argAux] at h
        split_ifs at h
        · exact .inl (Option.some.inj h ▸ mem_cons_self)
        · exact .inr h

instance : Std.Irrefl Before := ⟨fun a => by simp [Before]⟩

instance : IsTrans _ Before := ⟨fun a b c => by unfold Before; grind⟩

theorem Grouped.before {a b : BitVec 32} (ha : Grouped a) (hb : Grouped b) (hne : a ≠ b)
    (h : ¬ Before a b) : Before b a := by
  unfold Before Grouped at *
  grind

theorem not_grouped_zero : ¬ Grouped 0 := by
  rintro (h | h) <;> cases h

variable {s p}

theorem queue_push (status : BitVec 32) : queue s (interruptStatusPush cfg s status p) =
    if status ∈ queue s p then queue s p else queue s p ++ [status] := by
  unfold interruptStatusPush
  rw [apply_ite (queue s), queue_updateIrq, queue_updateIrq, queue_modify]
  rfl

theorem pop_snd : (interruptStatusPop cfg s p).2 =
    ((enabled s p).foldl (argAux Before) none).getD 0 := by
  rw [← foldl_prefer, interruptStatusPop, ← queue]
  cases (queue s p).foldl (prefer (p.mailbox s)) none <;> rfl

theorem queue_pop (h : Queued s p) : queue s (interruptStatusPop cfg s p).1 =
    (queue s p).erase (interruptStatusPop cfg s p).2 := by
  rw [interruptStatusPop, ← queue]
  cases (queue s p).foldl (prefer (p.mailbox s)) none with
  | none =>
    rw [erase_of_not_mem fun hmem => not_grouped_zero (h.2 _ hmem)]
    exact queue_updateIrq cfg s p
  | some status =>
    rw [queue_updateIrq, queue_modify]
    rfl

theorem Queued.law (h : Queued s p) : QueueLaw cfg s p := by
  have hgroup : ∀ a ∈ enabled s p, Grouped a := fun a ha => h.2 a (mem_of_mem_filter ha)
  refine ⟨h.1, fun op a => ?_, ?_⟩
  · cases op with
    | push status =>
      rw [queueStep, queue_push]
      split_ifs <;> grind
    | change m =>
      rw [queueStep, queue_modify]
      rfl
    | pop =>
      rw [queueStep, queue_pop cfg h]
      exact h.1.mem_erase_iff
  · rw [pop_snd]
    cases hbest : (enabled s p).foldl (argAux Before) none with
    | none =>
      rw [((foldl_argAux_eq_none _).mp hbest).1]
      exact .inl ⟨rfl, rfl⟩
    | some status =>
      have hmem : status ∈ enabled s p := (mem_of_foldl_argAux hbest).resolve_right nofun
      refine .inr ⟨fun h0 => not_grouped_zero (h0 ▸ hgroup _ hmem), hmem, fun a ha hne => ?_⟩
      exact (hgroup a ha).before (hgroup _ hmem) hne
        (not_of_mem_foldl_argAux Before inferInstance inferInstance ha hbest)

theorem Queued.step (h : Queued s p) (op : QueueOp) : Queued s (queueStep cfg s p op) := by
  unfold Queued
  cases op with
  | push status hstatus =>
    rw [queueStep, queue_push]
    split_ifs <;> grind [Queued]
  | change m =>
    rw [queueStep, queue_modify]
    exact h
  | pop =>
    rw [queueStep, queue_pop cfg h]
    exact ⟨h.1.erase _, fun _ hmem => h.2 _ (mem_of_mem_erase hmem)⟩

/-- The law of the queue holds in every state of every run from an empty queue. -/
theorem queueLaw_throughout (h : queue s p = []) (ops : List QueueOp) :
    Throughout (queueStep cfg s) (QueueLaw cfg s) p ops := by
  refine throughout_of_invariant (I := Queued s) (fun _ op h => h.step cfg op)
    (fun _ h => h.law cfg) ?_ ops
  rw [Queued, h]
  exact ⟨.nil, fun _ h => by cases h⟩

/-- Statuses of both groups are pushed, interrupts are enabled and one status is popped. -/
def queueOps : List QueueOp :=
  [.push 0x10003 (.inl rfl), .push 0x70008 (.inr rfl),
    .change { (started sampleConfig).mailbox .iop with sepd_enabled := 1 }, .pop]

/-- The status of group 7 is popped, and the other one stays. -/
theorem queueLaw_started :
    Throughout (queueStep sampleConfig .iop) (QueueLaw sampleConfig .iop) (started sampleConfig)
      queueOps ∧
    queue .iop (run (queueStep sampleConfig .iop) (started sampleConfig) queueOps) = [0x10003] :=
  ⟨queueLaw_throughout _ rfl _, by decide +kernel⟩

end StatusQueue

end Inferno.A7iop
