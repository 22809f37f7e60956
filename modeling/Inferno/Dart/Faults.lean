import Inferno.Dart.Bounds

/-!
# Fault reporting

What a translation should report is stated over `stageWalk`, which fails at the stage whose entry
cannot be used: the table of the stream, the entry of its table, or the final entry. The walk of the
code (`pageWalk`, `ptw_eq`) names a failure by its kind instead: `L2E_INVLD` for an entry of either
level that cannot be read, `PTE_INVLD` for one that is not valid. `translate_eq` says what a
translation then returns and latches.

Both permission checks latch `WRITE_PROT`, so a read that the page does not allow is reported as a
write. `faultReport_iff` says exactly when a wrong name makes no difference: when the bits in
question are latched already.
-/

namespace Inferno.Dart

open Common
open BitVec (getLsbD_or getLsbD_twoPow ofNat twoPow)

/-! ## The walk -/

/-- The faults of a walk, named after the stages: the table of the stream, the entry of the first
level and the final entry. -/
inductive WalkFault where
  | ttbrInvld
  | l2eInvld
  | pteInvld
  deriving DecidableEq

/-- The bit of `error_status` for the fault. -/
def WalkFault.bit : WalkFault → ℕ
  | .ttbrInvld => 0
  | .l2eInvld => 1
  | .pteInvld => 2

namespace Config

/-- The index into the table of a level. -/
def index (cfg : Config) (iova : BitVec 64) (level : ℕ) : BitVec 64 :=
  (iova &&& cfg.l_mask level) >>> cfg.l_shift level

/-- The page frame in an entry. -/
def frame (cfg : Config) (pte : BitVec 64) : BitVec 64 := pte &&& cfg.page_mask &&& pteAddrMask

end Config

section

variable (cfg : Config) (regs : Regs) (mem : Memory) (stream : ℕ)

/-- An entry as the code reads it: the fault depends on what is wrong with it. -/
def tableEntry (table idx : BitVec 64) : Except WalkFault (BitVec 64) :=
  match mem (table + 8 * idx) with
  | none => .error .l2eInvld
  | some pte => if pte.getLsbD 0 then .ok pte else .error .pteInvld

/-- The first table for a page number, if the stream has one. -/
def firstTable (sid : ℕ) (iova : BitVec 64) : Except WalkFault (BitVec 64) :=
  let idx := (cfg.index iova 0).toNat
  let entry := regs.ttbr (maxTtbr * sid + idx)
  if sid < maxStreams ∧ cfg.sid_mask.getLsbD sid ∧ idx < maxTtbr ∧ entry.getLsbD 31 then
    .ok ((entry.setWidth 64 &&& 0xFFFFFFF) <<< 12)
  else .error .ttbrInvld

/-- The final entry for a page number, or the fault that the code reports. -/
def pageWalk (sid : ℕ) (iova : BitVec 64) : Except WalkFault (BitVec 64) := do
  let table ← firstTable cfg regs sid iova
  let pte ← tableEntry mem table (cfg.index iova 1)
  tableEntry mem (cfg.frame pte) (cfg.index iova 2)

/-- The entry at a place of a table, where it can be read and is valid. -/
def validEntry (table idx : BitVec 64) : Option (BitVec 64) :=
  (mem (table + 8 * idx)).filter (·.getLsbD 0)

/-- The final entry for a page number, or the stage at which there is none. -/
def stageWalk (sid : ℕ) (iova : BitVec 64) : Except WalkFault (BitVec 64) := do
  let table ← firstTable cfg regs sid iova
  let l2e ← (validEntry mem table (cfg.index iova 1)).elim (.error .l2eInvld) .ok
  (validEntry mem (cfg.frame l2e) (cfg.index iova 2)).elim (.error .pteInvld) .ok

/-- The entry of the first level can be read and is not valid, or the final entry cannot be read. -/
def Misnamed (sid : ℕ) (iova : BitVec 64) : Prop :=
  ∃ table l2e, firstTable cfg regs sid iova = .ok table ∧
    mem (table + 8 * cfg.index iova 1) = some l2e ∧
    (l2e.getLsbD 0 = true → mem (cfg.frame l2e + 8 * cfg.index iova 2) = none)

theorem ptwLoop_cons (iova : BitVec 64) (level : ℕ) (rest : List ℕ) (pa pte : BitVec 64) :
    ptwLoop cfg mem iova (level :: rest) pa pte =
      match tableEntry mem pa (cfg.index iova level) with
      | .error f => .error (walkError f.bit)
      | .ok pte => ptwLoop cfg mem iova rest (cfg.frame pte) pte := by
  have hvalid : ∀ p : BitVec 64, p &&& 1 = 0 ↔ p.getLsbD 0 = false := by
    intro p
    exact extract_one_eq_zero_iff p 0 (by norm_num)
  rw [ptwLoop, tableEntry]
  unfold Config.index
  cases mem (pa + 8 * ((iova &&& cfg.l_mask level) >>> cfg.l_shift level)) with
  | none => rfl
  | some p =>
    dsimp only
    cases hp : p.getLsbD 0 with
    | false =>
      rw [if_pos ((hvalid p).mpr hp)]
      rfl
    | true =>
      have hne : ¬ p &&& 1 = 0 := by
        rw [hvalid, hp]
        exact (by decide)
      rw [if_neg hne]
      rfl

theorem ptw_firstTable (sid : ℕ) (iova : BitVec 64) : ∃ pte, (ptw cfg regs mem sid iova).1 =
      match firstTable cfg regs sid iova with
      | .error f => .error (walkError f.bit)
      | .ok table => ptwLoop cfg mem iova [1, 2] table pte := by
  unfold ptw firstTable Config.index
  dsimp only
  generalize ((iova &&& cfg.l_mask 0) >>> cfg.l_shift 0).toNat = idx
  refine ⟨(regs.ttbr (maxTtbr * sid + idx)).setWidth 64, ?_⟩
  have hvalid := extract_one_eq_zero_iff (regs.ttbr (maxTtbr * sid + idx)) 31 (by norm_num)
  -- The code checks the indices, reads the entry, and checks `VALID`; all failures are the same.
  split
  · rename_i hbad
    rw [if_neg ?_]
    · rfl
    · rintro ⟨hsid, hmask, hidx, -⟩
      rcases hbad with h | h | h
      · omega
      · rw [hmask] at h
        exact absurd h (by decide)
      · omega
  · rename_i hgood
    split
    · rename_i hzero
      rw [if_neg ?_]
      · rfl
      · rintro ⟨-, -, -, hset⟩
        rw [hvalid.mp hzero] at hset
        exact Bool.false_ne_true hset
    · rename_i hset
      rw [hvalid, Bool.not_eq_false] at hset
      rw [if_pos ?_]
      simp only [not_or, Bool.not_eq_false] at hgood
      exact ⟨by omega, hgood.2.1, by omega, hset⟩

/-- `apple_dart_mapper_ptw` computes the walk. -/
theorem ptw_eq (sid : ℕ) (iova : BitVec 64) : (ptw cfg regs mem sid iova).1 =
      match pageWalk cfg regs mem sid iova with
      | .error f => .error (walkError f.bit)
      | .ok pte => .ok pte := by
  obtain ⟨pte, h⟩ := ptw_firstTable cfg regs mem sid iova
  rw [h, pageWalk]
  cases firstTable cfg regs sid iova with
  | error f => rfl
  | ok table =>
    -- The loop has two rounds.
    dsimp only [bind, Except.bind]
    rw [ptwLoop_cons]
    cases tableEntry mem table (cfg.index iova 1) with
    | error f => rfl
    | ok pte =>
      dsimp only
      rw [ptwLoop_cons]
      cases tableEntry mem (cfg.frame pte) (cfg.index iova 2) with
      | error f | ok pte => rfl

/-- The code and the stages differ at a failure that the code names after the other stage. -/
theorem walks_of_misnamed {sid : ℕ} {iova : BitVec 64} (h : Misnamed cfg regs mem sid iova) :
    (pageWalk cfg regs mem sid iova = .error .pteInvld ∧
        stageWalk cfg regs mem sid iova = .error .l2eInvld) ∨
      (pageWalk cfg regs mem sid iova = .error .l2eInvld ∧
        stageWalk cfg regs mem sid iova = .error .pteInvld) := by
  obtain ⟨table, l2e, htable, hl2e, hpte⟩ := h
  simp only [pageWalk, stageWalk, tableEntry, validEntry, htable, hl2e, bind, Except.bind,
    Option.filter_some]
  cases hvalid : l2e.getLsbD 0 with
  | false => exact .inl ⟨rfl, rfl⟩
  | true =>
    rw [if_pos rfl, if_pos rfl]
    refine .inr ⟨?_, ?_⟩
    · simp only [hpte hvalid]
    · simp only [Option.elim_some, hpte hvalid]
      rfl

/-- Elsewhere they agree. -/
theorem stageWalk_of_not_misnamed {sid : ℕ} {iova : BitVec 64}
    (h : ¬ Misnamed cfg regs mem sid iova) :
    stageWalk cfg regs mem sid iova = pageWalk cfg regs mem sid iova := by
  simp only [pageWalk, stageWalk, tableEntry, validEntry, bind, Except.bind]
  cases htable : firstTable cfg regs sid iova with
  | error f => rfl
  | ok table =>
    dsimp only
    cases hl2e : mem (table + 8 * cfg.index iova 1) with
    | none => rfl
    | some l2e =>
      -- The first entry is valid and the final one can be read.
      have hread : l2e.getLsbD 0 = true ∧ mem (cfg.frame l2e + 8 * cfg.index iova 2) ≠ none := by
        by_contra hnot
        exact h ⟨table, l2e, htable, hl2e, fun hvalid => by_contra fun hne => hnot ⟨hvalid, hne⟩⟩
      obtain ⟨hvalid, hne⟩ := hread
      obtain ⟨pte, hpte⟩ := Option.ne_none_iff_exists'.mp hne
      simp only [Option.filter_some, hvalid, if_true, Option.elim_some, hpte]
      cases pte.getLsbD 0 <;> rfl

/-! ## What a translation should report -/

/-- The remapped stream of a translation. -/
def Regs.sid : ℕ := (regs.sidRemap stream).toNat

/-- Translation is enabled for the stream, and not bypassed. -/
def Regs.Translates : Prop :=
  (regs.sidConfig (regs.sid stream)).getLsbD 7 = true ∧
    (regs.sidConfig (regs.sid stream)).getLsbD 8 = false

/-- The walk of a translation, as the code does it. -/
def walkOf (addr : BitVec 64) : Except WalkFault (BitVec 64) :=
  pageWalk cfg regs mem (regs.sid stream) (addr >>> cfg.page_shift)

/-- The walk of a translation by its stages. -/
def stagesOf (addr : BitVec 64) : Except WalkFault (BitVec 64) :=
  stageWalk cfg regs mem (regs.sid stream) (addr >>> cfg.page_shift)

end

variable (flag : IOMMUAccessFlags) (pte : BitVec 64)

/-- The access asks for a write that the entry does not allow. -/
def writeFault : Bool := flag.hasWO && pte.getLsbD 7

/-- The access asks for a read that the entry does not allow. -/
def readFault : Bool := flag.hasRO && pte.getLsbD 8

/-- The bits of `error_status` for the faults that occur. -/
def faultBits (flag : IOMMUAccessFlags) : Except WalkFault (BitVec 64) → BitVec 32
  | .error f => twoPow 32 f.bit
  | .ok pte =>
    (if writeFault flag pte then twoPow 32 3 else 0) |||
      (if readFault flag pte then twoPow 32 4 else 0)

variable (status bits : BitVec 32)

section

variable (cfg : Config) (regs : Regs) (mem : Memory) (stream : ℕ) (addr : BitVec 64)

/-- The status after a report of some bits for a stream: `FLAG` and the bits are added, and the
`SID` field names the stream. -/
def reported : BitVec 32 :=
  deposit (status ||| twoPow 32 31 ||| bits) 24 4 (ofNat 32 stream)

/-- What a translation should report and return: the faults that occur and no other, and the page
of the final entry, with its permissions, when none does. -/
def FaultReport (flag : IOMMUAccessFlags) : Prop :=
  let walk := stagesOf cfg regs mem stream addr
  let t := translate cfg regs mem stream addr flag
  if faultBits flag walk = 0 then
    t.regs.error_status = regs.error_status ∧ t.regs.error_address = regs.error_address ∧
      ∃ pte, walk = .ok pte ∧ t.entry.translated_addr = cfg.frame pte ||| (addr &&& cfg.page_bits) ∧
        t.entry.perm = .accessFlag (!pte.getLsbD 8) (!pte.getLsbD 7)
  else t.regs.error_status = reported regs.error_status (faultBits flag walk) stream

/-! ## What it reports -/

theorem getLsbD_reported (stream i : ℕ) (hi : i < 32) : (reported status bits stream).getLsbD i =
      if 24 ≤ i ∧ i < 28 then (ofNat 32 stream).getLsbD (i - 24)
      else status.getLsbD i || decide (i = 31) || bits.getLsbD i := by
  have hflag : (twoPow 32 31).getLsbD i = decide (i = 31) := by
    simp [eq_comm]
  rw [reported, getLsbD_deposit _ _ _ _ _ (by norm_num) hi, getLsbD_or, getLsbD_or, hflag]

theorem reported_reported :
    reported (reported status bits stream) bits stream = reported status bits stream := by
  apply BitVec.eq_of_getLsbD_eq
  intro i hi
  rw [getLsbD_reported _ _ _ _ hi, getLsbD_reported _ _ _ _ hi]
  split_ifs
  · rfl
  · cases status.getLsbD i <;> cases bits.getLsbD i <;> simp

/-- The status of a failed walk has `FLAG` and the bit of its stage. -/
theorem walkError_eq (f : WalkFault) : walkError f.bit = twoPow 32 31 ||| twoPow 32 f.bit := by
  cases f <;> decide

/-- A permission check that fails reports `WRITE_PROT`. -/
theorem protError_status : (protError regs stream addr).error_status =
      reported regs.error_status (twoPow 32 3) stream := by
  unfold protError reported
  rw [deposit_one _ _ (by norm_num), deposit_one _ _ (by norm_num)]

end

section

variable (cfg : Config) (regs : Regs) (mem : Memory) (stream : ℕ) (addr : BitVec 64)
  (flag : IOMMUAccessFlags)

/-- A translation that passes the checks for `BUSY` and bypass does the walk. -/
theorem translate_eq (hb : ¬ regs.busy) (ht : regs.Translates stream) :
    translate cfg regs mem stream addr flag =
      let accesses := [.sid_remap stream, .sid_config (regs.sid stream)] ++
        (ptw cfg regs mem (regs.sid stream) (addr >>> cfg.page_shift)).2
      match walkOf cfg regs mem stream addr with
      | .error f =>
        ⟨⟨addr, 0, cfg.page_bits, .none⟩, { regs with
          error_address := addr
          error_status := reported regs.error_status (twoPow 32 f.bit) stream }, true,
          accesses⟩
      | .ok pte =>
        let regs := if writeFault flag pte then protError regs stream addr else regs
        ⟨⟨addr, cfg.frame pte ||| (addr &&& cfg.page_bits), cfg.page_bits,
          .accessFlag (!pte.getLsbD 8) (!pte.getLsbD 7)⟩,
          if readFault flag pte then protError regs stream addr else regs,
          writeFault flag pte || readFault flag pte, accesses⟩ := by
  have hsid : (regs.sidRemap stream).toNat = regs.sid stream := rfl
  have hon : ¬ (extract (regs.sidConfig (regs.sid stream)) 7 1 = 0 ∨
      extract (regs.sidConfig (regs.sid stream)) 8 1 ≠ 0) := by
    rw [ne_eq, extract_one_eq_zero_iff _ _ (by norm_num), extract_one_eq_zero_iff _ _ (by norm_num),
      ht.1, ht.2]
    decide
  have hbit : ∀ (pte : BitVec 64) (i : ℕ), decide (extract pte i 1 = 0) = !pte.getLsbD i := by
    intro pte i
    rw [Bool.eq_iff_iff, decide_eq_true_iff, extract_one_eq_zero_iff pte i (by norm_num),
      Bool.not_eq_true']
  unfold translate
  rw [if_neg hb]
  dsimp only
  rw [hsid, if_neg hon, ptw_eq, walkOf]
  cases pageWalk cfg regs mem (regs.sid stream) (addr >>> cfg.page_shift) with
  | error f =>
    dsimp only
    rw [walkError_eq, ← BitVec.or_assoc]
    rfl
  | ok pte =>
    dsimp only
    rw [hbit, hbit]
    rw [IOMMUAccessFlags.hasWO_accessFlag, IOMMUAccessFlags.hasRO_accessFlag, Bool.not_not,
      Bool.not_not]
    rfl

/-- A translation that finds `BUSY` set or a bypass returns an empty entry and latches nothing. -/
theorem translate_of_not (h : ¬ (¬ regs.busy ∧ regs.Translates stream)) :
    ∃ accesses, translate cfg regs mem stream addr flag =
      ⟨⟨addr, 0, cfg.page_bits, .none⟩, regs, false, accesses⟩ := by
  unfold translate
  by_cases hb : regs.busy
  · rw [if_pos hb]
    exact ⟨_, rfl⟩
  · have hoff : extract (regs.sidConfig (regs.sidRemap stream).toNat) 7 1 = 0 ∨
        extract (regs.sidConfig (regs.sidRemap stream).toNat) 8 1 ≠ 0 := by
      rw [ne_eq, extract_one_eq_zero_iff _ _ (by norm_num),
        extract_one_eq_zero_iff _ _ (by norm_num), Bool.not_eq_false]
      by_contra hon
      rw [not_or, Bool.not_eq_false, Bool.not_eq_true] at hon
      exact h ⟨hb, hon⟩
    rw [if_neg hb, if_pos hoff]
    exact ⟨_, rfl⟩

/-- What a translation latches after a walk that reaches an entry: `WRITE_PROT`, whichever of the
two checks fails. -/
theorem error_status_of_ok (hb : ¬ regs.busy) (ht : regs.Translates stream) {pte : BitVec 64}
    (hw : walkOf cfg regs mem stream addr = .ok pte) :
    (translate cfg regs mem stream addr flag).regs.error_status =
      if writeFault flag pte || readFault flag pte then
        reported regs.error_status (twoPow 32 3) stream
      else regs.error_status := by
  rw [translate_eq cfg regs mem stream addr flag hb ht, hw]
  dsimp only
  -- No check fails, one of them does, or both do; the second report then repeats the first.
  cases writeFault flag pte <;> cases readFault flag pte
  · rfl
  · exact protError_status regs stream addr
  · exact protError_status regs stream addr
  · show (protError (protError regs stream addr) stream addr).error_status = _
    rw [protError_status, protError_status]
    exact reported_reported _ _ _

/-- Two reports of faults are the same exactly when they differ in latched bits only. -/
theorem reported_eq_iff {status a b : BitVec 32} (ha : ∀ i, 5 ≤ i → a.getLsbD i = false)
    (hb : ∀ i, 5 ≤ i → b.getLsbD i = false) :
    reported status a stream = reported status b stream ↔
      ∀ i < 5, a.getLsbD i ≠ b.getLsbD i → status.getLsbD i = true := by
  constructor
  · intro h i hi hne
    have hbit := congrArg (fun v : BitVec 32 => v.getLsbD i) h
    simp only [getLsbD_reported _ _ _ _ (by omega : i < 32)] at hbit
    rw [if_neg (by omega), if_neg (by omega)] at hbit
    have hflag : decide (i = 31) = false := decide_eq_false (by omega)
    rw [hflag] at hbit
    revert hbit hne
    cases status.getLsbD i <;> cases a.getLsbD i <;> cases b.getLsbD i <;> decide
  · intro h
    apply BitVec.eq_of_getLsbD_eq
    intro i hi
    rw [getLsbD_reported _ _ _ _ hi, getLsbD_reported _ _ _ _ hi]
    split_ifs
    · rfl
    · by_cases hlow : i < 5
      · by_cases hab : a.getLsbD i = b.getLsbD i
        · rw [hab]
        · rw [h i hlow hab]
          rfl
      · rw [ha i (by omega), hb i (by omega)]

/-- `WRITE_PROT` stands for the report of a forbidden read exactly when the status has `READ_PROT`
already, and `WRITE_PROT` too or a forbidden write to report it for. -/
theorem reported_writeProt_iff (status : BitVec 32) (wf : Bool) :
    reported status (twoPow 32 3) stream =
        reported status ((if wf then twoPow 32 3 else 0) ||| twoPow 32 4) stream ↔
      status.getLsbD 4 = true ∧ (status.getLsbD 3 = true ∨ wf = true) := by
  rw [reported_eq_iff stream (fun i hi => by simp; omega)
    (fun i hi => by cases wf <;> simp <;> omega)]
  simp only [Nat.forall_lt_succ_right]
  cases wf <;> simp [and_comm]

/-- The two names of a fault of an entry are told apart unless both are latched. -/
theorem reported_stage_iff (status : BitVec 32) :
    reported status (twoPow 32 1) stream = reported status (twoPow 32 2) stream ↔
      status.getLsbD 1 = true ∧ status.getLsbD 2 = true := by
  rw [reported_eq_iff stream (fun i hi => by simp; omega) (fun i hi => by simp; omega)]
  simp only [Nat.forall_lt_succ_right]
  simp

section

variable (hb : ¬ regs.busy) (ht : regs.Translates stream) {pte : BitVec 64}

include hb ht

variable {cfg regs mem stream addr flag}

/-- A walk that fails is reported as it should be exactly when the bit of the code and that of the
stage cannot be told apart. -/
theorem faultReport_iff_of_error {f stage : WalkFault}
    (hw : walkOf cfg regs mem stream addr = .error f)
    (hs : stagesOf cfg regs mem stream addr = .error stage) :
    FaultReport cfg regs mem stream addr flag ↔
      reported regs.error_status (twoPow 32 f.bit) stream =
        reported regs.error_status (twoPow 32 stage.bit) stream := by
  have hne : faultBits flag (.error stage) ≠ 0 := by
    show twoPow 32 stage.bit ≠ 0
    cases stage <;> decide
  unfold FaultReport
  rw [hs, if_neg hne, translate_eq cfg regs mem stream addr flag hb ht, hw]
  rfl

section

variable (hw : walkOf cfg regs mem stream addr = .ok pte)
  (hs : stagesOf cfg regs mem stream addr = .ok pte)

include hw hs

/-- Without a forbidden read, a forbidden write is reported with its own bit, and nothing else
is. -/
theorem faultReport_of_not_readFault (hr : readFault flag pte = false) :
    FaultReport cfg regs mem stream addr flag := by
  have hstatus := error_status_of_ok cfg regs mem stream addr flag hb ht hw
  unfold FaultReport
  rw [hs]
  cases hwf : writeFault flag pte with
  | true =>
    have hbits : faultBits flag (.ok pte) = twoPow 32 3 := by
      rw [faultBits, hr, hwf]
      decide
    have hne : faultBits flag (.ok pte) ≠ 0 := by
      rw [hbits]
      decide
    rw [if_neg hne, hstatus, hwf, hbits]
    rfl
  | false =>
    have hbits : faultBits flag (.ok pte) = 0 := by
      rw [faultBits, hr, hwf]
      decide
    rw [if_pos hbits, translate_eq cfg regs mem stream addr flag hb ht, hw]
    dsimp only
    rw [hr, hwf]
    exact ⟨rfl, rfl, pte, rfl, rfl, rfl⟩

/-- A forbidden read, alone or with a forbidden write, is reported as it should be exactly when its
report cannot be told from what the status shows anyway. -/
theorem faultReport_iff_of_readFault (hr : readFault flag pte = true) :
    FaultReport cfg regs mem stream addr flag ↔ regs.error_status.getLsbD 4 = true ∧
        (regs.error_status.getLsbD 3 = true ∨ writeFault flag pte = true) := by
  have hstatus := error_status_of_ok cfg regs mem stream addr flag hb ht hw
  have hbits : faultBits flag (.ok pte) =
      (if writeFault flag pte then twoPow 32 3 else 0) ||| twoPow 32 4 := by
    rw [faultBits, hr, if_pos rfl]
  have hne : faultBits flag (.ok pte) ≠ 0 := by
    rw [hbits]
    cases writeFault flag pte <;> decide
  unfold FaultReport
  rw [hs, if_neg hne, hstatus, hr, Bool.or_true, if_pos rfl, hbits, reported_writeProt_iff]

end

variable (cfg regs mem stream addr flag)

/-- A translation reports and returns what it should exactly when neither a fault of an entry that
the code names after the other stage nor a forbidden read can be told from what the status shows
anyway. -/
theorem faultReport_iff : FaultReport cfg regs mem stream addr flag ↔
      (Misnamed cfg regs mem (regs.sid stream) (addr >>> cfg.page_shift) →
        regs.error_status.getLsbD 1 = true ∧ regs.error_status.getLsbD 2 = true) ∧
      ∀ pte, stagesOf cfg regs mem stream addr = .ok pte → readFault flag pte = true →
        regs.error_status.getLsbD 4 = true ∧
          (regs.error_status.getLsbD 3 = true ∨ writeFault flag pte = true) := by
  by_cases hmis : Misnamed cfg regs mem (regs.sid stream) (addr >>> cfg.page_shift)
  · have hok : ∀ {f}, stagesOf cfg regs mem stream addr = .error f → ∀ pte,
        stagesOf cfg regs mem stream addr = .ok pte → False := by
      intro f hf pte hpte
      rw [hf] at hpte
      cases hpte
    rw [← reported_stage_iff stream]
    rcases walks_of_misnamed cfg regs mem hmis with ⟨hw, hs⟩ | ⟨hw, hs⟩
    · rw [faultReport_iff_of_error hb ht hw hs]
      exact ⟨fun h => ⟨fun _ => h.symm, fun pte hpte => (hok hs pte hpte).elim⟩,
        fun h => (h.1 hmis).symm⟩
    · rw [faultReport_iff_of_error hb ht hw hs]
      exact ⟨fun h => ⟨fun _ => h, fun pte hpte => (hok hs pte hpte).elim⟩, fun h => h.1 hmis⟩
  · have hstages : stagesOf cfg regs mem stream addr = walkOf cfg regs mem stream addr :=
      stageWalk_of_not_misnamed cfg regs mem hmis
    rw [and_iff_right fun h => absurd h hmis]
    cases hw : walkOf cfg regs mem stream addr with
    | error f =>
      have hs := hstages.trans hw
      rw [faultReport_iff_of_error hb ht hw hs, hs]
      exact ⟨fun _ pte hpte => (by cases hpte), fun _ => rfl⟩
    | ok pte =>
      have hs := hstages.trans hw
      rw [hs]
      cases hr : readFault flag pte with
      | false =>
        have hreport := faultReport_of_not_readFault hb ht hw hs hr
        refine ⟨fun _ pte' hpte hr' => ?_, fun _ => hreport⟩
        cases hpte
        rw [hr] at hr'
        cases hr'
      | true =>
        rw [faultReport_iff_of_readFault hb ht hw hs hr]
        refine ⟨fun h pte' hpte _ => ?_, fun h => h pte rfl hr⟩
        cases hpte
        exact h

end

end

/-- Registers after a reset, with translation enabled for stream 0. -/
def enabledRegs : Regs := (Regs.blank.reset sampleConfig).setWord Regs.sidConfigBase 0x80

/-- Without a table, the walk fails and the failure is reported as it should be. -/
theorem faultReport_enabledRegs : ¬ enabledRegs.busy ∧ enabledRegs.Translates 0 ∧
      FaultReport sampleConfig enabledRegs (fun _ => none) 0 0 .ro := by
  have hb : ¬ enabledRegs.busy := by decide
  have ht : enabledRegs.Translates 0 := ⟨by decide, by decide⟩
  have hs : stagesOf sampleConfig enabledRegs (fun _ => none) 0 0 = .error .ttbrInvld := by decide
  refine ⟨hb, ht, (faultReport_iff sampleConfig enabledRegs _ 0 0 .ro hb ht).mpr ⟨?_, ?_⟩⟩
  · rintro ⟨table, l2e, -, hl2e, -⟩
    cases hl2e
  · intro pte hpte
    rw [hs] at hpte
    cases hpte

/-- The same with a valid table for stream 0. -/
def mappedRegs : Regs := enabledRegs.setWord Regs.ttbrBase 0x80000000

/-- A read of a page whose entry forbids reads is latched as `WRITE_PROT`, not as `READ_PROT`, and
an entry of the first level that is not valid as `PTE_INVLD`, not as `L2E_INVLD`. -/
theorem not_faultReport_noRead :
    (¬ FaultReport sampleConfig mappedRegs (fun _ => some 0x101) 0 0 .ro ∧
      (translate sampleConfig mappedRegs (fun _ => some 0x101) 0 0 .ro).regs.error_status =
        0x80000008) ∧
      ¬ FaultReport sampleConfig mappedRegs (fun _ => some 0) 0 0 .ro ∧
      (translate sampleConfig mappedRegs (fun _ => some 0) 0 0 .ro).regs.error_status =
        0x80000004 := by
  unfold FaultReport
  decide

/-! ## Which entries an address consults -/

section

variable (cfg : Config) (regs : Regs) (mem : Memory) (sid : ℕ) (a b : BitVec 38)

variable (addr : BitVec 38)

/-- The page number of an address of the region. -/
def pageOf : BitVec 64 := addr.setWidth 64 >>> cfg.page_shift

/-- The places of the entries for an address, in `ttbr` and in the tables of the two levels. -/
def places : List (BitVec 64) := [0, 1, 2].map (cfg.index (pageOf cfg addr))

/-- The walk for an address fails. -/
def Fails : Prop :=
  ∃ status, (ptw cfg regs mem sid (pageOf cfg addr)).1 = .error status

/-- Two addresses of different pages are told apart, by the entries consulted or by a fault. -/
def ToldApart : Prop :=
  pageOf cfg a ≠ pageOf cfg b →
    places cfg a ≠ places cfg b ∨ Fails cfg regs mem sid a ∨ Fails cfg regs mem sid b

theorem toNat_pageOf : (pageOf cfg a).toNat = a.toNat / 2 ^ cfg.page_shift := by
  rw [pageOf, BitVec.toNat_ushiftRight, Nat.shiftRight_eq_div_pow, BitVec.toNat_setWidth,
    Nat.mod_eq_of_lt (by omega)]

theorem toNat_field (v mask : BitVec 64) (shift width : ℕ)
    (hmask : (mask >>> shift).toNat = 2 ^ width - 1) :
    ((v &&& mask) >>> shift).toNat = v.toNat / 2 ^ shift % 2 ^ width := by
  rw [BitVec.ushiftRight_and_distrib, BitVec.toNat_and, hmask, Nat.and_two_pow_sub_one_eq_mod,
    BitVec.toNat_ushiftRight, Nat.shiftRight_eq_div_pow]

/-- The tables of 16 KiB pages are indexed by all bits of a page number, those of 4 KiB pages by
20 of the 26 bits. -/
theorem places_eq_iff : places cfg a = places cfg b ↔
    if cfg.page_shift = 14 then pageOf cfg a = pageOf cfg b
    else a.toNat / 2 ^ 12 % 2 ^ 20 = b.toNat / 2 ^ 12 % 2 ^ 20 := by
  have hshift : cfg.page_shift = 12 ∨ cfg.page_shift = 14 := cfg.page_shift_eq
  simp only [places, Config.index, Config.l_mask, Config.l_shift, List.map_cons, List.map_nil,
    List.cons.injEq, and_true, ← BitVec.toNat_inj]
  rcases hshift with h | h
  · simp only [h, toNat_pageOf, ↓reduceIte, Nat.reduceEqDiff, List.getD_cons_zero,
      List.getD_cons_succ, toNat_field _ 0xC0000 18 2 (by decide),
      toNat_field _ 0x3FE00 9 9 (by decide), toNat_field _ 0x1FF 0 9 (by decide)]
    omega
  · simp only [h, toNat_pageOf, ↓reduceIte, Nat.reduceEqDiff, List.getD_cons_zero,
      List.getD_cons_succ, toNat_field _ 0xC00000 22 2 (by decide),
      toNat_field _ 0x3FF800 11 11 (by decide), toNat_field _ 0x7FF 0 11 (by decide)]
    omega

/-- With 16 KiB pages all addresses are told apart. With 4 KiB pages an address shares its walk with
those that differ from it in the bits from 32 on only, and is told from them if nothing is mapped
there. -/
theorem toldApart_iff : ToldApart cfg regs mem sid a b ↔ cfg.page_shift = 14 ∨
    (a.toNat / 2 ^ 12 % 2 ^ 20 = b.toNat / 2 ^ 12 % 2 ^ 20 →
      pageOf cfg a = pageOf cfg b ∨ Fails cfg regs mem sid a) := by
  have hplaces := places_eq_iff cfg a b
  -- The walk reads nothing of an address but the places.
  have hcongr : places cfg a = places cfg b →
      (Fails cfg regs mem sid b ↔ Fails cfg regs mem sid a) := by
    intro h
    simp only [places, Config.index, List.map_cons, List.cons.injEq] at h
    obtain ⟨h0, h1, h2⟩ := h
    simp [Fails, ptw, ptwLoop, h0, h1, h2]
  unfold ToldApart
  split at hplaces <;> tauto

end

/-- With 4 KiB pages, an address and the one 4 GiB above it share their entries, and both are
mapped. -/
theorem not_toldApart :
    ¬ ToldApart ⟨0x1000, 1, 0, .inl (by decide)⟩ mappedRegs (fun _ => some 1) 0 0 0x100000000 := by
  intro h
  rcases h (by decide) with h | ⟨s, h⟩ | ⟨s, h⟩
  · exact h (by decide)
  all_goals
    have hok : (Except.ok 1 : Except (BitVec 32) (BitVec 64)) = .error s := h
    cases hok

end Inferno.Dart
