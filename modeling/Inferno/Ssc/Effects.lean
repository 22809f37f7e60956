import Inferno.Ssc.Encoding

/-!
# What a command can do

`Effect` lists what a request can do to the keys and the backing store, together with the flag of
its response. Every command has one of these effects, and stays inside the arrays and the buffers,
unless it connects a slot whose number is out of range with a point of the curve (`answer_exactly`):
the test that the slot is not in use also passes for a number that no slot has. A response says that
an authentication has failed exactly if the code or the tag of the request is not the one that the
keys before it give (`Unauthentic`).
-/

namespace Inferno.Ssc

open Common List Option Nat Function

variable {R : Type} {s : SscKeys R} {request : Packet}

/-! ## Buffers -/

variable (p : Packet) {k : ℕ} {ws : List Store} {i : Slot} {payloadLen : ℕ}

theorem Packet.exactly_get (h : k < 0x100) :
    Exactly p.bytes[k]? True fun b => p.bytes[k]? = some b := by
  have hget : p.bytes[k]? = some (p.bytes.get ⟨k, p.length_bytes ▸ h⟩) :=
    getElem?_eq_getElem _
  rw [hget]
  exact exactly_some trivial rfl

theorem Packet.exactly_fetch {off n : ℕ} (h : off + n ≤ 0x100) :
    Exactly (fetch p.bytes off n) True fun bytes => bytes = (p.bytes.drop off).take n := by
  have hfetch : fetch p.bytes off n = some ((p.bytes.drop off).take n) :=
    if_pos (p.length_bytes ▸ h)
  rw [hfetch]
  exact exactly_some trivial rfl

theorem Packet.exactly_store (h : ∀ w ∈ ws, w.stop ≤ 0x100) :
    Exactly (p.store ws) True fun p' => ∀ k, (∀ w ∈ ws, k < w.off ∨ w.stop ≤ k) →
      p'.bytes[k]? = p.bytes[k]? := by
  obtain ⟨bytes, hput, hlen⟩ := (exactly_putAll p.bytes ws).exists_some
    (fun w hw => p.length_bytes ▸ h w hw)
  have hstore : p.store ws = some ⟨bytes, hlen.trans p.length_bytes⟩ := by
    rw [Packet.store, pmap_eq_some_iff]
    exact ⟨bytes, _, hput, rfl⟩
  rw [hstore]
  exact exactly_some trivial fun k hk => getElem?_putAll hput hk

section

variable (s : SscKeys R) (request response : Packet) {flags : UInt8}

theorem Packet.exactly_store_behind (h : ∀ w ∈ ws, 4 ≤ w.off ∧ w.stop ≤ 0x100)
    (hflag : p.bytes[3]? = some flags) :
    Exactly (p.store ws) True fun p' => p'.bytes[3]? = some flags := by
  refine (p.exactly_store fun w hw => (h w hw).2).imp Iff.rfl fun _ p' hkeep => ?_
  rw [← hflag]
  refine hkeep 3 fun w hw => .inl ?_
  have := (h w hw).1
  omega

theorem Packet.exactly_store_last {b : UInt8} (h : ∀ w ∈ ws, w.stop ≤ 0x100) (hk : k < 0x100) :
    Exactly (p.store (ws ++ [⟨k, [b]⟩])) True fun p' => p'.bytes[k]? = some b := by
  have hall : ∀ w ∈ ws ++ [⟨k, [b]⟩], w.stop ≤ 0x100 := by
    intro w hw
    rcases mem_append.mp hw with hw | hw
    · exact h w hw
    · rw [mem_singleton.mp hw]
      exact hk
  obtain ⟨p', hstore, -⟩ := (p.exactly_store hall).exists_some trivial
  have hlast : p'.bytes[k]? = some b := by
    obtain ⟨bytes, _, hput, rfl⟩ := pmap_eq_some_iff.mp hstore
    exact getElem?_putAll_last hput
  rw [hstore]
  exact exactly_some trivial hlast

theorem doResponsePrefix_exactly {flags : UInt8} :
    Exactly (doResponsePrefix request response flags) True fun r => r.bytes[3]? = some flags := by
  refine (request.exactly_get (by decide)).true_bind fun cmd _ => ?_
  refine (request.exactly_get (by decide)).true_bind fun slot _ => ?_
  have hinside : ∀ w ∈ ([⟨0, replicate 0xC4 0⟩, ⟨0, [cmd]⟩] : List Store) ++
      (if cmd ≤ 6 then [⟨1, [slot]⟩] else []) ++ [⟨2, [0]⟩], w.stop ≤ 0x100 := by
    split_ifs
    all_goals
      simp only [cons_append, nil_append, forall_mem_cons, Store.stop_mk,
        length_replicate]
      simp
  have hstore := response.exactly_store_last (b := flags) hinside (by decide : 3 < 0x100)
  rwa [append_assoc _ [_] [_]] at hstore

theorem respond_exactly {flags : UInt8} : Exactly (respond s request response flags) True fun r =>
      r.1 = s ∧ r.2.bytes[3]? = some flags :=
  (doResponsePrefix_exactly request response).bind_true fun _ hflag =>
    exactly_some trivial ⟨rfl, hflag⟩

theorem outputEcPub_inside (P : EccPoint) (off : ℕ) (hlo : 4 ≤ off) (hhi : off + 96 ≤ 0x100) :
    ∀ w ∈ outputEcPub P off, 4 ≤ w.off ∧ w.stop ≤ 0x100 := by
  have hx : byteCount P.x ≤ 48 := byteCount_le_iff.mpr P.x_lt
  have hy : byteCount P.y ≤ 48 := byteCount_le_iff.mpr P.y_lt
  intro w hw
  rcases mem_pair.mp hw with rfl | rfl
  · refine ⟨hlo, ?_⟩
    rw [Store.stop_mk, length_minBytes]
    omega
  · refine ⟨hlo.trans (le_add_right off 48), ?_⟩
    rw [Store.stop_mk, length_minBytes]
    omega

/-! ## Effects -/

/-- The number of the slot that the second byte of a request names. -/
def slotOf (request : Packet) : ℕ := (request.bytes.getD 1 0).toNat

/-- What a request can do to the keys and the backing store, with the flag of its response. -/
inductive Effect (s : SscKeys R) (request : Packet) : SscKeys R → UInt8 → Prop
  /-- The request is refused before anything is done. -/
  | refused (flags : UInt8) (hok : flags ≠ flagOk) (hcmac : flags ≠ flagCmacInvalid) :
    Effect s request s flags
  | exchanged (i : Slot) (eccKey : EccScalar) (hmacKey kbkdf : List UInt8) (rctx : R) :
    Effect s request { s with
      eccKeys := update s.eccKeys i eccKey
      rctx := rctx
      randomHmacKey := hmacKey
      kbkdfKeys := update s.kbkdfKeys i kbkdf
      kbkdfCounter := update s.kbkdfCounter i 0
      log := s.log ++ [.keys i] } flagOk
  /-- A request to connect has a wrong authentication code; the key has been replaced by then. -/
  | unconfirmed (i : Slot) (hcmd : request.bytes[0]? = some 1) (hslot : slotOf request = i) :
    Effect s request { s with
      eccKeys := update s.eccKeys i (.set (connectPriv + 1)) } flagCmacInvalid
  | disconnected (i : Slot) : Effect s request { s with
      eccKeys := update s.eccKeys i .zero
      kbkdfKeys := update s.kbkdfKeys i (replicate 0x48 0)
      kbkdfCounter := update s.kbkdfCounter i 0
      log := s.log ++ [.clear i] } flagOk
  /-- An authenticated request has a wrong tag; the counter has been advanced by then. -/
  | rejected (i : Slot) (hcmd : request.bytes[0]? ≠ some 1) : Effect s request { s with
      kbkdfCounter := update s.kbkdfCounter i (s.kbkdfCounter i + 1)
      log := s.log ++ [.verify i (s.kbkdfCounter i)] } flagCmacInvalid
  /-- An authenticated request is performed and its response encrypted. -/
  | accepted (i : Slot) (slotHmacKey : Slot → List UInt8) (blk key seed : List UInt8) :
    Effect s request { s with
      slotHmacKey := slotHmacKey
      kbkdfCounter := update s.kbkdfCounter i (s.kbkdfCounter i + 1)
      blk := blk
      log := s.log ++ [.verify i (s.kbkdfCounter i),
        .respond i key (nonceOf seed (s.kbkdfCounter i + 1))] } flagOk
  /-- Nothing is done to the slots. -/
  | other (eccKeyMain : EccScalar) (cpsn : List UInt8) :
    Effect s request { s with eccKeyMain := eccKeyMain, cpsn := cpsn } flagOk

/-- The outcome of a request has one of the effects, with the flag of its response, which is the one
for a failed authentication exactly if `fails` holds. -/
def Answers (request : Packet) (fails : Prop) (r : SscKeys R × Packet) : Prop :=
  ∃ flags, r.2.bytes[3]? = some flags ∧ Effect s request r.1 flags ∧
    (flags = flagCmacInvalid ↔ fails)

end

section

variable {s s' : SscKeys R} {request response : Packet} {flags : UInt8} {fails : Prop}

/-- A response without a body, once the effect is there. -/
theorem respond_answers (heffect : Effect s request s' flags)
    (hfails : flags = flagCmacInvalid ↔ fails) :
    Exactly (respond s' request response flags) True (Answers s request fails) :=
  (respond_exactly s' request response).imp Iff.rfl fun _ _ hr =>
    ⟨flags, hr.2, hr.1 ▸ heffect, hfails⟩

theorem refuse_exactly (hok : flags ≠ flagOk) (hcmac : flags ≠ flagCmacInvalid)
    (hfails : ¬ fails) : Exactly (respond s request response flags) True
      (Answers s request fails) :=
  respond_answers (.refused flags hok hcmac) (iff_of_false hcmac hfails)

theorem answers_of_ok (hflag : response.bytes[3]? = some flagOk)
    (heffect : Effect s request s' flagOk) (hfails : ¬ fails) :
    Answers s request fails (s', response) :=
  ⟨flagOk, hflag, heffect, iff_of_false (by decide) hfails⟩

end

/-! ## Authentication -/

section

variable (N : Nettle R) (s : SscKeys R) (request : Packet)

/-- The bytes of the point in a request to connect. -/
def swPublicOf : List UInt8 := (request.bytes.drop 20).take 96

/-- The authentication code that a request to connect slot `i` must have. -/
def cmacOf (i : Slot) : List UInt8 :=
  N.cmacAes256 (kbkdfGenerateKey N (s.slotHmacKey i) infostrAkeMackey (request.bytes.take 4) 0x20)
    (request.bytes.take 4 ++ swPublicOf request)

/-- A request to connect an unused slot with a point of the curve has another authentication code
than it must have. -/
def WrongCmac : Prop :=
  ∃ i : Slot, slotOf request = i ∧ ¬ isKeyslotValid s i ∧ inputEcPub N (swPublicOf request) ≠ none ∧
    (request.bytes.drop 4).take 16 ≠ cmacOf N s request i

/-- Whether the tag of a request with `payloadLen` bytes behind it is right for the key and the
counter of slot `i`. -/
def tagOf (payloadLen : ℕ) (i : Slot) : Bool :=
  (N.ccmDecrypt (((s.kbkdfKeys i).drop 8).take 32) (nonceOf (s.kbkdfKeys i) (s.kbkdfCounter i))
    (request.bytes.take 4 ++ counterBe (s.kbkdfCounter i))
    ((request.bytes.drop 20).take payloadLen ++ (request.bytes.drop 4).take 16)).1

/-- The tag of a request is wrong for its slot, which is in use. -/
def WrongTag (payloadLen : ℕ) : Prop :=
  ∃ i : Slot, slotOf request = i ∧ isKeyslotValid s i ∧ tagOf N s request payloadLen i = false

/-- Byte `k` of a request, as a number. -/
def fieldOf (k : ℕ) : ℕ := (request.bytes.getD k 0).toNat

/-- A request of a command fails its authentication: its other fields are accepted, but its code or
its tag is wrong. Commands 3 and 6 name a data slot and a copy, and commands 4 and 5 a copy of the
slot itself. -/
def Fails : ℕ → Prop
  | 1 => WrongCmac N s request
  | 3 => fieldOf request 3 < 1 ∧ fieldOf request 2 ∈ Set.Ico 1 0x49 ∧ WrongTag N s request 0x20
  | 4 => fieldOf request 3 < 4 ∧ slotOf request ≠ 0 ∧ WrongTag N s request 0
  | 5 => fieldOf request 3 < 4 ∧ slotOf request ≠ 0 ∧ WrongTag N s request 0x40
  | 6 => fieldOf request 3 < 4 ∧ fieldOf request 2 ∈ Set.Ico 1 0x49 ∧ WrongTag N s request 0
  | _ => False

/-- A request of `reqCur` bytes has the size of its command, and fails the authentication. -/
def Unauthentic (reqCur : ℕ) : Prop :=
  ∃ cmd, request.bytes[0]? = some cmd ∧ reqCur = sscRequestSizes.getD cmd.toNat 0 ∧
    Fails N s request cmd.toNat

end

/-! ## Key exchanges -/

theorem fieldOf_eq {b : UInt8} (h : request.bytes[k]? = some b) :
    fieldOf request k = b.toNat := by
  rw [fieldOf, getD_eq_getElem?_getD, h, getD_some]

theorem slotOf_eq {slot : UInt8} (h : request.bytes[1]? = some slot) :
    slotOf request = slot.toNat :=
  fieldOf_eq h

theorem keySlot_eq (h : k < 0x49) : keySlot k = some ⟨k, h⟩ := dif_pos h

theorem lt_of_isKeyslotValid (h : isKeyslotValid s k) : k < 0x49 := by
  by_contra hge
  rw [isKeyslotValid, dif_neg hge] at h
  exact absurd h (by decide)

variable (N : Nettle R)

section

variable (s : SscKeys R) {request response : Packet} {peer pub : EccPoint}

theorem generateKbkdfKeys_eq (eccKey : ℕ) (peer : EccPoint) (hmacKey label context : List UInt8)
    (hslot : keySlot k = some i) :
    ∃ kbkdf, generateKbkdfKeys N s eccKey peer hmacKey label context k = some { s with
      kbkdfKeys := update s.kbkdfKeys i kbkdf
      kbkdfCounter := update s.kbkdfCounter i 0
      log := s.log ++ [.keys i] } := by
  rw [generateKbkdfKeys, sharedKey_eq, hslot]
  exact ⟨_, rfl⟩

theorem generateEcPriv_eq {priv : ℕ} (h : priv + 1 < curveOrder) :
    generateEcPriv N priv = (.set (priv + 1), some (N.eccPointMulG (priv + 1))) :=
  if_pos ((N.scalarSet_iff _).mpr ⟨Nat.succ_pos _, h⟩)

theorem signature_inside {v w : ℕ} (hv : v < curveOrder) (hw : w < curveOrder) :
    ∀ st ∈ ([⟨4, minBytes v⟩, ⟨4 + 48, minBytes w⟩] : List Store),
      4 ≤ st.off ∧ st.stop ≤ 0x100 := by
  have hcount : ∀ n < curveOrder, byteCount n ≤ 48 := by
    intro n hn
    exact byteCount_le_iff.mpr (hn.trans (by decide))
  have hfirst := hcount v hv
  have hsecond := hcount w hw
  intro st hst
  rcases mem_pair.mp hst with rfl | rfl
  · refine ⟨le_refl 4, ?_⟩
    rw [Store.stop_mk, length_minBytes]
    omega
  · refine ⟨le_add_right 4 48, ?_⟩
    rw [Store.stop_mk, length_minBytes]
    omega

theorem single_inside {bytes : List UInt8} (h : bytes.length ≤ 0xFC) :
    ∀ w ∈ ([⟨4, bytes⟩] : List Store), 4 ≤ w.off ∧ w.stop ≤ 0x100 := by
  intro w hw
  rw [mem_singleton.mp hw, Store.stop_mk]
  exact ⟨le_refl 4, by omega⟩

theorem init1Session_exactly : Exactly (init1Session N s request response peer pub) True fun r =>
      r.2.bytes[3]? = some flagOk ∧ ∃ hmacKey kbkdf rctx, r.1 = { s with
        rctx := rctx
        randomHmacKey := hmacKey
        kbkdfKeys := update s.kbkdfKeys 0 kbkdf
        kbkdfCounter := update s.kbkdfCounter 0 0
        log := s.log ++ [.keys 0] } := by
  refine (doResponsePrefix_exactly request response).true_bind fun response hflag => ?_
  refine (response.exactly_store_behind
    (outputEcPub_inside pub _ (by decide) (by decide)) hflag).true_bind fun response hflag => ?_
  refine (request.exactly_fetch (by decide)).true_bind fun context _ => ?_
  refine (request.exactly_fetch (by decide)).true_bind fun hmacKey _ => ?_
  refine (request.exactly_fetch (by decide)).true_bind fun swPublic _ => ?_
  obtain ⟨kbkdf, hkeys⟩ := generateKbkdfKeys_eq N { s with randomHmacKey := hmacKey }
    (init1Priv + 1) peer hmacKey infostrAkeSessionseed context (keySlot_eq (k := 0) (by decide))
  dsimp only
  rw [hkeys]
  refine (response.exactly_fetch (by decide)).true_bind fun hdr _ => ?_
  refine (response.exactly_fetch (by decide)).true_bind fun public1 _ => ?_
  obtain ⟨hr, hsig⟩ :=
    N.sign_lt s.eccKeyMain s.rctx (N.sha384 (hdr ++ swPublic ++ public1 ++ hmacKey))
  refine (response.exactly_store_behind (signature_inside hr hsig) hflag).true_bind
    fun response hflag => ?_
  exact exactly_some trivial ⟨hflag, hmacKey, kbkdf, _, rfl⟩

theorem answerCmd0x0Init1_exactly :
    Exactly (answerCmd0x0Init1 N s request response) True (Answers s request False) := by
  unfold answerCmd0x0Init1
  split_ifs with hvalid
  · exact refuse_exactly (by decide) (by decide) id
  · refine (request.exactly_fetch (by decide)).true_bind fun swPublic _ => ?_
    cases inputEcPub N swPublic with
    | none => exact refuse_exactly (by decide) (by decide) id
    | some peer =>
      rw [generateEcPriv_eq N (by decide)]
      refine (init1Session_exactly N _).imp Iff.rfl fun _ r hr => ?_
      obtain ⟨hflag, hmacKey, kbkdf, rctx, hkeys⟩ := hr
      obtain ⟨s', response'⟩ := r
      obtain rfl := hkeys
      exact answers_of_ok hflag (.exchanged _ _ _ _ _) id

/-- Command 1 starts a session of a slot once the request is accepted. -/
theorem connectSession_exactly (mackey extractorkey : List UInt8) (hslot : keySlot k = some i) :
    Exactly (connectSession N s request response peer pub mackey extractorkey k) True fun r =>
      r.2.bytes[3]? = some flagOk ∧ ∃ kbkdf, r.1 = { s with
        kbkdfKeys := update s.kbkdfKeys i kbkdf
        kbkdfCounter := update s.kbkdfCounter i 0
        log := s.log ++ [.keys i] } := by
  refine (doResponsePrefix_exactly request response).true_bind fun response hflag => ?_
  refine (response.exactly_store_behind
    (outputEcPub_inside pub _ (by decide) (by decide)) hflag).true_bind fun response hflag => ?_
  refine (request.exactly_fetch (by decide)).true_bind fun context _ => ?_
  refine (request.exactly_fetch (by decide)).true_bind fun swPublic _ => ?_
  obtain ⟨kbkdf, hkeys⟩ := generateKbkdfKeys_eq N s (connectPriv + 1) peer extractorkey
    infostrAkeSessionseed context hslot
  rw [hkeys]
  refine (response.exactly_fetch (by decide)).true_bind fun hdr _ => ?_
  refine (response.exactly_fetch (by decide)).true_bind fun public2 _ => ?_
  have hcmac := N.length_cmac mackey (hdr ++ swPublic ++ public2)
  refine (response.exactly_store_behind (single_inside (by omega)) hflag).true_bind
    fun response hflag => ?_
  exact exactly_some trivial ⟨hflag, kbkdf, rfl⟩

theorem aesKeysFromSpKey_eq (context : List UInt8) (hslot : keySlot k = some i) :
    ∃ extractorkey, aesKeysFromSpKey N s k context =
      some (kbkdfGenerateKey N (s.slotHmacKey i) infostrAkeMackey context 0x20, extractorkey) := by
  rw [aesKeysFromSpKey, hslot]
  exact ⟨_, rfl⟩

/-- A request to connect that is refused before its code is looked at has not failed for it. -/
theorem not_wrongCmac_of_valid (hvalid : isKeyslotValid s (slotOf request)) :
    ¬ WrongCmac N s request := by
  rintro ⟨i, hi, hunused, -⟩
  exact hunused (hi ▸ hvalid)

theorem wrongCmac_iff (hslot : slotOf request = i) (hunused : ¬ isKeyslotValid s i)
    (hpoint : inputEcPub N (swPublicOf request) ≠ none) :
    WrongCmac N s request ↔ (request.bytes.drop 4).take 16 ≠ cmacOf N s request i := by
  constructor
  · rintro ⟨j, hj, -, -, hcode⟩
    obtain rfl : j = i := Fin.ext (hj.symm.trans hslot)
    exact hcode
  · exact fun hcode => ⟨i, hslot, hunused, hpoint, hcode⟩

theorem answerCmd0x1ConnectSp_exactly {request : Packet} {response : Packet}
    (hcmd : request.bytes[0]? = some 1) : Exactly (answerCmd0x1ConnectSp N s request response)
      (¬ (0x49 ≤ slotOf request ∧ inputEcPub N (swPublicOf request) ≠ none))
      (Answers s request (WrongCmac N s request)) := by
  refine (request.exactly_get (by decide)).true_bind fun slot hslot => ?_
  have hnat : slotOf request = slot.toNat := slotOf_eq hslot
  rw [hnat]
  dsimp only
  split_ifs with hvalid
  · have hlt := lt_of_isKeyslotValid hvalid
    have hfails : ¬ WrongCmac N s request := not_wrongCmac_of_valid N s (hnat ▸ hvalid)
    refine (refuse_exactly (by decide) (by decide) hfails).of_true fun h => ?_
    exact absurd h.1 (by omega)
  · refine (request.exactly_fetch (by decide)).true_bind fun swPublic hpublic => ?_
    have hsame : swPublicOf request = swPublic := hpublic.symm
    rw [hsame]
    cases hinput : inputEcPub N swPublic with
    | none =>
      have hfails : ¬ WrongCmac N s request := fun ⟨_, _, _, hpoint, _⟩ => hpoint (hsame ▸ hinput)
      exact (refuse_exactly (by decide) (by decide) hfails).of_true
        fun h => h.2 rfl
    | some peer =>
      by_cases hlt : slot.toNat < 0x49
      · -- The index is in range, and the key of the slot is replaced.
        have hin : ¬ (0x49 ≤ slot.toNat ∧ some peer ≠ none) := fun h => absurd h.1 (by omega)
        rw [keySlot_eq hlt, generateEcPriv_eq N (by decide)]
        refine Exactly.of_true ?_ hin
        refine (request.exactly_fetch (by decide)).true_bind fun hdr hhdr => ?_
        obtain ⟨extractorkey, haes⟩ := aesKeysFromSpKey_eq N { s with
          eccKeys := update s.eccKeys ⟨slot.toNat, hlt⟩ (.set (connectPriv + 1)) } hdr
          (keySlot_eq hlt)
        rw [haes]
        refine (request.exactly_fetch (by decide)).true_bind fun cmacShould hshould => ?_
        have hpoint : inputEcPub N (swPublicOf request) ≠ none := by
          rw [hsame, hinput]
          exact some_ne_none peer
        -- The code is compared with the one that the keys before the request give.
        have hwrong := wrongCmac_iff N s (i := ⟨slot.toNat, hlt⟩) hnat hvalid hpoint
        rw [← hshould, cmacOf, hsame, ← drop_zero (l := request.bytes), ← hhdr] at hwrong
        dsimp only
        split_ifs with hcmac
        · exact respond_answers (.unconfirmed _ hcmd hnat) (iff_of_true rfl (hwrong.mpr hcmac))
        · refine (connectSession_exactly N _ _ _ (keySlot_eq hlt)).imp Iff.rfl fun _ r hr => ?_
          obtain ⟨hflag, kbkdf, hkeys⟩ := hr
          obtain ⟨s', response'⟩ := r
          obtain rfl := hkeys
          exact answers_of_ok hflag (.exchanged _ _ _ _ _) (hcmac ∘ hwrong.mp)
      · rw [keySlot, dif_neg hlt]
        exact exactly_none fun h => h ⟨by omega, some_ne_none peer⟩

theorem answerCmd0x2DisconnectSp_exactly :
    Exactly (answerCmd0x2DisconnectSp s request response) True (Answers s request False) := by
  refine (request.exactly_get (by decide)).true_bind fun slot _ => ?_
  split_ifs with hvalid
  · have hlt := lt_of_isKeyslotValid hvalid
    rw [keySlot_eq hlt]
    exact respond_answers (.disconnected _) (iff_of_false (by decide) id)
  · exact refuse_exactly (by decide) (by decide) id

end

/-! ## Authenticated commands -/

/-- What an authenticated command makes of a payload: it changes only stored keys and the backing
store, and its reply is at most `0x40` bytes long. -/
def Modest (act : SscKeys R → List UInt8 → SscKeys R × List UInt8) : Prop :=
  ∀ s payload, ∃ slotHmacKey blk reply, reply.length ≤ 0x40 ∧
    act s payload = ({ s with slotHmacKey := slotHmacKey, blk := blk }, reply)

theorem length_blkPread (blk : List UInt8) {off n : ℕ} :
    (blkPread blk off n (replicate n 0)).length = n := by
  unfold blkPread
  cases hfetch : fetch blk off n with
  | none => exact length_replicate
  | some bytes => exact ((exactly_fetch blk off n).of_some hfetch).2

theorem modest_metadataWrite (j : Slot) (copy : ℕ) : Modest (R := R) (metadataWrite j copy) :=
  fun _ _ => ⟨_, _, [], zero_le _, rfl⟩

variable (slot copy : ℕ)

theorem modest_metadataDataRead : Modest (R := R) (metadataDataRead slot copy) :=
  fun _ _ => ⟨_, _, _, (length_blkPread _).le, rfl⟩

theorem modest_metadataDataWrite : Modest (R := R) (metadataDataWrite slot copy) :=
  fun _ _ => ⟨_, _, [], zero_le _, rfl⟩

theorem modest_metadataRead (j : Slot) (copy : ℕ) : Modest (R := R) (metadataRead j copy) :=
  fun _ _ => ⟨_, _, _, (length_blkPread _).le.trans (by decide), rfl⟩

section

variable (s : SscKeys R) {request : Packet} {response : Packet}

theorem aesCcmDecrypt_eq (hdr data : List UInt8) (hslot : keySlot k = some i) :
    aesCcmDecrypt N s k hdr data = some (N.ccmDecrypt (((s.kbkdfKeys i).drop 8).take 32)
      (nonceOf (s.kbkdfKeys i) (s.kbkdfCounter i)) (hdr ++ counterBe (s.kbkdfCounter i))
      (data.drop 16 ++ data.take 16), { s with
      kbkdfCounter := update s.kbkdfCounter i (s.kbkdfCounter i + 1)
      log := s.log ++ [.verify i (s.kbkdfCounter i)] }) := by
  rw [aesCcmDecrypt, hslot]
  rfl

theorem wrongTag_iff (hslot : slotOf request = i) (hvalid : isKeyslotValid s i) :
    WrongTag N s request payloadLen ↔ tagOf N s request payloadLen i = false := by
  constructor
  · rintro ⟨j, hj, -, htag⟩
    obtain rfl : j = i := Fin.ext (hj.symm.trans hslot)
    exact htag
  · exact fun htag => ⟨i, hslot, hvalid, htag⟩

theorem aesCcmEncrypt_eq (hdr payload : List UInt8) (hslot : keySlot k = some i) :
    ∃ out key, out.length = payload.length + 16 ∧
      aesCcmEncrypt N s k hdr payload = some (out, { s with
        log := s.log ++ [.respond i key (nonceOf (s.kbkdfKeys i) (s.kbkdfCounter i))] }) := by
  rw [aesCcmEncrypt, hslot]
  refine ⟨_, _, ?_, rfl⟩
  rw [length_append, length_drop, length_take, N.length_encrypt]
  omega

theorem not_wrongTag_of_not_valid (h : ¬ isKeyslotValid s (slotOf request)) :
    ¬ WrongTag N s request payloadLen := by
  rintro ⟨i, hi, hvalid, -⟩
  exact h (hi ▸ hvalid)

section

variable (hcmd : request.bytes[0]? ≠ some 1) {copies : ℕ}

include hcmd

theorem authenticated_exactly (hslot : slotOf request = i) (hvalid : isKeyslotValid s i)
    (hpayload : payloadLen ≤ 0x40)
    {act : SscKeys R → List UInt8 → SscKeys R × List UInt8} (hact : Modest act) :
    Exactly (authenticated N s request response i payloadLen act) True
      (Answers s request (WrongTag N s request payloadLen)) := by
  refine (request.exactly_fetch (by decide)).true_bind fun hdr hhdr => ?_
  refine (request.exactly_fetch (by omega)).true_bind fun data hdata => ?_
  have hwrong : WrongTag N s request payloadLen ↔ _ := wrongTag_iff N s hslot hvalid
  have hpayloadOf : (request.bytes.drop 20).take payloadLen = data.drop 16 := by
    rw [hdata, drop_take, drop_drop, Nat.add_sub_cancel_left]
  have htagOf : (request.bytes.drop 4).take 16 = data.take 16 := by
    rw [hdata, take_take, min_eq_left (le_add_right 16 payloadLen)]
  have hhdrOf : request.bytes.take 4 = hdr := hhdr.symm
  rw [tagOf, hpayloadOf, htagOf, hhdrOf] at hwrong
  rw [aesCcmDecrypt_eq N s hdr data (keySlot_eq i.isLt), some_bind]
  generalize N.ccmDecrypt _ _ _ _ = out at hwrong
  obtain ⟨status, payload⟩ := out
  dsimp only at hwrong ⊢
  split_ifs with hstatus
  · -- The counter has been advanced before the status is looked at.
    exact respond_answers (.rejected i hcmd) (iff_of_true rfl (hwrong.mpr hstatus))
  · refine (doResponsePrefix_exactly request response).true_bind fun response hflag => ?_
    obtain ⟨slotHmacKey, blk, reply, hreply, heq⟩ := hact { s with
      kbkdfCounter := update s.kbkdfCounter i (s.kbkdfCounter i + 1)
      log := s.log ++ [.verify i (s.kbkdfCounter i)] } payload
    rw [heq]
    refine (response.exactly_fetch (by decide)).true_bind fun hdr _ => ?_
    obtain ⟨out, key, hout, hencrypt⟩ := aesCcmEncrypt_eq N { s with
      slotHmacKey := slotHmacKey
      kbkdfCounter := update s.kbkdfCounter i (s.kbkdfCounter i + 1)
      blk := blk
      log := s.log ++ [.verify i (s.kbkdfCounter i)] } hdr reply (keySlot_eq i.isLt)
    rw [hencrypt, some_bind]
    dsimp only
    refine (response.exactly_store_behind (single_inside (by omega)) hflag).true_bind
      fun response hflag => ?_
    refine exactly_some trivial (answers_of_ok hflag ?_ (hstatus ∘ hwrong.mp))
    rw [update_self, append_assoc]
    exact .accepted i slotHmacKey blk key (s.kbkdfKeys i)

theorem answerMetadata_exactly (hpayload : payloadLen ≤ 0x40)
    {act : Slot → ℕ → SscKeys R → List UInt8 → SscKeys R × List UInt8}
    (hact : ∀ j copy, Modest (act j copy)) :
    Exactly (answerMetadata N copies payloadLen act s request response) True
      (Answers s request (fieldOf request 3 < copies ∧ fieldOf request 2 ∈ Set.Ico 1 0x49 ∧
        WrongTag N s request payloadLen)) := by
  refine (request.exactly_get (by decide)).true_bind fun keyByte hkey => ?_
  refine (request.exactly_get (by decide)).true_bind fun dataByte hdata => ?_
  refine (request.exactly_get (by decide)).true_bind fun copy hcopy => ?_
  have hslot := slotOf_eq hkey
  rw [fieldOf_eq hdata, fieldOf_eq hcopy]
  split_ifs with hhigh hvalid hslots
  · refine refuse_exactly (by decide) (by decide) fun h => ?_
    exact absurd h.1 (not_lt.mpr hhigh)
  · refine refuse_exactly (by decide) (by decide) fun h => ?_
    obtain ⟨hlo, hhi⟩ := h.2.1
    omega
  · have hin : dataByte.toNat ∈ Set.Ico 1 0x49 := ⟨by omega, by omega⟩
    rw [keySlot_eq hin.2, and_iff_right (not_le.mp hhigh), and_iff_right hin]
    exact authenticated_exactly N s hcmd (i := ⟨keyByte.toNat, lt_of_isKeyslotValid hvalid⟩)
      hslot hvalid hpayload (hact _ _)
  · refine refuse_exactly (by decide) (by decide) fun h => ?_
    exact not_wrongTag_of_not_valid N s (hslot ▸ hvalid) h.2.2

theorem answerMetadataData_exactly (hpayload : payloadLen ≤ 0x40)
    {act : ℕ → ℕ → SscKeys R → List UInt8 → SscKeys R × List UInt8}
    (hact : ∀ slot copy, Modest (act slot copy)) :
    Exactly (answerMetadataData N payloadLen act s request response) True
      (Answers s request (fieldOf request 3 < 4 ∧ slotOf request ≠ 0 ∧
        WrongTag N s request payloadLen)) := by
  refine (request.exactly_get (by decide)).true_bind fun slot hget => ?_
  refine (request.exactly_get (by decide)).true_bind fun copy hcopy => ?_
  have hslot := slotOf_eq hget
  rw [fieldOf_eq hcopy]
  split_ifs with hhigh hrefused
  · refine refuse_exactly (by decide) (by decide) fun h => ?_
    exact absurd h.1 (not_lt.mpr hhigh)
  · refine refuse_exactly (by decide) (by decide) fun h => ?_
    rcases hrefused with hzero | hvalid
    · exact h.2.1 (hslot.trans hzero)
    · exact not_wrongTag_of_not_valid N s (hslot ▸ hvalid) h.2.2
  · have hvalid : isKeyslotValid s slot.toNat := not_not.mp (not_or.mp hrefused).2
    rw [and_iff_right (not_le.mp hhigh), and_iff_right (hslot ▸ (not_or.mp hrefused).1)]
    exact authenticated_exactly N s hcmd (i := ⟨slot.toNat, lt_of_isKeyslotValid hvalid⟩)
      hslot hvalid hpayload (hact _ _)

end

/-! ## All commands -/

theorem answerCmd0x7Init0_exactly {request response : Packet} :
    Exactly (answerCmd0x7Init0 N s request response) True (Answers s request False) := by
  rw [answerCmd0x7Init0, generateEcPriv_eq N (by decide)]
  refine (doResponsePrefix_exactly request response).true_bind fun response hflag => ?_
  have hpub := outputEcPub_inside (N.eccPointMulG (init0Priv + 1)) (4 + 6 + 7 + 7)
    (by decide) (by decide)
  have hfixed : ∀ w ∈ ([⟨4, [0x12, 0x34, 0x56, 0x78, 0x90, 0xAB]⟩,
      ⟨4 + 6, [0xDE, 0xAD, 0xBE, 0xEF, 0xCA, 0xFE, 0xCC]⟩,
      ⟨4 + 6 + 7, [0xCD, 0xEF, 0x01, 0x02, 0x03, 0x04, 0x05]⟩] : List Store),
      4 ≤ w.off ∧ w.stop ≤ 0x100 := by decide
  refine (response.exactly_store_behind (fun w hw => ?_) hflag).true_bind
    fun response hflag => exactly_some trivial (answers_of_ok hflag (.other _ _) id)
  rcases mem_append.mp hw with hw | hw
  · exact hfixed w hw
  · exact hpub w hw

theorem answerCmd0x9Panic_exactly {request response : Packet} :
    Exactly (answerCmd0x9Panic s request response) True (Answers s request False) := by
  refine (doResponsePrefix_exactly request response).true_bind fun response hflag => ?_
  have hcpsn : (s.cpsn.take 7).length ≤ 7 := length_take_le 7 s.cpsn
  have hinside : ∀ w ∈ ([⟨4, replicate 0x24 0xCC⟩, ⟨4 + 0x24, s.cpsn.take 7⟩] : List Store),
      4 ≤ w.off ∧ w.stop ≤ 0x100 := by
    intro w hw
    rcases mem_pair.mp hw with rfl | rfl
    · exact ⟨le_refl 4, by decide⟩
    · refine ⟨le_add_right 4 0x24, ?_⟩
      rw [Store.stop_mk]
      omega
  exact (response.exactly_store_behind hinside hflag).true_bind
    fun response hflag => exactly_some trivial
      (answers_of_ok hflag (.other s.eccKeyMain s.cpsn) id)

/-- A request of `reqCur` bytes connects a slot whose number is out of range with a point of the
curve. -/
def Outside (request : Packet) (reqCur : ℕ) : Prop :=
  request.bytes[0]? = some 1 ∧ reqCur = 0x74 ∧ 0x49 ≤ slotOf request ∧
    inputEcPub N (swPublicOf request) ≠ none

theorem not_outside_of_cmd {cmd : UInt8} {reqCur : ℕ} (h : request.bytes[0]? = some cmd)
    (hcmd : cmd ≠ 1) : ¬ Outside N request reqCur := by
  rintro ⟨hone, -⟩
  exact hcmd (some.inj (h.symm.trans hone))

theorem unauthentic_iff {cmd : UInt8} {reqCur : ℕ} (hcmd : request.bytes[0]? = some cmd) :
    Unauthentic N s request reqCur ↔
      reqCur = sscRequestSizes.getD cmd.toNat 0 ∧ Fails N s request cmd.toNat := by
  simp [Unauthentic, hcmd]

theorem not_fails_of_lt {cmd : ℕ} (h : 9 < cmd) : ¬ Fails N s request cmd := by
  unfold Fails
  split
  all_goals first | omega | exact id

/-- A request is answered inside the arrays and the buffers exactly if it does not connect a slot
whose number is out of range with a point of the curve, and has then one of the effects. -/
theorem answer_exactly (request : Packet) (reqCur : ℕ) (response : Packet) :
    Exactly (answer N s request reqCur response) (¬ Outside N request reqCur)
      (Answers s request (Unauthentic N s request reqCur)) := by
  refine (request.exactly_get (by decide)).true_bind fun cmd hcmd => ?_
  split_ifs with hhigh hsize
  · have hfails : ¬ Unauthentic N s request reqCur := fun h =>
      not_fails_of_lt N s hhigh ((unauthentic_iff N s hcmd).mp h).2
    refine (refuse_exactly (by decide) (by decide) hfails).of_true
      (not_outside_of_cmd N hcmd ?_)
    rintro rfl
    exact absurd hhigh (by decide)
  · have hfails : ¬ Unauthentic N s request reqCur := fun h =>
      hsize ((unauthentic_iff N s hcmd).mp h).1
    refine (refuse_exactly (by decide) (by decide) hfails).of_true
      fun hout => hsize ?_
    rw [some.inj (hcmd.symm.trans hout.1), hout.2.1]
    rfl
  · have hle : cmd ≤ 9 := UInt8.not_lt.mp hhigh
    have hthis := not_not.mp hsize
    rw [unauthentic_iff N s hcmd, and_iff_right hthis]
    by_cases hone : cmd = 1
    · -- Only the request to connect has a condition.
      subst hone
      refine (answerCmd0x1ConnectSp_exactly N s hcmd).imp ?_ fun _ _ hr => hr
      exact not_congr ⟨fun h => ⟨hcmd, hthis, h⟩, fun h => h.2.2⟩
    · have hne : request.bytes[0]? ≠ some 1 := fun h =>
        hone (some.inj (hcmd.symm.trans h))
      refine Exactly.of_true ?_ (not_outside_of_cmd N hcmd hone)
      have hcases : cmd = 0 ∨ cmd = 2 ∨ cmd = 3 ∨ cmd = 4 ∨ cmd = 5 ∨ cmd = 6 ∨ cmd = 7 ∨ cmd = 8 ∨
          cmd = 9 := by
        grind
      rcases hcases with rfl | rfl | rfl | rfl | rfl | rfl | rfl | rfl | rfl
      · exact answerCmd0x0Init1_exactly N s
      · exact answerCmd0x2DisconnectSp_exactly s
      · exact answerMetadata_exactly N s hne (by decide) modest_metadataWrite
      · exact answerMetadataData_exactly N s hne (by decide) modest_metadataDataRead
      · exact answerMetadataData_exactly N s hne (by decide) modest_metadataDataWrite
      · exact answerMetadata_exactly N s hne (by decide) modest_metadataRead
      · exact answerCmd0x7Init0_exactly N s
      · exact respond_answers (.other s.eccKeyMain s.cpsn) (iff_of_false (by decide) id)
      · exact answerCmd0x9Panic_exactly s

end

end Inferno.Ssc
