import Inferno.Ssc.Effects

/-!
# Requests over the bus

Bytes reach the buffers through `req_cur` and `resp_cur`, which are compared with the lengths of the
buffers before they are used, so that only an answered request can leave the arrays
(`key_slot_access_iff`).

A request that is refused changes neither keys nor the backing store, with two exceptions: a wrong
tag has advanced the counter of the slot by the time it is noticed, and a wrong authentication code
has replaced the key of the slot (`rejection_harmless_iff`).
-/

namespace Inferno.Ssc

open Common List Option

variable {R : Type}

/-! ## Answers -/

/-- A request has been answered: the flag of the response, the effect of the request, and the bytes
of a response without `SSC_RESPONSE_FLAG_OK`. -/
structure Answered (N : Nettle R) (s s' : AppleSSCState R) (flags : UInt8) : Prop where
  flag : s'.respCmd.bytes[3]? = some flags
  effect : Effect s.keys s.reqCmd s'.keys flags
  /-- Whether an authentication has failed is a matter of the request and the keys before it. -/
  unauthentic : flags = flagCmacInvalid ↔ Unauthentic N s.keys s.reqCmd s.reqCur
  /-- All bytes behind the first four are `0xFF`. -/
  filled : flags ≠ flagOk → ∀ k, 4 ≤ k → k < 0x100 → s'.respCmd.bytes[k]? = some 0xFF

variable (N : Nettle R) (s : AppleSSCState R)

/-- A response without `SSC_RESPONSE_FLAG_OK` is filled, and keeps its flag. -/
theorem fillRejected_exactly {response : Packet} {flags : UInt8}
    (hflag : response.bytes[3]? = some flags) :
    Exactly (fillRejected response) True fun p => p.bytes[3]? = some flags ∧
      (flags ≠ flagOk → ∀ k, 4 ≤ k → k < 0x100 → p.bytes[k]? = some 0xFF) := by
  have hinside : ∀ w ∈ ([⟨4, replicate 0xFC 0xFF⟩] : List Store), 4 ≤ w.off ∧ w.stop ≤ 0x100 := by
    intro w hw
    rw [mem_singleton.mp hw, Store.stop_mk, length_replicate]
    exact ⟨Nat.le_refl 4, Nat.le_refl _⟩
  unfold fillRejected
  rw [hflag, some_bind]
  split_ifs with hok
  · obtain ⟨p, hstore, hkeep⟩ := (response.exactly_store_behind hinside hflag).exists_some trivial
    rw [hstore]
    refine exactly_some trivial ⟨hkeep, fun _ k hlo hhi => ?_⟩
    -- The byte is one of those that have been stored.
    obtain ⟨bytes, _, hput, rfl⟩ := pmap_eq_some_iff.mp hstore
    obtain ⟨i, rfl⟩ := Nat.exists_eq_add_of_le hlo
    rw [putAll, foldlM_cons] at hput
    obtain ⟨bytes', hone, hnil⟩ := bind_eq_some_iff.mp hput
    obtain rfl := some.inj hnil
    have hi : i < 0xFC := by omega
    have hbyte := getElem?_put_add hone (i := i) (by rw [length_replicate]; exact hi)
    rw [hbyte, getElem?_replicate, if_pos hi]
  · exact exactly_some trivial ⟨hflag, fun h => absurd h hok⟩

theorem answerRequest_exactly :
    Exactly (answerRequest N s) (¬ Outside N s.reqCmd s.reqCur) fun s' =>
      s'.respCur = s.respCur ∧ ∃ flags, Answered N s s' flags := by
  refine (answer_exactly N s.keys s.reqCmd s.reqCur s.respCmd).bind_true fun r hr => ?_
  obtain ⟨flags, hflag, heffect, hfails⟩ := hr
  refine (fillRejected_exactly hflag).bind_true fun response hresponse => ?_
  exact exactly_some trivial ⟨rfl, flags, hresponse.1, heffect, hfails, hresponse.2⟩

/-- A byte is read inside the arrays and the buffers exactly if no request is answered that is
outside. -/
theorem appleSscRx_exactly :
    Exactly (appleSscRx N s) (¬ (s.respCur = 1 ∧ Outside N s.reqCmd s.reqCur)) fun r =>
      s.respCur = 1 → ∃ flags, Answered N s r.2 flags := by
  unfold appleSscRx
  split_ifs with hcur
  · exact exactly_some (fun h => absurd h.1 (by omega)) fun h => absurd h (by omega)
  · have hprepare : Exactly (prepareResponse N s) (¬ (s.respCur = 1 ∧ Outside N s.reqCmd s.reqCur))
        fun s' => s'.respCur = s.respCur ∧ (s.respCur = 1 → ∃ flags, Answered N s s' flags) := by
      unfold prepareResponse
      split_ifs with hzero hone
      · refine Exactly.of_true ?_ fun h => absurd h.1 (by omega)
        refine (s.reqCmd.exactly_get (by decide)).true_bind fun cmd _ => ?_
        refine (Packet.zero.exactly_store ?_).true_bind fun respCmd _ =>
          exactly_some trivial ⟨rfl, fun h => absurd h (by omega)⟩
        intro w hw
        rw [mem_singleton.mp hw]
        exact Nat.le_of_ble_eq_true rfl
      · exact (answerRequest_exactly N s).imp (not_congr (and_iff_right hone).symm)
          fun _ _ h => ⟨h.1, fun _ => h.2⟩
      · exact exactly_some (fun h => hone h.1) ⟨rfl, fun h => absurd h hone⟩
    refine hprepare.bind_true fun s' hs' => ?_
    refine (s'.respCmd.exactly_get (by omega)).true_bind fun ret _ => ?_
    refine exactly_some trivial fun hone => ?_
    obtain ⟨flags, hanswered⟩ := hs'.2 hone
    exact ⟨flags, hanswered.flag, hanswered.effect, hanswered.unauthentic, hanswered.filled⟩

/-! ## Accesses -/

theorem appleSscTx_exactly {data : UInt8} : Exactly (appleSscTx s data) True fun _ => True := by
  unfold appleSscTx
  split_ifs with hfull
  · exact exactly_some trivial trivial
  · refine (s.reqCmd.exactly_store ?_).true_bind fun _ _ => exactly_some trivial trivial
    intro w hw
    rw [mem_singleton.mp hw]
    exact Nat.lt_of_not_le hfull

section

variable (N : Nettle R) (s : AppleSSCState R) (ops : List Op)

/-- An operation answers a request that connects a slot whose number is out of range. -/
def ConnectsOutside (op : Op) : Prop :=
  op = .rx ∧ s.respCur = 1 ∧ Outside N s.reqCmd s.reqCur

/-- An operation stays inside the arrays and the buffers exactly if it does not do that. -/
theorem step_exactly (op : Op) :
    Exactly (step N s op) (¬ ConnectsOutside N s op) fun _ => True := by
  cases op with
  | tx data =>
    refine Exactly.of_true ((appleSscTx_exactly s).map fun _ _ => trivial) ?_
    rintro ⟨hop, -⟩
    cases hop
  | rx =>
    refine ((appleSscRx_exactly N s).imp ?_ fun _ _ h => h).map fun _ _ => trivial
    exact not_congr (and_iff_right rfl).symm
  | reset =>
    refine exactly_some ?_ trivial
    rintro ⟨hop, -⟩
    cases hop

/-- For every sequence of bytes that are written to and read from the device, every index of a slot
is in range and every access to the buffers inside exactly if no request is answered that connects a
slot with a number of at least `KBKDF_KEY_MAX_SLOTS` with a point of the curve. -/
theorem key_slot_access_iff : (∃ bytes s', replies (step N) s ops = some (bytes, s')) ↔
      ∀ pre op post, ops = pre ++ op :: post → ∀ bytes s',
        replies (step N) s pre = some (bytes, s') → ¬ ConnectsOutside N s' op :=
  exists_replies_iff (I := fun _ => True)
    (fun s op _ => (step_exactly N s op).imp Iff.rfl fun _ _ _ => trivial) trivial

/-- A library to calculate with: a tag is the nonce, and digests are constant. -/
def sampleNettle : Nettle Unit where
  knuthLfibInit _ := ()
  eccPointMul _ P := P
  eccPointMulG _ := smallPoint
  eccPointSet x y := if h : OnCurve x y then some ⟨x, y, h⟩ else none
  eccScalarSet v := 0 < v ∧ v < curveOrder
  pointSet_iff x y P := by
    constructor
    · intro h
      split_ifs at h
      obtain rfl := some.inj h
      exact ⟨rfl, rfl⟩
    · rintro ⟨rfl, rfl⟩
      exact dif_pos P.onCurve
  scalarSet_iff _ := decide_eq_true_iff
  ecdsaSign _ _ _ := ((1, 1), ())
  hmacSha256 _ _ := replicate 32 1
  sha384 _ := replicate 48 1
  cmacAes256 _ _ := replicate 16 1
  ccmEncrypt _ nonce _ msg := msg ++ (nonce ++ replicate 16 0).take 16
  ccmDecrypt _ nonce _ data :=
    (data.drop (data.length - 16) == (nonce ++ replicate 16 0).take 16,
      data.take (data.length - 16))
  sign_lt _ _ _ := by decide
  length_cmac _ _ := length_replicate
  length_encrypt _ nonce _ msg := by
    rw [length_append, length_take_of_le]
    rw [length_append, length_replicate]
    omega

/-- The device after a reset. -/
def sampleState : AppleSSCState Unit := appleSscReset sampleNettle
  ⟨0, 0, .zero, .zero, ⟨.init, fun _ => .init, (), [], fun _ => [], fun _ => [], fun _ => 0, [],
    replicate 0x100 0, []⟩⟩

/-- The bytes of the generator of the curve. -/
def generatorBytes : List UInt8 :=
  beBytes 48
  0xaa87ca22be8b05378eb1c71ef320ad746e1d3b628ba79b9859f741e082542a385502f25dbf55296c3a545e3872760ab7
    ++ beBytes 48
  0x3617de4a96262c6f5d9e98bf9292dc29f8f41dbd289a147ce9da3113b5f0b8c00a60b1ce1d7e819d7a431d7c90ea0e5f

/-- A request to connect a slot, with an authentication code of zero bytes. -/
def connectRequest (slot : UInt8) : List UInt8 :=
  [1, slot, 0, 0] ++ replicate 16 0 ++ generatorBytes

/-- A request is written, and the first four bytes of the response are read. -/
def exchange (request : List UInt8) : List Op := request.map .tx ++ replicate 4 .rx

/-- The bytes that are read during operations. -/
def bytesRead : Option (List UInt8) :=
  (replies (step N) s ops).map fun r => r.1.filterMap id

/-- A request to connect slot `0x49` accesses the arrays outside. -/
theorem key_slot_access_outside :
    replies (step sampleNettle) sampleState (exchange (connectRequest 0x49)) = none := by
  have hnone : (replies (step sampleNettle) sampleState (exchange (connectRequest 0x49))).isNone =
      true := by decide +kernel
  exact isNone_iff_eq_none.mp hnone

/-! ## Rejections -/

/-- The keys of the slots and the backing store are the same. -/
structure SameKeys (s s' : SscKeys R) : Prop where
  eccKeys : s'.eccKeys = s.eccKeys
  kbkdfKeys : s'.kbkdfKeys = s.kbkdfKeys
  kbkdfCounter : s'.kbkdfCounter = s.kbkdfCounter
  slotHmacKey : s'.slotHmacKey = s.slotHmacKey
  randomHmacKey : s'.randomHmacKey = s.randomHmacKey
  blk : s'.blk = s.blk

/-- A request is one to connect a slot that holds the private key for that already. -/
def KeepsKey (s : SscKeys R) (request : Packet) : Prop :=
  request.bytes[0]? = some 1 ∧ ∃ i : Slot, slotOf request = i ∧ s.eccKeys i = .set (connectPriv + 1)

/-- A request without `SSC_RESPONSE_FLAG_OK` does not change the backing store, and changes no key
unless an authentication has failed. -/
theorem Effect.sameKeys_iff {s s' : SscKeys R} {request : Packet} {flags : UInt8}
    (h : Effect s request s' flags) (hok : flags ≠ flagOk) :
    s'.blk = s.blk ∧ (SameKeys s s' ↔ (flags = flagCmacInvalid → KeepsKey s request)) := by
  cases h with
  | refused flags _ hcmac =>
    exact ⟨rfl, iff_of_true ⟨rfl, rfl, rfl, rfl, rfl, rfl⟩ fun h => absurd h hcmac⟩
  | unconfirmed i hcmd hslot =>
    refine ⟨rfl, ?_⟩
    rw [imp_iff_right rfl]
    constructor
    · intro hsame
      exact ⟨hcmd, i, hslot, Function.update_eq_self_iff.mp hsame.eccKeys |>.symm⟩
    · rintro ⟨-, j, hj, hkey⟩
      obtain rfl : j = i := Fin.ext (hj.symm.trans hslot)
      exact ⟨Function.update_eq_self_iff.mpr hkey.symm, rfl, rfl, rfl, rfl, rfl⟩
  | rejected i hcmd =>
    refine ⟨rfl, ?_⟩
    rw [imp_iff_right rfl]
    refine iff_of_false (fun hsame => ?_) fun hkeeps => hcmd hkeeps.1
    -- The counter is not what it was.
    have hcounter : s.kbkdfCounter i + 1 = s.kbkdfCounter i :=
      Function.update_eq_self_iff.mp hsame.kbkdfCounter
    bv_omega
  | exchanged | disconnected | accepted | other => exact absurd rfl hok

/-- Reading a byte answers a request without `SSC_RESPONSE_FLAG_OK`. -/
def Rejects (s s' : AppleSSCState R) : Prop :=
  s.respCur = 1 ∧ (∃ ret, appleSscRx N s = some (ret, s')) ∧ s'.respCmd.bytes[3]? ≠ some flagOk

/-- A request that fails an authentication stays inside the arrays. -/
theorem not_outside_of_unauthentic {request : Packet} {reqCur : ℕ} {s : SscKeys R}
    (h : Unauthentic N s request reqCur) : ¬ Outside N request reqCur := by
  rintro ⟨hcmd, -, hslot, -⟩
  obtain ⟨-, i, hi, -⟩ := (unauthentic_iff N s hcmd).mp h
  have := i.isLt
  omega

/-- For every state and every request that is not answered with `SSC_RESPONSE_FLAG_OK`, the response
bytes behind the first four are `0xFF`, the backing store is unchanged, and the response has
`SSC_RESPONSE_FLAG_CMAC_INVALID` exactly if the code or the tag of the request is wrong; all keys
and counters are unchanged exactly if neither is wrong, but for a request to connect a slot that
holds the private key for that already. -/
theorem rejection_harmless_iff : (∀ s', Rejects N s s' → s'.keys.blk = s.keys.blk ∧
      (∀ k, 4 ≤ k → k < 0x100 → s'.respCmd.bytes[k]? = some 0xFF) ∧
      (s'.respCmd.bytes[3]? = some flagCmacInvalid ↔
        Unauthentic N s.keys s.reqCmd s.reqCur)) ∧
    ((∀ s', Rejects N s s' → SameKeys s.keys s'.keys) ↔
      (s.respCur = 1 → Unauthentic N s.keys s.reqCmd s.reqCur → KeepsKey s.keys s.reqCmd)) := by
  have hanswer : ∀ s', Rejects N s s' → ∃ flags, flags ≠ flagOk ∧ Answered N s s' flags := by
    rintro s' ⟨hcur, ⟨ret, hrx⟩, hflag⟩
    obtain ⟨flags, hanswered⟩ := ((appleSscRx_exactly N s).of_some hrx).2 hcur
    exact ⟨flags, fun h => hflag (h ▸ hanswered.flag), hanswered⟩
  constructor
  · intro s' hreject
    obtain ⟨flags, hok, hanswered⟩ := hanswer s' hreject
    refine ⟨(hanswered.effect.sameKeys_iff hok).1, hanswered.filled hok, ?_⟩
    rw [hanswered.flag, some_inj]
    exact hanswered.unauthentic
  · constructor
    · intro hsame hcur hfails
      -- The request is answered, and with the flag for a failed authentication.
      obtain ⟨⟨ret, s'⟩, hrx, hr⟩ := (appleSscRx_exactly N s).exists_some fun h =>
        not_outside_of_unauthentic N hfails h.2
      obtain ⟨flags, hanswered⟩ := hr hcur
      obtain rfl := hanswered.unauthentic.mpr hfails
      have hreject : Rejects N s s' := by
        refine ⟨hcur, ⟨ret, hrx⟩, ?_⟩
        rw [hanswered.flag]
        decide
      exact (hanswered.effect.sameKeys_iff (by decide)).2.mp (hsame s' hreject) rfl
    · intro hkeeps s' hreject
      obtain ⟨flags, hok, hanswered⟩ := hanswer s' hreject
      refine (hanswered.effect.sameKeys_iff hok).2.mpr fun hflag => ?_
      exact hkeeps hreject.1 (hanswered.unauthentic.mp hflag)

end

/-- A request of command 0. -/
def init1Request : List UInt8 := [0, 0, 0, 0] ++ replicate 32 0 ++ generatorBytes

/-- A request of command 6 with the key of slot 0, about slot 1, with a given tag. -/
def readRequest (tag : List UInt8) : List UInt8 := [6, 0, 1, 0] ++ tag

/-- The tag of the first request of the session. -/
def firstTag : List UInt8 := replicate 8 1 ++ replicate 8 0

/-- The first request of a session is accepted, but rejected after a request with a wrong tag; and a
request to connect with a wrong code leaves another key. -/
theorem rejection_harmful : bytesRead sampleNettle sampleState
        (exchange init1Request ++ exchange (readRequest firstTag)) =
      some [0, 0, 0, 0x80, 6, 0, 0, 0x80] ∧ bytesRead sampleNettle sampleState
        (exchange init1Request ++ exchange (readRequest (replicate 16 0)) ++
          exchange (readRequest firstTag)) =
      some [0, 0, 0, 0x80, 6, 0, 0, 0x10, 6, 0, 0, 0x10] ∧
    (replies (step sampleNettle) sampleState (exchange (connectRequest 2))).map
        (fun r => (r.1.filterMap id, r.2.keys.eccKeys 2)) =
      some ([1, 2, 0, 0x10], .set (connectPriv + 1)) ∧ sampleState.keys.eccKeys 2 = .init := by
  refine ⟨by decide +kernel, by decide +kernel, by decide +kernel, rfl⟩

end Inferno.Ssc
