import Inferno.Ssc.Requests

/-!
# Sessions of slots

A session of a slot starts when its keys are generated and ends when they are generated again, when
the slot is disconnected or when the device is reset. The log is read by an automaton for each slot,
which counts the tags that have been checked in the current session and remembers whether a request
waits for its response (`track`). The counter of the slot is that number, tags are checked with it,
and a response uses the number of checks up to and including that of its own request (`Fits`): every
effect keeps that (`Effect.tracked`). Within a session the counters of checks are thus `0`, `1`, `2`
and so on, those of responses increase, and the checks of other slots do not matter
(`sessions_fresh`).
-/

namespace Inferno.Ssc

open Common List Function Nat Option Prod
open Option (bind_eq_some_iff map_eq_some_iff)
open BitVec (ofNat)

variable {R : Type}

/-! ## Reading the log -/

variable (i : Slot)

/-- An event that ends a session of a slot. -/
def Ends : Event → Bool
  | .keys j => j = i
  | .clear j => j = i
  | .reset => true
  | .verify _ _ => false
  | .respond _ _ _ => false

def Concerns : Event → Bool
  | .keys j => j = i
  | .clear j => j = i
  | .reset => true
  | .verify j _ => j = i
  | .respond j _ _ => j = i

variable (t : ℕ × Bool)

/-- The number of tags that have been checked in the current session, and whether the last request
has had no response yet. -/
def track (e : Event) : ℕ × Bool :=
  if Concerns i e then
    match e with
    | .verify _ _ => (t.1 + 1, true)
    | .respond _ _ _ => (t.1, false)
    | _ => (0, false)
  else t

/-- An event is what it has to be after what has been read: a tag is checked with the number of
earlier checks, and a response belongs to the last check and uses the number of checks. -/
def Fits : Event → Prop
  | .verify j counter => j = i → counter = ofNat 32 t.1
  | .respond j _ nonce => j = i → t.2 = true ∧ ∃ seed, nonce = nonceOf seed (ofNat 32 t.1)
  | _ => True

variable (es : List Event)

/-- The counters with which the tags of requests for a slot are checked. -/
def verified : List (BitVec 32) :=
  es.filterMap fun e => match e with
    | .verify j counter => if j = i then some counter else none
    | _ => none

/-- The keys and nonces with which responses for a slot are encrypted. -/
def responses : List (List UInt8 × List UInt8) :=
  es.filterMap fun e => match e with
    | .respond j key nonce => if j = i then some (key, nonce) else none
    | _ => none

/-- The log is one of sessions, and the counter of every slot is the number of checks. -/
def Tracked (s : SscKeys R) : Prop :=
  ∀ i, Guarded (track i) (Fits i) (0, false) s.log ∧
    s.kbkdfCounter i = ofNat 32 (run (track i) (0, false) s.log).1

/-! ## Commands -/

/-- What is done to the device, one request at a time. -/
inductive Command
  /-- A request of `reqCur` bytes is answered. -/
  | request (request : Packet) (reqCur : ℕ) (response : Packet)
  | reset

/-- A command; `none` is an access outside the arrays or the buffers. -/
def perform (N : Nettle R) (s : SscKeys R) : Command → Option (SscKeys R)
  | .request request reqCur response => (answer N s request reqCur response).map Prod.fst
  | .reset => some (resetKeys N s)

/-- The fields after a sequence of commands, or before the first that accesses the arrays outside.
-/
def follow (N : Nettle R) : SscKeys R → List Command → SscKeys R
  | s, [] => s
  | s, c :: cs =>
    match perform N s c with
    | none => s
    | some s' => follow N s' cs

def Command.isRequest : Command → Bool
  | .request _ _ _ => true
  | .reset => false

/-! ## The invariant -/

variable {e : Event} {s s' : SscKeys R}

theorem track_of_not_concerns {i : Slot} (h : Concerns i e = false) (t : ℕ × Bool) :
    track i t e = t := by
  unfold track
  rw [h]
  rfl

theorem track_keys : track i t (.keys i) = (0, false) :=
  if_pos (decide_eq_true rfl)

theorem track_clear : track i t (.clear i) = (0, false) :=
  if_pos (decide_eq_true rfl)

variable (counter : BitVec 32)

theorem track_verify : track i t (.verify i counter) = (t.1 + 1, true) :=
  if_pos (decide_eq_true rfl)

variable (key nonce : List UInt8)

theorem track_respond : track i t (.respond i key nonce) = (t.1, false) :=
  if_pos (decide_eq_true rfl)

section

variable {s s' : SscKeys R} (h : Tracked s)

include h

theorem Tracked.snoc {e : Event} (hlog : s'.log = s.log ++ [e])
    (hfits : ∀ i, Fits i (run (track i) (0, false) s.log) e) (hcounter : ∀ i, s'.kbkdfCounter i =
      ofNat 32 (track i (run (track i) (0, false) s.log) e).1) : Tracked s' := by
  intro i
  rw [hlog, guarded_append, run_append]
  exact ⟨⟨(h i).1, hfits i, trivial⟩, hcounter i⟩

theorem Tracked.update {j : Slot} {v : BitVec 32} (hother : ∀ i, i ≠ j → Concerns i e = false)
    (hsame : v = ofNat 32 (track j (run (track j) (0, false) s.log) e).1) (i : Slot) :
    Function.update s.kbkdfCounter j v i =
      ofNat 32 (track i (run (track i) (0, false) s.log) e).1 := by
  by_cases hij : i = j
  · subst hij
    rw [update_self, hsame]
  · rw [update_of_ne hij, track_of_not_concerns (hother i hij)]
    exact (h i).2

theorem Tracked.verify (j : Slot) (hlog : s'.log = s.log ++ [.verify j (s.kbkdfCounter j)])
    (hcounter : s'.kbkdfCounter = Function.update s.kbkdfCounter j (s.kbkdfCounter j + 1)) :
    Tracked s' := by
  refine h.snoc hlog (fun i hij => hij ▸ (h j).2) ?_
  rw [hcounter]
  refine h.update (fun i hij => decide_eq_false (Ne.symm hij)) ?_
  rw [track_verify, (h j).2]
  exact (BitVec.ofNat_add _ 1).symm

theorem Tracked.respond (j : Slot) (key seed : List UInt8)
    (hlast : (run (track j) (0, false) s.log).2 = true)
    (hlog : s'.log = s.log ++ [.respond j key (nonceOf seed (s.kbkdfCounter j))])
    (hcounter : s'.kbkdfCounter = s.kbkdfCounter) : Tracked s' := by
  refine h.snoc hlog (fun i hij => ?_) fun i => ?_
  · subst hij
    exact ⟨hlast, seed, by rw [(h j).2]⟩
  · rw [hcounter, (h i).2]
    by_cases hij : i = j
    · rw [hij, track_respond]
    · have hother : Concerns i (.respond j key (nonceOf seed (s.kbkdfCounter j))) = false :=
        decide_eq_false (Ne.symm hij)
      rw [track_of_not_concerns hother]

end

section

variable {request : Packet} {flags : UInt8}

/-- Every effect keeps the log one of sessions, and the counters the numbers of checks. -/
theorem Effect.tracked (heffect : Effect s request s' flags) (h : Tracked s) : Tracked s' := by
  cases heffect with
  | refused | unconfirmed | other => exact h
  | exchanged j =>
    refine h.snoc rfl (fun _ => trivial) (h.update (fun i hij => ?_) ?_)
    · exact decide_eq_false (Ne.symm hij)
    · rw [track_keys]
      rfl
  | disconnected j =>
    refine h.snoc rfl (fun _ => trivial) (h.update (fun i hij => ?_) ?_)
    · exact decide_eq_false (Ne.symm hij)
    · rw [track_clear]
      rfl
  | rejected j => exact h.verify j rfl rfl
  | accepted j slotHmacKey blk key seed =>
    -- The response is encrypted after the check, with the advanced counter.
    have hchecked : Tracked { s with
        kbkdfCounter := update s.kbkdfCounter j (s.kbkdfCounter j + 1)
        log := s.log ++ [.verify j (s.kbkdfCounter j)] } := h.verify j rfl rfl
    refine hchecked.respond j key seed ?_ ?_ rfl
    · rw [run_append, run_cons, track_verify]
      rfl
    · dsimp only
      rw [update_self, append_assoc]
      rfl

theorem Tracked.reset (h : Tracked s) (N : Nettle R) : Tracked (resetKeys N s) :=
  h.snoc rfl (fun _ => trivial) fun _ => rfl

/-! ## Numbers of checks -/

theorem verified_append {es es' : List Event} :
    verified i (es ++ es') = verified i es ++ verified i es' := filterMap_append

theorem Effect.length_verified (h : Effect s request s' flags) (i : Slot) :
    (verified i s'.log).length ≤ (verified i s.log).length + 1 := by
  have hone : ∀ e : Event, (verified i (s.log ++ [e])).length ≤ (verified i s.log).length + 1 := by
    intro e
    rw [verified_append, length_append]
    exact Nat.add_le_add_left (length_filterMap_le _ [e]) _
  cases h with
  | refused | unconfirmed | other => exact le_succ _
  | exchanged | disconnected | rejected => exact hone _
  | accepted j slotHmacKey blk key seed =>
    rw [verified_append, length_append]
    refine Nat.add_le_add_left ?_ _
    exact length_filterMap_le _ [_]

end

/-- The state after a sequence of commands is one of sessions, and no more tags have been checked
than there were requests. -/
theorem follow_spec (N : Nettle R) (h : Tracked s) (cs : List Command) (i : Slot) :
    Tracked (follow N s cs) ∧ (verified i (follow N s cs).log).length ≤
      (verified i s.log).length + cs.countP Command.isRequest := by
  induction cs generalizing s with
  | nil => exact ⟨h, le_refl _⟩
  | cons c cs ih =>
    rw [follow]
    cases hperform : perform N s c with
    | none => exact ⟨h, le_add_right _ _⟩
    | some s' =>
      dsimp only
      cases c with
      | reset =>
        obtain rfl := some.inj hperform
        obtain ⟨htracked, hlength⟩ := ih (h.reset N)
        have hlog : verified i (resetKeys N s).log = verified i s.log := by
          rw [resetKeys, verified_append]
          exact append_nil _
        rw [hlog] at hlength
        exact ⟨htracked, hlength⟩
      | request request reqCur response =>
        obtain ⟨r, hanswer, rfl⟩ := map_eq_some_iff.mp hperform
        obtain ⟨-, flags, -, heffect, -⟩ :=
          (answer_exactly N s request reqCur response).of_some hanswer
        obtain ⟨htracked, hlength⟩ := ih (heffect.tracked h)
        have hone := heffect.length_verified i
        rw [countP_cons_of_pos rfl]
        exact ⟨htracked, by omega⟩

/-! ## Within a session -/

theorem nonceOf_inj {seed seed' : List UInt8} {m n : ℕ} (hm : m < 2^32) (hn : n < 2^32)
    (h : nonceOf seed (ofNat 32 m) = nonceOf seed' (ofNat 32 n)) : m = n := by
  have hcounter : counterBe (ofNat 32 m) = counterBe (ofNat 32 n) := by
    refine (append_inj' h ?_).2
    rw [counterBe, counterBe, length_beBytes, length_beBytes]
  have htoNat : ∀ k < 2^32, (ofNat 32 k).toNat = k := fun k hk => by
    rw [BitVec.toNat_ofNat, mod_eq_of_lt hk]
  rw [counterBe, counterBe, htoNat m hm, htoNat n hn] at hcounter
  exact beBytes_inj hm hn hcounter

theorem event_cases {i : Slot} (h : Ends i e = false) :
    Concerns i e = false ∨ (∃ counter, e = .verify i counter) ∨
      ∃ key nonce, e = .respond i key nonce := by
  cases e with
  | keys j | clear j | reset => exact .inl h
  | verify j counter =>
    by_cases hji : j = i
    · exact .inr (.inl ⟨counter, hji ▸ rfl⟩)
    · exact .inl (decide_eq_false hji)
  | respond j key nonce =>
    by_cases hji : j = i
    · exact .inr (.inr ⟨key, nonce, hji ▸ rfl⟩)
    · exact .inl (decide_eq_false hji)

section

variable {i : Slot} (h : Concerns i e = false) (es : List Event)

include h

theorem verified_cons_of_not_concerns : verified i (e :: es) = verified i es := by
  refine filterMap_cons_none ?_
  cases e with
  | verify j counter => exact if_neg (of_decide_eq_false h)
  | _ => rfl

theorem responses_cons_of_not_concerns : responses i (e :: es) = responses i es := by
  refine filterMap_cons_none ?_
  cases e with
  | respond j key nonce => exact if_neg (of_decide_eq_false h)
  | _ => rfl

end

theorem verified_cons_verify (es : List Event) :
    verified i (.verify i counter :: es) = counter :: verified i es :=
  filterMap_cons_some (if_pos rfl)

theorem responses_cons_respond (es : List Event) :
    responses i (.respond i key nonce :: es) = (key, nonce) :: responses i es :=
  filterMap_cons_some (if_pos rfl)

section

variable {i : Slot} {n : ℕ} {a : Bool} {es : List Event}

/-- The counters of the checks of a session follow on each other. -/
theorem verified_eq (h : Guarded (track i) (Fits i) (n, a) es)
    (hends : ∀ e ∈ es, Ends i e = false) :
    verified i es = (range' n (verified i es).length).map (ofNat 32) := by
  induction es generalizing n a with
  | nil => rfl
  | cons e es ih =>
    obtain ⟨hfits, hrest⟩ := h
    obtain ⟨hend, hnext⟩ := forall_mem_cons.mp hends
    rcases event_cases hend with hother | ⟨counter, rfl⟩ | ⟨key, nonce, rfl⟩
    · rw [track_of_not_concerns hother] at hrest
      rw [verified_cons_of_not_concerns hother]
      exact ih hrest hnext
    · rw [track_verify] at hrest
      have hcounter : counter = ofNat 32 n := hfits rfl
      rw [verified_cons_verify, length_cons, range'_succ, map_cons, hcounter, ← ih hrest hnext]
    · rw [track_respond] at hrest
      exact ih hrest hnext

/-- The responses of a session have nonces with increasing counters: from the number `n` of checks
on if a request waits for its response, and from the next one on otherwise. -/
theorem responses_nodup (h : Guarded (track i) (Fits i) (n, a) es)
    (hends : ∀ e ∈ es, Ends i e = false) (hlt : n + (verified i es).length < 2^32) :
    (responses i es).Nodup ∧ ∀ r ∈ responses i es, ∃ seed c,
      r.2 = nonceOf seed (ofNat 32 c) ∧ n + (if a then 0 else 1) ≤ c ∧ c < 2^32 := by
  induction es generalizing n a with
  | nil => exact ⟨nodup_nil, by simp [responses]⟩
  | cons e es ih =>
    obtain ⟨hfits, hrest⟩ := h
    obtain ⟨hend, hnext⟩ := forall_mem_cons.mp hends
    rcases event_cases hend with hother | ⟨counter, rfl⟩ | ⟨key, nonce, rfl⟩
    · rw [track_of_not_concerns hother] at hrest
      rw [verified_cons_of_not_concerns hother] at hlt
      rw [responses_cons_of_not_concerns hother]
      exact ih hrest hnext hlt
    · rw [track_verify] at hrest
      rw [verified_cons_verify, length_cons] at hlt
      obtain ⟨hnodup, hcounters⟩ := ih hrest hnext (by omega)
      refine ⟨hnodup, fun r hr => ?_⟩
      obtain ⟨seed, c, hnonce, hle, hc⟩ := hcounters r hr
      refine ⟨seed, c, hnonce, ?_, hc⟩
      split_ifs <;> omega
    · -- The next response has to wait for another check, so its counter is larger.
      rw [track_respond] at hrest
      obtain ⟨hwaits, seed, hnonce⟩ := hfits rfl
      have hwaits : a = true := hwaits
      obtain ⟨hnodup, hcounters⟩ := ih hrest hnext hlt
      rw [responses_cons_respond, hwaits]
      refine ⟨nodup_cons.mpr ⟨fun hmem => ?_, hnodup⟩, forall_mem_cons.mpr ⟨?_, ?_⟩⟩
      · obtain ⟨seed', c, hnonce', hle, hc⟩ := hcounters _ hmem
        have hsame := nonceOf_inj (by omega) hc (hnonce.symm.trans hnonce')
        rw [if_neg (by decide)] at hle
        omega
      · exact ⟨seed, n, hnonce, le_refl n, by omega⟩
      · intro r hr
        obtain ⟨seed', c, hnonce', hle, hc⟩ := hcounters r hr
        refine ⟨seed', c, hnonce', ?_, hc⟩
        rw [if_pos rfl]
        omega

end

/-! ## Runs -/

theorem run_track_filter : run (track i) t (es.filter (Concerns i)) = run (track i) t es := by
  induction es generalizing t with
  | nil => rfl
  | cons e es ih =>
    by_cases hconcerns : Concerns i e
    · rw [filter_cons_of_pos hconcerns, run_cons, run_cons, ih]
    · rw [filter_cons_of_neg hconcerns, run_cons, ih,
        track_of_not_concerns (Bool.eq_false_of_not_eq_true hconcerns)]

theorem foldlM_perform (N : Nettle R) {cs : List Command} (s : SscKeys R)
    (h : ∀ request reqCur response, .request request reqCur response ∈ cs →
      ¬ Outside N request reqCur) : cs.foldlM (perform N) s = some (follow N s cs) := by
  induction cs generalizing s with
  | nil => rfl
  | cons c cs ih =>
    have hnext : ∀ request reqCur response, .request request reqCur response ∈ cs →
        ¬ Outside N request reqCur := fun request reqCur response hmem =>
      h request reqCur response (mem_cons_of_mem c hmem)
    obtain ⟨s', hperform⟩ : ∃ s', perform N s c = some s' := by
      cases c with
      | reset => exact ⟨_, rfl⟩
      | request request reqCur response =>
        obtain ⟨r, hanswer, -⟩ := (answer_exactly N s request reqCur response).exists_some
          (h request reqCur response mem_cons_self)
        exact ⟨r.1, map_eq_some_iff.mpr ⟨r, hanswer, rfl⟩⟩
    rw [foldlM_cons, hperform, some_bind, ih s' hnext, follow, hperform]

section

variable {N : Nettle R} {s s' : AppleSSCState R} {op : Op}

/-- An operation on the bus performs a command or leaves the keys alone. -/
theorem keys_of_step {b : Option UInt8} (h : step N s op = some (b, s')) :
    s'.keys = s.keys ∨ ∃ c, perform N s.keys c = some s'.keys := by
  cases op with
  | tx data =>
    obtain ⟨s₁, htx, heq⟩ := map_eq_some_iff.mp h
    obtain ⟨-, rfl⟩ := mk.inj heq
    have hstart : (startRequest s).keys = s.keys := by
      unfold startRequest
      split_ifs <;> rfl
    unfold appleSscTx at htx
    split_ifs at htx
    · obtain rfl := some.inj htx
      exact .inl hstart
    · obtain ⟨reqCmd, -, hsome⟩ := bind_eq_some_iff.mp htx
      obtain rfl := some.inj hsome
      exact .inl hstart
  | rx =>
    obtain ⟨⟨ret, s₁⟩, hrx, heq⟩ := map_eq_some_iff.mp h
    obtain ⟨-, rfl⟩ := mk.inj heq
    unfold appleSscRx at hrx
    split_ifs at hrx
    · obtain ⟨-, rfl⟩ := mk.inj (some.inj hrx)
      exact .inl rfl
    · obtain ⟨s₂, hprepare, hrest⟩ := bind_eq_some_iff.mp hrx
      obtain ⟨ret', -, hsome⟩ := bind_eq_some_iff.mp hrest
      obtain ⟨-, rfl⟩ := mk.inj (some.inj hsome)
      unfold prepareResponse at hprepare
      split_ifs at hprepare
      · obtain ⟨cmd, -, hstore⟩ := bind_eq_some_iff.mp hprepare
        obtain ⟨respCmd, -, hsome⟩ := bind_eq_some_iff.mp hstore
        obtain rfl := some.inj hsome
        exact .inl rfl
      · -- This read answers the request.
        obtain ⟨r, hanswer, hfill⟩ := bind_eq_some_iff.mp hprepare
        obtain ⟨response, -, hsome⟩ := bind_eq_some_iff.mp hfill
        obtain rfl := some.inj hsome
        exact .inr ⟨.request s.reqCmd s.reqCur s.respCmd, map_eq_some_iff.mpr ⟨r, hanswer, rfl⟩⟩
      · obtain rfl := some.inj hprepare
        exact .inl rfl
  | reset =>
    obtain ⟨-, rfl⟩ := mk.inj (some.inj h)
    exact .inr ⟨.reset, rfl⟩

/-- What is done on the bus is a sequence of commands. -/
theorem exists_follow_eq {ops : List Op} {bytes : List (Option UInt8)}
    (h : replies (step N) s ops = some (bytes, s')) :
    ∃ cs, cs.countP Command.isRequest ≤ ops.length ∧ follow N s.keys cs = s'.keys := by
  induction ops generalizing s bytes with
  | nil =>
    obtain ⟨-, rfl⟩ := mk.inj (some.inj h)
    exact ⟨[], le_refl 0, rfl⟩
  | cons op ops ih =>
    obtain ⟨b, s₁, bytes', hstep, hrest, -⟩ := replies_cons_eq_some.mp h
    obtain ⟨cs, hcount, hfollow⟩ := ih hrest
    rcases keys_of_step hstep with hkeys | ⟨c, hperform⟩
    · exact ⟨cs, le_succ_of_le hcount, hkeys ▸ hfollow⟩
    · refine ⟨c :: cs, ?_, ?_⟩
      · have hone : (c :: cs).countP Command.isRequest ≤ cs.countP Command.isRequest + 1 := by
          rw [countP_cons]
          split_ifs <;> omega
        rw [length_cons]
        omega
      · rw [follow, hperform]
        exact hfollow

end

/-- The key exchange starts a session of slot 0, in which a request to read is checked, performed
and answered. -/
theorem exists_follow_eq_sample : ∃ r,
    replies (step sampleNettle) sampleState
      (exchange init1Request ++ exchange (readRequest firstTag)) = some r ∧
    r.2.keys.log = [.reset, .keys 0, .verify 0 0,
      .respond 0 (replicate 32 1) (replicate 8 1 ++ [0, 0, 0, 1])] ∧
    ∃ cs, cs.countP Command.isRequest ≤
        (exchange init1Request ++ exchange (readRequest firstTag)).length ∧
      follow sampleNettle sampleState.keys cs = r.2.keys := by
  have hlog : (replies (step sampleNettle) sampleState
      (exchange init1Request ++ exchange (readRequest firstTag))).map (fun r => r.2.keys.log) =
      some [.reset, .keys 0, .verify 0 0,
        .respond 0 (replicate 32 1) (replicate 8 1 ++ [0, 0, 0, 1])] := by decide +kernel
  obtain ⟨r, hr, hkeys⟩ := map_eq_some_iff.mp hlog
  exact ⟨r, hr, hkeys, exists_follow_eq hr⟩

/-- A buffer that starts with given bytes. -/
def packetOf (bytes : List UInt8) : Packet where
  bytes := (bytes ++ replicate 0x100 0).take 0x100
  length_bytes := by
    rw [length_take, length_append, length_replicate]
    omega

/-- Keys are exchanged for slot 0, and two requests with the tags for counters 0 and 1 follow. -/
def sampleCommands : List Command :=
  [.request (packetOf init1Request) 0x84 .zero,
    .request (packetOf (readRequest firstTag)) 0x14 .zero,
    .request (packetOf (readRequest (replicate 8 1 ++ [0, 0, 0, 1, 0, 0, 0, 0]))) 0x14 .zero]

/-- What is done with the keys of slot 0 in that session. -/
def sampleSession : List Event :=
  [.verify 0 0, .respond 0 (replicate 32 1) (replicate 8 1 ++ [0, 0, 0, 1]),
    .verify 0 1, .respond 0 (replicate 32 1) (replicate 8 1 ++ [0, 0, 0, 2])]

end Inferno.Ssc
