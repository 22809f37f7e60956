import Inferno.Vmstate.Model
import Mathlib.Data.List.OfFn

/-!
# What a description carries over

Two kinds of facts about a field. `Copies` says what a field does to a stream that it has written
itself: the object that it is loaded into becomes `c` of itself, and the stream is left where the
field ends. `Preserves` says what loading a field keeps, whatever the stream holds. Both are
proved for each kind of field, and a list of fields inherits them: the copies of the fields are
composed in the order of the list, and the fields that the version leaves out do nothing.
-/

namespace Inferno.Vmstate

open Common List Option Prod

variable {σ τ α : Type}

/-! ## Elements -/

/-- The element writes `enc` of its value and reads it back, whatever was there before. -/
structure VMStateInfo.Faithful (info : VMStateInfo α) (enc : α → List UInt8) : Prop where
  put : ∀ v, info.put v = some (enc v)
  get : ∀ v old rest, info.get old (enc v ++ rest) = some (v, rest)

variable {info : VMStateInfo α} {enc : α → List UInt8} {f rest : List UInt8} {version : ℕ} {s : σ}
  {field : VMStateField σ} {fields : List (VMStateField σ)} {bytes : List UInt8} {c : σ → σ}
  {vmsd : VMStateDescription σ}

/-- The bytes of a number are read back as its value modulo `256^k`. -/
theorem getBe_putBe (k n : ℕ) (rest : List UInt8) :
    getBe k (putBe k n ++ rest) = some (n % 256 ^ k, rest) := by
  have hlen : (putBe k n).length = k := by simp [putBe]
  have htake : (putBe k n ++ rest).take k = putBe k n := take_left' hlen
  have hdrop : (putBe k n ++ rest).drop k = rest := drop_left' hlen
  unfold getBe
  rw [if_pos (by rw [length_append]; omega), htake, hdrop, putBe, reverse_reverse, ofLe_leBytes]

/-- An integer is read back when its width is a number of bytes. -/
theorem infoUint_faithful (k : ℕ) : (infoUint (8 * k)).Faithful fun v => putBe k v.toNat where
  put v := by
    have hk : 8 * k / 8 = k := by omega
    show some (putBe (8 * k / 8) v.toNat) = _
    rw [hk]
  get v old rest := by
    have hk : 8 * k / 8 = k := by omega
    have hv : v.toNat < 256 ^ k := by
      have hpow : 2 ^ (8 * k) = 256 ^ k := by rw [pow_mul]; norm_num
      omega
    show (getBe (8 * k / 8) _).map _ = _
    rw [hk, getBe_putBe, Nat.mod_eq_of_lt hv]
    show some (BitVec.ofNat (8 * k) v.toNat, rest) = _
    rw [BitVec.ofNat_toNat, BitVec.setWidth_eq]

theorem infoBool_faithful : vmstateInfoBool.Faithful fun b => [if b then 1 else 0] where
  put _ := rfl
  get b _ _ := by cases b <;> rfl

theorem VMStateInfo.Faithful.putElems_eq (h : info.Faithful enc) (es : List α) :
    putElems info es = some (es.flatMap enc) := by
  induction es with
  | nil => rfl
  | cons e es ih => simp [putElems, h.put, ih]

theorem VMStateInfo.Faithful.getElems_eq (h : info.Faithful enc) (es olds : List α)
    (hlen : olds.length = es.length) (rest : List UInt8) :
    getElems info olds (es.flatMap enc ++ rest) = some (es, rest) := by
  induction es generalizing olds with
  | nil =>
    obtain rfl := length_eq_zero_iff.mp hlen
    rfl
  | cons e es ih =>
    obtain ⟨old, olds, rfl⟩ := exists_cons_of_length_eq_add_one hlen
    have htail := ih olds (by simpa using hlen)
    simp [getElems, h.get, htail]

theorem length_of_getElems {olds es : List α} (h : getElems info olds f = some (es, rest)) :
    es.length = olds.length := by
  induction olds generalizing f es with
  | nil =>
    simp only [getElems, some.injEq, mk.injEq] at h
    rw [← h.1]
  | cons old olds ih =>
    simp only [getElems, bind_eq_bind, bind_eq_some_iff] at h
    obtain ⟨⟨e, f₁⟩, -, ⟨es', f₂⟩, htail, rfl, rfl⟩ := h
    rw [length_cons, length_cons, ih htail]

/-! ## Fields -/

/-- From the state `s` the field writes `bytes`; when they are read back in front of `rest`, the
object becomes `c` of itself. -/
structure VMStateField.Copies (field : VMStateField σ) (s : σ) (bytes rest : List UInt8)
    (c : σ → σ) : Prop where
  save : field.save s = some bytes
  load : ∀ t, field.load t (bytes ++ rest) = some (c t, rest)

/-- Loading the field keeps the property of the object, whatever the stream holds. -/
def VMStateField.Preserves (field : VMStateField σ) (I : σ → Prop) : Prop :=
  ∀ s f s' rest, field.load s f = some (s', rest) → I s → I s'

section Fields

variable {name : String} {version : ℕ} {info : VMStateInfo α} {enc : α → List UInt8}

variable {s : σ} {rest : List UInt8} {vmsd : VMStateDescription τ} {malloc : ℕ → τ} {I : σ → Prop}

variable {get : σ → α} {set : α → σ → σ}

theorem copies_single {bytes : List UInt8} (hput : info.put (get s) = some bytes)
    (hget : ∀ old, info.get old (bytes ++ rest) = some (get s, rest)) :
    (vmstateSingle name version info get set).Copies s bytes rest (set (get s)) where
  save := hput
  load t := by
    show (info.get (get t) (bytes ++ rest)).map _ = _
    rw [hget, map_some]

theorem VMStateInfo.Faithful.copies_single (h : info.Faithful enc) {get : σ → α} {set : α → σ → σ} :
    (vmstateSingle name version info get set).Copies s (enc (get s)) rest (set (get s)) :=
  Vmstate.copies_single (h.put _) fun old => h.get _ old rest

theorem VMStateInfo.Faithful.copies_array {n : ℕ} (h : info.Faithful enc) {get : σ → Fin n → α}
    {set : (Fin n → α) → σ → σ} :
    (vmstateArray name n version info get set).Copies s ((ofFn (get s)).flatMap enc) rest
      (set (get s)) where
  save := h.putElems_eq _
  load t := by
    have hread := h.getElems_eq (ofFn (get s)) (ofFn (get t)) (by simp) rest
    have helems : (fun i : Fin n => ((ofFn (get s))[i.val]?).getD (get t i)) = get s := by
      funext i
      simp
    show (getElems info (ofFn (get t)) _).map _ = _
    rw [hread]
    show some (set (fun i => ((ofFn (get s))[i.val]?).getD (get t i)) t, rest) = _
    rw [helems]

/-- A queue without elements is copied behind the elements that are there. -/
theorem copies_qtailq_nil {get : σ → List τ} {set : List τ → σ → σ} (hnil : get s = [])
    (hnew : version ≤ vmsd.version_id) (hold : vmsd.minimum_version_id ≤ version) :
    (vmstateQtailqV name version vmsd malloc get set).Copies s [0] rest
      (fun t => set (get t) t) where
  save := by
    show putQtailq vmsd (get s) = _
    rw [hnil, putQtailq]
  load t := by
    have hversion : ¬ (vmsd.version_id < version ∨ version < vmsd.minimum_version_id) := by omega
    show (if _ then none else (getQtailq vmsd version malloc _ _).map _) = _
    rw [if_neg hversion]
    show some (set (get t ++ []) t, rest) = _
    rw [append_nil]

theorem preserves_single (hset : ∀ v s, I s → I (set v s)) :
    (vmstateSingle name version info get set).Preserves I := by
  intro s f s' rest h hs
  obtain ⟨⟨v, f'⟩, -, heq⟩ := map_eq_some_iff.mp h
  obtain ⟨rfl, -⟩ := mk.inj heq
  exact hset v s hs

theorem preserves_array {n : ℕ} {get : σ → Fin n → α} {set : (Fin n → α) → σ → σ}
    (hset : ∀ v s, I s → I (set v s)) : (vmstateArray name n version info get set).Preserves I := by
  intro s f s' rest h hs
  obtain ⟨⟨es, f'⟩, -, heq⟩ := map_eq_some_iff.mp h
  obtain ⟨rfl, -⟩ := mk.inj heq
  exact hset _ s hs

/-- An array whose number is in the object is loaded into new memory of that number of elements, or
stays what it was when there are none. -/
theorem varray_of_load {num : σ → BitVec 32} {malloc : ℕ → α} {get : σ → List α}
    {set : List α → σ → σ} {s' : σ} {f : List UInt8}
    (h : (vmstateVarrayUint32Alloc name version info num malloc get set).load s f =
      some (s', rest)) :
    (nElems (num s) = 0 ∧ s' = s) ∨ ∃ es, (es.length : ℤ) = nElems (num s) ∧ s' = set es s := by
  change (if nElems (num s) < 0 then none else if nElems (num s) = 0 then some (s, f) else
    (getElems info _ f).map _) = _ at h
  split_ifs at h with hneg hzero
  · obtain ⟨rfl, -⟩ := mk.inj (some.inj h)
    exact .inl ⟨hzero, rfl⟩
  · obtain ⟨⟨es, f'⟩, hread, heq⟩ := map_eq_some_iff.mp h
    obtain ⟨rfl, -⟩ := mk.inj heq
    have hlen := length_of_getElems hread
    rw [length_map, length_range] at hlen
    exact .inr ⟨es, by omega, rfl⟩

section

variable {get : σ → List τ} {set : List τ → σ → σ} {P : τ → Prop}
  (helem : ∀ i f e rest, loadState vmsd version (malloc i) f = some (e, rest) → P e)

include helem

/-- What holds of every element that is loaded into new memory holds of the elements of a queue. -/
theorem forall_mem_of_getQtailq {fuel : ℕ} {f : List UInt8} {es : List τ}
    (h : getQtailq vmsd version malloc fuel f = some (es, rest)) : ∀ e ∈ es, P e := by
  -- The induction is on the bound of the rounds, with the stream and the elements free.
  induction fuel generalizing f es with
  | zero => exact nomatch h
  | succ fuel ih =>
    cases f with
    | nil => exact nomatch h
    | cons b f =>
      rw [getQtailq] at h
      split_ifs at h
      · obtain ⟨rfl, -⟩ := mk.inj (some.inj h)
        exact nofun
      · simp only [bind_eq_bind, bind_eq_some_iff] at h
        obtain ⟨⟨e, f₁⟩, he, ⟨es', f₂⟩, htail, rfl, rfl⟩ := h
        intro x hx
        rcases mem_cons.mp hx with rfl | hx
        · exact helem _ _ _ _ he
        · exact ih htail x hx

/-- Loading a queue keeps what its setter keeps when it gets elements of the kind that is loaded. -/
theorem preserves_qtailq (hset : ∀ es s, (∀ e ∈ es, P e) → I s → I (set (get s ++ es) s)) :
    (vmstateQtailqV name version vmsd malloc get set).Preserves I := by
  intro s f s' rest h hs
  change (if _ then none else (getQtailq vmsd version malloc _ _).map _) = _ at h
  split_ifs at h
  obtain ⟨⟨es, f'⟩, hread, heq⟩ := map_eq_some_iff.mp h
  obtain ⟨rfl, -⟩ := mk.inj heq
  exact hset es s (forall_mem_of_getQtailq helem hread) hs

end

end Fields

/-! ## Lists of fields -/

/-- The fields together write `bytes`, and read back they make `c` of the object. -/
structure FieldsCopy (version : ℕ) (fields : List (VMStateField σ)) (s : σ)
    (bytes rest : List UInt8) (c : σ → σ) : Prop where
  save : saveFields version s fields = some bytes
  load : ∀ t, loadFields version fields t (bytes ++ rest) = some (c t, rest)

theorem FieldsCopy.nil : FieldsCopy version [] s [] rest id where
  save := rfl
  load _ := rfl

theorem FieldsCopy.cons {more : List UInt8} {d : σ → σ} (hversion : field.version_id ≤ version)
    (hfield : field.Copies s bytes (more ++ rest) c)
    (hfields : FieldsCopy version fields s more rest d) :
    FieldsCopy version (field :: fields) s (bytes ++ more) rest (d ∘ c) where
  save := by
    rw [saveFields, if_pos hversion, hfield.save, hfields.save]
    rfl
  load t := by
    rw [loadFields, if_pos hversion, append_assoc, hfield.load]
    exact hfields.load (c t)

theorem FieldsCopy.skip (hversion : ¬ field.version_id ≤ version)
    (hfields : FieldsCopy version fields s bytes rest c) :
    FieldsCopy version (field :: fields) s bytes rest c where
  save := by rw [saveFields, if_neg hversion, hfields.save]
  load t := by rw [loadFields, if_neg hversion, hfields.load]

theorem exists_of_loadFields_cons {s' : σ} (hversion : field.version_id ≤ version)
    (h : loadFields version (field :: fields) s f = some (s', rest)) :
    ∃ s₁ f₁, field.load s f = some (s₁, f₁) ∧
      loadFields version fields s₁ f₁ = some (s', rest) := by
  rw [loadFields, if_pos hversion] at h
  obtain ⟨⟨s₁, f₁⟩, hfield, hfields⟩ := bind_eq_some_iff.mp h
  exact ⟨s₁, f₁, hfield, hfields⟩

theorem loadFields_preserves {I : σ → Prop}
    (hkeeps : ∀ field ∈ fields, field.version_id ≤ version → field.Preserves I) {s' : σ}
    (h : loadFields version fields s f = some (s', rest)) (hs : I s) : I s' := by
  induction fields generalizing s f with
  | nil =>
    obtain ⟨rfl, -⟩ := mk.inj (some.inj h)
    exact hs
  | cons field fields ih =>
    have htail := fun x hx => hkeeps x (mem_cons_of_mem _ hx)
    by_cases hversion : field.version_id ≤ version
    · obtain ⟨s₁, f₁, hfield, hfields⟩ := exists_of_loadFields_cons hversion h
      have hfirst := hkeeps field mem_cons_self hversion _ _ _ _ hfield hs
      exact ih htail hfields hfirst
    · rw [loadFields, if_neg hversion] at h
      exact ih htail h hs

/-! ## Descriptions -/

/-- What `vmstate_load_state` does when it succeeds. -/
theorem loadState_eq_some_iff {s' : σ} : loadState vmsd version s f = some (s', rest) ↔
      version ≤ vmsd.version_id ∧ vmsd.minimum_version_id ≤ version ∧
        ¬ NamesSubsection vmsd.name rest ∧
        ∃ s₁, loadFields version vmsd.fields (vmsd.pre_load s) f = some (s₁, rest) ∧
          vmsd.post_load s₁ = some s' := by
  unfold loadState
  by_cases hversion : vmsd.version_id < version ∨ version < vmsd.minimum_version_id
  · rw [if_pos hversion]
    exact iff_of_false nofun fun h => by omega
  · rw [if_neg hversion]
    simp only [bind_eq_bind, bind_eq_some_iff, Prod.exists]
    constructor
    · rintro ⟨s₁, f₁, hfields, h⟩
      split_ifs at h with hname
      obtain ⟨s₂, hpost, heq⟩ := bind_eq_some_iff.mp h
      obtain ⟨rfl, rfl⟩ := mk.inj (some.inj heq)
      exact ⟨by omega, by omega, hname, s₁, hfields, hpost⟩
    · rintro ⟨-, -, hname, s₁, hfields, hpost⟩
      exact ⟨s₁, rest, hfields, by rw [if_neg hname, hpost]; rfl⟩

theorem FieldsCopy.saveState {s₁ : σ} (h : FieldsCopy vmsd.version_id vmsd.fields s₁ bytes rest c)
    (hpre : vmsd.pre_save s = some s₁) : saveState vmsd s = some bytes := by
  unfold Vmstate.saveState
  rw [hpre]
  exact h.save

theorem FieldsCopy.loadState {s₁ t t' : σ}
    (h : FieldsCopy vmsd.version_id vmsd.fields s₁ bytes rest c)
    (hold : vmsd.minimum_version_id ≤ vmsd.version_id) (hname : ¬ NamesSubsection vmsd.name rest)
    (hpost : vmsd.post_load (c (vmsd.pre_load t)) = some t') :
    loadState vmsd vmsd.version_id t (bytes ++ rest) = some (t', rest) :=
  loadState_eq_some_iff.mpr ⟨le_rfl, hold, hname, _, h.load _, hpost⟩

end Inferno.Vmstate
