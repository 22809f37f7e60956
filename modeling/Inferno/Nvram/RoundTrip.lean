import Inferno.Nvram.Parse

/-!
# Serialising and loading

The environment is written as its text, filled up with zero bytes; a text that does not leave room
for one of them is refused, and the partition keeps what it held. Loading cuts the text at the
separators again (`loadEnv_envText`). The image is its header, the partitions one after the other
and a header for the free space (`nvramPrepareBank_eq`), and parsing walks over the same offsets
(`parseFrom_parts`). Both checksums leave out the bytes that hold them.
-/

namespace Inferno.Nvram

open Common List Nat
open UInt8 (ofNat)

/-! ## The environment -/

def varText (v : EnvVar) : List UInt8 := v.name ++ ofNat '='.toNat :: (v.str ++ [0])

def envText (env : List EnvVar) : List UInt8 := env.flatMap varText

/-- A variable that its text can hold. -/
structure VarOk (v : EnvVar) : Prop where
  length_lt : v.name.length < 64
  name_eq : ofNat '='.toNat ∉ v.name
  name_zero : (0 : UInt8) ∉ v.name
  str_zero : (0 : UInt8) ∉ v.str

variable {len : ℕ}

theorem serializeFrom_eq {buf : List UInt8} {env : List EnvVar}
    (h : buf.length + (envText env).length < len) :
    serializeFrom len buf env = some (buf ++ envText env) := by
  induction env generalizing buf with
  | nil => simp [serializeFrom, envText]
  | cons v vs ih =>
    have htext : envText (v :: vs) = varText v ++ envText vs := flatMap_cons
    have hvar : v.name ++ ofNat '='.toNat :: v.str ++ [0] = varText v := by
      simp [varText]
    have hlength : (varText v).length = (v.name ++ ofNat '='.toNat :: v.str).length + 1 := by
      rw [← hvar]
      exact length_append
    rw [htext, length_append] at h
    rw [serializeFrom, take_of_length_le (by omega), hvar, if_neg (by
      rw [length_append]
      omega), ih (by
      rw [length_append]
      omega), htext, append_assoc]

theorem envSerialize_eq {env : List EnvVar} (h : (envText env).length < len) :
    envSerialize env len = some (envText env ++ replicate (len - (envText env).length) 0) := by
  rw [envSerialize, if_neg (by omega), serializeFrom_eq (by simpa using h), Option.map_some,
    nil_append]

theorem length_takeWhile_append {sep : UInt8} {text : List UInt8} (h : sep ∉ text)
    (rest : List UInt8) : ((text ++ sep :: rest).takeWhile (· ≠ sep)).length = text.length := by
  have hne : ∀ b ∈ text, decide (b ≠ sep) = true := fun b hb =>
    decide_eq_true fun hsep => h (hsep ▸ hb)
  rw [takeWhile_append_of_pos hne, takeWhile_cons_of_neg (by simp), append_nil]

theorem loadVar_varText {v : EnvVar} (hv : VarOk v) (pre rest : List UInt8) :
    loadVar (pre ++ (varText v ++ rest)) pre.length =
      some (some ((v.name, v.str), pre.length + (varText v).length)) := by
  have hvar : varText v ++ rest = v.name ++ ofNat '='.toNat :: (v.str ++ 0 :: rest) := by
    simp [varText]
  have hlength : (varText v).length = v.name.length + 1 + v.str.length + 1 := by
    simp [varText]
    omega
  generalize hdata : pre ++ (varText v ++ rest) = data
  have hlen : data.length = pre.length + (varText v).length + rest.length := by
    rw [← hdata, length_append, length_append]
    omega
  have hdrop : data.drop pre.length = v.name ++ ofNat '='.toNat :: (v.str ++ 0 :: rest) := by
    rw [← hdata, drop_left, hvar]
  have hdrop' : data.drop (pre.length + v.name.length + 1) = v.str ++ 0 :: rest := by
    rw [add_assoc, ← drop_drop, hdrop, ← drop_drop, drop_left]
    rfl
  -- The first character is one of the name, or the separator.
  obtain ⟨first, hfirst, hzero⟩ : ∃ first, data[pre.length]? = some first ∧ ¬ first = 0 := by
    rw [← head?_drop, hdrop]
    cases hname : v.name with
    | nil => exact ⟨_, rfl, by decide⟩
    | cons b bs =>
      refine ⟨b, rfl, fun hb => hv.name_zero ?_⟩
      rw [hname, hb]
      exact mem_cons_self
  have hname : fetch data pre.length (pre.length + v.name.length - pre.length) = some v.name := by
    rw [← hdata, hvar]
    exact fetch_middle pre v.name _ rfl (by omega)
  have hstr : fetch data (pre.length + v.name.length + 1)
      (pre.length + v.name.length + 1 + v.str.length - (pre.length + v.name.length + 1)) =
        some v.str := by
    have hsplit : data = (pre ++ (v.name ++ [ofNat '='.toNat])) ++ (v.str ++ 0 :: rest) := by
      rw [← hdata, hvar]
      simp
    rw [hsplit]
    exact fetch_middle _ v.str _ (by simp [add_assoc]) (by omega)
  unfold loadVar
  rw [hfirst, some_bind, if_neg hzero, scan_eq (by omega) (by omega),
    hdrop, length_takeWhile_append hv.name_eq, some_bind,
    if_neg (by omega), scan_eq (by omega) (by omega), hdrop', length_takeWhile_append hv.str_zero,
    some_bind, if_neg (by omega), hname, some_bind, hstr,
    some_bind, cstr_of_not_mem hv.name_zero, cstr_of_not_mem hv.str_zero]
  congr 3
  omega

variable {env : List EnvVar}

theorem envSet_new {v : EnvVar} (hv : VarOk v) (hnew : v.name ∉ env.map EnvVar.name) :
    envSet env v.name v.str 0 = env ++ [{ v with flags := 0 }] := by
  have hname : v.name.take 63 = v.name := take_of_length_le (by
    have := hv.length_lt
    omega)
  have hunset : envUnset env v.name = env := by
    refine eraseP_of_forall_not fun w hw hbeq => hnew ?_
    rw [← eq_of_beq hbeq]
    exact mem_map_of_mem hw
  rw [envSet, hname, hunset]

theorem loadEnvFrom_envText (env₀ : List EnvVar) (hok : ∀ v ∈ env, VarOk v)
    (hnodup : ((env₀ ++ env).map EnvVar.name).Nodup) (pre : List UInt8) {k fuel : ℕ} (hk : 0 < k)
    (hfuel : env.length < fuel) :
    loadEnvFrom (pre ++ (envText env ++ replicate k 0)) fuel pre.length env₀ =
      some (env₀ ++ env.map fun v => { v with flags := 0 }) := by
  induction env generalizing env₀ pre fuel with
  | nil =>
    obtain ⟨m, rfl⟩ := exists_eq_succ_of_ne_zero (ne_zero_of_lt hfuel)
    obtain ⟨j, rfl⟩ := exists_eq_succ_of_ne_zero (ne_zero_of_lt hk)
    -- The first zero byte behind the text ends the loop.
    have hdata : pre ++ (envText [] ++ replicate (j + 1) 0) = pre ++ 0 :: replicate j 0 :=
      rfl
    have hlt : pre.length < (pre ++ 0 :: replicate j (0 : UInt8)).length := by
      rw [length_append, length_cons]
      omega
    have hvar : loadVar (pre ++ 0 :: replicate j 0) pre.length = some none := by
      have hfirst : (pre ++ 0 :: replicate j (0 : UInt8))[pre.length]? = some 0 := by
        rw [← head?_drop, drop_left, head?_cons]
      rw [loadVar, hfirst, some_bind, if_pos rfl]
    rw [hdata, loadEnvFrom, if_pos hlt, hvar, map_nil, append_nil]
    rfl
  | cons v vs ih =>
    obtain ⟨m, rfl⟩ := exists_eq_succ_of_ne_zero (ne_zero_of_lt hfuel)
    obtain ⟨hv, hvs⟩ := forall_mem_cons.mp hok
    have hnew : v.name ∉ env₀.map EnvVar.name := by
      rw [map_append] at hnodup
      intro hmem
      exact (nodup_append.mp hnodup).2.2 _ hmem _ mem_cons_self rfl
    have hdata : pre ++ (envText (v :: vs) ++ replicate k 0) =
        pre ++ (varText v ++ (envText vs ++ replicate k 0)) := by
      rw [envText, flatMap_cons, append_assoc]
      rfl
    have hlt : pre.length < (pre ++ (varText v ++ (envText vs ++ replicate k 0))).length := by
      simp [varText]
    have hnames : ((env₀ ++ [{ v with flags := 0 }] ++ vs).map EnvVar.name).Nodup := by
      simpa using hnodup
    have hrest := ih (env₀ ++ [{ v with flags := 0 }]) hvs hnames (pre ++ varText v)
      (lt_of_succ_lt_succ hfuel)
    rw [append_assoc, length_append] at hrest
    rw [hdata, loadEnvFrom, if_pos hlt, loadVar_varText hv, some_bind]
    dsimp only
    rw [envSet_new hv hnew, hrest, append_assoc]
    rfl

/-- An environment is loaded from its text and the zero bytes behind it. -/
theorem loadEnv_envText (hok : ∀ v ∈ env, VarOk v) (hnodup : (env.map EnvVar.name).Nodup) {k : ℕ}
    (hk : 0 < k) : loadEnv (envText env ++ replicate k 0) [] =
      some (env.map fun v => { v with flags := 0 }) := by
  have hlength : env.length ≤ (envText env).length := by
    clear hok hnodup
    induction env with
    | nil => exact le_refl 0
    | cons v vs ih =>
      rw [envText, flatMap_cons, length_append, length_cons]
      have hvar : 0 < (varText v).length := by simp [varText]
      unfold envText at ih
      omega
  have hfuel : env.length < (envText env ++ replicate k 0).length + 1 := by
    rw [length_append]
    omega
  have hloop := loadEnvFrom_envText [] hok hnodup [] hk hfuel
  exact hloop

/-! ## The header of a partition -/

variable (sig : UInt8)

theorem checksum_partHeader (units : ℕ) (name : List UInt8) :
    checksum (partHeader sig units name) = chrpChecksum (partHeader sig units name) := rfl

theorem signature_partHeader (units : ℕ) (name : List UInt8) :
    signature (partHeader sig units name) = sig := rfl

theorem hdrLen_partHeader {units : ℕ} (name : List UInt8) (h : units < 2^16) :
    hdrLen (partHeader sig units name) = units := by
  have htake : ((partHeader sig units name).drop 2).take 2 = leBytes 2 units := rfl
  rw [hdrLen, htake, ofLe_leBytes]
  omega

theorem hdrName_partHeader (units : ℕ) (name : List UInt8) :
    hdrName (partHeader sig units name) = name := rfl

theorem length_partHeader (units : ℕ) {name : List UInt8} (h : name.length = 12) :
    (partHeader sig units name).length = 16 := by
  rw [partHeader, length_cons, length_cons, length_append, leBytes_length, h]

/-! ## Partitions -/

/-- A partition that an image can hold. -/
structure PartOk (p : NvramPartition) : Prop where
  sig : p.sig ≠ chrpNvpartFree
  name : (cstr p.name.bytes).length < 12
  panic : cstr p.name.bytes ≠ panicName
  pos : 0 < p.data.length
  mod : p.data.length % 16 = 0
  /-- With the header, it is less than `2^16` units. -/
  lt : p.data.length + 16 < 0x100000

variable (p : NvramPartition)

/-- The bytes of a partition in an image. -/
def partBytes : List UInt8 :=
  partHeader p.sig (unitsOf p.data.length) (p.name.bytes.take 12) ++ p.data

variable (parts : List NvramPartition)

/-- The bytes of partitions in an image. -/
def partsBytes : List UInt8 := parts.flatMap partBytes

/-- What a partition is: its signature, its name and its data. -/
def NvramPartition.view : UInt8 × List UInt8 × List UInt8 :=
  (p.sig, cstr p.name.bytes, p.data)

theorem name_of_view {p q : NvramPartition} (h : p.view = q.view) :
    cstr p.name.bytes = cstr q.name.bytes := congrArg (fun v => v.2.1) h

theorem length_name_take : (p.name.bytes.take 12).length = 12 := by
  rw [length_take, p.name.length_bytes]
  rfl

theorem length_partBytes : (partBytes p).length = 16 + p.data.length := by
  rw [partBytes, length_append, length_partHeader _ _ (length_name_take p)]

theorem length_le_partsBytes : parts.length ≤ (partsBytes parts).length := by
  induction parts with
  | nil => exact le_refl 0
  | cons p ps ih =>
    have hlen := length_partBytes p
    unfold partsBytes at *
    rw [flatMap_cons, length_append, length_cons]
    omega

section

variable {p : NvramPartition} (h : PartOk p)

include h

theorem PartOk.units :
    unitsOf p.data.length * 0x10 = 16 + p.data.length ∧ unitsOf p.data.length < 2^16 := by
  have hmod := h.mod
  have hlt := h.lt
  unfold unitsOf
  omega

theorem PartOk.terminated : Terminated p := by
  have hname := h.name
  rw [Terminated, ← length_cstr_lt_iff, p.name.length_bytes]
  omega

theorem PartOk.exists_name_take :
    ∃ rest, p.name.bytes.take 12 = cstr p.name.bytes ++ 0 :: rest := by
  obtain ⟨rest, hrest⟩ := exists_cstr_append h.terminated
  have hname := h.name
  have htake : (p.name.bytes).take 12 = (cstr p.name.bytes ++ 0 :: rest).take 12 :=
    congrArg (take 12) hrest
  obtain ⟨k, hk⟩ : ∃ k, 12 - (cstr p.name.bytes).length = k + 1 :=
    exists_eq_succ_of_ne_zero (by omega)
  refine ⟨rest.take k, ?_⟩
  rw [htake, take_append, take_of_length_le (by omega), hk, take_succ_cons]

end

theorem prepareParts_eq {parts : List NvramPartition} (hok : ∀ p ∈ parts, PartOk p)
    (pre : List UInt8) {n : ℕ} (hfits : (partsBytes parts).length ≤ n) :
    prepareParts (pre ++ replicate n 0) pre.length parts =
      .ok (pre ++ partsBytes parts ++ replicate (n - (partsBytes parts).length) 0,
        pre.length + (partsBytes parts).length) := by
  induction parts generalizing pre n with
  | nil => simp [prepareParts, partsBytes]
  | cons p ps ih =>
    obtain ⟨hp, hps⟩ := forall_mem_cons.mp hok
    have hpos := hp.pos
    have hbytes : partsBytes (p :: ps) = partBytes p ++ partsBytes ps := flatMap_cons
    have hlen := length_partBytes p
    have hheader := length_partHeader p.sig (unitsOf p.data.length) (length_name_take p)
    rw [hbytes, length_append] at hfits
    have hputHeader := put_zeros pre
      (partHeader p.sig (unitsOf p.data.length) (p.name.bytes.take 12)) _ (n := n) rfl
      (by omega)
    have hputData := put_zeros
      (pre ++ partHeader p.sig (unitsOf p.data.length) (p.name.bytes.take 12)) p.data
      (pre.length + 16) (n := n - 16) (by rw [length_append, hheader]) (by omega)
    have hrest := ih hps (pre ++ partBytes p) (n := n - 16 - p.data.length) (by omega)
    rw [prepareParts, if_neg (by omega), if_neg (by
      rw [length_append, length_replicate]
      omega), hputHeader, hheader, ← append_assoc]
    refine (bind_of_eq_ok rfl).trans ?_
    rw [if_neg (by
      rw [length_append, length_append, length_replicate]
      omega), hputData]
    refine (bind_of_eq_ok rfl).trans ?_
    have hpre : pre ++ partHeader p.sig (unitsOf p.data.length) (p.name.bytes.take 12) ++
        (p.data ++ replicate (n - 16 - p.data.length) 0) =
          pre ++ partBytes p ++ replicate (n - 16 - p.data.length) 0 := by
      simp [partBytes]
    have hoffset : pre.length + unitsOf p.data.length * 0x10 = (pre ++ partBytes p).length := by
      rw [hp.units.1, length_append, hlen]
    rw [hpre, hoffset, hrest, hbytes, length_append, length_append, hlen,
      append_assoc pre, add_assoc, Nat.sub_sub, Nat.sub_sub, add_assoc]

/-- What is behind the partitions: the header of the free space, if there is room for it. -/
def tail (n : ℕ) : List UInt8 :=
  if 16 ≤ n then
    partHeader chrpNvpartFree (n / 0x10 % 2^16) (replicate 12 0) ++ replicate (n - 16) 0
  else replicate n 0

theorem length_tail (n : ℕ) : (tail n).length = n := by
  unfold tail
  split_ifs with h
  · rw [length_append, length_partHeader _ _ length_replicate, length_replicate]
    omega
  · exact length_replicate

/-- The header of the free space is written behind the partitions. -/
theorem prepareFree_eq (pre : List UInt8) (n : ℕ) :
    prepareFree (pre ++ replicate n 0) pre.length = .ok (pre ++ tail n) := by
  have hlen : (pre ++ replicate n (0 : UInt8)).length = pre.length + n := by
    rw [length_append, length_replicate]
  rw [prepareFree, hlen]
  by_cases hn : 16 ≤ n
  · have hsplit : pre ++ replicate n (0 : UInt8) =
        (pre ++ replicate 4 0) ++ (replicate 12 0 ++ replicate (n - 16) 0) := by
      rw [append_assoc, ← replicate_add, ← replicate_add, show 4 + (12 + (n - 16)) = n by omega]
    have hname : fetch (pre ++ replicate n 0) (pre.length + 4) 12 = some (replicate 12 0) := by
      rw [hsplit]
      exact fetch_middle _ _ _ (by simp) (by simp)
    have hheader : (partHeader chrpNvpartFree (n / 0x10 % 2^16) (replicate 12 0)).length =
        16 := length_partHeader _ _ length_replicate
    rw [if_pos (by omega), hname]
    refine (bind_of_eq_ok rfl).trans ?_
    rw [Nat.add_sub_cancel_left, put_zeros pre _ _ rfl (by omega), tail, if_pos hn]
    rfl
  · rw [if_neg (by omega), tail, if_neg hn]

/-! ## The image -/

variable (bank : NvramBank)

/-- The image behind the two checksums: the rest of the header, the partitions and the free
space. -/
def imageBody : List UInt8 :=
  replicate 12 0 ++
    (partsBytes bank.parts ++ tail (bank.len - 0x20 - (partsBytes bank.parts).length))

def image (adler32 : List UInt8 → BitVec 32) (bank : NvramBank) : List UInt8 :=
  appleHeader ++
    (leBytes 4 (adler32 ((imageBody bank).take (adlerLen bank.len))).toNat ++ imageBody bank)

def BankFits : Prop := 0x20 + (partsBytes bank.parts).length ≤ bank.len

theorem length_imageBody {bank : NvramBank} (h : BankFits bank) :
    (imageBody bank).length = bank.len - 0x14 := by
  unfold BankFits at h
  rw [imageBody, length_append, length_append, length_replicate, length_tail]
  omega

theorem length_image (adler32 : List UInt8 → BitVec 32) {bank : NvramBank} (h : BankFits bank) :
    (image adler32 bank).length = bank.len := by
  have hbody := length_imageBody h
  have happle : appleHeader.length = 16 := rfl
  unfold BankFits at h
  rw [image, length_append, length_append, leBytes_length]
  omega

/-- The bytes under `adler32` are inside an image. -/
theorem adlerLen_le (h : 0x14 ≤ len) : adlerLen len ≤ len - 0x14 := by
  by_cases hlen : len < 2^64
  · rw [adlerLen_of_lt hlen]
    omega
  · unfold adlerLen
    omega

/-- The bytes under `adler32` in an image whose first 20 bytes are given. -/
theorem fetch_adler {bank : NvramBank} (h : BankFits bank) (pre : List UInt8)
    (hpre : pre.length = 0x14) : fetch (pre ++ imageBody bank) 0x14 (adlerLen bank.len) =
      some ((imageBody bank).take (adlerLen bank.len)) := by
  have hbody := length_imageBody h
  have hlen : 0x20 + (partsBytes bank.parts).length ≤ bank.len := h
  have hle : adlerLen bank.len ≤ bank.len - 0x14 := adlerLen_le (by omega)
  have hinside : 0x14 + adlerLen bank.len ≤ (pre ++ imageBody bank).length := by
    rw [length_append]
    omega
  rw [fetch, if_pos hinside, ← hpre, drop_left]

/-- The header of an image before `adler` is assigned, with its padding. -/
def blankHeader : List UInt8 := appleHeader ++ replicate 16 0

theorem putAll_header (h : 0x20 ≤ len) :
    putAll (replicate len 0) [⟨0, appleHeader⟩, ⟨0x14, replicate 4 0⟩] =
      some (blankHeader ++ replicate (len - 0x20) 0) := by
  have happle : appleHeader.length = 16 := rfl
  have hfirst := put_zeros [] appleHeader 0 (n := len) rfl (by omega)
  have hsecond := put_zeros (appleHeader ++ replicate 4 0) (replicate 4 0) 0x14
    (n := len - 20) rfl (by rw [length_replicate]; omega)
  have hsplit : appleHeader ++ replicate (len - 16) 0 =
      appleHeader ++ replicate 4 0 ++ replicate (len - 20) 0 := by
    rw [append_assoc, ← replicate_add, show 4 + (len - 20) = len - 16 by omega]
  have hjoin : appleHeader ++ replicate 4 0 ++ (replicate 4 0 ++ replicate (len - 20 - 4) 0) =
        blankHeader ++ replicate (len - 0x20) 0 := by
    rw [blankHeader, append_assoc, append_assoc, ← replicate_add, ← replicate_add, ← replicate_add,
      show 4 + (4 + (len - 20 - 4)) = 16 + (len - 0x20) by omega]
  rw [nil_append, nil_append, happle, hsplit] at hfirst
  rw [length_replicate, hjoin] at hsecond
  rw [putAll, foldlM_cons, hfirst, some_bind, foldlM_cons, hsecond]
  rfl

theorem nvramPrepareBank_eq (adler32 : List UInt8 → BitVec 32) {bank : NvramBank}
    (hok : ∀ p ∈ bank.parts, PartOk p) (hfits : BankFits bank) :
    nvramPrepareBank adler32 bank = .ok (image adler32 bank) := by
  have hlen : 0x20 + (partsBytes bank.parts).length ≤ bank.len := hfits
  have hparts := prepareParts_eq hok blankHeader (n := bank.len - 0x20) (by omega)
  have hfree := prepareFree_eq (blankHeader ++ partsBytes bank.parts)
    (bank.len - 0x20 - (partsBytes bank.parts).length)
  rw [length_append] at hfree
  -- The buffer before `adler` is assigned.
  have hbuf : blankHeader ++ partsBytes bank.parts ++
      tail (bank.len - 0x20 - (partsBytes bank.parts).length) =
        (appleHeader ++ replicate 4 0) ++ imageBody bank := by
    rfl
  rw [hbuf] at hfree
  have hadler := fetch_adler hfits (appleHeader ++ replicate 4 0) rfl
  unfold nvramPrepareBank
  rw [putAll_header (by omega)]
  refine (bind_of_eq_ok rfl).trans ?_
  refine (bind_of_eq_ok hparts).trans ?_
  refine (bind_of_eq_ok hfree).trans ?_
  rw [hadler]
  refine (bind_of_eq_ok rfl).trans ?_
  rfl

/-! ## Parsing the image -/

theorem inspect_partHeader {p : NvramPartition} (hp : PartOk p) {len offset : ℕ}
    (h : offset + 16 + p.data.length ≤ len) :
    inspect len offset (partHeader p.sig (unitsOf p.data.length) (p.name.bytes.take 12)) =
      .part (offset + 16 + p.data.length) := by
  obtain ⟨hunits, hlt⟩ := hp.units
  have hpanic : ¬ p.name.bytes.take 12 = panicName ++ [0] := by
    intro heq
    obtain ⟨rest, hrest⟩ := hp.exists_name_take
    have hcstr : cstr (p.name.bytes.take 12) = cstr p.name.bytes := by
      rw [hrest, cstr_append_zero zero_not_mem_cstr]
    refine hp.panic (hcstr.symm.trans ?_)
    rw [heq]
    decide
  rw [inspect, checksum_partHeader, signature_partHeader, hdrLen_partHeader _ _ hlt,
    hdrName_partHeader, if_neg (by simp), if_neg hp.sig, if_neg (by omega), if_neg hpanic]
  congr 1
  omega

/-- A partition is read from its bytes. -/
theorem readPartition_partBytes {p : NvramPartition} (hp : PartOk p) (pre rest : List UInt8) :
    ∃ p', readPartition (pre ++ (partBytes p ++ rest)) pre.length
        (partHeader p.sig (unitsOf p.data.length) (p.name.bytes.take 12)) = some p' ∧
      p'.view = p.view := by
  obtain ⟨hunits, hlt⟩ := hp.units
  obtain ⟨tailName, htail⟩ := hp.exists_name_take
  have hname := hp.name
  -- The copy of the name starts behind the first four bytes of the header.
  have hsrc : (pre ++ (partBytes p ++ rest)).drop (pre.length + 4) =
      cstr p.name.bytes ++ 0 :: (tailName ++ (p.data ++ rest)) := by
    rw [partBytes, partHeader, htail]
    simp
  have hdata : fetch (pre ++ (partBytes p ++ rest)) (pre.length + 0x10)
      (hdrLen (partHeader p.sig (unitsOf p.data.length) (p.name.bytes.take 12)) * 0x10 - 0x10) =
        some p.data := by
    rw [hdrLen_partHeader _ _ hlt, partBytes, append_assoc, ← append_assoc]
    refine fetch_middle _ _ _ ?_ (by omega)
    rw [length_append, length_partHeader _ _ (length_name_take p)]
  have hcopy : copyName (cstr p.name.bytes ++ 0 :: (tailName ++ (p.data ++ rest))) ≠ none := by
    rw [copyName, Ne, Option.pmap_eq_none_iff, strncpy_eq_none_iff]
    rintro ⟨-, hzero⟩
    exact hzero (by simp)
  obtain ⟨name, hcopied⟩ := Option.ne_none_iff_exists'.mp hcopy
  refine ⟨⟨p.sig, p.data, name⟩, ?_, ?_⟩
  · rw [readPartition, hsrc, hcopied, hdata]
    rfl
  · have hcstr := of_copyName hcopied
    rw [cstr_append_zero zero_not_mem_cstr, take_of_length_le (by omega)] at hcstr
    rw [NvramPartition.view, NvramPartition.view, hcstr]

section

variable {parts : List NvramPartition}

/-- The loop over the partitions gives them back. -/
theorem parseFrom_parts (hok : ∀ p ∈ parts, PartOk p) (pre : List UInt8) {n fuel : ℕ}
    (hfuel : parts.length < fuel) :
    ∃ located, parseFrom (pre ++ (partsBytes parts ++ tail n)) fuel pre.length =
        some ⟨located, none⟩ ∧
      located.map (fun q => q.2.view) = parts.map NvramPartition.view := by
  induction parts generalizing pre fuel with
  | nil =>
    obtain ⟨m, rfl⟩ := exists_eq_succ_of_ne_zero (ne_zero_of_lt hfuel)
    refine ⟨[], ?_, rfl⟩
    have hbytes : partsBytes [] = [] := rfl
    rw [hbytes, nil_append, parseFrom, length_append, length_tail]
    by_cases hn : 16 ≤ n
    · have hheader : fetch (pre ++ tail n) pre.length 16 =
          some (partHeader chrpNvpartFree (n / 0x10 % 2^16) (replicate 12 0)) := by
        rw [tail, if_pos hn]
        exact fetch_middle pre _ _ rfl (length_partHeader _ _ length_replicate).symm
      rw [if_pos (by omega), hheader, some_bind, inspect,
        checksum_partHeader, signature_partHeader, if_neg (by simp), if_pos rfl]
    · rw [if_neg (by omega)]
  | cons p ps ih =>
    obtain ⟨m, rfl⟩ := exists_eq_succ_of_ne_zero (ne_zero_of_lt hfuel)
    obtain ⟨hp, hps⟩ := forall_mem_cons.mp hok
    have hbytes : partsBytes (p :: ps) ++ tail n = partBytes p ++ (partsBytes ps ++ tail n) := by
      rw [partsBytes, flatMap_cons, append_assoc]
      rfl
    have hlen := length_partBytes p
    have hbuf : (pre ++ (partBytes p ++ (partsBytes ps ++ tail n))).length =
        pre.length + (16 + p.data.length) + (partsBytes ps ++ tail n).length := by
      rw [length_append, length_append]
      omega
    have hheader : fetch (pre ++ (partBytes p ++ (partsBytes ps ++ tail n))) pre.length 16 =
        some (partHeader p.sig (unitsOf p.data.length) (p.name.bytes.take 12)) := by
      rw [partBytes, append_assoc]
      exact fetch_middle pre _ _ rfl (length_partHeader _ _ (length_name_take p)).symm
    obtain ⟨p', hread, hview⟩ := readPartition_partBytes hp pre (partsBytes ps ++ tail n)
    obtain ⟨located, hlocated, hviews⟩ := ih hps (pre ++ partBytes p) (lt_of_succ_lt_succ hfuel)
    rw [append_assoc, length_append, hlen, ← add_assoc] at hlocated
    refine ⟨(pre.length, p') :: located, ?_, ?_⟩
    · rw [hbytes, parseFrom, if_pos (by omega), hheader, some_bind,
        inspect_partHeader hp (by omega)]
      dsimp only
      rw [hread, hlocated]
      rfl
    · rw [map_cons, map_cons, hviews, hview]

theorem nvramParse_image (adler32 : List UInt8 → BitVec 32) {bank : NvramBank}
    (hok : ∀ p ∈ bank.parts, PartOk p) (hfits : BankFits bank) :
    ∃ parsed, nvramParse adler32 (image adler32 bank) = some parsed ∧ parsed.report = none ∧
      (parsed.bank bank.len).parts.map NvramPartition.view =
        bank.parts.map NvramPartition.view := by
  have hlen := length_image adler32 hfits
  have hword := leBytes_length 4 (adler32 ((imageBody bank).take (adlerLen bank.len))).toNat
  have hhdr : fetch (image adler32 bank) 0 16 = some appleHeader :=
    fetch_middle [] appleHeader _ rfl rfl
  have hbytes : fetch (image adler32 bank) 0x14 (adlerLen bank.len) =
      some ((imageBody bank).take (adlerLen bank.len)) := by
    rw [image, ← append_assoc]
    refine fetch_adler hfits _ ?_
    rfl
  have hstored : fetch (image adler32 bank) 0x10 4 =
      some (leBytes 4 (adler32 ((imageBody bank).take (adlerLen bank.len))).toNat) :=
    fetch_middle appleHeader _ _ rfl hword.symm
  -- The partitions start behind the 32 bytes of the header.
  have hfuel : bank.parts.length < (image adler32 bank).length + 1 := by
    have hparts := length_le_partsBytes bank.parts
    unfold BankFits at hfits
    omega
  obtain ⟨located, hparse, hviews⟩ := parseFrom_parts hok
    (appleHeader ++ leBytes 4 (adler32 ((imageBody bank).take (adlerLen bank.len))).toNat ++
      replicate 12 0) hfuel
  refine ⟨⟨located, none⟩, ?_, rfl, ?_⟩
  · unfold nvramParse
    rw [hhdr, some_bind, if_neg (by decide), hlen, hbytes,
      some_bind, hstored, some_bind, ofNat_ofLe_leBytes (by decide),
      if_neg (by simp)]
    exact hparse
  · rw [← hviews, Parsed.bank, map_map]
    rfl

/-! ## Storing the environment -/

/-- A partition has the name of the one with the environment. -/
def isCommon : Bool := decide (cstr p.name.bytes = common)

/-- What is asked of a state: its environment and its partitions can be held by an image, and the
text of the environment leaves room in the partition for it. -/
structure Storable (s : AppleNvramState) : Prop where
  vars : ∀ v ∈ s.env, VarOk v
  nodup : (s.env.map EnvVar.name).Nodup
  parts : ∀ p ∈ s.bank.parts, PartOk p
  fits : BankFits s.bank
  one : s.bank.parts.countP isCommon = 1
  /-- The text of the environment is shorter than its data. -/
  text : ∀ p ∈ s.bank.parts, isCommon p → (envText s.env).length < p.data.length

/-- The data of a partition of `len` bytes that holds an environment. -/
def envData (env : List EnvVar) (len : ℕ) : List UInt8 :=
  envText env ++ replicate (len - (envText env).length) 0

/-- The partition with its data replaced, if it is for the environment. -/
def stored (env : List EnvVar) (p : NvramPartition) : NvramPartition :=
  if isCommon p then { p with data := envData env p.data.length } else p

/-- The bank with the environment stored. -/
def storedBank (s : AppleNvramState) : NvramBank := ⟨s.bank.parts.map (stored s.env), s.bank.len⟩

theorem exists_modify_eq_map (h : parts.countP isCommon = 1) (f : NvramPartition → NvramPartition) :
    ∃ i, parts.findIdx? isCommon = some i ∧
      parts.modify i f = parts.map fun p => if isCommon p then f p else p := by
  induction parts with
  | nil => exact absurd h (by decide)
  | cons p ps ih =>
    by_cases hp : isCommon p
    · rw [countP_cons_of_pos hp] at h
      have hnone : ∀ q ∈ ps, (if isCommon q then f q else q) = q := by
        intro q hq
        exact if_neg (countP_eq_zero.mp (succ_inj.mp h) q hq)
      refine ⟨0, by rw [findIdx?_cons, if_pos hp], ?_⟩
      rw [modify_zero_cons, map_cons, if_pos hp, map_congr_left hnone, map_id']
    · rw [countP_cons_of_neg hp] at h
      obtain ⟨i, hi, hmodify⟩ := ih h
      refine ⟨i + 1, by rw [findIdx?_cons, if_neg hp, hi]; rfl, ?_⟩
      rw [modify_succ_cons, map_cons, if_neg hp, hmodify]

end

section Storing

variable {s : AppleNvramState} (h : Storable s)

include h

theorem Storable.storeCommon_eq :
    storeCommon s.env s.bank.parts = some (s.bank.parts.map (stored s.env)) := by
  obtain ⟨i, hi, hmodify⟩ := exists_modify_eq_map h.one (storeEnv s.env)
  have hfind : findPartIdx common s.bank.parts = some (some i) := by
    rw [findPartIdx_eq (fun p hp => (h.parts p hp).terminated) (by decide)]
    exact congrArg some hi
  rw [storeCommon, hfind, some_bind]
  dsimp only
  rw [hmodify]
  refine congrArg some (map_congr_left fun p hp => ?_)
  unfold stored
  split_ifs with hcommon
  · rw [storeEnv, envSerialize_eq (h.text p hp hcommon)]
    rfl
  · rfl

theorem Storable.length_stored {p : NvramPartition} (hp : p ∈ s.bank.parts) :
    (stored s.env p).data.length = p.data.length := by
  unfold stored
  split_ifs with hcommon
  · have htext := h.text p hp hcommon
    rw [envData, length_append, length_replicate]
    omega
  · rfl

theorem Storable.partOk_stored {p : NvramPartition} (hp : p ∈ s.bank.parts) :
    PartOk (stored s.env p) := by
  obtain ⟨hsig, hname, hpanic, hpos, hmod, hlt⟩ := h.parts p hp
  have hlen := h.length_stored hp
  have hkeep : (stored s.env p).sig = p.sig ∧ (stored s.env p).name = p.name := by
    unfold stored
    split_ifs
    · exact ⟨rfl, rfl⟩
    · exact ⟨rfl, rfl⟩
  refine ⟨hkeep.1 ▸ hsig, hkeep.2 ▸ hname, hkeep.2 ▸ hpanic, ?_, ?_, ?_⟩
  · rw [hlen]
    exact hpos
  · rw [hlen]
    exact hmod
  · rw [hlen]
    exact hlt

theorem Storable.partOk_storedBank : ∀ p ∈ (storedBank s).parts, PartOk p :=
  forall_mem_map.mpr fun _ hp => h.partOk_stored hp

theorem Storable.bankFits_stored : BankFits (storedBank s) := by
  have hbytes : (partsBytes (s.bank.parts.map (stored s.env))).length =
      (partsBytes s.bank.parts).length := by
    rw [partsBytes, partsBytes, flatMap_map, length_flatMap, length_flatMap]
    refine congrArg sum (map_congr_left fun p hp => ?_)
    rw [length_partBytes, length_partBytes, h.length_stored hp]
  have hfits : 0x20 + (partsBytes s.bank.parts).length ≤ s.bank.len := h.fits
  rw [← hbytes] at hfits
  exact hfits

theorem Storable.appleNvramSerialize_eq {adler32 : List UInt8 → BitVec 32} {size : ℕ}
    (hsize : s.bank.len ≤ size) : appleNvramSerialize adler32 s size =
      .ok (image adler32 (storedBank s), { s with bank := storedBank s }) := by
  have hlen := length_image adler32 h.bankFits_stored
  unfold appleNvramSerialize
  rw [h.storeCommon_eq]
  refine (bind_of_eq_ok rfl).trans ?_
  have hprepare := nvramPrepareBank_eq adler32 h.partOk_storedBank h.bankFits_stored
  refine (bind_of_eq_ok hprepare).trans ?_
  rw [take_of_length_le (hlen.le.trans hsize)]
  rfl

/-- The environment is loaded from partitions that look like the stored ones. -/
theorem Storable.appleNvramLoadEnv_eq {bank : NvramBank}
    (hviews : bank.parts.map NvramPartition.view = (storedBank s).parts.map NvramPartition.view) :
    appleNvramLoadEnv ⟨bank, []⟩ = some ⟨bank, s.env.map fun v => { v with flags := 0 }⟩ := by
  -- A partition of the bank has the name and the data of a stored one.
  have hsame : ∀ p ∈ bank.parts, ∃ q ∈ s.bank.parts, p.view = (stored s.env q).view := by
    intro p hp
    have hmem := hviews ▸ mem_map_of_mem (f := NvramPartition.view) hp
    obtain ⟨q', hq', hview⟩ := mem_map.mp hmem
    obtain ⟨q, hq, rfl⟩ := mem_map.mp hq'
    exact ⟨q, hq, hview.symm⟩
  have hterm : ∀ p ∈ bank.parts, Terminated p := by
    intro p hp
    obtain ⟨q, hq, hview⟩ := hsame p hp
    have hname := name_of_view hview
    have hlt := (h.partOk_stored hq).name
    rw [Terminated, ← length_cstr_lt_iff, p.name.length_bytes, hname]
    omega
  obtain ⟨q, hq, hcommon⟩ : ∃ q ∈ s.bank.parts, isCommon q := by
    refine countP_pos_iff.mp ?_
    rw [h.one]
    exact one_pos
  have hfound : (bank.parts.find? fun p => decide (cstr p.name.bytes = common)).isSome := by
    have hmem := hviews.symm ▸ mem_map_of_mem (f := NvramPartition.view)
      (mem_map_of_mem (f := stored s.env) hq)
    obtain ⟨p, hp, hview⟩ := mem_map.mp hmem
    have hname := name_of_view hview
    rw [find?_isSome]
    refine ⟨p, hp, decide_eq_true (hname.trans ?_)⟩
    rw [stored, if_pos hcommon]
    exact of_decide_eq_true hcommon
  obtain ⟨p, hfind⟩ := Option.isSome_iff_exists.mp hfound
  have hpname := find?_some hfind
  -- What is found is the partition with the environment.
  obtain ⟨r, hr, hview⟩ := hsame p (mem_of_find?_eq_some hfind)
  have hrcommon : isCommon r := by
    have hname := name_of_view hview
    unfold stored at hname
    split_ifs at hname with hif
    · exact hif
    · exact decide_eq_true (hname.symm.trans (of_decide_eq_true hpname))
  have hdata : p.data = envData s.env r.data.length := by
    have hdata : p.data = (stored s.env r).data := congrArg (fun v => v.2.2) hview
    rw [hdata, stored, if_pos hrcommon]
  have htext := h.text r hr hrcommon
  unfold appleNvramLoadEnv
  rw [nvramFindPart_eq hterm (by decide), hfind, some_bind, some_bind, hdata, envData,
    loadEnv_envText h.vars h.nodup (Nat.sub_pos_of_lt htext)]
  rfl

end Storing

/-! ## The round trip -/

/-- A variable without its flags. -/
def EnvVar.binding (v : EnvVar) : List UInt8 × List UInt8 := (v.name, v.str)

/-- For every state whose environment and partitions an image can hold, with a text of the
environment that is shorter than the partition for it, serialising succeeds, the bytes are parsed
without a report into the same partitions in the same order, the one for the environment holding the
text, and loading gives the same variables with the same values in the same order. -/
theorem nvram_round_trip (adler32 : List UInt8 → BitVec 32) {s : AppleNvramState} {size : ℕ}
    (h : Storable s) (hsize : s.bank.len ≤ size) :
    ∃ bytes s' parsed s'', appleNvramSerialize adler32 s size = .ok (bytes, s') ∧
      nvramParse adler32 bytes = some parsed ∧ parsed.report = none ∧
      (parsed.bank bytes.length).parts.map NvramPartition.view =
        s.bank.parts.map (fun p => (stored s.env p).view) ∧
      appleNvramLoadEnv ⟨parsed.bank bytes.length, []⟩ = some s'' ∧
      s''.env.map EnvVar.binding = s.env.map EnvVar.binding := by
  have hlen : (image adler32 (storedBank s)).length = s.bank.len :=
    length_image adler32 h.bankFits_stored
  obtain ⟨parsed, hparse, hreport, hviews⟩ :=
    nvramParse_image adler32 h.partOk_storedBank h.bankFits_stored
  have hload := h.appleNvramLoadEnv_eq hviews
  refine ⟨_, _, parsed, _, h.appleNvramSerialize_eq hsize, hparse, hreport, ?_, hlen ▸ hload, ?_⟩
  · exact hviews.trans map_map
  · rw [map_map]
    rfl

/-- A bank with a partition of 32 bytes for the environment and one more, and two variables. -/
def sampleState : AppleNvramState where
  bank := ⟨[⟨0x70, replicate 32 0, newCommon.name⟩,
    ⟨0x70, replicate 16 7, ⟨ascii ['s', 'y', 's'] ++ replicate 13 0, by decide⟩⟩], 0x100⟩
  env := [⟨ascii ['b', 'o', 'o', 't'], ascii ['x'], 0⟩, ⟨ascii ['a'], [], 0⟩]

/-- The round trip of a state with two variables and two partitions. -/
theorem nvram_round_trip_sample : ∃ bytes s' parsed s'',
    appleNvramSerialize adler32 sampleState 0x2000 = .ok (bytes, s') ∧
      nvramParse adler32 bytes = some parsed ∧ parsed.report = none ∧
      (parsed.bank bytes.length).parts.map NvramPartition.view =
        sampleState.bank.parts.map (fun p => (stored sampleState.env p).view) ∧
      appleNvramLoadEnv ⟨parsed.bank bytes.length, []⟩ = some s'' ∧
      s''.env.map EnvVar.binding = sampleState.env.map EnvVar.binding := by
  refine nvram_round_trip adler32 ⟨?_, by decide, ?_, ?_, by decide, by decide⟩ (by decide)
  · refine forall_mem_cons.mpr ⟨⟨by decide, by decide, by decide, by decide⟩, ?_⟩
    exact forall_mem_singleton.mpr ⟨by decide, by decide, by decide, by decide⟩
  · refine forall_mem_cons.mpr
      ⟨⟨by decide, by decide, by decide, by decide, by decide, by decide⟩, ?_⟩
    exact forall_mem_singleton.mpr
      ⟨by decide, by decide, by decide, by decide, by decide, by decide⟩
  · unfold BankFits
    decide

/-- A bank with a partition of 16 bytes for the environment, and a variable whose text is as
long. -/
def fullState : AppleNvramState where
  bank := ⟨[⟨0x70, replicate 16 0, newCommon.name⟩], 0x100⟩
  env := [⟨ascii ['a'], replicate 13 (ofNat 'x'.toNat), 0⟩]

/-- What is loaded from the bytes of a serialised state. -/
def reload (adler32 : List UInt8 → BitVec 32) (s : AppleNvramState) (size : ℕ) :
    Option (List (List UInt8 × List UInt8)) := do
  let (bytes, _) ← (appleNvramSerialize adler32 s size).toOption
  let parsed ← nvramParse adler32 bytes
  let s' ← appleNvramLoadEnv ⟨parsed.bank bytes.length, []⟩
  some (s'.env.map EnvVar.binding)

/-- A text that fills the partition is refused, and the variable is lost; and a partition of
`0xFFFF0` bytes is written with a length of zero units. -/
theorem nvram_round_trip_full :
    ((∀ v ∈ fullState.env, VarOk v) ∧ (fullState.env.map EnvVar.name).Nodup ∧
      (∀ p ∈ fullState.bank.parts, PartOk p) ∧ BankFits fullState.bank ∧
      fullState.bank.parts.countP isCommon = 1 ∧
      (∀ p ∈ fullState.bank.parts, isCommon p → (envText fullState.env).length ≤ p.data.length) ∧
      reload adler32 fullState 0x2000 = some []) ∧ unitsOf 0xFFFF0 = 0 := by
  refine ⟨⟨?_, by decide, ?_, ?_, by decide, by decide, by decide +kernel⟩, by decide⟩
  · exact forall_mem_singleton.mpr ⟨by decide, by decide, by decide, by decide⟩
  · exact forall_mem_singleton.mpr
      ⟨by decide, by decide, by decide, by decide, by decide, by decide⟩
  · unfold BankFits
    decide

end Inferno.Nvram
