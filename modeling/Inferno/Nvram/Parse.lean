import Inferno.Nvram.Model

/-!
# Parsing an image

The loop over the partitions stays inside the image and takes the data of a partition from between
its header and the next one. Two reads are not bounded by the length of the image: the header of the
image and the bytes under `adler32`, for an image that is too short for them, and the copy of a
name, which takes up to 16 bytes from a field of 12. A name that fills its field is copied with what
follows the header, unless that is a zero byte (`faithful_iff`).

Names that end are compared inside their arrays (`findPartIdx_eq`), and the environment is loaded
inside the data of its partition, whatever that is (`exists_loadEnv`).
-/

namespace Inferno.Nvram

open Common List Option

/-! ## The environment -/

variable {data : List UInt8}

variable {buf : List UInt8} {len : ℕ} {blk : List UInt8} {parsed : Parsed}

/-- The loop to a separator stops there, or at the end of the data. -/
theorem scan_eq {sep : UInt8} {fuel i : ℕ} (hi : i ≤ data.length) (h : data.length < i + fuel) :
    scan data sep fuel i = some (i + ((data.drop i).takeWhile (· ≠ sep)).length) := by
  induction fuel generalizing i with
  | zero => omega
  | succ fuel ih =>
    rw [scan]
    split_ifs with hlt
    · have hnext := ih (i := i + 1) (by omega) (by omega)
      rw [getElem?_eq_getElem hlt, drop_eq_getElem_cons hlt, some_bind]
      by_cases hsep : data[i] = sep
      · rw [if_pos hsep, takeWhile_cons_of_neg (by simp [hsep]), length_nil, Nat.add_zero]
      · rw [if_neg hsep, hnext, takeWhile_cons_of_pos (by simp [hsep]), length_cons,
          Nat.add_assoc, Nat.add_comm 1]
    · rw [drop_eq_nil_of_le (by omega)]
      rfl

/-- A round of loading is inside the data, and it advances if it loads a variable. -/
theorem exists_loadVar {cnt : ℕ} (h : cnt < data.length) :
    ∃ r, loadVar data cnt = some r ∧ ∀ v next, r = some (v, next) → cnt < next := by
  unfold loadVar
  rw [getElem?_eq_getElem h, some_bind]
  split_ifs with hfirst
  · exact ⟨none, rfl, by simp⟩
  · rw [scan_eq (by omega) (by omega), some_bind]
    generalize ((data.drop cnt).takeWhile (· ≠ UInt8.ofNat '='.toNat)).length = nameLen
    split_ifs with hname
    · exact ⟨none, rfl, by simp⟩
    · rw [scan_eq (by omega) (by omega), some_bind]
      generalize ((data.drop (cnt + nameLen + 1)).takeWhile (· ≠ 0)).length = dataLen
      split_ifs with hdata
      · exact ⟨none, rfl, by simp⟩
      · -- Both strings end inside the data, so they can be copied.
        obtain ⟨name, hfetchName, -⟩ := (exactly_fetch data cnt
          (cnt + nameLen - cnt)).exists_some (by omega)
        obtain ⟨str, hfetchStr, -⟩ := (exactly_fetch data (cnt + nameLen + 1)
          (cnt + nameLen + 1 + dataLen - (cnt + nameLen + 1))).exists_some (by omega)
        rw [hfetchName, hfetchStr]
        refine ⟨_, rfl, ?_⟩
        rintro v next ⟨rfl, rfl⟩
        omega

theorem exists_loadEnvFrom {fuel cnt : ℕ} (hfuel : 0 < fuel) (h : data.length < cnt + fuel)
    (env : List EnvVar) : ∃ env', loadEnvFrom data fuel cnt env = some env' := by
  induction fuel generalizing cnt env with
  | zero => omega
  | succ fuel ih =>
    rw [loadEnvFrom]
    split_ifs with hcnt
    · obtain ⟨r, hr, hnext⟩ := exists_loadVar hcnt
      rw [hr]
      rcases r with - | ⟨⟨name, str⟩, next⟩
      · exact ⟨env, rfl⟩
      · have hlt := hnext _ _ rfl
        exact ih (by omega) (by omega) _
    · exact ⟨env, rfl⟩

theorem exists_loadEnv (data : List UInt8) (env : List EnvVar) :
    ∃ env', loadEnv data env = some env' :=
  exists_loadEnvFrom (by omega) (by omega) env

/-! ## Names -/

/-- The name of a partition ends inside its array. -/
def Terminated (p : NvramPartition) : Prop := (0 : UInt8) ∈ p.name.bytes

/-- Partitions whose names end are searched inside the names, and the first with the name is
found. -/
theorem findPartIdx_eq {parts : List NvramPartition} {key : List UInt8}
    (h : ∀ p ∈ parts, Terminated p) (hkey : (0 : UInt8) ∉ key) :
    findPartIdx key parts = some (parts.findIdx? fun p => decide (cstr p.name.bytes = key)) := by
  induction parts with
  | nil => rfl
  | cons p ps ih =>
    obtain ⟨hp, hps⟩ := forall_mem_cons.mp h
    rw [findPartIdx, strcmp_eq hp hkey, ih hps, findIdx?_cons]
    cases decide (cstr p.name.bytes = key) <;> rfl

section

variable (buf : List UInt8) (offset : ℕ)

/-- The bytes of an image in the field for the name, in the header at an offset. -/
def nameField : List UInt8 := (buf.drop (offset + 4)).take 12

/-- The name in a header ends in its field, or is followed by a zero byte of the image. -/
def NameEnds : Prop :=
  (0 : UInt8) ∈ nameField buf offset ∨ buf[offset + 16]? = some 0

end

theorem copyName_ne_none {offset : ℕ} (h : NameEnds buf offset) :
    copyName (buf.drop (offset + 4)) ≠ none := by
  unfold copyName
  rw [Ne, pmap_eq_none_iff, strncpy_eq_none_iff]
  rintro ⟨-, hzero⟩
  rcases h with hfield | hnext
  · exact hzero (mem_of_mem_take hfield)
  · have hget : (buf.drop (offset + 4))[12]? = some 0 := by
      rw [getElem?_drop]
      exact hnext
    exact hzero (mem_of_getElem? hget)

theorem of_copyName {src : List UInt8} {name : NameArray} (h : copyName src = some name) :
    cstr name.bytes = (cstr src).take 16 := by
  obtain ⟨bytes, hlen, hcopy, rfl⟩ := pmap_eq_some_iff.mp h
  exact (of_strncpy hcopy).2

theorem name_eq_iff {offset : ℕ} {name : NameArray} (hoffset : offset + 16 ≤ buf.length)
    (h : copyName (buf.drop (offset + 4)) = some name) :
    (0 : UInt8) ∈ name.bytes ∧ cstr name.bytes = cstr (nameField buf offset) ↔
      NameEnds buf offset := by
  have hcopy := of_copyName h
  -- The array is longer than its string exactly if the string ends in it.
  have hterm : (0 : UInt8) ∈ name.bytes ↔ (cstr name.bytes).length < 16 := by
    rw [← length_cstr_lt_iff, name.length_bytes]
  rw [hterm, NameEnds]
  have hsplit : buf.drop (offset + 4) = nameField buf offset ++ buf.drop (offset + 16) := by
    have hdrop : buf.drop (offset + 16) = (buf.drop (offset + 4)).drop 12 := by
      rw [drop_drop]
    rw [nameField, hdrop, take_append_drop]
  have hlen : (nameField buf offset).length = 12 := by
    rw [nameField, length_take, length_drop]
    omega
  rw [hsplit] at hcopy
  by_cases hzero : (0 : UInt8) ∈ nameField buf offset
  · have hshort := length_cstr_lt_iff.mpr hzero
    rw [cstr_append_of_mem hzero, take_of_length_le (by omega)] at hcopy
    exact iff_of_true ⟨by rw [hcopy]; omega, hcopy⟩ (.inl hzero)
  · rw [cstr_append_of_not_mem hzero] at hcopy
    rw [cstr_of_not_mem hzero, or_iff_right hzero]
    -- The name fills its field, so the byte behind the header decides.
    cases hnext : buf.drop (offset + 16) with
    | nil =>
      exfalso
      have hnone : copyName (buf.drop (offset + 4)) = none := by
        rw [hsplit, hnext, append_nil, copyName, pmap_eq_none_iff, strncpy_eq_none_iff]
        exact ⟨by omega, hzero⟩
      rw [hnone] at h
      cases h
    | cons b bs =>
      have hget : buf[offset + 16]? = some b := by
        rw [← head?_drop, hnext, head?_cons]
      rw [hnext] at hcopy
      rw [hget, some_inj]
      by_cases hb : b = 0
      · have hcstr : cstr (b :: bs) = [] := by
          rw [hb]
          rfl
        rw [hcstr, append_nil, take_of_length_le (by omega)] at hcopy
        exact iff_of_true ⟨by rw [hcopy]; omega, hcopy⟩ hb
      · have hcstr : cstr (b :: bs) = b :: cstr bs := takeWhile_cons_of_pos (by simp [hb])
        refine iff_of_false ?_ hb
        rintro ⟨-, heq⟩
        have hlength := congrArg length (heq.symm.trans hcopy)
        rw [length_take, length_append, hcstr, length_cons] at hlength
        omega

/-! ## The loop over the partitions -/

/-- The offsets of the headers that the loop reads as partitions. -/
def headersFrom (buf : List UInt8) : ℕ → ℕ → List ℕ
  | 0, _ => []
  | fuel + 1, offset =>
    if offset + 16 ≤ buf.length then
      match inspect buf.length offset ((buf.drop offset).take 16) with
      | .stop _ => []
      | .skip next => headersFrom buf fuel next
      | .part next => offset :: headersFrom buf fuel next
    else []

/-- The offsets of the headers of the partitions of an image. -/
def headers (buf : List UInt8) : List ℕ := headersFrom buf (buf.length + 1) 0x20

/-- A partition is a copy of what is at its offset. -/
structure ReadAt (buf : List UInt8) (q : ℕ × NvramPartition) : Prop where
  header : q.1 + 16 ≤ buf.length
  name : copyName (buf.drop (q.1 + 4)) = some q.2.name
  /-- The data are behind the header, inside the image. -/
  data : fetch buf (q.1 + 16) q.2.data.length = some q.2.data

/-- What is known of the partitions that the loop returns. -/
structure Walked (buf : List UInt8) (fuel offset : ℕ) (parsed : Parsed) : Prop where
  /-- Their headers are those that the loop comes to. -/
  headers : parsed.parts.map Prod.fst = headersFrom buf fuel offset
  readAt : ∀ q ∈ parsed.parts, ReadAt buf q
  /-- None is before the start. -/
  start : ∀ q ∈ parsed.parts, offset ≤ q.1
  /-- The data of each end before the header of the next. -/
  order : parsed.parts.Pairwise fun q q' => q.1 + 16 + q.2.data.length ≤ q'.1

/-- The tests on a header let the loop advance, and keep the partition inside the image. -/
theorem of_inspect (len offset : ℕ) (hdr : List UInt8) :
    (∀ next, inspect len offset hdr = .skip next → offset + 16 ≤ next) ∧
      ∀ next, inspect len offset hdr = .part next →
        next = offset + hdrLen hdr * 0x10 ∧ 1 ≤ hdrLen hdr ∧ next ≤ len := by
  unfold inspect
  split_ifs with hsum hfree hrange hpanic
  · simp
  · simp
  · simp
  · refine ⟨?_, by simp⟩
    rintro next ⟨rfl⟩
    omega
  · refine ⟨by simp, ?_⟩
    rintro next ⟨rfl⟩
    omega

section Loop

variable {fuel offset : ℕ}

theorem readPartition_exactly {hdr : List UInt8} (hheader : offset + 16 ≤ buf.length)
    (hunits : 1 ≤ hdrLen hdr) (hend : offset + hdrLen hdr * 0x10 ≤ buf.length) :
    Exactly (readPartition buf offset hdr) (copyName (buf.drop (offset + 4)) ≠ none) fun p =>
      ReadAt buf (offset, p) ∧ offset + 16 + p.data.length = offset + hdrLen hdr * 0x10 := by
  unfold readPartition
  cases hname : copyName (buf.drop (offset + 4)) with
  | none => exact exactly_none (by simp)
  | some name =>
    obtain ⟨data, hdata, hlen⟩ := (exactly_fetch buf (offset + 0x10)
      (hdrLen hdr * 0x10 - 0x10)).exists_some (by omega)
    rw [hdata]
    refine exactly_some (some_ne_none _) ⟨⟨hheader, hname, ?_⟩, ?_⟩
    · rw [hlen, hdata]
    · dsimp only
      omega

theorem walked_nil {report : Option Report} (h : headersFrom buf fuel offset = []) :
    Walked buf fuel offset ⟨[], report⟩ :=
  ⟨h.symm, by simp, by simp, .nil⟩

theorem Walked.cons {p : NvramPartition} {next : ℕ} {parsed : Parsed}
    (h : Walked buf fuel next parsed)
    (hheaders : headersFrom buf (fuel + 1) offset = offset :: headersFrom buf fuel next)
    (hread : ReadAt buf (offset, p)) (hnext : offset + 16 + p.data.length = next) :
    Walked buf (fuel + 1) offset { parsed with parts := (offset, p) :: parsed.parts } where
  headers := by rw [hheaders, ← h.headers, map_cons]
  readAt := forall_mem_cons.mpr ⟨hread, h.readAt⟩
  start := forall_mem_cons.mpr ⟨Nat.le_refl _, fun q hq => by
    have hq := h.start q hq
    omega⟩
  order := pairwise_cons.mpr ⟨fun q hq => hnext ▸ h.start q hq, h.order⟩

/-- The loop over the partitions stays inside the image exactly if the names that it comes to can be
copied. -/
theorem parseFrom_exactly (hfuel : 0 < fuel) (h : buf.length < offset + fuel) :
    Exactly (parseFrom buf fuel offset)
      (∀ off ∈ headersFrom buf fuel offset, copyName (buf.drop (off + 4)) ≠ none)
      (Walked buf fuel offset) := by
  induction fuel generalizing offset with
  | zero => omega
  | succ fuel ih =>
    rw [parseFrom]
    by_cases hheader : offset + 16 ≤ buf.length
    · have hfetch : fetch buf offset 16 = some ((buf.drop offset).take 16) := if_pos hheader
      have hheaders : headersFrom buf (fuel + 1) offset =
          match inspect buf.length offset ((buf.drop offset).take 16) with
          | .stop _ => []
          | .skip next => headersFrom buf fuel next
          | .part next => offset :: headersFrom buf fuel next := if_pos hheader
      obtain ⟨hskip, hpart⟩ := of_inspect buf.length offset ((buf.drop offset).take 16)
      rw [if_pos hheader, hfetch, some_bind]
      cases hinspect : inspect buf.length offset ((buf.drop offset).take 16) with
      | stop report =>
        rw [hinspect] at hheaders
        rw [hheaders]
        exact exactly_some (by simp) (walked_nil hheaders)
      | skip next =>
        have hadvance := hskip next hinspect
        rw [hinspect] at hheaders
        rw [hheaders]
        refine (ih (by omega) (by omega)).imp Iff.rfl fun _ parsed hwalked => ?_
        refine ⟨hwalked.headers.trans hheaders.symm, hwalked.readAt, fun q hq => ?_, hwalked.order⟩
        have hstart := hwalked.start q hq
        omega
      | part next =>
        obtain ⟨hnext, hunits, hend⟩ := hpart next hinspect
        rw [hinspect] at hheaders
        rw [hheaders]
        have hfirst := readPartition_exactly hheader hunits (hnext ▸ hend)
        have hrest : Exactly (parseFrom buf fuel next) _ (Walked buf fuel next) :=
          ih (by omega) (by omega)
        have hboth := hfirst.bind fun p hp => hrest.bind_true fun parsed hwalked =>
          exactly_some (P := Walked buf (fuel + 1) offset) trivial
            (hwalked.cons hheaders hp.1 (hp.2.trans hnext.symm))
        exact hboth.imp (by rw [forall_mem_cons]) fun _ _ hwalked => hwalked
    · have hheaders : headersFrom buf (fuel + 1) offset = [] := if_neg hheader
      rw [if_neg hheader, hheaders]
      exact exactly_some (by simp) (walked_nil hheaders)

end Loop

/-! ## Loading -/

/-- The header of an image has its checksum. -/
def HeaderOk (buf : List UInt8) : Prop := checksum (buf.take 16) = chrpChecksum (buf.take 16)

/-- The image has its `adler32`. -/
def AdlerOk (adler32 : List UInt8 → BitVec 32) (buf : List UInt8) : Prop :=
  adler32 (buf.drop 0x14) = .ofNat 32 (ofLe ((buf.drop 0x10).take 4))

/-- What is asked of the loading of an image. -/
structure LoadsSafely (adler32 : List UInt8 → BitVec 32) (blk : List UInt8) (parsed : Parsed) :
    Prop where
  /-- Parsing reads only inside the image. -/
  parse : nvramParse adler32 (blk.take 0x2000) = some parsed
  /-- Names end inside their arrays, and are those in the fields of their own headers. -/
  name : ∀ q ∈ parsed.parts, Terminated q.2 ∧
    cstr q.2.name.bytes = cstr (nameField (blk.take 0x2000) q.1)
  /-- Data are what is behind their own headers, inside the image. -/
  data : ∀ q ∈ parsed.parts, fetch (blk.take 0x2000) (q.1 + 16) q.2.data.length = some q.2.data
  /-- Data end before the next header. -/
  order : parsed.parts.Pairwise fun q q' => q.1 + 16 + q.2.data.length ≤ q'.1
  /-- Searching reads only inside names. -/
  search : ∀ key, (0 : UInt8) ∉ key →
    nvramFindPart (parsed.bank (blk.take 0x2000).length) key ≠ none
  /-- Loading the environment reads only inside the data of its partition. -/
  load : appleNvramLoad adler32 blk ≠ none

theorem nvramFindPart_eq {bank : NvramBank} {key : List UInt8}
    (h : ∀ p ∈ bank.parts, Terminated p) (hkey : (0 : UInt8) ∉ key) :
    nvramFindPart bank key = some (bank.parts.find? fun p => decide (cstr p.name.bytes = key)) := by
  rw [nvramFindPart, findPartIdx_eq h hkey, map_some, find?_eq_bind_findIdx?_getElem?]

theorem appleNvramLoadEnv_ne_none {s : AppleNvramState} (h : ∀ p ∈ s.bank.parts, Terminated p)
    (hcommon : ∃ p ∈ s.bank.parts, cstr p.name.bytes = common) : appleNvramLoadEnv s ≠ none := by
  unfold appleNvramLoadEnv
  rw [nvramFindPart_eq h (by decide)]
  cases hfind : s.bank.parts.find? fun p => decide (cstr p.name.bytes = common) with
  | none =>
    obtain ⟨p, hp, hname⟩ := hcommon
    have hno := find?_eq_none.mp hfind p hp
    exact absurd (decide_eq_true hname) hno
  | some part =>
    obtain ⟨env, henv⟩ := exists_loadEnv part.data s.env
    simp [henv]

/-- The length that is passed to `adler32`, as a number. -/
theorem adlerLen_of_lt (h : len < 2^64) : adlerLen len = (2^64 - 0x14 + len) % 2^64 % 2^32 := by
  rw [adlerLen, BitVec.toNat_sub, BitVec.toNat_ofNat, Nat.mod_eq_of_lt h]
  rfl

/-- The length that is passed to `adler32` is inside the image exactly if there is one. -/
theorem adlerLen_iff (h : len ≤ 0x2000) : 0x14 + adlerLen len ≤ len ↔ 0x14 ≤ len := by
  rw [adlerLen_of_lt (by omega)]
  omega

/-- The bytes under `adler32` are all from `0x14` on. -/
theorem adlerLen_eq (h : len ≤ 0x2000) (hlen : 0x14 ≤ len) : adlerLen len = len - 0x14 := by
  rw [adlerLen_of_lt (by omega)]
  omega

/-- Parsing stays inside the image exactly if the image is as long as the parts that are looked at
before the partitions, and the names of the partitions can be copied; partitions are only returned
with both checksums right. -/
theorem nvramParse_exactly {adler32 : List UInt8 → BitVec 32} (hlen : buf.length ≤ 0x2000) :
    Exactly (nvramParse adler32 buf)
      (16 ≤ buf.length ∧ (HeaderOk buf → 0x14 ≤ buf.length ∧ (AdlerOk adler32 buf →
        ∀ off ∈ headers buf, copyName (buf.drop (off + 4)) ≠ none)))
      fun parsed => HeaderOk buf ∧ AdlerOk adler32 buf ∧ Walked buf (buf.length + 1) 0x20 parsed ∨
        ¬ (HeaderOk buf ∧ AdlerOk adler32 buf) ∧ parsed.parts = [] := by
  unfold nvramParse
  by_cases hheader : 16 ≤ buf.length
  · have hfetch : fetch buf 0 16 = some (buf.take 16) := if_pos (by omega)
    rw [hfetch, some_bind, and_iff_right hheader]
    by_cases hok : HeaderOk buf
    · have hpass : ¬ checksum (buf.take 16) ≠ chrpChecksum (buf.take 16) := not_not.mpr hok
      rw [if_neg hpass, imp_iff_right hok]
      by_cases hadler : 0x14 ≤ buf.length
      · have hbytes : fetch buf 0x14 (adlerLen buf.length) = some (buf.drop 0x14) := by
          rw [fetch, if_pos ((adlerLen_iff hlen).mpr hadler), adlerLen_eq hlen hadler,
            take_of_length_le (by rw [length_drop])]
        have hstored : fetch buf 0x10 4 = some ((buf.drop 0x10).take 4) := if_pos hadler
        rw [hbytes, some_bind, hstored, some_bind, and_iff_right hadler]
        by_cases hsum : AdlerOk adler32 buf
        · have hpass : ¬ adler32 (buf.drop 0x14) ≠ .ofNat 32 (ofLe ((buf.drop 0x10).take 4)) :=
            not_not.mpr hsum
          rw [if_neg hpass, imp_iff_right hsum]
          exact (parseFrom_exactly (by omega) (by omega)).imp Iff.rfl fun _ _ hwalked =>
            .inl ⟨hok, hsum, hwalked⟩
        · have hfail : adler32 (buf.drop 0x14) ≠ .ofNat 32 (ofLe ((buf.drop 0x10).take 4)) := hsum
          rw [if_pos hfail]
          exact exactly_some (fun h => absurd h hsum) (.inr ⟨fun h => hsum h.2, rfl⟩)
      · have hbytes : fetch buf 0x14 (adlerLen buf.length) = none :=
          if_neg fun h => hadler ((adlerLen_iff hlen).mp h)
        rw [hbytes]
        exact exactly_none fun h => hadler h.1
    · have hfail : checksum (buf.take 16) ≠ chrpChecksum (buf.take 16) := hok
      rw [if_pos hfail]
      exact exactly_some (fun h => absurd h hok) (.inr ⟨fun h => hok h.1, rfl⟩)
  · have hfetch : fetch buf 0 16 = none := if_neg (by omega)
    rw [hfetch]
    exact exactly_none fun h => hheader h.1

/-- The image is long enough for what is read before the partitions, and the names in the headers of
the partitions end where they are looked for. -/
def WellFormed (adler32 : List UInt8 → BitVec 32) (buf : List UInt8) : Prop :=
  16 ≤ buf.length ∧ (HeaderOk buf → 0x14 ≤ buf.length ∧
    (AdlerOk adler32 buf → ∀ off ∈ headers buf, NameEnds buf off))

/-- Loading is safe once an image is parsed into partitions whose names end. -/
theorem appleNvramLoad_ne_none {adler32 : List UInt8 → BitVec 32}
    (hparse : nvramParse adler32 (blk.take 0x2000) = some parsed)
    (hterm : ∀ p ∈ (parsed.bank (blk.take 0x2000).length).parts, Terminated p) :
    appleNvramLoad adler32 blk ≠ none := by
  unfold appleNvramLoad
  dsimp only
  rw [hparse, some_bind, nvramFindPart_eq hterm (by decide), some_bind]
  cases hfind : (parsed.bank (blk.take 0x2000).length).parts.find? fun p =>
      decide (cstr p.name.bytes = common) with
  | some p =>
    have hname := find?_some hfind
    exact appleNvramLoadEnv_ne_none hterm ⟨p, mem_of_find?_eq_some hfind, of_decide_eq_true hname⟩
  | none =>
    -- The partition that is made instead has the name.
    refine appleNvramLoadEnv_ne_none (forall_mem_cons.mpr ⟨?_, hterm⟩)
      ⟨newCommon, mem_cons_self, by decide⟩
    unfold Terminated
    decide

theorem LoadsSafely.wellFormed {adler32 : List UInt8 → BitVec 32}
    (hsafe : LoadsSafely adler32 blk parsed) : WellFormed adler32 (blk.take 0x2000) := by
  obtain ⟨⟨hheader, hnames⟩, hcases⟩ :=
    (nvramParse_exactly (length_take_le _ _)).of_some hsafe.parse
  refine ⟨hheader, fun hok => ⟨(hnames hok).1, fun hadler off hoff => ?_⟩⟩
  rcases hcases with ⟨-, -, hwalked⟩ | ⟨hno, -⟩
  · -- The header belongs to one of the partitions.
    rw [headers, ← hwalked.headers] at hoff
    obtain ⟨q, hq, rfl⟩ := mem_map.mp hoff
    have hread := hwalked.readAt q hq
    exact (name_eq_iff hread.header hread.name).mp (hsafe.name q hq)
  · exact absurd ⟨hok, hadler⟩ hno

theorem loadsSafely_of_names {adler32 : List UInt8 → BitVec 32}
    (hparse : nvramParse adler32 (blk.take 0x2000) = some parsed)
    (hname : ∀ q ∈ parsed.parts, Terminated q.2 ∧
      cstr q.2.name.bytes = cstr (nameField (blk.take 0x2000) q.1))
    (hdata : ∀ q ∈ parsed.parts, fetch (blk.take 0x2000) (q.1 + 16) q.2.data.length = some q.2.data)
    (horder : parsed.parts.Pairwise fun q q' => q.1 + 16 + q.2.data.length ≤ q'.1) :
    LoadsSafely adler32 blk parsed := by
  have hterm : ∀ p ∈ (parsed.bank (blk.take 0x2000).length).parts, Terminated p := by
    intro p hp
    obtain ⟨q, hq, rfl⟩ := mem_map.mp hp
    exact (hname q hq).1
  refine ⟨hparse, hname, hdata, horder, fun key hkey => ?_, appleNvramLoad_ne_none hparse hterm⟩
  rw [nvramFindPart_eq hterm hkey]
  exact some_ne_none _

theorem WellFormed.exists_loadsSafely {adler32 : List UInt8 → BitVec 32}
    (h : WellFormed adler32 (blk.take 0x2000)) : ∃ parsed, LoadsSafely adler32 blk parsed := by
  obtain ⟨hheader, hnames⟩ := h
  have hcopy : HeaderOk (blk.take 0x2000) → 0x14 ≤ (blk.take 0x2000).length ∧
      (AdlerOk adler32 (blk.take 0x2000) → ∀ off ∈ headers (blk.take 0x2000),
        copyName ((blk.take 0x2000).drop (off + 4)) ≠ none) := fun hok =>
    ⟨(hnames hok).1, fun hadler off hoff => copyName_ne_none ((hnames hok).2 hadler off hoff)⟩
  obtain ⟨parsed, hparse, hcases⟩ :=
    (nvramParse_exactly (length_take_le _ _)).exists_some ⟨hheader, hcopy⟩
  refine ⟨parsed, ?_⟩
  rcases hcases with ⟨hok, hadler, hwalked⟩ | ⟨-, hnil⟩
  · refine loadsSafely_of_names hparse (fun q hq => ?_) (fun q hq => (hwalked.readAt q hq).data)
      hwalked.order
    have hread := hwalked.readAt q hq
    refine (name_eq_iff hread.header hread.name).mpr ((hnames hok).2 hadler q.1 ?_)
    rw [headers, ← hwalked.headers]
    exact mem_map_of_mem hq
  · exact loadsSafely_of_names hparse (by simp [hnil]) (by simp [hnil]) (by simp [hnil])

/-- For every content of a block device, loading the NVRAM reads only inside the image, gives every
partition the name in the field of its own header and data from between its header and the next one,
and searches and loads the environment inside names and data, exactly if the image is long enough
for its header and every name that fills its field is followed by a zero byte. -/
theorem nvram_loading_safe_iff (adler32 : List UInt8 → BitVec 32) (blk : List UInt8) :
    (∃ parsed, LoadsSafely adler32 blk parsed) ↔ WellFormed adler32 (blk.take 0x2000) := by
  constructor
  · rintro ⟨parsed, hsafe⟩
    exact hsafe.wellFormed
  · exact WellFormed.exists_loadsSafely

/-- A partition whose name fills its field, with data that start with another letter. -/
def longName : List UInt8 :=
  partHeader 0x70 2 (ascii ['A', 'B', 'C', 'D', 'E', 'F', 'G', 'H', 'I', 'J', 'K', 'L']) ++
    (77 :: replicate 15 0)

/-- An image with that partition and the right checksums. -/
def longNameImage (adler32 : List UInt8 → BitVec 32) : List UInt8 :=
  appleHeader ++ (leBytes 4 (adler32 (replicate 12 0 ++ longName)).toNat ++
    (replicate 12 0 ++ longName))

theorem length_longNameImage (adler32 : List UInt8 → BitVec 32) :
    (longNameImage adler32).length = 64 := rfl

/-- Whatever `adler32` is, the name that fills its field goes on into the data of the partition. -/
theorem not_loadsSafely_longNameImage {adler32 : List UInt8 → BitVec 32} :
    ¬ ∃ parsed, LoadsSafely adler32 (longNameImage adler32) parsed := by
  rintro ⟨parsed, hsafe⟩
  have himage : (longNameImage adler32).take 0x2000 = longNameImage adler32 :=
    take_of_length_le (by rw [length_longNameImage]; decide)
  obtain ⟨-, hnames⟩ := hsafe.wellFormed
  rw [himage] at hnames
  have hok : HeaderOk (longNameImage adler32) := by
    have happle : checksum appleHeader = chrpChecksum appleHeader := by decide
    exact happle
  have hadler : AdlerOk adler32 (longNameImage adler32) := by
    have hword := ofNat_ofLe_leBytes (k := 4) (by decide) (adler32 (replicate 12 0 ++ longName))
    exact hword.symm
  have hheaders : 0x20 ∈ headers (longNameImage adler32) := by
    have hheader : ((longNameImage adler32).drop 0x20).take 16 = longName.take 16 := rfl
    rw [headers, headersFrom,
      hheader]
    exact mem_cons_self
  rcases (hnames hok).2 hadler 0x20 hheaders with hfield | hnext
  · have hno : (0 : UInt8) ∉ nameField (longNameImage adler32) 0x20 := by
      have hfield : nameField (longNameImage adler32) 0x20 =
          ascii ['A', 'B', 'C', 'D', 'E', 'F', 'G', 'H', 'I', 'J', 'K', 'L'] := rfl
      rw [hfield]
      decide
    exact hno hfield
  · have hbyte : (longNameImage adler32)[0x20 + 16]? = some 77 := rfl
    rw [hbyte] at hnext
    exact absurd hnext (by decide)

/-- One byte of `adler32`. -/
def adlerRound (sums : ℕ × ℕ) (b : UInt8) : ℕ × ℕ :=
  ((sums.1 + b.toNat) % 65521, (sums.2 + (sums.1 + b.toNat) % 65521) % 65521)

/-- `adler32`, started with 1. -/
def adler32 (bytes : List UInt8) : BitVec 32 :=
  let sums := bytes.foldl adlerRound (1, 0)
  .ofNat 32 (sums.2 * 65536 + sums.1)

/-- An empty image is read outside, and a name that fills its field goes on into the data. -/
theorem nvram_loading_unsafe : (¬ ∃ parsed, LoadsSafely adler32 [] parsed) ∧
      ¬ ∃ parsed, LoadsSafely adler32 (longNameImage adler32) parsed := by
  refine ⟨?_, not_loadsSafely_longNameImage⟩
  rintro ⟨parsed, hsafe⟩
  exact absurd hsafe.wellFormed.1 (by decide)

end Inferno.Nvram
