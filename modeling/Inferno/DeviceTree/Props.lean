import Mathlib.Algebra.Order.BigOperators.Group.List
import Mathlib.Data.List.Find
import Inferno.Common.CString
import Inferno.DeviceTree.Model

/-!
# Setting properties and looking up nodes

`apple_dt_set_prop` looks a name up in the table of a node and puts a property under it, in the
place of the one that is there if there is one. A failed assertion has no result.

`apple_dt_get_node` compares as many bytes of a token as a stored name has. That is the comparison
of the two strings if the name has a NUL (`strncmpEq_iff`), and of a prefix if it has none.
-/

namespace Inferno.DeviceTree

open Common (cstr)

namespace AppleDTNode

/-- Whether the size of the node has been computed. -/
def finalised : AppleDTNode → Bool
  | mk _ _ finalised => finalised

variable (node : AppleDTNode) (name : List UInt8)

/-- `apple_dt_get_prop`: the property of that name. -/
def getProp : Option AppleDTProp := node.props.lookup name

/-- `apple_dt_set_prop`: the node with `len` bytes under the name, zeros where `val` is `NULL`. The
name has to fit its slot, and a finalised node gets neither new names nor new lengths. The property
goes to the front of the list, whose order means nothing. -/
def setProp (len : ℕ) (hlen : len < 2^32) (val : Option (Vector UInt8 len)) : Option AppleDTNode :=
  let data := val.getD (Vector.replicate len 0)
  let prop : AppleDTProp := ⟨len, false, data.toList, hlen, by simp⟩
  let node' := mk (node.props.insert name prop) node.children node.finalised
  if ¬ name.length < propNameLen then none
  else match node.getProp name with
    | none => if node.finalised then none else some node'
    | some old => if node.finalised ∧ old.len ≠ len then none else some node'

variable {node : AppleDTNode} {name : List UInt8}

/-- Setting a property of a node that is not finalised succeeds under a name that fits its slot. The
name then leads to the bytes, and every other name to what it led to before. -/
theorem setProp_spec {len : ℕ} (hlen : len < 2^32) (val : Vector UInt8 len)
    (hname : name.length < propNameLen) (hopen : node.finalised = false) :
    ∃ node', node.setProp name len hlen (some val) = some node' ∧ node'.finalised = false ∧
      node'.getProp name = some ⟨len, false, val.toList, hlen, by simp⟩ ∧
      ∀ other, other ≠ name → node'.getProp other = node.getProp other := by
  let prop : AppleDTProp := ⟨len, false, val.toList, hlen, by simp⟩
  refine ⟨mk (node.props.insert name prop) node.children node.finalised, ?_, hopen,
    AList.lookup_insert _, fun other hne => AList.lookup_insert_ne hne⟩
  -- With the node open, neither assertion is one that can fail.
  unfold setProp
  rw [if_neg (not_not.mpr hname)]
  cases node.getProp name with
  | none | some old => simp [hopen, prop]

/-! ## Looking up nodes -/

/-- `strncmp(data, token, len) == 0`, for `len` bytes of data and a token that ends with a NUL. -/
def strncmpEq : List UInt8 → List UInt8 → Bool
  | [], _ => true
  | b :: bs, token => b == token.headD 0 && (b == 0 || strncmpEq bs token.tail)

/-- The first child whose `name` passes a test with a token. -/
def select (test : List UInt8 → List UInt8 → Bool) (node : AppleDTNode) (token : List UInt8) :
    Option AppleDTNode :=
  node.children.find? fun child =>
    (child.getProp (ascii "name")).any fun prop => test prop.data token

/-- The tokens of a path, between its slashes. -/
def tokens (path : List UInt8) : List (List UInt8) := (path.splitOn 47).filter (· ≠ [])

/-- The node that a path leads to: each of its tokens selects a child. -/
def lookup (test : List UInt8 → List UInt8 → Bool) (node : AppleDTNode) (path : List UInt8) :
    Option AppleDTNode :=
  (tokens path).foldlM (select test) node

def getNode : AppleDTNode → List UInt8 → Option AppleDTNode := lookup strncmpEq

/-- The names are the same as C strings. -/
def sameName (data token : List UInt8) : Bool := cstr data = cstr token

/-- The lookup by names: the first child at each level whose name is the token as a C string. -/
def namedNode (node : AppleDTNode) (path : List UInt8) : Option AppleDTNode :=
  ((path.splitOn 47).filter (· ≠ [])).foldlM (fun n token => n.children.find? fun c =>
    (c.getProp (ascii "name")).any fun prop => cstr prop.data = cstr token) node

theorem namedNode_eq : namedNode = lookup sameName := rfl

/-! ### Names and tokens -/

/-- Data with a NUL passes the test of the code exactly if it is the token as a C string. -/
theorem strncmpEq_iff {data : List UInt8} (h : 0 ∈ data) (token : List UInt8) :
    strncmpEq data token = true ↔ cstr data = cstr token := by
  induction data generalizing token with
  | nil => cases h
  | cons b bs ih =>
    rw [strncmpEq]
    rcases eq_or_ne b 0 with rfl | hb
    · cases token with
      | nil => simp [cstr]
      | cons c cs => by_cases hc : c = 0 <;> simp [cstr, hc, Ne.symm]
    · have hbs := ih (List.mem_of_ne_of_mem hb.symm h)
      cases token with
      | nil => simp [cstr, hb]
      | cons c cs =>
        by_cases hc : c = 0 <;> simp_all [cstr]

/-- Data without a NUL passes it exactly if the token begins with it. -/
theorem strncmpEq_iff_begins {data : List UInt8} (h : 0 ∉ data) (token : List UInt8) :
    strncmpEq data token = true ↔ data <+: cstr token := by
  induction data generalizing token with
  | nil => simp [strncmpEq]
  | cons b bs ih =>
    have hb : b ≠ 0 := fun hb => h (hb ▸ List.mem_cons_self)
    have hbs := ih fun hmem => h (List.mem_cons_of_mem _ hmem)
    rw [strncmpEq]
    cases token with
    | nil => simp [cstr, hb]
    | cons c cs => by_cases hc : c = 0 <;> simp_all [cstr, List.cons_prefix_cons]

theorem cstr_of_not_mem {data : List UInt8} (h : 0 ∉ data) : cstr data = data :=
  List.takeWhile_eq_self_iff.mpr fun _ hb => decide_eq_true fun hzero => h (hzero ▸ hb)

/-- On names with a NUL or a slash the two tests agree. -/
theorem strncmpEq_eq_sameName {data token : List UInt8} (h : 0 ∈ data ∨ 47 ∈ data)
    (htoken : 47 ∉ token) : strncmpEq data token = sameName data token := by
  rw [Bool.eq_iff_iff, sameName, decide_eq_true_iff]
  by_cases h0 : 0 ∈ data
  · exact strncmpEq_iff h0 token
  · -- No token has the slash of the name.
    have hslash := h.resolve_left h0
    have hcstr : 47 ∉ cstr token := fun hmem => htoken (List.takeWhile_sublist _ |>.mem hmem)
    rw [strncmpEq_iff_begins h0, cstr_of_not_mem h0]
    exact iff_of_false (fun hpre => hcstr (hpre.mem hslash)) fun heq => hcstr (heq ▸ hslash)

/-! ### Paths -/

theorem lookup_append (test : List UInt8 → List UInt8 → Bool) (node : AppleDTNode)
    (path rest : List UInt8) : node.lookup test (path ++ 47 :: rest) =
      (node.lookup test path).bind fun n => n.lookup test rest := by
  unfold lookup tokens
  rw [List.splitOn_append_cons_self, List.filter_append, List.foldlM_append]
  rfl

theorem lookup_token (test : List UInt8 → List UInt8 → Bool) (node : AppleDTNode)
    {token : List UInt8} (hslash : 47 ∉ token) (hne : token ≠ []) :
    node.lookup test token = node.select test token := by
  have htokens : tokens token = [token] := by simp [tokens, List.splitOn_eq_singleton hslash, hne]
  rw [lookup, htokens, List.foldlM_cons]
  cases node.select test token <;> rfl

/-- The tokens of a path have bytes of the path, and no slash. -/
theorem mem_of_mem_splitOn {path token : List UInt8} (h : token ∈ path.splitOn 47) :
    47 ∉ token ∧ ∀ b ∈ token, b ∈ path := by
  induction hlength : path.length using Nat.strong_induction_on generalizing path with
  | _ n ih =>
    by_cases hmem : 47 ∈ path
    · obtain ⟨first, rest, rfl, hfirst⟩ := List.eq_append_cons_of_mem hmem
      rw [List.splitOn_append_cons_self, List.splitOn_eq_singleton hfirst, List.mem_append,
        List.mem_singleton] at h
      rcases h with rfl | h
      · exact ⟨hfirst, fun b hb => List.mem_append_left _ hb⟩
      · obtain ⟨hslash, hbytes⟩ := ih _ (by simp [← hlength]; omega) h rfl
        exact ⟨hslash, fun b hb => by simp [hbytes b hb]⟩
    · rw [List.splitOn_eq_singleton hmem, List.mem_singleton] at h
      exact ⟨h ▸ hmem, fun b hb => h ▸ hb⟩

/-- The names of the children have a NUL or a slash, at every node that a path leads to. -/
def NamesEnd (t : AppleDTNode) : Prop :=
  ∀ path n, 0 ∉ path → t.namedNode path = some n → ∀ c ∈ n.children,
    ∀ prop ∈ c.getProp (ascii "name"), 0 ∈ prop.data ∨ 47 ∈ prop.data

/-- Where the names have a NUL or a slash, a token selects the child of that name. -/
theorem NamesEnd.select_eq {t : AppleDTNode} (h : t.NamesEnd) {token : List UInt8}
    (hslash : 47 ∉ token) : t.select strncmpEq token = t.select sameName token := by
  refine List.find?_congr fun c hc => ?_
  cases hp : c.getProp (ascii "name") with
  | none => rfl
  | some prop => exact strncmpEq_eq_sameName (h [] t (by simp) rfl c hc prop hp) hslash

/-- The names below a node that a token selects are as good. -/
theorem NamesEnd.child {t c : AppleDTNode} (h : t.NamesEnd) {token : List UInt8}
    (hslash : 47 ∉ token) (hne : token ≠ []) (h0 : 0 ∉ token)
    (hc : t.select sameName token = some c) : c.NamesEnd := by
  intro path n hpath hn
  refine h (token ++ 47 :: path) n (by simp [h0, hpath]) ?_
  rw [namedNode_eq, lookup_append, lookup_token _ _ hslash hne, hc]
  exact hn

/-- At a node with a child whose name has neither, some token leads the code to a child that no name
leads to. -/
theorem exists_select_ne {n c : AppleDTNode} {prop : AppleDTProp} (hc : c ∈ n.children)
    (hprop : c.getProp (ascii "name") = some prop) (h0 : 0 ∉ prop.data) (h47 : 47 ∉ prop.data) :
    ∃ token, 0 ∉ token ∧ 47 ∉ token ∧ token ≠ [] ∧
      n.select strncmpEq token ≠ n.select sameName token := by
  -- A token that begins with the name and is longer than the names of all children.
  let long := (n.children.map fun c => ((c.getProp (ascii "name")).map (·.data.length)).getD 0).sum
  let token := prop.data ++ List.replicate (long + 1) 1
  have htoken : 0 ∉ token := by simp [token, h0]
  refine ⟨token, htoken, by simp [token, h47], by simp [token], ?_⟩
  have hcstr : cstr token = token := cstr_of_not_mem htoken
  have hsome : (n.select strncmpEq token).isSome = true := by
    rw [select, List.find?_isSome]
    refine ⟨c, hc, ?_⟩
    rw [hprop, Option.any_some, strncmpEq_iff_begins h0, hcstr]
    exact List.prefix_append _ _
  have hnone : n.select sameName token = none := by
    rw [select, List.find?_eq_none]
    intro d hd hname
    cases hp : d.getProp (ascii "name") with
    | none => simp [hp] at hname
    | some prop' =>
      rw [hp, Option.any_some, sameName, decide_eq_true_iff, hcstr] at hname
      have hlength := congrArg List.length hname
      have hcut : (cstr prop'.data).length ≤ prop'.data.length :=
        (List.takeWhile_sublist _).length_le
      have hlong : prop'.data.length ≤ long :=
        List.le_sum_of_mem (List.mem_map.mpr ⟨d, hd, by rw [hp]; rfl⟩)
      simp [token] at hlength
      omega
  intro heq
  rw [heq, hnone] at hsome
  cases hsome

/-- A tree is looked up by names, for all paths, exactly if the names of the children have a NUL or
a slash at every node that a path leads to. -/
theorem getNode_eq_namedNode_iff (t : AppleDTNode) :
    (∀ path, 0 ∉ path → t.getNode path = t.namedNode path) ↔ t.NamesEnd := by
  constructor
  · intro h path n hpath hn c hc prop hprop
    by_contra hboth
    obtain ⟨h0, h47⟩ := not_or.mp hboth
    obtain ⟨token, hzero, hslash, hne, hselect⟩ := exists_select_ne hc hprop h0 h47
    have hlonger := h (path ++ 47 :: token) (by simp [hpath, hzero])
    have hsame := (h path hpath).trans hn
    unfold getNode at hlonger hsame
    rw [namedNode_eq] at hlonger hn
    rw [lookup_append, lookup_append, hsame, hn, Option.bind_some, Option.bind_some,
      lookup_token _ _ hslash hne, lookup_token _ _ hslash hne] at hlonger
    exact hselect hlonger
  · intro h path hpath
    have htokens : ∀ token ∈ tokens path, 47 ∉ token ∧ token ≠ [] ∧ 0 ∉ token := by
      intro token htoken
      obtain ⟨hmem, hne⟩ := List.mem_filter.mp htoken
      obtain ⟨hslash, hbytes⟩ := mem_of_mem_splitOn hmem
      exact ⟨hslash, of_decide_eq_true hne, fun h0 => hpath (hbytes 0 h0)⟩
    rw [namedNode_eq]
    unfold getNode lookup
    -- Both lookups go to the same child at every token, and its names are as good.
    generalize tokens path = ts at htokens
    induction ts generalizing t with
    | nil => rfl
    | cons token rest ih =>
      obtain ⟨⟨hslash, hne, h0⟩, hrest⟩ := List.forall_mem_cons.mp htokens
      rw [List.foldlM_cons, List.foldlM_cons, h.select_eq hslash]
      exact Option.bind_congr fun c hc => ih c (h.child hslash hne h0 hc) hrest

/-- A blob with a root and a child whose name has no bytes. -/
def unnamedBlob : ℕ → UInt8 := fun a =>
  ([0, 0, 0, 0, 1, 0, 0, 0, 1, 0, 0, 0, 0, 0, 0, 0] ++ ascii "name").getD a 0

/-- Every token leads to this child. -/
theorem not_getNode_eq_namedNode : ∃ t n, deserialise 2 unnamedBlob = some (t, n) ∧
    (t.getNode (ascii "x")).isSome = true ∧ (t.namedNode (ascii "x")).isSome = false :=
  ⟨_, _, rfl, by decide +kernel, by decide +kernel⟩

end AppleDTNode

end Inferno.DeviceTree
