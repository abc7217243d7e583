import Mathlib.Data.List.AList
import Mathlib.Data.List.Induction
import Mathlib.Data.List.Sort
import Mathlib.Data.String.Basic

/-!
# JSON values and the decoding rules of derived `serde` types

`Json` is the tree a JSON text stands for, with its members in order and repeated keys
kept, since a derived `Deserialize` rejects a field that is given twice. The generic
`Value` of `serde_json` keeps the last of them.
-/

namespace FlannelRs.JsonValues

inductive JsonNumber where
  | int (n : ℤ)
  | float (text : String)
  deriving DecidableEq

inductive Json where
  | null
  | bool (b : Bool)
  | num (n : JsonNumber)
  | str (s : String)
  | arr (items : List Json)
  | obj (members : List (String × Json))

/-- `serde_json::Map`: every key once. The order of its entries has no meaning. -/
abbrev JsonMap := AList fun _ : String => Json

/-- The members of a map in the order of its `BTreeMap`. -/
def JsonMap.members (m : JsonMap) : List (String × Json) :=
  (m.entries.map fun e => (e.1, e.2)).insertionSort fun a b => a.1 ≤ b.1

namespace Json

/-- `Value::as_str`. -/
def asStr : Json → Option String
  | .str s => some s
  | _ => none

def ofMap (m : JsonMap) : Json := .obj m.members

end Json

/-- Members read into a map: of a repeated key the last value stays. -/
def JsonMap.ofMembers (members : List (String × Json)) : JsonMap :=
  members.foldl (fun m kv => m.insert kv.1 kv.2) ∅

mutual

/-- Reading a text into the generic `Value`. -/
def Json.toValue : Json → Json
  | .arr items => .arr (itemsToValue items)
  | .obj members => .ofMap (JsonMap.ofMembers (membersToValue members))
  | j => j

def itemsToValue : List Json → List Json
  | [] => []
  | j :: js => j.toValue :: itemsToValue js

def membersToValue : List (String × Json) → List (String × Json)
  | [] => []
  | (k, j) :: ms => (k, j.toValue) :: membersToValue ms

end

namespace Json

/-- `Value::get` with a string on a value without repeated keys. -/
def get? (key : String) : Json → Option Json
  | .obj members => members.lookup key
  | _ => none

/-- `Value::as_object`. -/
def asObject : Json → Option JsonMap
  | .obj members => some (JsonMap.ofMembers members)
  | _ => none

def decodeString : Json → Option String
  | .str s => some s
  | _ => none

def decodeBool : Json → Option Bool
  | .bool b => some b
  | _ => none

/-- The unsigned integer types, of which every value is below `bound`. -/
def decodeUnsigned (bound : ℕ) : Json → Option ℕ
  | .num (.int n) => if 0 ≤ n ∧ n < bound then some n.toNat else none
  | _ => none

def decodeOption {α : Type} (decode : Json → Option α) : Json → Option (Option α)
  | .null => some none
  | j => (decode j).map some

def decodeVec {α : Type} (decode : Json → Option α) : Json → Option (List α)
  | .arr items => items.mapM decode
  | _ => none

end Json

/-- A field of a derived struct: the keys it is known by, and whether it may be missing
when the struct is written as an array. -/
structure Field where
  keys : List String
  optional : Bool

/-- The value given for a field. A field given twice, under the same or under another of
its keys, is an error. -/
def Field.find (f : Field) (members : List (String × Json)) : Option (Option Json) :=
  match members.filter (fun m => m.1 ∈ f.keys) with
  | [] => some none
  | [m] => some (some m.2)
  | _ => none

/-- The value each field of a derived struct is given, if the struct is well written:
an object, or an array in the order of the fields. Unknown members are ignored. -/
def Json.fields (fs : List Field) : Json → Option (List (Option Json))
  | .obj members => fs.mapM fun f => f.find members
  | .arr items =>
    if items.length ≤ fs.length ∧ (fs.drop items.length).all Field.optional then
      some (items.map some ++ (fs.drop items.length).map fun _ => none)
    else none
  | _ => none

/-- A field that has to be given. -/
def required {α : Type} (decode : Json → Option α) : Option Json → Option α
  | none => none
  | some j => decode j

/-- A field with `#[serde(default)]`. -/
def defaulted {α : Type} (default : α) (decode : Json → Option α) : Option Json → Option α
  | none => some default
  | some j => decode j

theorem JsonMap.mem_members {m : JsonMap} {e : String × Json} :
    e ∈ m.members ↔ m.lookup e.1 = some e.2 := by
  have h : m.lookup e.1 = some e.2 ↔ ⟨e.1, e.2⟩ ∈ m.entries := AList.mem_lookup_iff
  rw [members, List.mem_insertionSort, h, List.mem_map]
  constructor
  · rintro ⟨⟨k, j⟩, he, rfl⟩
    exact he
  · exact fun he => ⟨_, he, rfl⟩

theorem JsonMap.lookup_members (m : JsonMap) (k : String) : m.members.lookup k = m.lookup k := by
  cases hk : m.members.lookup k with
  | none =>
    symm
    rw [Option.eq_none_iff_forall_ne_some]
    intro j hj
    have hmem : (k, j) ∈ m.members := mem_members.mpr hj
    simpa using List.lookup_eq_none_iff.mp hk (k, j) hmem
  | some j =>
    obtain ⟨front, back, heq, -⟩ := List.lookup_eq_some_iff.mp hk
    have hmem : (k, j) ∈ m.members := by
      rw [heq]
      simp
    exact (mem_members.mp hmem).symm

theorem Json.get?_ofMap (k : String) (m : JsonMap) : (ofMap m).get? k = m.lookup k :=
  m.lookup_members k

theorem JsonMap.nodup_members (m : JsonMap) : m.members.Nodup := by
  have hperm := List.perm_insertionSort (fun a b : String × Json => a.1 ≤ b.1)
    (m.entries.map fun e => (e.1, e.2))
  apply hperm.nodup_iff.mpr
  apply m.nodupKeys.nodup.map
  rintro ⟨k, j⟩ ⟨k', j'⟩ he
  obtain ⟨rfl, rfl⟩ := Prod.mk.inj he
  rfl

theorem Field.mem_filter {f : Field} {m : JsonMap} {e : String × Json} :
    e ∈ m.members.filter (fun e => e.1 ∈ f.keys) ↔ m.lookup e.1 = some e.2 ∧ e.1 ∈ f.keys := by
  simp [JsonMap.mem_members]

theorem Field.find_absent {f : Field} {m : JsonMap} (h : ∀ k ∈ f.keys, m.lookup k = none) :
    f.find m.members = some none := by
  have hnil : m.members.filter (fun e => e.1 ∈ f.keys) = [] := by
    apply List.eq_nil_iff_forall_not_mem.mpr
    intro e he
    obtain ⟨hlookup, hk⟩ := mem_filter.mp he
    simp [h e.1 hk] at hlookup
  rw [find, hnil]

/-- A field that is given under one of its keys. -/
theorem Field.find_given {f : Field} {m : JsonMap} {k : String} {j : Json} (hk : k ∈ f.keys)
    (hj : m.lookup k = some j) (h : ∀ k' ∈ f.keys, k' ≠ k → m.lookup k' = none) :
    f.find m.members = some (some j) := by
  have hmem : (k, j) ∈ m.members.filter fun e => e.1 ∈ f.keys := mem_filter.mpr ⟨hj, hk⟩
  have honly : ∀ e ∈ m.members.filter (fun e => e.1 ∈ f.keys), e = (k, j) := by
    intro e he
    obtain ⟨hlookup, hek⟩ := mem_filter.mp he
    by_cases hne : e.1 = k
    · rw [hne, hj] at hlookup
      exact Prod.ext hne (Option.some.inj hlookup).symm
    · simp [h e.1 hek hne] at hlookup
  have hone : m.members.filter (fun e => e.1 ∈ f.keys) = [(k, j)] := by
    have hnodup := m.nodup_members.filter fun e => e.1 ∈ f.keys
    have hrep := List.eq_replicate_of_mem honly
    rw [hrep] at hnodup hmem ⊢
    have hlen := List.nodup_replicate.mp hnodup
    have hpos : m.members.filter (fun e => e.1 ∈ f.keys) ≠ [] := by
      intro hnil
      simp [hnil] at hmem
    have hone := List.length_pos_iff.mpr hpos
    rw [show (m.members.filter fun e => e.1 ∈ f.keys).length = 1 by omega]
    rfl
  rw [find, hone]

/-- A field with one key. -/
@[simp] theorem Field.find_single (k : String) (optional : Bool) (m : JsonMap) :
    Field.find ⟨[k], optional⟩ m.members = some (m.lookup k) := by
  cases hj : m.lookup k with
  | none => exact find_absent (by simpa using hj)
  | some j => exact find_given (List.mem_singleton_self k) hj (by simp)

/-- A field depends on the values of its keys alone. -/
theorem Field.find_congr {f : Field} {m m' : JsonMap}
    (h : ∀ k ∈ f.keys, m.lookup k = m'.lookup k) : f.find m.members = f.find m'.members := by
  have hperm : (m.members.filter fun e => e.1 ∈ f.keys).Perm
      (m'.members.filter fun e => e.1 ∈ f.keys) := by
    apply (List.perm_ext_iff_of_nodup (m.nodup_members.filter _) (m'.nodup_members.filter _)).mpr
    intro e
    rw [mem_filter, mem_filter]
    exact and_congr_left fun he => by rw [h e.1 he]
  unfold find
  generalize m.members.filter (fun e => e.1 ∈ f.keys) = l at hperm ⊢
  generalize m'.members.filter (fun e => e.1 ∈ f.keys) = l' at hperm ⊢
  match l with
  | [] => rw [List.nil_perm.mp hperm]
  | [e] => rw [List.singleton_perm.mp hperm]
  | e :: e' :: rest =>
    match l' with
    | [] => cases List.perm_nil.mp hperm
    | [e''] => cases List.perm_singleton.mp hperm
    | _ :: _ :: _ => rfl

/-- A field that is given under two of its keys is an error. -/
theorem Field.find_twice {f : Field} {m : JsonMap} {k l : String} {j j' : Json}
    (hk : k ∈ f.keys) (hl : l ∈ f.keys) (hne : k ≠ l) (hj : m.lookup k = some j)
    (hj' : m.lookup l = some j') : f.find m.members = none := by
  have hmem : (k, j) ∈ m.members.filter fun e => e.1 ∈ f.keys := mem_filter.mpr ⟨hj, hk⟩
  have hmem' : (l, j') ∈ m.members.filter fun e => e.1 ∈ f.keys := mem_filter.mpr ⟨hj', hl⟩
  unfold find
  split
  · rename_i hnil
    simp [hnil] at hmem
  · rename_i e hone
    rw [hone, List.mem_singleton] at hmem hmem'
    exact absurd (congrArg Prod.fst (hmem.trans hmem'.symm)) hne
  · rfl

/-- Maps with the same entries are the same value. -/
theorem Json.ofMap_eq_iff {m m' : JsonMap} :
    ofMap m = ofMap m' ↔ ∀ k, m.lookup k = m'.lookup k := by
  constructor
  · intro h k
    rw [← get?_ofMap, h, get?_ofMap]
  · intro h
    have hentries : m.entries.Perm m'.entries := by
      apply List.lookup_ext m.nodupKeys m'.nodupKeys
      intro k j
      exact iff_of_eq (congrArg (j ∈ ·) (h k))
    have hperm : m.members.Perm m'.members := by
      let le (a b : String × Json) : Prop := a.1 ≤ b.1
      refine (List.perm_insertionSort le _).trans ?_
      exact (hentries.map fun e => (e.1, e.2)).trans (List.perm_insertionSort le _).symm
    have hsorted : ∀ m : JsonMap, m.members.Pairwise fun a b => a.1 ≤ b.1 := by
      intro m
      have htotal : Std.Total fun a b : String × Json => a.1 ≤ b.1 :=
        ⟨fun a b => le_total a.1 b.1⟩
      have htrans : IsTrans (String × Json) fun a b => a.1 ≤ b.1 :=
        ⟨fun _ _ _ => le_trans⟩
      exact List.pairwise_insertionSort _ _
    have hmembers : m.members = m'.members := by
      refine List.Perm.eq_of_pairwise ?_ (hsorted m) (hsorted m') hperm
      intro a b ha hb hab hba
      have hkey := le_antisymm hab hba
      have ha := JsonMap.mem_members.mp ha
      have hb := JsonMap.mem_members.mp hb
      rw [h, hkey, hb] at ha
      exact Prod.ext hkey (Option.some.inj ha).symm
    rw [ofMap, ofMap, hmembers]

/-- The value that a key has in an object. -/
def valueAt (members : List (String × Json)) (k : String) : Option Json :=
  (JsonMap.ofMembers (membersToValue members)).lookup k

theorem toValue_obj_eq_iff {ms es : List (String × Json)} :
    (Json.obj ms).toValue = (Json.obj es).toValue ↔ ∀ k, valueAt ms k = valueAt es k :=
  Json.ofMap_eq_iff

theorem membersToValue_eq (ms : List (String × Json)) :
    membersToValue ms = ms.map fun m => (m.1, m.2.toValue) := by
  induction ms with
  | nil => rfl
  | cons m ms ih => rw [membersToValue, ih, List.map_cons]

theorem itemsToValue_eq (js : List Json) : itemsToValue js = js.map Json.toValue := by
  induction js with
  | nil => rfl
  | cons j js ih => rw [itemsToValue, ih, List.map_cons]

/-- Of a repeated key the last value stays. -/
theorem valueAt_eq (ms : List (String × Json)) (k : String) :
    valueAt ms k = ((ms.filter (·.1 = k)).getLast?).map fun m => m.2.toValue := by
  rw [valueAt, membersToValue_eq]
  induction ms using List.reverseRecOn with
  | nil => rfl
  | append_singleton ms m ih =>
    rw [JsonMap.ofMembers] at ih ⊢
    rw [List.map_append, List.foldl_append, List.filter_append]
    by_cases hk : m.1 = k
    · simp [hk]
    · simp [hk, AList.lookup_insert_ne (Ne.symm hk), ih]

theorem valueAt_of_find {ms : List (String × Json)} {k : String} {optional : Bool}
    {x : Option Json} (h : Field.find ⟨[k], optional⟩ ms = some x) :
    valueAt ms k = x.map Json.toValue := by
  have hfilter : ms.filter (·.1 = k) = ms.filter fun m => m.1 ∈ [k] := by simp
  rw [valueAt_eq, hfilter]
  unfold Field.find at h
  split at h
  · rename_i hnil
    rw [hnil, ← Option.some.inj h]
    rfl
  · rename_i m hone
    rw [hone, ← Option.some.inj h]
    rfl
  · cases h

theorem lookup_of_find {ms : List (String × Json)} {k : String} {optional : Bool}
    {x : Option Json} (h : Field.find ⟨[k], optional⟩ ms = some x) : ms.lookup k = x := by
  unfold Field.find at h
  induction ms with
  | nil => simpa using h
  | cons m ms ih =>
    by_cases hk : m.1 = k
    · have hcons : (m :: ms).filter (fun m => m.1 ∈ [k]) = m :: ms.filter fun m => m.1 ∈ [k] :=
        List.filter_cons_of_pos (by simp [hk])
      rw [hcons] at h
      split at h
      · rename_i hnil
        cases hnil
      · rename_i hone
        obtain ⟨rfl, -⟩ := List.cons.inj hone
        rw [← Option.some.inj h, List.lookup_cons, hk]
        simp
      · cases h
    · have hcons : (m :: ms).filter (fun m => m.1 ∈ [k]) = ms.filter fun m => m.1 ∈ [k] :=
        List.filter_cons_of_neg (by simp [hk])
      rw [hcons] at h
      have hne : (k == m.1) = false := by simpa using Ne.symm hk
      rw [List.lookup_cons, hne]
      exact ih h

theorem valueAt_eq_none_iff {ms : List (String × Json)} {k : String} :
    valueAt ms k = none ↔ ∀ m ∈ ms, m.1 ≠ k := by
  rw [valueAt_eq, Option.map_eq_none_iff, List.getLast?_eq_none_iff, List.filter_eq_nil_iff]
  simp

theorem valueAt_of_mem {ms : List (String × Json)} (h : (ms.map Prod.fst).Nodup) {k : String}
    {j : Json} (hj : (k, j) ∈ ms) : valueAt ms k = some j.toValue := by
  rw [valueAt_eq]
  have hone : ms.filter (·.1 = k) = [(k, j)] := by
    have hmem : (k, j) ∈ ms.filter (·.1 = k) := List.mem_filter.mpr ⟨hj, by simp⟩
    have hkeys : ((ms.filter (·.1 = k)).map Prod.fst).Nodup :=
      h.sublist (List.filter_sublist.map Prod.fst)
    have hall : ∀ m ∈ ms.filter (·.1 = k), m.1 = k := fun m hm => by
      simpa using (List.mem_filter.mp hm).2
    generalize ms.filter (·.1 = k) = l at hmem hkeys hall
    match l with
    | [] => cases hmem
    | [m] => rw [List.mem_singleton.mp hmem]
    | m :: m' :: l =>
      rw [List.map_cons, List.map_cons, hall m (by simp), hall m' (by simp)] at hkeys
      simp at hkeys
  rw [hone]
  rfl

end FlannelRs.JsonValues
