/-
  LogPipeline.Go.Json

  `encoding/json` for structs, at the level of JSON trees.

  A struct type is the list of its fields: the name in the tag, how the field is
  marshalled (or left out, for `omitempty`) and how a JSON value is stored in
  it.  `decode` follows the decoder: object members are stored in order, a name
  matches a field up to letter case, an unknown name is skipped, `null` leaves a
  field alone, and the first mismatch is the error returned.  `unmarshal` has the
  scanner in front, which refuses a text that is nested too deep.

  What is decoded into an `interface{}` is a `Value`: the JSON that this Go value is
  marshalled to.

  - `Struct.decode_encode`: decoding what a struct was encoded to stores each of
    its fields again, in order.
  - `Json.norm_norm`: a value that was decoded into an `interface{}` is marshalled
    and decoded again unchanged.
-/

import LogPipeline.Go.Float
import Mathlib.Data.List.Nodup
import Mathlib.Data.String.Basic

namespace LogPipeline.Go

/-- A JSON value. -/
inductive Json where
  | null
  | bool (b : Bool)
  | num (x : Number)
  | str (s : String)
  | arr (elems : List Json)
  | obj (members : List (String × Json))

/-- How the decoder names a value it cannot store. -/
def Json.kind : Json → String
  | .null => "null"
  | .bool _ => "bool"
  | .num x => "number " ++ x.text
  | .str _ => "string"
  | .arr _ => "array"
  | .obj _ => "object"

inductive JsonError where
  /-- The text is not JSON. -/
  | malformed (text : String)
  /-- The scanner gave up at its nesting limit. -/
  | tooDeep
  /-- A value of this kind cannot be stored in the Go type. -/
  | mismatch (value goType : String)

/-- `err.Error()`, without the position the decoder adds. -/
def JsonError.text : JsonError → String
  | .malformed t => "invalid JSON: " ++ t
  | .tooDeep => "exceeded max depth"
  | .mismatch value goType =>
      "json: cannot unmarshal " ++ value ++ " into Go value of type " ++ goType

/-- A text, by the JSON value it holds if it is JSON. -/
inductive Text where
  | json (j : Json)
  | raw (s : String)

-- ============================================================================
-- Nesting
-- ============================================================================

mutual

/-- How deep arrays and objects are nested. -/
def Json.depth : Json → Nat
  | .arr elems => depthElems elems + 1
  | .obj members => depthMembers members + 1
  | _ => 0

def depthElems : List Json → Nat
  | [] => 0
  | j :: js => max j.depth (depthElems js)

def depthMembers : List (String × Json) → Nat
  | [] => 0
  | (_, v) :: kvs => max v.depth (depthMembers kvs)

end

/-- `maxNestingDepth` of the scanner. -/
def maxNestingDepth : Nat := 10000

/-- The nesting of a text; none if it is not JSON. -/
def Text.depth : Text → Nat
  | .json j => j.depth
  | .raw _ => 0

-- ============================================================================
-- Structs
-- ============================================================================

/-- One field of a struct. -/
structure Field (α : Type) where
  name : String
  /-- Marshal the field; `none` leaves it out. -/
  enc : α → Except String (Option Json)
  dec : Json → α → Except JsonError α

/-- Case folding as the decoder does it, for the letters that fold to ASCII: the
    ASCII letters, the long s and the Kelvin sign. -/
def foldRune (c : Char) : Char :=
  if c = '\u017f' then 'S' else if c = '\u212a' then 'K' else c.toUpper

/-- A name as the decoder compares it. -/
def foldName (s : String) : List Char := s.toList.map foldRune

/-- A struct type: its fields, with names that differ after folding. -/
structure Struct (α : Type) where
  goType : String
  fields : List (Field α)
  distinct : (fields.map fun f => foldName f.name).Nodup

namespace Struct

variable {α : Type}

/-- Marshal the fields in order. -/
def encodeFields (x : α) : List (Field α) → Except String (List (String × Json))
  | [] => .ok []
  | f :: fs =>
      match f.enc x with
      | .error e => .error e
      | .ok none => encodeFields x fs
      | .ok (some v) =>
          match encodeFields x fs with
          | .error e => .error e
          | .ok kvs => .ok ((f.name, v) :: kvs)

/-- `json.Marshal` of a struct. -/
def encode (T : Struct α) (x : α) : Except String Json := (encodeFields x T.fields).map .obj

/-- Store one object member. -/
def setField (T : Struct α) (x : α) (kv : String × Json) : Except JsonError α :=
  match T.fields.find? fun f => foldName f.name == foldName kv.1 with
  | some f => f.dec kv.2 x
  | none => .ok x

/-- Store object members in order, up to the first mismatch. -/
def setFields (T : Struct α) : α → List (String × Json) → Except JsonError α
  | x, [] => .ok x
  | x, kv :: kvs =>
      match T.setField x kv with
      | .error e => .error e
      | .ok x' => T.setFields x' kvs

/-- Store a JSON value in the struct `x`. -/
def decode (T : Struct α) (x : α) : Json → Except JsonError α
  | .null => .ok x
  | .obj kvs => T.setFields x kvs
  | j => .error (.mismatch j.kind T.goType)

def marshal (T : Struct α) (x : α) : Except String Text := (T.encode x).map .json

/-- What a text says, however deep it is nested. -/
def read (T : Struct α) (x : α) : Text → Except JsonError α
  | .json j => T.decode x j
  | .raw s => .error (.malformed s)

/-- `json.Unmarshal` into the struct `x`: the whole text is scanned before anything is
    stored. -/
def unmarshal (T : Struct α) (x : α) (text : Text) : Except JsonError α :=
  if maxNestingDepth < text.depth then .error .tooDeep else T.read x text

/-- What `Unmarshal` stores is what the text says. -/
theorem read_of_unmarshal {T : Struct α} {x y : α} {text : Text}
    (h : T.unmarshal x text = .ok y) : T.read x text = .ok y := by
  unfold unmarshal at h
  split at h
  · cases h
  · exact h

theorem unmarshal_of_read {T : Struct α} {x y : α} {text : Text}
    (hd : text.depth ≤ maxNestingDepth) (h : T.read x text = .ok y) :
    T.unmarshal x text = .ok y := by
  rw [unmarshal, if_neg (Nat.not_lt.mpr hd), h]

/-- A member under a field's own name goes to that field. -/
theorem setField_name (T : Struct α) {f : Field α} (hf : f ∈ T.fields) (x : α) (v : Json) :
    T.setField x (f.name, v) = f.dec v x := by
  have hfind : (T.fields.find? fun g => foldName g.name == foldName f.name) = some f := by
    have hd := T.distinct
    generalize T.fields = fs at hf hd
    induction fs with
    | nil => simp at hf
    | cons g gs ih =>
        simp only [List.map_cons, List.nodup_cons] at hd
        rcases List.mem_cons.mp hf with rfl | hf
        · simp
        · have hne : foldName g.name ≠ foldName f.name := by
            intro heq
            exact hd.1 (heq ▸ List.mem_map_of_mem hf)
          rw [List.find?_cons_of_neg (by simpa using hne)]
          exact ih hf hd.2
  rw [setField, hfind]

/-- Store again what a field was marshalled to. -/
def restore (x : α) : α → List (Field α) → Except JsonError α
  | y, [] => .ok y
  | y, f :: fs =>
      match f.enc x with
      | .ok (some v) =>
          match f.dec v y with
          | .error e => .error e
          | .ok y' => restore x y' fs
      | _ => restore x y fs

/-- A struct is encoded as an object of its fields. -/
theorem encode_obj {T : Struct α} {x : α} {j : Json} (h : T.encode x = .ok j) :
    ∃ kvs, encodeFields x T.fields = .ok kvs ∧ j = .obj kvs := by
  unfold encode at h
  cases hk : encodeFields x T.fields with
  | error e =>
      rw [hk] at h
      cases h
  | ok kvs =>
      rw [hk] at h
      cases h
      exact ⟨kvs, rfl, rfl⟩

/-- Decoding what `x` was encoded to stores its fields one after the other. -/
theorem decode_encode (T : Struct α) {x : α} {j : Json} (h : T.encode x = .ok j) (y : α) :
    T.decode y j = restore x y T.fields := by
  obtain ⟨kvs, hkvs, rfl⟩ := encode_obj h
  have hall : ∀ fs : List (Field α), (∀ f ∈ fs, f ∈ T.fields) → ∀ kvs y,
      encodeFields x fs = .ok kvs → T.setFields y kvs = restore x y fs := by
    intro fs
    induction fs with
    | nil =>
        intro _ kvs y hk
        cases hk
        rfl
    | cons f fs ih =>
        intro hsub kvs y hk
        have hf := hsub f (List.mem_cons_self ..)
        have hfs : ∀ g ∈ fs, g ∈ T.fields := fun g hg => hsub g (List.mem_cons_of_mem _ hg)
        cases henc : f.enc x with
        | error e => simp [encodeFields, henc] at hk
        | ok v =>
            cases v with
            | none =>
                simp only [encodeFields, henc] at hk
                simp only [restore, henc]
                exact ih hfs kvs y hk
            | some v =>
                simp only [encodeFields, henc] at hk
                cases hrest : encodeFields x fs with
                | error e => simp [hrest] at hk
                | ok kvs' =>
                    simp only [hrest] at hk
                    cases hk
                    simp only [setFields, restore, henc, T.setField_name hf]
                    cases f.dec v y with
                    | error e => rfl
                    | ok y' => exact ih hfs kvs' y' hrest
  exact hall T.fields (fun f hf => hf) kvs y hkvs

/-- A struct can be marshalled if each of its fields can. -/
theorem encode_ok_iff (T : Struct α) (x : α) :
    (∃ j, T.encode x = .ok j) ↔ ∀ f ∈ T.fields, ∃ v, f.enc x = .ok v := by
  have hall : ∀ fs : List (Field α),
      (∃ kvs, encodeFields x fs = .ok kvs) ↔ ∀ f ∈ fs, ∃ v, f.enc x = .ok v := by
    intro fs
    induction fs with
    | nil => simp [encodeFields]
    | cons f fs ih =>
        rw [List.forall_mem_cons, ← ih]
        cases henc : f.enc x with
        | error e => simp [encodeFields, henc]
        | ok v =>
            cases v with
            | none => simp [encodeFields, henc]
            | some v =>
                cases hrest : encodeFields x fs with
                | error e => simp [encodeFields, henc, hrest]
                | ok kvs => simp [encodeFields, henc, hrest]
  rw [← hall]
  constructor
  · rintro ⟨j, hj⟩
    obtain ⟨kvs, hkvs, -⟩ := encode_obj hj
    exact ⟨kvs, hkvs⟩
  · rintro ⟨kvs, hkvs⟩
    exact ⟨.obj kvs, by rw [encode, hkvs]; rfl⟩

/-- Every value of the type survives a round trip through `zero`. -/
def Lawful (T : Struct α) (zero : α) : Prop :=
  ∀ x j, T.encode x = .ok j → T.decode zero j = .ok x

theorem marshal_eq_ok {T : Struct α} {x : α} {text : Text} :
    T.marshal x = .ok text ↔ ∃ j, T.encode x = .ok j ∧ text = .json j := by
  unfold marshal
  cases T.encode x with
  | error e => simp [Except.map]
  | ok j => simp [Except.map, eq_comm]

/-- What was marshalled says the same when it is read. -/
theorem Lawful.read_marshal {T : Struct α} {zero x : α} (hT : T.Lawful zero) {text : Text}
    (h : T.marshal x = .ok text) : T.read zero text = .ok x := by
  obtain ⟨j, hj, rfl⟩ := marshal_eq_ok.mp h
  exact hT x j hj

end Struct

-- ============================================================================
-- Values of type interface{}
-- ============================================================================

section

variable {β : Type}

/-- Put a value under a key, in place of the one that is there. -/
def insertSorted (k : String) (v : β) : List (String × β) → List (String × β)
  | [] => [(k, v)]
  | (k', v') :: l =>
      if k < k' then (k, v) :: (k', v') :: l
      else if k = k' then (k, v) :: l
      else (k', v') :: insertSorted k v l

/-- Put values under their keys, one after the other. -/
def insertAll (l kvs : List (String × β)) : List (String × β) :=
  kvs.foldl (fun l kv => insertSorted kv.1 kv.2 l) l

theorem mem_insertSorted {k : String} {v : β} {l : List (String × β)} {x : String × β}
    (hx : x ∈ insertSorted k v l) : x = (k, v) ∨ x ∈ l := by
  induction l with
  | nil => exact Or.inl (List.mem_singleton.mp hx)
  | cons y l ih =>
      simp only [insertSorted] at hx
      split at hx
      · exact List.mem_cons.mp hx
      · split at hx
        · rcases List.mem_cons.mp hx with hx | hx
          · exact Or.inl hx
          · exact Or.inr (List.mem_cons_of_mem _ hx)
        · rcases List.mem_cons.mp hx with rfl | hx
          · exact Or.inr (List.mem_cons_self ..)
          · exact (ih hx).imp_right (List.mem_cons_of_mem _)

theorem mem_insertAll {l kvs : List (String × β)} {x : String × β} (hx : x ∈ insertAll l kvs) :
    x ∈ l ∨ x ∈ kvs := by
  induction kvs generalizing l with
  | nil => exact Or.inl hx
  | cons kv kvs ih =>
      rcases ih hx with hx | hx
      · rcases mem_insertSorted hx with rfl | hx
        · exact Or.inr (List.mem_cons_self ..)
        · exact Or.inl hx
      · exact Or.inr (List.mem_cons_of_mem _ hx)

theorem insertSorted_sorted {k : String} {v : β} {l : List (String × β)}
    (h : l.Pairwise fun a b => a.1 < b.1) :
    (insertSorted k v l).Pairwise fun a b => a.1 < b.1 := by
  induction l with
  | nil => exact List.pairwise_singleton _ _
  | cons y l ih =>
      obtain ⟨hy, hl⟩ := List.pairwise_cons.mp h
      simp only [insertSorted]
      split
      · next hlt =>
          refine List.pairwise_cons.mpr ⟨?_, h⟩
          intro x hx
          rcases List.mem_cons.mp hx with rfl | hx
          · exact hlt
          · exact lt_trans hlt (hy x hx)
      · next hnlt =>
          split
          · next heq =>
              subst heq
              exact List.pairwise_cons.mpr ⟨hy, hl⟩
          · next hne =>
              refine List.pairwise_cons.mpr ⟨?_, ih hl⟩
              intro x hx
              rcases mem_insertSorted hx with rfl | hx
              · exact lt_of_le_of_ne (not_lt.mp hnlt) (Ne.symm hne)
              · exact hy x hx

theorem insertAll_sorted {l kvs : List (String × β)} (h : l.Pairwise fun a b => a.1 < b.1) :
    (insertAll l kvs).Pairwise fun a b => a.1 < b.1 := by
  induction kvs generalizing l with
  | nil => exact h
  | cons kv kvs ih => exact ih (insertSorted_sorted h)

theorem insertSorted_append {k : String} {v : β} {l : List (String × β)}
    (h : ∀ x ∈ l, x.1 < k) : insertSorted k v l = l ++ [(k, v)] := by
  induction l with
  | nil => rfl
  | cons y l ih =>
      have hy := h y (List.mem_cons_self ..)
      simp only [insertSorted, if_neg (not_lt.mpr hy.le), if_neg hy.ne', List.cons_append]
      rw [ih fun x hx => h x (List.mem_cons_of_mem _ hx)]

/-- Members that come in order after those that are there are appended. -/
theorem insertAll_append {l kvs : List (String × β)}
    (h : (l ++ kvs).Pairwise fun a b => a.1 < b.1) : insertAll l kvs = l ++ kvs := by
  induction kvs generalizing l with
  | nil => exact (List.append_nil l).symm
  | cons kv kvs ih =>
      have hkv : insertSorted kv.1 kv.2 l = l ++ [kv] :=
        insertSorted_append fun x hx =>
          (List.pairwise_append.mp h).2.2 x hx kv (List.mem_cons_self ..)
      rw [List.append_cons] at h
      rw [List.append_cons, ← ih h, ← hkv]
      rfl

/-- A sorted list is read back from its own members. -/
theorem insertAll_nil {l : List (String × β)} (h : l.Pairwise fun a b => a.1 < b.1) :
    insertAll [] l = l := insertAll_append h

end

mutual

/-- Decode into an `interface{}` and marshal again: a number becomes the nearest `float64`, an
    object a map with one member for each key, which is written in the order of the keys. -/
def Json.norm : Json → Except JsonError Json
  | .null => .ok .null
  | .bool b => .ok (.bool b)
  | .num x =>
      match x.round with
      | some y => .ok (.num y)
      | none => .error (.mismatch (Json.num x).kind "float64")
  | .str s => .ok (.str s)
  | .arr elems => (normElems elems).map .arr
  | .obj members => (normMembers members).map fun kvs => .obj (insertAll [] kvs)

def normElems : List Json → Except JsonError (List Json)
  | [] => .ok []
  | j :: js =>
      match j.norm with
      | .error e => .error e
      | .ok j' => (normElems js).map (j' :: ·)

def normMembers : List (String × Json) → Except JsonError (List (String × Json))
  | [] => .ok []
  | (k, v) :: kvs =>
      match v.norm with
      | .error e => .error e
      | .ok v' => (normMembers kvs).map ((k, v') :: ·)

end
section

variable {js ks : List Json} {kvs ms : List (String × Json)}

theorem normElems_of_forall (h : ∀ j ∈ js, j.norm = .ok j) : normElems js = .ok js := by
  induction js with
  | nil => rfl
  | cons j js ih =>
      rw [List.forall_mem_cons] at h
      rw [normElems, h.1, ih h.2]
      rfl

theorem normMembers_of_forall (h : ∀ kv ∈ kvs, kv.2.norm = .ok kv.2) :
    normMembers kvs = .ok kvs := by
  induction kvs with
  | nil => rfl
  | cons kv kvs ih =>
      rw [List.forall_mem_cons] at h
      rw [normMembers, h.1, ih h.2]
      rfl

theorem normElems_cons {j : Json} (h : normElems (j :: js) = .ok ks) :
    ∃ k ks', j.norm = .ok k ∧ normElems js = .ok ks' ∧ ks = k :: ks' := by
  rw [normElems] at h
  cases hj : j.norm with
  | error e => simp [hj] at h
  | ok k =>
      cases hjs : normElems js with
      | error e => simp [hj, hjs, Except.map] at h
      | ok ks' =>
          simp only [hj, hjs, Except.map] at h
          cases h
          exact ⟨k, ks', rfl, rfl, rfl⟩

theorem normMembers_cons {kv : String × Json} (h : normMembers (kv :: kvs) = .ok ms) :
    ∃ v ms', kv.2.norm = .ok v ∧ normMembers kvs = .ok ms' ∧ ms = (kv.1, v) :: ms' := by
  rw [normMembers] at h
  cases hv : kv.2.norm with
  | error e => simp [hv] at h
  | ok v =>
      cases hkvs : normMembers kvs with
      | error e => simp [hv, hkvs, Except.map] at h
      | ok ms' =>
          simp only [hv, hkvs, Except.map] at h
          cases h
          exact ⟨v, ms', rfl, rfl, rfl⟩

theorem norm_arr {k : Json} (h : (Json.arr js).norm = .ok k) :
    ∃ ks, normElems js = .ok ks ∧ k = .arr ks := by
  rw [Json.norm] at h
  cases hjs : normElems js with
  | error e => simp [hjs, Except.map] at h
  | ok ks =>
      simp only [hjs, Except.map] at h
      cases h
      exact ⟨ks, rfl, rfl⟩

theorem norm_obj {k : Json} (h : (Json.obj kvs).norm = .ok k) :
    ∃ ms, normMembers kvs = .ok ms ∧ k = .obj (insertAll [] ms) := by
  rw [Json.norm] at h
  cases hkvs : normMembers kvs with
  | error e => simp [hkvs, Except.map] at h
  | ok ms =>
      simp only [hkvs, Except.map] at h
      cases h
      exact ⟨ms, rfl, rfl⟩

end

mutual

/-- What was decoded into an `interface{}` is marshalled and decoded again unchanged, by
    induction over the nesting. -/
theorem Json.norm_norm : ∀ (j : Json) {k : Json}, j.norm = .ok k → k.norm = .ok k
  | .null, _, h => by
      cases h
      rfl
  | .bool _, _, h => by
      cases h
      rfl
  | .num x, _, h => by
      rw [Json.norm] at h
      cases hx : x.round with
      | none => simp [hx] at h
      | some y =>
          simp only [hx] at h
          cases h
          rw [Json.norm, Number.round_round hx]
  | .str _, _, h => by
      cases h
      rfl
  | .arr elems, _, h => by
      obtain ⟨ks, hks, rfl⟩ := norm_arr h
      rw [Json.norm, normElems_of_forall (normElems_norm elems hks)]
      rfl
  | .obj members, _, h => by
      obtain ⟨ms, hms, rfl⟩ := norm_obj h
      have hall := normMembers_norm members hms
      have hsorted : (insertAll [] ms).Pairwise fun a b => a.1 < b.1 :=
        insertAll_sorted List.Pairwise.nil
      have hnorm : normMembers (insertAll [] ms) = .ok (insertAll [] ms) := by
        refine normMembers_of_forall fun kv hkv => ?_
        rcases mem_insertAll hkv with hkv | hkv
        · cases hkv
        · exact hall kv hkv
      rw [Json.norm, hnorm, Except.map, insertAll_nil hsorted]

theorem normElems_norm : ∀ (js : List Json) {ks : List Json}, normElems js = .ok ks →
    ∀ k ∈ ks, k.norm = .ok k
  | [], _, h => by
      cases h
      simp
  | j :: js, _, h => by
      obtain ⟨k, ks, hk, hks, rfl⟩ := normElems_cons h
      exact List.forall_mem_cons.mpr ⟨j.norm_norm hk, normElems_norm js hks⟩

theorem normMembers_norm : ∀ (kvs : List (String × Json)) {ms : List (String × Json)},
    normMembers kvs = .ok ms → ∀ kv ∈ ms, kv.2.norm = .ok kv.2
  | [], _, h => by
      cases h
      simp
  | (_, v) :: kvs, _, h => by
      obtain ⟨v', ms, hv, hms, rfl⟩ := normMembers_cons h
      exact List.forall_mem_cons.mpr ⟨v.norm_norm hv, normMembers_norm kvs hms⟩

end

/-- A value of type `interface{}` that was decoded, by the JSON it is marshalled to. -/
@[ext] structure Value where
  json : Json
  normal : json.norm = .ok json

namespace Value

def decode (j : Json) : Except JsonError Value :=
  match h : j.norm with
  | .error e => .error e
  | .ok k => .ok ⟨k, j.norm_norm h⟩

theorem decode_json (v : Value) : decode v.json = .ok v := by
  unfold decode
  split
  · next e h =>
      rw [v.normal] at h
      cases h
  · next k h =>
      rw [v.normal] at h
      cases h
      rfl

/-- Decode the members of an object. -/
def decodeMembers : List (String × Json) → Except JsonError (List (String × Value))
  | [] => .ok []
  | (k, j) :: kvs =>
      match decode j with
      | .error e => .error e
      | .ok v => (decodeMembers kvs).map ((k, v) :: ·)

/-- Members as they are marshalled. -/
def encodeMembers (kvs : List (String × Value)) : List (String × Json) :=
  kvs.map fun kv => (kv.1, kv.2.json)

theorem decodeMembers_encodeMembers (kvs : List (String × Value)) :
    decodeMembers (encodeMembers kvs) = .ok kvs := by
  induction kvs with
  | nil => rfl
  | cons kv kvs ih =>
      unfold encodeMembers at ih ⊢
      rw [List.map_cons, decodeMembers, decode_json, ih]
      rfl

end Value

/-- A `map[string]interface{}`, listed by increasing key; `json.Marshal` writes it in that
    order.  The nil map and the empty map are not told apart. -/
@[ext] structure JsonMap where
  members : List (String × Value)
  sorted : members.Pairwise fun a b => a.1 < b.1

namespace JsonMap

def empty : JsonMap := ⟨[], List.Pairwise.nil⟩

def insert (m : JsonMap) (k : String) (v : Value) : JsonMap :=
  ⟨insertSorted k v m.members, insertSorted_sorted m.sorted⟩

/-- Store decoded members. -/
def insertAll (m : JsonMap) (kvs : List (String × Value)) : JsonMap :=
  ⟨Go.insertAll m.members kvs, insertAll_sorted m.sorted⟩

/-- A map is read back from its own members. -/
theorem insertAll_empty (m : JsonMap) : empty.insertAll m.members = m :=
  JsonMap.ext (insertAll_nil m.sorted)

end JsonMap

-- ============================================================================
-- Fields of the usual types
-- ============================================================================

namespace Field

variable {α β : Type}

/-- A `string` field. -/
def string (name : String) (get : α → String) (set : String → α → α) : Field α where
  name := name
  enc x := .ok (some (.str (get x)))
  dec
    | .str s, x => .ok (set s x)
    | .null, x => .ok x
    | j, _ => .error (.mismatch j.kind "string")

/-- A `string` field with `omitempty`. -/
def stringOmitEmpty (name : String) (get : α → String) (set : String → α → α) : Field α :=
  { string name get set with
    enc := fun x => .ok (if get x = "" then none else some (.str (get x))) }

/-- An `int` or `int64` field. -/
def int64 (name goType : String) (get : α → Int64) (set : Int64 → α → α) : Field α where
  name := name
  enc x := .ok (some (.num (.int (get x).toInt)))
  dec
    | .num (.int n), x =>
        if -2 ^ 63 ≤ n ∧ n < 2 ^ 63 then .ok (set (Int64.ofInt n) x)
        else .error (.mismatch (Json.num (.int n)).kind goType)
    | .null, x => .ok x
    | j, _ => .error (.mismatch j.kind goType)

/-- A pointer to a struct: `null` is the nil pointer, and a value is decoded into
    the struct already there, or into a new one. -/
def ptr (name : String) (T : Struct β) (zero : β) (get : α → Option β) (set : Option β → α → α) :
    Field α where
  name := name
  enc x :=
    match get x with
    | none => .ok (some .null)
    | some b => (T.encode b).map some
  dec
    | .null, x => .ok (set none x)
    | j, x => (T.decode ((get x).getD zero) j).map fun b => set (some b) x

variable (name goType : String) (x y : α) (fs : List (Field α))

@[simp] theorem string_enc_ok (get : α → String) (set : String → α → α) :
    ∃ v, (string name get set).enc x = .ok v := ⟨_, rfl⟩

@[simp] theorem stringOmitEmpty_enc_ok (get : α → String) (set : String → α → α) :
    ∃ v, (stringOmitEmpty name get set).enc x = .ok v := ⟨_, rfl⟩

@[simp] theorem int64_enc_ok (get : α → Int64) (set : Int64 → α → α) :
    ∃ v, (int64 name goType get set).enc x = .ok v := ⟨_, rfl⟩

@[simp] theorem ptr_enc_ok {T : Struct β} {zero : β} {get : α → Option β}
    {set : Option β → α → α} :
    (∃ v, (ptr name T zero get set).enc x = .ok v) ↔
      ∀ b, get x = some b → ∃ j, T.encode b = .ok j := by
  cases hx : get x with
  | none => simp [ptr, hx]
  | some b =>
      cases hj : T.encode b with
      | error e => simp [ptr, hx, hj, Except.map]
      | ok j => simp [ptr, hx, hj, Except.map]

@[simp] theorem restore_string (get : α → String) (set : String → α → α) :
    Struct.restore x y (string name get set :: fs) = Struct.restore x (set (get x) y) fs := rfl

@[simp] theorem restore_stringOmitEmpty (get : α → String) (set : String → α → α) :
    Struct.restore x y (stringOmitEmpty name get set :: fs) =
      Struct.restore x (if get x = "" then y else set (get x) y) fs := by
  by_cases h : get x = ""
  · simp [Struct.restore, stringOmitEmpty, h]
  · simp [Struct.restore, stringOmitEmpty, h, string]

@[simp] theorem restore_int64 (get : α → Int64) (set : Int64 → α → α) :
    Struct.restore x y (int64 name goType get set :: fs) =
      Struct.restore x (set (get x) y) fs := by
  have h : -2 ^ 63 ≤ (get x).toInt ∧ (get x).toInt < 2 ^ 63 :=
    ⟨Int64.le_toInt _, Int64.toInt_lt _⟩
  simp only [Struct.restore, int64]
  rw [if_pos h, Int64.ofInt_toInt]

/-- A pointer field is restored where there was no struct yet. -/
theorem restore_ptr {T : Struct β} {zero : β} (hT : T.Lawful zero) (get : α → Option β)
    (set : Option β → α → α) (hy : get y = none)
    (hok : ∀ b, get x = some b → ∃ j, T.encode b = .ok j) :
    Struct.restore x y (ptr name T zero get set :: fs) =
      Struct.restore x (set (get x) y) fs := by
  cases hx : get x with
  | none => simp [Struct.restore, ptr, hx]
  | some b =>
      obtain ⟨j, hj⟩ := hok b hx
      obtain ⟨kvs, -, rfl⟩ := Struct.encode_obj hj
      have hdec := hT b _ hj
      simp only [Struct.restore, ptr, hx, hj, Except.map, hy, Option.getD_none, hdec]

end Field

@[simp] theorem Struct.restore_nil {α : Type} (x y : α) :
    Struct.restore x y [] = .ok y := rfl

end LogPipeline.Go
