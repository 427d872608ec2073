import DaxiangVpn.HexTexts

/-!
# Strict readers of JSON

Values of JSON text, and readers that take a value only in one shape: bounded depth and size, no
null, no member twice, no member missing and no other one. Text is read and written by a codec of
which only the round trip is known.
-/

namespace DaxiangVpn.StrictJson
open List HexTexts

mutual

/-- A value. Numbers are integers with their sign, or have a fraction or an exponent. -/
inductive Json
  /-- Nothing. -/
  | null
  /-- A truth value. -/
  | bool (b : Bool)
  | integer (negative : Bool) (magnitude : ℕ)
  /-- Another number. -/
  | fraction
  | string (s : String)
  | array (items : Items)
  | object (members : Members)
  deriving DecidableEq

inductive Items
  /-- No item. -/
  | nil
  | cons (j : Json) (rest : Items)
  deriving DecidableEq

/-- Members of an object, in the order of the text. -/
inductive Members
  /-- No member. -/
  | nil
  | cons (key : String) (j : Json) (rest : Members)
  deriving DecidableEq

end

/-! ## Values and members -/

def Members.ofList : List (String × Json) → Members
  | [] => .nil
  | (key, j) :: rest => .cons key j (Members.ofList rest)

def Members.toList : Members → List (String × Json)
  | .nil => []
  | .cons key j rest => (key, j) :: rest.toList

def Items.toList : Items → List Json
  | .nil => []
  | .cons j rest => j :: rest.toList

def obj (members : List (String × Json)) : Json := .object (Members.ofList members)

/-- A member of an object. -/
def Json.get : Json → String → Option Json
  | .object members, key => members.toList.lookup key
  | _, _ => none

def Json.text? : Json → Option String
  | .string s => some s
  | _ => none

/-- A truth value. -/
def Json.flag? : Json → Option Bool
  | .bool b => some b
  | _ => none

/-- An unsigned integer of sixty-four bits. -/
def Json.uint? : Json → Option ℕ
  | .integer false n => if n < 2 ^ 64 then some n else none
  | _ => none

def signed (negative : Bool) (n : ℕ) : ℤ := if negative then -n else n

/-- A signed integer of sixty-four bits. -/
def Json.int? : Json → Option ℤ
  | .integer negative n =>
    if -2 ^ 63 ≤ signed negative n ∧ signed negative n < 2 ^ 63 then some (signed negative n)
    else none
  | _ => none

def Json.items? : Json → Option (List Json)
  | .array items => some items.toList
  | _ => none

/-- A natural number as a value. -/
def ofNat (n : ℕ) : Json := .integer false n

def ofInt (z : ℤ) : Json := .integer (z < 0) z.natAbs

/-- A number in range is read back. -/
theorem uint?_ofNat {n : ℕ} (h : n < 2 ^ 64) : (ofNat n).uint? = some n := by
  rw [ofNat, Json.uint?, if_pos h]

/-- The sign and the magnitude give the integer. -/
theorem signed_ofInt (z : ℤ) : signed (z < 0) z.natAbs = z := by
  unfold signed
  split_ifs with h
  · rw [decide_eq_true_eq] at h
    omega
  · rw [decide_eq_true_eq] at h
    omega

/-- An integer in range is read back. -/
theorem int?_ofInt {z : ℤ} (h : -2 ^ 63 ≤ z ∧ z < 2 ^ 63) : (ofInt z).int? = some z := by
  rw [ofInt, Json.int?, signed_ofInt, if_pos h]

/-! ## Bounds of a value -/

/-- Bounds of a reader. -/
structure Limits where
  depth : ℕ
  /-- Greatest number of members before a value, if it is bounded. -/
  members : Option ℕ
  /-- Greatest number of items of an array, if it is bounded. -/
  items : Option ℕ

mutual

/-- Read a value at a depth after a number of members; gives the number of members after it. -/
def scan (l : Limits) : ℕ → ℕ → Json → Option ℕ
  | depth, n, .array items =>
    if l.depth < depth || l.members.any (· < n) then none else scanItems l (depth + 1) n 0 items
  | depth, n, .object members =>
    if l.depth < depth || l.members.any (· < n) then none
    else scanMembers l (depth + 1) n [] members
  | _, _, .null => none
  | depth, n, _ => if l.depth < depth || l.members.any (· < n) then none else some n

/-- Read the items of an array. -/
def scanItems (l : Limits) : ℕ → ℕ → ℕ → Items → Option ℕ
  | _, n, _, .nil => some n
  | depth, n, count, .cons j rest =>
    if l.items.any (· ≤ count) then none
    else (scan l depth (n + 1) j).bind fun n => scanItems l depth n (count + 1) rest

/-- Read the members of an object, none of them twice. -/
def scanMembers (l : Limits) : ℕ → ℕ → List String → Members → Option ℕ
  | _, n, _, .nil => some n
  | depth, n, seen, .cons key j rest =>
    if key ∈ seen then none
    else (scan l depth (n + 1) j).bind fun n => scanMembers l depth n (key :: seen) rest

end

theorem toList_ofList (members : List (String × Json)) :
    (Members.ofList members).toList = members := by
  induction members with
  | nil => rfl
  | cons m rest ih => exact congrArg (m :: ·) ih

theorem get_obj (members : List (String × Json)) (key : String) :
    (obj members).get key = members.lookup key :=
  congrArg (List.lookup key) (toList_ofList members)

/-- The value can be read at the depth, after any number of members. -/
def Within (l : Limits) (depth : ℕ) (j : Json) : Prop := ∀ n, (scan l depth n j).isSome = true

variable {members : List (String × Json)}

section

variable {l : Limits} {depth : ℕ}

section

variable (hmembers : l.members = none) (hdepth : depth ≤ l.depth)
include hmembers hdepth

/-- A bound that is not reached. -/
theorem within_guard (n : ℕ) : (decide (l.depth < depth) || l.members.any (· < n)) = false := by
  rw [hmembers, decide_eq_false (by omega)]
  rfl

theorem within_string (v : String) : Within l depth (.string v) := by
  intro n
  have hscan : scan l depth n (.string v) = if l.depth < depth || l.members.any (· < n) then none
    else some n := rfl
  rw [hscan, within_guard hmembers hdepth n]
  rfl

theorem within_bool (b : Bool) : Within l depth (.bool b) := by
  intro n
  have hscan : scan l depth n (.bool b) = if l.depth < depth || l.members.any (· < n) then none
    else some n := rfl
  rw [hscan, within_guard hmembers hdepth n]
  rfl

theorem within_ofInt (z : ℤ) : Within l depth (ofInt z) := by
  intro n
  have hscan : scan l depth n (ofInt z) = if l.depth < depth || l.members.any (· < n) then none
    else some n := rfl
  rw [hscan, within_guard hmembers hdepth n]
  rfl

end

/-- Members that can be read, none of them twice, are read. -/
theorem scanMembers_ofList (hnodup : (members.map Prod.fst).Nodup)
    (hall : ∀ m ∈ members, Within l depth m.2) (n : ℕ) (seen : List String)
    (hseen : ∀ m ∈ members, m.1 ∉ seen) :
    (scanMembers l depth n seen (Members.ofList members)).isSome = true := by
  induction members generalizing n seen with
  | nil => rfl
  | cons m rest ih =>
    obtain ⟨key, j⟩ := m
    rw [map_cons, nodup_cons] at hnodup
    obtain ⟨after, hafter⟩ := Option.isSome_iff_exists.mp (hall (key, j) mem_cons_self (n + 1))
    rw [Members.ofList, scanMembers, if_neg (hseen (key, j) mem_cons_self), hafter,
      Option.bind_some]
    refine ih hnodup.2 (fun m hm => hall m (mem_cons_of_mem _ hm)) after
      (key :: seen) fun m hm hmem => ?_
    rcases mem_cons.mp hmem with heq | hmem
    · exact hnodup.1 (mem_map.mpr ⟨m, hm, heq⟩)
    · exact hseen m (mem_cons_of_mem _ hm) hmem

/-- An object can be read when its members can be read one level deeper. -/
theorem within_obj (hmembers : l.members = none) (hdepth : depth ≤ l.depth)
    (hnodup : (members.map Prod.fst).Nodup) (hall : ∀ m ∈ members, Within l (depth + 1) m.2) :
    Within l depth (obj members) := by
  intro n
  rw [obj, scan, within_guard hmembers hdepth n]
  exact scanMembers_ofList hnodup hall n [] fun _ _ => not_mem_nil

end

/-! ## Shapes -/

mutual

/-- What a reader expects. -/
inductive Shape
  | text
  /-- A truth value. -/
  | flag
  | number
  /-- An array, with the greatest number of items if it is bounded. -/
  | list (limit : Option ℕ) (item : Shape)
  /-- An object. -/
  | record (fields : Fields)

inductive Fields
  /-- No field. -/
  | nil
  | cons (name : String) (required : Bool) (shape : Shape) (rest : Fields)

end

def Fields.add (needed : Bool) : List (String × Shape) → Fields → Fields
  | [], fields => fields
  | (name, shape) :: rest, fields => .cons name needed shape (Fields.add needed rest fields)

def record (required : List (String × Shape)) (others : List (String × Shape)) : Shape :=
  .record (Fields.add true required (Fields.add false others .nil))

def Fields.find : Fields → String → Option Shape
  | .nil, _ => none
  | .cons name _ shape rest, key => if key = name then some shape else rest.find key

def Fields.required : Fields → List String
  | .nil => []
  | .cons name needed _ rest => if needed then name :: rest.required else rest.required

mutual

def jsonShape : Json → Shape → Bool
  | .string _, .text => true
  | .bool _, .flag => true
  | .integer _ _, .number => true
  | .fraction, .number => true
  | .array items, .list limit item => !(limit.any (· < items.toList.length)) &&
      shapeItems items item
  | .object members, .record fields =>
    (fields.required.all fun name => (members.toList.lookup name).isSome) &&
      shapeMembers members fields
  | _, _ => false

def shapeItems : Items → Shape → Bool
  | .nil, _ => true
  | .cons j rest, item => jsonShape j item && shapeItems rest item

def shapeMembers : Members → Fields → Bool
  | .nil, _ => true
  | .cons key j rest, fields => (fields.find key).any (jsonShape j) && shapeMembers rest fields

end

theorem jsonShape_obj {fields : Fields}
    (hrequired : ∀ name ∈ fields.required, (members.lookup name).isSome = true)
    (hall : ∀ m ∈ members, (fields.find m.1).any (jsonShape m.2) = true) :
    jsonShape (obj members) (.record fields) = true := by
  have hmembers : ∀ ms : List (String × Json),
    (∀ m ∈ ms, (fields.find m.1).any (jsonShape m.2) = true) →
      shapeMembers (Members.ofList ms) fields = true := by
    intro ms h
    induction ms with
    | nil => rfl
    | cons m rest ih =>
      rw [Members.ofList, shapeMembers, Bool.and_eq_true]
      exact ⟨h m mem_cons_self, ih fun m' hm => h m' (mem_cons_of_mem m hm)⟩
  rw [obj, jsonShape, Bool.and_eq_true, all_eq_true]
  exact ⟨fun name hname => by rw [toList_ofList]; exact hrequired name hname, hmembers members hall⟩

/-! ## Readers -/

/-- How text is read. -/
structure Reader (File : Type) where
  /-- The value of the text, if it is one value and nothing else. -/
  parse : File → Option Json
  /-- Number of bytes. -/
  size : File → ℕ

/-- How text is written and read again. -/
structure Codec (File : Type) extends Reader File where
  /-- The text of a value. -/
  print : Json → File
  /-- The value is read back. -/
  parse_print : ∀ j, parse (print j) = some j
  /-- No text is empty. -/
  size_print : ∀ j, 0 < size (print j)

/-- The bytes of a text within its quotes. -/
def escaped (s : String) : List UInt8 :=
  34 :: ((textBytes s).flatMap fun b => if b = 34 ∨ b = 92 then [92, b] else [b]) ++ [34]

mutual

/-- The text that `json.Marshal` writes for a value whose strings are printable and have none of
`<`, `>` and `&`. -/
def Json.bytes : Json → List UInt8
  | .null => textBytes "null"
  | .bool b => textBytes (toString b)
  | .integer negative n => textBytes (if negative then "-" else "") ++ textBytes (toString n)
  | .fraction => textBytes "0.5"
  | .string s => escaped s
  | .array items => 91 :: items.bytes ++ [93]
  | .object members => 123 :: members.bytes ++ [125]

/-- Items with commas between them. -/
def Items.bytes : Items → List UInt8
  | .nil => []
  | .cons j .nil => j.bytes
  | .cons j rest => j.bytes ++ 44 :: rest.bytes

/-- Members with commas between them. -/
def Members.bytes : Members → List UInt8
  | .nil => []
  | .cons key j .nil => escaped key ++ 58 :: j.bytes
  | .cons key j rest => escaped key ++ 58 :: j.bytes ++ 44 :: rest.bytes

end

/-- Files that hold a value are as long as its text. -/
def valueCodec : Codec Json :=
  ⟨⟨some, fun j => max 1 j.bytes.length⟩, id, fun _ => rfl, fun _ => by simp⟩

section

variable {File α : Type}

/-- `strictDecode`: a value within the bounds, of the shape, and with fields in their ranges. -/
def strictDecode (r : Reader File) (limit : ℕ) (l : Limits) (shape : Shape)
    (decode : Json → Option α) (file : File) : Option α :=
  if r.size file = 0 ∨ limit < r.size file then none
  else do
    let j ← r.parse file
    let _ ← scan l 0 0 j
    if jsonShape j shape then decode j else none

/-- What was written within the bounds is read back. -/
theorem strictDecode_print {c : Codec File} {limit : ℕ} {l : Limits} {shape : Shape}
    {decode : Json → Option α} {j : Json} {a : α} (hsize : c.size (c.print j) ≤ limit)
      (hscan : (scan l 0 0 j).isSome = true)
    (hshape : jsonShape j shape = true) (hdecode : decode j = some a) :
    strictDecode c.toReader limit l shape decode (c.print j) = some a := by
  have hbounds : ¬ (c.size (c.print j) = 0 ∨ limit < c.size (c.print j)) := by
    have hpos := c.size_print j
    omega
  obtain ⟨n, hn⟩ := Option.isSome_iff_exists.mp hscan
  simp only [strictDecode, if_neg hbounds, c.parse_print, hn, hshape, if_true, hdecode,
    Option.bind_eq_bind, Option.bind_some]

end

end DaxiangVpn.StrictJson
