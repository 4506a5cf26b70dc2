/-
What a program may rely on when it writes with a flatbuffer builder and the
buffer is read back: a table gives for every field what was added to it.
Fields go by their names, and an enumeration by the numbers of its values.
-/
import EpicsToKafka.LittleEndian

/-- What is added to a field of a table: an element in its bytes, the value of
an enumeration, or an offset, which may be null.  A field that holds its
default need not be stored. -/
inductive FlatBuffers.Slot (Offset : Type) where
  | element (default bytes : List UInt8)
  | enumerator (default value : Nat)
  | offset (target : Option Offset)

open FlatBuffers (Slot)

/-- Builder and readers of flatbuffers. -/
structure FlatBuffers where
  Offset : Type
  createString : String → Offset
  createVector : (width count : Nat) → List UInt8 → Offset
  table : List (String × Slot Offset) → Offset
  string : Offset → String
  vectorLength : Offset → Nat
  vectorElement : (width : Nat) → Offset → Nat → List UInt8
  element : String → (default : List UInt8) → Offset → List UInt8
  enumerator : String → (default : Nat) → Offset → Nat
  child : String → Offset → Option Offset
  string_createString : ∀ text, string (createString text) = text
  vectorLength_createVector : ∀ width count bytes, bytes.length = width * count →
    vectorLength (createVector width count bytes) = count
  vectorElement_createVector : ∀ width count bytes index, bytes.length = width * count →
    index < count → vectorElement width (createVector width count bytes) index =
      (bytes.drop (width * index)).take width
  element_table : ∀ name default bytes fields, (fields.map Prod.fst).Nodup →
    bytes.length = default.length → (name, Slot.element default bytes) ∈ fields →
      element name default (table fields) = bytes
  element_absent : ∀ name default fields, name ∉ fields.map Prod.fst →
    element name default (table fields) = default
  enumerator_table : ∀ name default value fields, (fields.map Prod.fst).Nodup →
    (name, Slot.enumerator default value) ∈ fields →
      enumerator name default (table fields) = value
  enumerator_absent : ∀ name default fields, name ∉ fields.map Prod.fst →
    enumerator name default (table fields) = default
  child_table : ∀ name target fields, (fields.map Prod.fst).Nodup →
    (name, Slot.offset target) ∈ fields → child name (table fields) = target

namespace FlatBuffers

open LittleEndian

variable (fb : FlatBuffers)

/-- The default of a number is zero. -/
def zeros (τ : Type) [Layout τ] : List UInt8 :=
  List.replicate (width τ) 0

/-- A number in the field of a table. -/
def readScalar (τ : Type) [Layout τ] (name : String) (table : fb.Offset) : τ :=
  decode τ (fb.element name (zeros τ) table)

/-- A vector of numbers in the field of a table; a missing one is empty. -/
def readVector (τ : Type) [Layout τ] (name : String) (table : fb.Offset) : List τ :=
  match fb.child name table with
  | none => []
  | some vector =>
      (List.range (fb.vectorLength vector)).map fun index =>
        decode τ (fb.vectorElement (width τ) vector index)

/-- A string in the field of a table. -/
def readString (name : String) (table : fb.Offset) : Option String :=
  (fb.child name table).map fb.string

section Read

variable {τ : Type} [Layout τ] {name : String} {fields : List (String × Slot fb.Offset)}

theorem readScalar_table {value : τ} (hnodup : (fields.map Prod.fst).Nodup)
    (hmem : (name, Slot.element (zeros τ) (encode value)) ∈ fields) :
    fb.readScalar τ name (fb.table fields) = value := by
  rw [readScalar, fb.element_table name _ _ fields hnodup (by simp [zeros]) hmem, decode_encode]

/-- A vector of as many bytes as its elements have is read back element by
element. -/
theorem readVector_table {values : List τ} (hnodup : (fields.map Prod.fst).Nodup)
    (hmem : (name, Slot.offset (some (fb.createVector (width τ) values.length
      (values.flatMap encode)))) ∈ fields) :
    fb.readVector τ name (fb.table fields) = values := by
  have hlength := length_flatMap_encode values
  rw [readVector, fb.child_table name _ fields hnodup hmem]
  simp only [fb.vectorLength_createVector _ _ _ hlength]
  apply List.ext_getElem
  · simp
  · intro index hleft hright
    rw [List.getElem_map, List.getElem_range,
      fb.vectorElement_createVector _ _ _ _ hlength hright, take_drop_flatMap_encode hright,
      decode_encode]

theorem readString_table {text : String} (hnodup : (fields.map Prod.fst).Nodup)
    (hmem : (name, Slot.offset (some (fb.createString text))) ∈ fields) :
    fb.readString name (fb.table fields) = some text := by
  rw [readString, fb.child_table name _ fields hnodup hmem, Option.map_some,
    fb.string_createString]

end Read

/-- Everything that was ever built. -/
inductive Object where
  | string (text : String)
  | vector (count : Nat) (bytes : List UInt8)
  | table (fields : List (String × Slot Object))

theorem lookup_of_mem {β : Type} {fields : List (String × β)} {name : String} {field : β}
    (hnodup : (fields.map Prod.fst).Nodup) (hmem : (name, field) ∈ fields) :
    fields.lookup name = some field := by
  induction fields with
  | nil => cases hmem
  | cons head rest ih =>
      obtain ⟨hhead, hrest⟩ := List.nodup_cons.mp hnodup
      rcases List.mem_cons.mp hmem with rfl | htail
      · simp
      · have hne : name ≠ head.1 := by
          rintro rfl
          exact hhead (List.mem_map.mpr ⟨_, htail, rfl⟩)
        rw [List.lookup_cons, beq_eq_false_iff_ne.mpr hne]
        exact ih hrest htail

theorem lookup_of_not_mem {β : Type} {fields : List (String × β)} {name : String}
    (hname : name ∉ fields.map Prod.fst) : fields.lookup name = none := by
  rw [List.lookup_eq_none_iff]
  intro field hfield
  rw [bne_iff_ne]
  rintro rfl
  exact hname (List.mem_map_of_mem hfield)

namespace Object

def slot (name : String) : Object → Option (Slot Object)
  | .table fields => fields.lookup name
  | .string _ | .vector _ _ => none

def readElement (name : String) (default : List UInt8) (object : Object) : List UInt8 :=
  match object.slot name with
  | some (.element _ bytes) => bytes
  | _ => default

def readEnumerator (name : String) (default : Nat) (object : Object) : Nat :=
  match object.slot name with
  | some (.enumerator _ value) => value
  | _ => default

def readChild (name : String) (object : Object) : Option Object :=
  match object.slot name with
  | some (.offset target) => target
  | _ => none

def text : Object → String
  | .string text => text
  | .vector _ _ | .table _ => ""

def count : Object → Nat
  | .vector count _ => count
  | .string _ | .table _ => 0

def bytesAt (width : Nat) (object : Object) (index : Nat) : List UInt8 :=
  match object with
  | .vector _ bytes => (bytes.drop (width * index)).take width
  | .string _ | .table _ => []

end Object

/-- A builder that keeps everything as it was added. -/
def stored : FlatBuffers where
  Offset := Object
  createString := .string
  createVector _ := .vector
  table := .table
  string := Object.text
  vectorLength := Object.count
  vectorElement := Object.bytesAt
  element := Object.readElement
  enumerator := Object.readEnumerator
  child := Object.readChild
  string_createString _ := rfl
  vectorLength_createVector _ _ _ _ := rfl
  vectorElement_createVector _ _ _ _ _ _ := rfl
  element_table name _ _ fields hnodup _ hmem := by
    simp [Object.readElement, Object.slot, lookup_of_mem hnodup hmem]
  element_absent name _ fields habsent := by
    simp [Object.readElement, Object.slot, lookup_of_not_mem habsent]
  enumerator_table name _ _ fields hnodup hmem := by
    simp [Object.readEnumerator, Object.slot, lookup_of_mem hnodup hmem]
  enumerator_absent name _ fields habsent := by
    simp [Object.readEnumerator, Object.slot, lookup_of_not_mem habsent]
  child_table name _ fields hnodup hmem := by
    simp [Object.readChild, Object.slot, lookup_of_mem hnodup hmem]

end FlatBuffers
