import Umsftpd.CLib.CString
import Umsftpd.Systems.Checks

/-!
# JSON documents

What a program sees of json-c. The library is a parameter: the objects of a document are there as
long as the root is referenced, and the texts that it hands out point into them.
-/

namespace Umsftpd.CLib

open Systems

/-- `enum json_type`. -/
inductive JsonType where
  | null | boolean | double | int | object | array | string
  deriving DecidableEq

/-- The library, over the files that there are. A `null` in a document is a null pointer, so a value
is an `Option Object`. -/
structure JsonC where
  /-- What a `struct json_object *` points to. -/
  Object : Type
  /-- A `const char *` into an object. -/
  Text : Type
  /-- What is allocated, and how often it is referenced. -/
  Memory : Type
  /-- `json_object_from_file`: the root of the document, and the memory with it. -/
  fromFile : CStr → Option (Object × Memory)
  isType : Option Object → JsonType → Bool
  /-- What `json_object_object_foreach` goes over, in its order. -/
  members : Option Object → List (CStr × Option Object)
  getString : Option Object → Text
  getInt : Option Object → BitVec 32
  put : Memory → Object → Memory
  /-- The references to an object. -/
  refs : Memory → Object → Nat
  /-- What is read through a pointer, if anything is there. -/
  readText : Memory → Text → Option CStr

namespace JsonC

/-- What is added to an object under a key that it has replaces the value of that key. -/
structure KeysDistinct (json : JsonC) : Prop where
  members : ∀ value, ((json.members value).map Prod.fst).Nodup

variable (json : JsonC)

/-- The values in a document. -/
inductive Below (root : json.Object) : Option json.Object → Prop
  | root : Below root (some root)
  | member {value v : Option json.Object} {key : CStr} (hvalue : Below root value)
      (hmember : (key, v) ∈ json.members value) : Below root v

/-- What the memory may be where nothing is done but to put the root: nothing else in the document
is referenced then. -/
inductive Puts (root : json.Object) (memory : json.Memory) : json.Memory → Prop
  | loaded : Puts root memory memory
  | put {left : json.Memory} (h : Puts root memory left) (hrefs : 0 < json.refs left root) :
    Puts root memory (json.put left root)

/-- A document that was loaded has one reference, and `json_object_put` takes one. The texts in it
are its own, they are there as long as the document is. -/
structure OwnsTexts : Prop where
  loaded : ∀ {filename root memory}, json.fromFile filename = some (root, memory) →
    json.refs memory root = 1
  put : ∀ {memory root}, 0 < json.refs memory root →
    json.refs (json.put memory root) root = json.refs memory root - 1
  texts : ∀ {filename root memory value}, json.fromFile filename = some (root, memory) →
    json.Below root value → json.isType value .string = true → ∀ left,
      json.Puts root memory left →
      ((∃ text, json.readText left (json.getString value) = some text) ↔
        0 < json.refs left root)

/-- The value of a key, if there is a member with it. -/
def member (value : Option json.Object) (key : CStr) : Option (Option json.Object) :=
  (json.members value).lookup key

variable {json}

theorem member_eq_some_iff (hkeys : json.KeysDistinct) {value v : Option json.Object}
    {key : CStr} : json.member value key = some v ↔ (key, v) ∈ json.members value :=
  lookup_eq_some_iff_mem (hkeys.members value)

end JsonC

end Umsftpd.CLib
