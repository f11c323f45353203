import Bridge.Lib.Texts

/-!
# What is thrown

A promise may be rejected with anything, and a `catch` block that reads `error.message` gets
whatever is there. Of a thrown value two properties are ever read, its `status` and its `message`;
`null` and `undefined` have none, and reading one throws.
-/

namespace Bridge.Lib

open Utf16

/-- What `message` is. -/
inductive Message
  /-- `undefined` or `null` -/
  | missing
  | text (t : Units)
  /-- Something else, which is true or false as a condition. -/
  | other (truthy : Bool)
  deriving DecidableEq

/-- `Boolean(message)` -/
def Message.truthy : Message → Bool
  | .missing => false
  | .text t => decide (t ≠ [])
  | .other truthy => truthy

inductive Thrown
  /-- `undefined` or `null` -/
  | nullish
  | value (message : Message) (status : Option Int)
  deriving DecidableEq

namespace Thrown

/-- `new Error(message)` -/
def error (message : String) : Thrown := .value (.text (ofString message)) none

/-- The `TypeError` of reading a property that is not there. -/
def typeError : Thrown := error "Cannot read properties of undefined (reading 'message')"

/-- The `TypeError` of calling what is no function. -/
def notAFunction : Thrown := error "error.message?.toLowerCase is not a function"

/-- `error.message` -/
def message : Thrown → Except Thrown Message
  | .nullish => .error typeError
  | .value message _ => .ok message

end Thrown

/-- `message?.toLowerCase().includes(phrase)`, as a condition. -/
def Message.mentions (c : LowerCase) (phrase : Units) : Message → Except Thrown Bool
  | .missing => .ok false
  | .text t => .ok (includes (c.lower t) phrase)
  | .other _ => .error .notAFunction

end Bridge.Lib
