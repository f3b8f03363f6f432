import Mathlib

/-!
# Validity of replacement events

An edit is valid if the replacement event may replace the original one. Events are given by what is
read from their JSON; a field that is not read has no influence. -/

namespace HaranaMatrix.Common

structure MinimalRelatesTo where
  relType : Option String
  eventId : Option String
deriving DecidableEq

/-- `MinimalEvent`, with the fields of its content -/
structure MinimalEvent where
  sender : String
  eventId : String
  eventType : String
  stateKey : Option String
  relatesTo : Option MinimalRelatesTo
  hasNewContent : Bool
deriving DecidableEq

/-- The JSON of an event: what it is deserialized to as a `MinimalEvent`, and its timestamp and ID
if it can be deserialized as an event of a timeline. -/
structure RawEvent where
  minimal : Option MinimalEvent
  timestampAndId : Option (ℕ × String)
deriving DecidableEq

inductive EditValidityError
  | invalidSender
  | stateKeyPresent
  | mismatchContentType (contentType replacementType : String)
  | originalEventIsReplacement
  | notReplacement
  | missingNewContent
  | invalidJson
  | replacementNotEncrypted
deriving DecidableEq

def replacementRelType : String := "m.replace"

/-- The checks of two events that were deserialized; of the encryption only its presence matters. -/
def checkMinimalEvents (original : MinimalEvent) (originalEncrypted : Bool) (replacement : MinimalEvent)
    (replacementEncrypted : Bool) : Except EditValidityError Unit := do
  if original.sender ≠ replacement.sender then throw .invalidSender
  if ¬ replacement.relatesTo.any (fun relatesTo =>
      relatesTo.relType = some replacementRelType ∧ relatesTo.eventId = some original.eventId) then throw .notReplacement
  if original.eventType ≠ replacement.eventType then
    throw (.mismatchContentType original.eventType replacement.eventType)
  if original.stateKey.isSome ∨ replacement.stateKey.isSome then throw .stateKeyPresent
  if original.relatesTo.any (·.relType = some replacementRelType) then throw .originalEventIsReplacement
  if replacementEncrypted ∧ ¬ replacement.hasNewContent then throw .missingNewContent
  if originalEncrypted ∧ ¬ replacementEncrypted then throw .replacementNotEncrypted

def checkValidityOfReplacementEvents (original : RawEvent) (originalEncrypted : Bool) (replacement : RawEvent)
    (replacementEncrypted : Bool) : Except EditValidityError Unit :=
  match original.minimal, replacement.minimal with
  | some original, some replacement => checkMinimalEvents original originalEncrypted replacement replacementEncrypted
  | _, _ => throw .invalidJson

end HaranaMatrix.Common
