import SyncBridge.EventPrivacy

/-!
# What a subscriber reads

The body of a delivery and the value of a Kafka message are the same JSON text. A
consumer that parses it and looks its members up by name gets back the event that was
published, whatever characters file names, buckets, tenants and reasons consist of. So
no two events share a text, and the signature of a text is the signature of one event.
-/

namespace EventFormat

open ThreadPools JsonText Entities Database Calls Outbound EventPrivacy

/-! ## Reading members -/

def member (name : String) : Json → Option Json
  | .object members => (members.find? fun m => m.1 = name).map (·.2)
  | _ => none

def asString : Json → Option String
  | .string s => some s
  | _ => none

def asBool : Json → Option Bool
  | .bool b => some b
  | _ => none

/-- The number that a literal of digits stands for. -/
def asWhole : Json → Option ℕ
  | .number literal => some (Nat.ofDigitChars 10 literal.text 0)
  | _ => none

/-- The data of a failure has a reason. -/
def readData (data : Json) : Option EventData :=
  match member "reason" data with
  | some reason => do
    let reason ← asString reason
    return .failed reason
  | none => do
    let bucket ← (member "bucket" data).bind asString
    let objectKey ← (member "objectKey" data).bind asString
    let sizeBytes ← (member "sizeBytes" data).bind asWhole
    let encrypted ← (member "encrypted" data).bind asBool
    return .completed bucket objectKey sizeBytes encrypted

/-- An event as a consumer reads it. -/
def readEvent (value : Json) : Option TransferEvent := do
  let type ← ((member "type" value).bind asString).bind eventNamed
  let transferId ← (member "transferId" value).bind asString
  let tenantId ← (member "tenantId" value).bind asString
  let data ← (member "data" value).bind readData
  return ⟨type, Nat.ofDigitChars 10 transferId.toList 0, tenantId, data⟩

/-- A consumer of the text itself. -/
def readText (text : String) : Option TransferEvent := (parse text).bind readEvent

/-! ## The round trip -/

theorem ofDigitChars_toString (n : ℕ) : Nat.ofDigitChars 10 (toString n).toList 0 = n := by
  rw [Nat.toString_eq_repr, Nat.toList_repr]
  exact Nat.ofDigitChars_ten_toDigits

theorem readData_dataJson (data : EventData) : readData (dataJson data) = some data := by
  cases data with
  | failed reason => rfl
  | completed bucket objectKey sizeBytes encrypted =>
    have size : asWhole (.number (whole sizeBytes)) = some sizeBytes :=
      congrArg some Nat.ofDigitChars_ten_toDigits
    calc readData (dataJson (.completed bucket objectKey sizeBytes encrypted))
        = (asWhole (.number (whole sizeBytes))).bind fun n =>
          some (.completed bucket objectKey n encrypted) := rfl
      _ = some (.completed bucket objectKey sizeBytes encrypted) := by rw [size]; rfl

theorem readEvent_eventJson (event : TransferEvent) : readEvent (eventJson event) = some event := by
  obtain ⟨type, transferId, tenantId, data⟩ := event
  calc readEvent (eventJson ⟨type, transferId, tenantId, data⟩)
      = (eventNamed (eventName type)).bind fun type => (readData (dataJson data)).bind fun data =>
          some ⟨type, Nat.ofDigitChars 10 (toString transferId).toList 0, tenantId, data⟩ := rfl
    _ = some ⟨type, transferId, tenantId, data⟩ := by
      rw [eventNamed_eventName, readData_dataJson, ofDigitChars_toString]
      rfl

/-- Every event can be read from its text, and no two events have the same text. -/
theorem event_text_faithful : (∀ event, readText (stringify (eventJson event)) = some event) ∧
    ∀ event event', stringify (eventJson event) = stringify (eventJson event') ↔
    event = event' := by
  have back (event : TransferEvent) : readText (stringify (eventJson event)) = some event := by
    rw [readText, parse_stringify]
    exact readEvent_eventJson event
  refine ⟨back, fun event event' => ⟨fun same => ?_, fun same => by rw [same]⟩⟩
  have both := back event
  rw [same, back event'] at both
  exact (Option.some.inj both).symm

example : readText "\x7b \"data\": \x7b\"reason\": \"virus \\u0022EICAR\\u0022\"\x7d,
    \"type\": \"transfer.failed\", \"tenantId\": \"acme\", \"transferId\": \"7\" \x7d" =
    some ⟨.transferFailed, 7, "acme", .failed "virus \"EICAR\""⟩ := by decide +kernel

end EventFormat
