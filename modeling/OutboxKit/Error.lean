import OutboxKit.Event

/-! What a store call, and a delivery, can fail with. -/
namespace OutboxKit

/-- Why a database refuses a statement or a call on its own account. -/
inductive SqlError where
  | unavailable
  | integerOutOfRange
  | nulInText
deriving DecidableEq, Repr

/-- The text of a backend failure: the kit's own, or the driver's, whose wording
the kit does not choose. -/
inductive Diagnostic where
  | kit (message : String)
  | driver (err : SqlError)
deriving DecidableEq, Repr

inductive StoreError where
  | invalidTopic (topic : String)
  | backend (diagnostic : Diagnostic)
deriving DecidableEq, Repr

inductive DispatchError where
  | delivery (message : String)
deriving DecidableEq, Repr

def DispatchError.text : DispatchError → String
  | .delivery message => "delivery failed: " ++ message

def OutboxEvent.checked (e : OutboxEvent) : Except StoreError Unit :=
  match e.validate with
  | .ok () => .ok ()
  | .error _ => .error (.invalidTopic e.topic)

theorem OutboxEvent.checked_ok {e : OutboxEvent} (h : topicValid e.topic = true) :
    e.checked = .ok () := by
  rw [checked, validate, validateTopic, if_pos h]

theorem OutboxEvent.checked_error {e : OutboxEvent} (h : topicValid e.topic = false) :
    e.checked = .error (.invalidTopic e.topic) := by
  rw [checked, validate, validateTopic, if_neg (by simp [h])]

end OutboxKit
