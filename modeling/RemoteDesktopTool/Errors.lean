import RemoteDesktopTool.Strings

namespace RemoteDesktopTool

inductive ErrorCode
  | config
  | io
  | permission
  | crypto
  | vault
  | keystore
  | network
  | timeout
  | cancelled
  | protocol
  | authentication
  | hostKeyUnknown
  | hostKeyMismatch
  | tls
  | transfer
  | terminal
  | sessionState
  | platform
  | service
  | notFound
  | unsupported
  | invalidInput
  | internal
deriving DecidableEq, Repr

/-- The workspace error type; `with_context` is called with a name and a value, kept as a pair. -/
structure RdtError where
  code : ErrorCode
  message : Text
  context : List (Text × Text)
deriving DecidableEq, Repr

def RdtError.new (code : ErrorCode) (message : Text) : RdtError := ⟨code, message, []⟩

def RdtError.withContext (error : RdtError) (name : String) (value : Text) : RdtError :=
  { error with context := error.context ++ [(name.toList, value)] }

abbrev RdtResult (α : Type) := Except RdtError α

theorem ok_of_map_ok {α β : Type} {f : α → β} {result : RdtResult α} {b : β}
    (h : result.map f = .ok b) : ∃ a, result = .ok a ∧ f a = b := by
  cases result with
  | error error => cases h
  | ok a => exact ⟨a, rfl, Except.ok.inj h⟩

end RemoteDesktopTool
