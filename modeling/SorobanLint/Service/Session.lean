import SorobanLint.Service.Route

/-!
# Socket sessions

A session answers text frames one by one.  A frame that is no JSON is answered by a fatal error,
which ends the session.  The scanner is kept from frame to frame, and behind the session.

Two things are taken for granted.  Sending never fails: a message that a client no longer takes, or
that cannot be encoded, is outside what is described here.  And a text is a sequence of characters,
so no frame and no answer holds one half of a surrogate pair alone.
-/

namespace SorobanLint

/-- A message of a session to its client. -/
inductive SessionMessage where
  /-- The answer to a frame. -/
  | reply (envelope : Envelope)
  /-- The error that ends the session. -/
  | fatal (message : String)

namespace SessionMessage

/-- The message as a record. -/
def toValue : SessionMessage → Value
  | reply envelope => envelope.toValue
  | fatal message =>
    .record [
      ("type", .string "error"),
      ("error", .record [("code", .string "FATAL"), ("message", .string message)])]

end SessionMessage

namespace Session

/-- The messages that a session sends for the frames up to the disconnect, and the supply behind it;
`read` gives the value of a frame that is JSON, and says what is wrong with any other one. -/
def run (validate : Validator) (read : String → Except String Value) (supply : ScannerSupply) :
    List String → List SessionMessage × ScannerSupply
  | [] => ([], supply)
  | frame :: rest =>
    match read frame with
    | .error message => ([.fatal message], supply)
    | .ok value =>
      let (envelope, supply) := Route.answer validate supply value
      let (messages, supply) := run validate read supply rest
      (.reply envelope :: messages, supply)

end Session
end SorobanLint
