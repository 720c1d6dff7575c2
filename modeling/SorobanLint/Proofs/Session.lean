import SorobanLint.Service.Session

/-!
# What a session sends

An answer depends on the scanner that the supply gives, and leaves the supply giving the same one
(`Route.take_answer`).  So a session answers each frame as if it came first, in order, up to the
first frame that is no JSON, and ends there with one fatal error (`Session.run_toValue`).
-/

namespace SorobanLint

/-- Asking for the scanner does not change what is given. -/
theorem ScannerSupply.take_take (supply : ScannerSupply) :
    supply.take.2.take.1 = supply.take.1 := by
  obtain ⟨make, kept⟩ := supply
  cases kept with
  | some scanner => rfl
  | none => cases make <;> rfl

namespace Route

variable {validate : Validator} {supply other : ScannerSupply}

/-- Answering a message does not change which scanner is given. -/
theorem take_answer (validate : Validator) (supply : ScannerSupply) (message : Value) :
    (answer validate supply message).2.take.1 = supply.take.1 := by
  have asked := supply.take_take
  rw [answer]
  split
  next => rfl
  next =>
    split
    next taken => rw [taken] at asked ⊢; exact asked
    next taken =>
      rw [taken] at asked ⊢
      split
      next => exact asked
      next => exact asked

/-- The answer depends on the scanner that is given, and on nothing else in the supply. -/
theorem answer_eq_of_take (same : other.take.1 = supply.take.1) (message : Value) :
    (answer validate other message).1 = (answer validate supply message).1 := by
  rw [answer, answer]
  cases requestOf validate message with
  | error reason => rfl
  | ok request =>
      generalize other.take = first at same ⊢
      generalize supply.take = second at same ⊢
      obtain ⟨given, first⟩ := first
      obtain ⟨_, second⟩ := second
      obtain rfl : given = _ := same
      cases given with
      | error reason => rfl
      | ok scanner =>
          dsimp only
          cases serve validate scanner request <;> rfl

end Route

namespace Session

variable {validate : Validator} {read : String → Except String Value} {supply : ScannerSupply}
  {frame : String}

theorem run_cons_ok {value : Value} (json : read frame = .ok value) (rest : List String) :
    (run validate read supply (frame :: rest)).1 =
      .reply (Route.answer validate supply value).1 ::
        (run validate read (Route.answer validate supply value).2 rest).1 := by
  rw [run, json]

theorem run_cons_error {reason : String} (no_json : read frame = .error reason)
    (rest : List String) : (run validate read supply (frame :: rest)).1 = [.fatal reason] := by
  rw [run, no_json]

/-- A session depends on the scanner that is given, and on nothing else in the supply. -/
theorem run_eq_of_take {other : ScannerSupply} (same : other.take.1 = supply.take.1)
    (frames : List String) :
    (run validate read other frames).1 = (run validate read supply frames).1 := by
  induction frames generalizing supply other with
  | nil => rfl
  | cons frame rest ih =>
      cases json : read frame with
      | error reason => rw [run_cons_error json, run_cons_error json]
      | ok value =>
          have still_same : (Route.answer validate other value).2.take.1 =
              (Route.answer validate supply value).2.take.1 := by
            rw [Route.take_answer, Route.take_answer, same]
          rw [run_cons_ok json, run_cons_ok json, Route.answer_eq_of_take same, ih still_same]

/-- One frame: its reply is sent first, and the session goes on as if the frame had not come. -/
theorem run_step {value : Value} (json : read frame = .ok value) (rest : List String) :
    (run validate read supply (frame :: rest)).1 =
      .reply (Route.answer validate supply value).1 :: (run validate read supply rest).1 := by
  rw [run_cons_ok json, run_eq_of_take (Route.take_answer validate supply value)]

/-- The frames are values in JSON up to the disconnect or up to a first frame that is no JSON.  The
session sends the answer to each of the values, in order, each as if its frame were the only one;
then, if there is a frame that is no JSON, one fatal error and nothing more. -/
theorem run_toValue (validate : Validator) (read : String → Except String Value)
    (supply : ScannerSupply) (frames : List String) :
    ∃ (values : List Value) (rest : List (Except String Value)),
      frames.map read = values.map .ok ++ rest ∧
      let sent := (run validate read supply frames).1.map SessionMessage.toValue
      let replies := values.map fun value => (Route.answer validate supply value).1.toValue
      (rest = [] ∧ sent = replies) ∨
      ∃ reason later, rest = .error reason :: later ∧
        sent = replies ++ [.record [
          ("type", .string "error"),
          ("error", .record [("code", .string "FATAL"), ("message", .string reason)])]] := by
  induction frames with
  | nil => exact ⟨[], [], rfl, .inl ⟨rfl, rfl⟩⟩
  | cons frame frames ih =>
      cases json : read frame with
      | error reason =>
          refine ⟨[], _, rfl, .inr ⟨reason, frames.map read, by rw [json], ?_⟩⟩
          rw [run_cons_error json]
          rfl
      | ok value =>
          obtain ⟨values, rest, same, ends⟩ := ih
          refine ⟨value :: values, rest, by rw [List.map_cons, json, same]; rfl, ?_⟩
          rw [run_step json]
          obtain ⟨none_left, sent⟩ | ⟨reason, later, left, sent⟩ := ends
          · exact .inl ⟨none_left, congrArg _ sent⟩
          · exact .inr ⟨reason, later, left, congrArg _ sent⟩

end Session
end SorobanLint
