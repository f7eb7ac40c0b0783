import Bkmail.Wire.Bytes

namespace Bkmail

inductive ResponseStatus where
  | ok | no | bad | preauth | bye
  deriving DecidableEq, Repr

inductive UntaggedKind where
  | ok | no | bad | preauth | bye
  | capability | flags | list | lsub | status | search
  | exists | recent | expunge | fetch | unknown
  deriving DecidableEq, Repr

inductive ResponseCode where
  | alert
  | badcharset (charsets : List Bytes)
  | capability (capabilities : List Bytes)
  | parse
  | permanentflags (flags : FlagSet)
  | readOnly
  | readWrite
  | trycreate
  | uidnext (value : Nat)
  | uidvalidity (value : Nat)
  | unseen (value : Nat)
  | unknown (atom arguments : Bytes)
  deriving DecidableEq, Repr

structure TaggedResponse where
  tag : Bytes
  status : ResponseStatus := .ok
  code : Option ResponseCode := none
  text : Bytes := []
  deriving DecidableEq, Repr

structure UntaggedResponse where
  kind : UntaggedKind := .unknown
  number : Nat := 0
  status : ResponseStatus := .ok
  code : Option ResponseCode := none
  text : Bytes := []
  payload : Bytes := []
  deriving DecidableEq, Repr

structure ContinuationRequest where
  text : Bytes
  deriving DecidableEq, Repr

inductive ServerResponse where
  | tagged (response : TaggedResponse)
  | untagged (response : UntaggedResponse)
  | continuation (response : ContinuationRequest)
  deriving DecidableEq, Repr

/-- The error codes that reach a handler: those of `bkmail::errc` that Layer 1 produces, the
    cancellation code of the standard library, and whatever a transport reports. -/
inductive ErrorCode where
  | commandRejected
  | badCommand
  | serverBye
  | unexpectedResponse
  | operationCanceled
  | transport (value : Nat)
  deriving DecidableEq, Repr

/-- `map_status_to_ec` and the `status_ec` that each command carries a copy of. `none` is the
    success value of `std::error_code`. -/
def mapStatusToEc : ResponseStatus → Option ErrorCode
  | .ok => none
  | .no => some .commandRejected
  | .bad => some .badCommand
  | .preauth | .bye => some .unexpectedResponse

end Bkmail
