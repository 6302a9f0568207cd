import Mathlib.Tactic.Common

/-!
# Error codes

`doca_error_t`, the result of the functions of all applications, and `ucs_status_t` of UCX.
-/

namespace Doca

inductive DocaError where
  | success
  | invalidValue
  | noMemory
  | badState
  | again
  | ioFailed
  | notFound
  | notSupported
  | driver
  | unexpected
  | notConnected
  | inProgress
  | alreadyExist
  | inUse
  | initialization
  | empty
  | unsupportedVersion
  | full
  | timeOut
  | operatingSystem
  deriving DecidableEq

inductive UcsStatus where
  | ok
  | inProgress
  | noResource
  | error (code : Nat)
  deriving DecidableEq

end Doca
