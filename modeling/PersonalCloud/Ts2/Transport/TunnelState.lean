import PersonalCloud.Lib.Run

/-!
# The tunnel state machine
-/

namespace PersonalCloud.Ts2.Transport

inductive VtunnelState where
  | null | opening | halfOpen | opened | closing | closeWait | closed
  deriving DecidableEq, Repr

inductive TSError where
  | ok | invalid | invalidDevice | wrongState | noMem | internal | timeout | closed | noConnection
  | condVar
  deriving DecidableEq, Repr

/-- How a wait on a condition variable ends. -/
inductive WaitResult where
  | ok | timeout | error
  deriving DecidableEq, Repr

end PersonalCloud.Ts2.Transport
