/-!
# Errors of the sequencers

`tryNext` answers with an `Error` value; `next` throws `std::invalid_argument`, modelled by the
message of the exception.
-/

namespace Disruptor

inductive ErrorCode where
  | InsufficientCapacity
  | InvalidArgument
  | RuntimeError
  deriving DecidableEq, Repr

structure Error where
  code : ErrorCode
  message : String
  deriving DecidableEq, Repr

namespace Error

def insufficient_capacity : Error :=
  ⟨.InsufficientCapacity, "InsufficientCapacityException"⟩

def invalid_argument (msg : String) : Error :=
  ⟨.InvalidArgument, msg⟩

end Error

end Disruptor
