import CallTree.Memory
import CallTree.Stack

/-!
# Limits

The bounds within which a call tree runs. A bound of zero is refused when limits are loaded,
because nothing could run within it.
-/

namespace CallTree

/-- The bounds of one call tree. -/
structure Limits where
  /-- How many frames may be on the call stack, the root included. -/
  maxCallDepth : Nat := 1024
  /-- How many operands a stack may hold. -/
  maxStackSize : Nat := Stack.defaultLimit
  /-- How many bytes a memory may hold. -/
  maxMemorySize : Nat := Memory.defaultLimit
  /-- How many bytes deployed code may have. -/
  maxCodeSize : Nat := 24576
  /-- How many bytes init code may have. -/
  maxInitCodeSize : Nat := 49152
  /-- How many instructions the whole tree may execute. -/
  maxExecutionSteps : Nat := 10000000
  /-- Refunds are capped at the gas used divided by this. -/
  maxRefundQuotient : Nat := 5
deriving DecidableEq, Repr, Inhabited

namespace Limits

/-- Smaller bounds, for experiments. -/
def forTesting : Limits where
  maxCallDepth := 16
  maxStackSize := 64
  maxMemorySize := 65536
  maxCodeSize := 4096
  maxInitCodeSize := 8192
  maxExecutionSteps := 100000
  maxRefundQuotient := 5

/-- The bounds by name, in the order in which they are checked. -/
def fields (l : Limits) : List (String × Nat) :=
  [("max_call_depth", l.maxCallDepth),
   ("max_stack_size", l.maxStackSize),
   ("max_memory_size", l.maxMemorySize),
   ("max_code_size", l.maxCodeSize),
   ("max_init_code_size", l.maxInitCodeSize),
   ("max_execution_steps", l.maxExecutionSteps),
   ("max_refund_quotient", l.maxRefundQuotient)]

/-- Replaces the bound of a given name; any other name changes nothing. -/
def set (l : Limits) (name : String) (value : Nat) : Limits :=
  match name with
  | "max_call_depth" => { l with maxCallDepth := value }
  | "max_stack_size" => { l with maxStackSize := value }
  | "max_memory_size" => { l with maxMemorySize := value }
  | "max_code_size" => { l with maxCodeSize := value }
  | "max_init_code_size" => { l with maxInitCodeSize := value }
  | "max_execution_steps" => { l with maxExecutionSteps := value }
  | "max_refund_quotient" => { l with maxRefundQuotient := value }
  | _ => l

end Limits
end CallTree
