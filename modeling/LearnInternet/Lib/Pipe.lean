import LearnInternet.Lib.Simulation

/-!
The pipe: what one side writes and how much of it the other side has read, in order. It is what a
connection is to the programs at its two ends.
-/

structure Pipe (α : Type) where
  written : List α
  read : List α
  order : read <+: written

namespace Pipe

variable {α : Type}

inductive Event (α : Type) where
  | write (items : List α)
  | read (items : List α)

/-- What was not written before cannot be read. -/
inductive Fault where
  | notWritten
  deriving DecidableEq

def empty : Pipe α := ⟨[], [], List.nil_prefix⟩

def step [DecidableEq α] (pipe : Pipe α) : Event α → Except Fault (Pipe α)
  | .write items =>
      .ok ⟨pipe.written ++ items, pipe.read, pipe.order.trans (List.prefix_append _ _)⟩
  | .read items =>
      if order : pipe.read ++ items <+: pipe.written then .ok ⟨pipe.written, pipe.read ++ items, order⟩
      else .error .notWritten

variable [DecidableEq α] {pipe : Pipe α}

end Pipe
