import LearnInternet.Tcp.Delivery

/-!
Runs of the sender with what its receiver has told it so far.
-/

namespace LearnInternet.Tcp

namespace TCPSender

structure Flow where
  trace : Trace
  acked : Nat
  latest : Option UInt16

namespace Flow

def start (capacity : Nat) (isn : Wrap32) (initialRto : UInt64) : Flow :=
  ⟨Trace.start capacity isn initialRto, 0, none⟩

/-- The highest acknowledgment, where one of something that was never sent does not count. -/
def ackedAfter (flow : Flow) : Event → Nat
  | .receive msg leftover =>
      let ackno := flow.trace.sender.acknowledged msg leftover
      if msg.ackno.isSome = true ∧ ackno ≤ flow.trace.sender.nextSeq then max flow.acked ackno
      else flow.acked
  | _ => flow.acked

def latestAfter (flow : Flow) : Event → Option UInt16
  | .receive msg _ => some msg.windowSize
  | _ => flow.latest

def step (flow : Flow) (event : Event) : Except Undefined Flow :=
  match flow.trace.step event with
  | .error undefined => .error undefined
  | .ok trace => .ok ⟨trace, flow.ackedAfter event, flow.latestAfter event⟩

theorem step_ok {flow : Flow} {event : Event} {trace : Trace}
    (stepped : flow.trace.step event = .ok trace) :
    flow.step event = .ok ⟨trace, flow.ackedAfter event, flow.latestAfter event⟩ := by
  rw [step, stepped]

theorem acked_le_after (flow : Flow) (event : Event) : flow.acked ≤ flow.ackedAfter event := by
  cases event with
  | receive msg leftover =>
      simp only [ackedAfter]
      split
      · exact Nat.le_max_left _ _
      · exact Nat.le_refl _
  | write data => exact Nat.le_refl _
  | close => exact Nat.le_refl _
  | push => exact Nat.le_refl _
  | tick msSinceLastTick => exact Nat.le_refl _

theorem ackno_le_after (flow : Flow) {msg : TCPReceiverMessage} (leftover : Wrap32)
    (present : msg.ackno.isSome = true)
    (sent : flow.trace.sender.acknowledged msg leftover ≤ flow.trace.sender.nextSeq) :
    flow.trace.sender.acknowledged msg leftover ≤ flow.ackedAfter (.receive msg leftover) := by
  simp only [ackedAfter, if_pos (And.intro present sent)]
  exact Nat.le_max_right _ _

end Flow

end TCPSender

end LearnInternet.Tcp
