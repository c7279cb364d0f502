import LearnInternet.Tcp.FlowControl

/-!
The retransmission timer over any run of the sender: `RTO_` and `CRT_` say the same of how often the
sender has backed off, an acknowledgment of something new takes that back, and a tick sends again
only what has timed out.
-/

namespace LearnInternet.Tcp

namespace TCPSender

section Calls

variable {sender next : TCPSender}

def Backoff (sender : TCPSender) : Prop :=
  sender.timer.rto.toNat = sender.initialRto.toNat * 2 ^ sender.crt.toNat % 2 ^ 64

instance (sender : TCPSender) (ackno : Nat) : Decidable (sender.Covers ackno) :=
  inferInstanceAs (Decidable (_ ∧ _))

structure SameTimer (sender next : TCPSender) : Prop where
  timer : next.timer = sender.timer
  crt : next.crt = sender.crt
  initialRto : next.initialRto = sender.initialRto
  zeroWindowProbe : next.zeroWindowProbe = sender.zeroWindowProbe

theorem SameTimer.refl (sender : TCPSender) : sender.SameTimer sender := ⟨rfl, rfl, rfl, rfl⟩

theorem SameTimer.trans {last : TCPSender} (first : sender.SameTimer next)
    (second : next.SameTimer last) : sender.SameTimer last :=
  ⟨second.timer.trans first.timer, second.crt.trans first.crt,
    second.initialRto.trans first.initialRto,
    second.zeroWindowProbe.trans first.zeroWindowProbe⟩

theorem Backoff.same (backoff : sender.Backoff) (rto : next.timer.rto = sender.timer.rto)
    (crt : next.crt = sender.crt) (initialRto : next.initialRto = sender.initialRto) :
    next.Backoff := by
  rw [Backoff, rto, crt, initialRto]
  exact backoff

theorem pushSimpleMode_sameTimer (sender : TCPSender) :
    sender.SameTimer sender.pushSimpleMode := by
  obtain ⟨fin, -, pushed⟩ := sender.pushSimpleMode_eq
  rw [pushed, launch]
  split
  · exact ⟨rfl, rfl, rfl, rfl⟩
  · exact ⟨rfl, rfl, rfl, rfl⟩

theorem pushSyned_sameTimer (sender : TCPSender) : sender.SameTimer sender.pushSyned := by
  have pushed : sender.SameTimer (pushLoop sender.input.bytesBuffered sender) := by
    apply pushLoop_induction _ _ (SameTimer.refl sender)
    intro middle same _
    exact same.trans middle.pushSimpleMode_sameTimer
  simp only [pushSyned]
  split
  · exact pushed.trans (pushSimpleMode_sameTimer _)
  · exact pushed

theorem pushZwpMode_sameTimer (sender : TCPSender) : sender.SameTimer sender.pushZwpMode := by
  cases window : sender.window with
  | cons first rest =>
      rw [pushZwpMode_of_cons window]
      exact ⟨rfl, rfl, rfl, rfl⟩
  | nil =>
      rcases pushZwpMode_of_nil window with stays | ⟨syn, count, fin, -, probed⟩
      · rw [stays]
        exact SameTimer.refl sender
      · rw [probed]
        exact ⟨rfl, rfl, rfl, rfl⟩

theorem push_sameTimer (sender : TCPSender) : sender.SameTimer sender.push := by
  simp only [push, pushSimple]
  split
  · exact sender.pushZwpMode_sameTimer
  · split
    · split
      · exact sender.pushSyned_sameTimer
      · exact sender.pushSimpleMode_sameTimer.trans (pushSyned_sameTimer _)
    · exact SameTimer.refl sender

theorem backoff_zero (initial : UInt64) : initial.toNat * 2 ^ 0 % 2 ^ 64 = initial.toNat := by
  rw [pow_zero, Nat.mul_one]
  exact Nat.mod_eq_of_lt initial.toNat_lt

theorem backoff_iff_of_calm (calm : sender.crt = 0) :
    sender.Backoff ↔ sender.timer.rto = sender.initialRto := by
  rw [Backoff, calm, UInt64.toNat_zero, backoff_zero, UInt64.toNat_inj]

theorem backoff_doubles (initial count : Nat) :
    initial * 2 ^ count % 2 ^ 64 * 2 % 2 ^ 64 = initial * 2 ^ (count + 1) % 2 ^ 64 := by
  rw [pow_succ 2 count, ← Nat.mul_assoc, Nat.mod_mul_mod]

theorem backoff_vanishes (initial : Nat) {count : Nat} (many : 64 ≤ count) :
    initial * 2 ^ count % 2 ^ 64 = 0 :=
  Nat.mod_eq_zero_of_dvd (Nat.dvd_mul_left_of_dvd (Nat.pow_dvd_pow 2 many) initial)

theorem Backoff.again_iff (backoff : sender.Backoff) {again : TCPSender}
    (initialRto : again.initialRto = sender.initialRto) (crt : again.crt = sender.crt + 1)
    (rto : again.timer.rto = sender.timer.rto * 2) :
    again.Backoff ↔ (sender.crt.toNat = 2 ^ 64 - 1 → sender.initialRto = 0) := by
  have bound := sender.crt.toNat_lt
  have doubled : again.timer.rto.toNat =
      sender.initialRto.toNat * 2 ^ (sender.crt.toNat + 1) % 2 ^ 64 := by
    rw [rto, UInt64.toNat_mul, backoff]
    exact backoff_doubles _ _
  have counted : again.crt.toNat = (sender.crt.toNat + 1) % 2 ^ 64 := by
    rw [crt, UInt64.toNat_add]
    rfl
  rw [Backoff, doubled, counted, initialRto]
  generalize sender.crt.toNat = count at bound
  by_cases last : count = 2 ^ 64 - 1
  · have wrapped : (count + 1) % 2 ^ 64 = 0 := by
      rw [last]
      decide
    have many : 64 ≤ count + 1 := by omega
    rw [backoff_vanishes _ many, wrapped, backoff_zero, ← UInt64.toNat_inj]
    constructor
    · intro zero _
      exact zero.symm
    · intro zero
      exact (zero last).symm
  · have inside : (count + 1) % 2 ^ 64 = count + 1 := by
      apply Nat.mod_eq_of_lt
      omega
    rw [inside]
    exact iff_of_true rfl fun wraps => absurd wraps last

/-! The calls of the receiver. -/

theorem receive_cases {msg : TCPReceiverMessage} {leftover : Wrap32}
    (received : sender.receive msg leftover = .ok next) :
    next.initialRto = sender.initialRto ∧
      ((sender.zeroWindowProbe = true ∧ next.timer = ⟨0, sender.timer.rto⟩ ∧
          next.crt = sender.crt ∧ next.lastAckno = sender.acknowledged msg leftover) ∨
        (sender.zeroWindowProbe = false ∧ sender.Covers (sender.acknowledged msg leftover) ∧
          next.timer = ⟨0, sender.initialRto⟩ ∧ next.crt = 0) ∨
        (sender.zeroWindowProbe = false ∧ ¬sender.Covers (sender.acknowledged msg leftover) ∧
          next.timer = sender.timer ∧ next.crt = sender.crt ∧
          next.lastAckno = sender.lastAckno)) := by
  cases mode : sender.zeroWindowProbe with
  | true =>
      obtain ⟨-, rfl⟩ := eq_answered mode received
      exact ⟨rfl, .inl ⟨rfl, rfl, rfl, rfl⟩⟩
  | false =>
      rw [receive_quiet msg leftover mode] at received
      cases received
      by_cases covers : sender.Covers (sender.acknowledged msg leftover)
      · have heard : (sender.hear msg).Covers (sender.acknowledged msg leftover) := covers
        rw [takeAckno_of_covers heard]
        exact ⟨rfl, .inr (.inl ⟨rfl, covers, rfl, rfl⟩)⟩
      · have heard : ¬(sender.hear msg).Covers (sender.acknowledged msg leftover) := covers
        rw [takeAckno_of_stale heard]
        exact ⟨rfl, .inr (.inr ⟨rfl, covers, rfl, rfl, rfl⟩)⟩

/-! A tick. -/

def TimesOut (sender : TCPSender) (msSinceLastTick : UInt64) : Prop :=
  sender.zeroWindowProbe = false ∧ sender.window ≠ [] ∧
    sender.timer.rto ≤ sender.timer.msTime + msSinceLastTick

theorem tick_cases (sender : TCPSender) (msSinceLastTick : UInt64) :
    (¬sender.TimesOut msSinceLastTick ∧ ∃ timer : RetransmissionTimer,
        sender.tick msSinceLastTick = { sender with timer } ∧ timer.rto = sender.timer.rto ∧
          (timer.msTime = sender.timer.msTime ∨
            timer.msTime = sender.timer.msTime + msSinceLastTick)) ∨
      (sender.TimesOut msSinceLastTick ∧ ∃ first,
        sender.tick msSinceLastTick =
          { sender with
            transmitted := sender.transmitted ++ [first]
            crt := sender.crt + 1
            timer := ⟨0, sender.timer.rto * 2⟩ }) ∨
      (sender.zeroWindowProbe = true ∧
        sender.timer.rto ≤ sender.timer.msTime + msSinceLastTick ∧ ∃ first,
          sender.tick msSinceLastTick =
            { sender with
              transmitted := sender.transmitted ++ [first]
              timer := ⟨0, sender.timer.rto⟩ }) := by
  have due : (sender.timer.timePlus msSinceLastTick).isTimeout = true ↔
      sender.timer.rto ≤ sender.timer.msTime + msSinceLastTick := by
    rw [RetransmissionTimer.isTimeout, decide_eq_true_eq]
    exact Iff.rfl
  rw [tick]
  split
  · rename_i probing
    have unusual : ¬sender.TimesOut msSinceLastTick := by
      rintro ⟨usual, -⟩
      rw [probing] at usual
      cases usual
    simp only [tickZwpMode]
    split
    · exact .inl ⟨unusual, sender.timer, rfl, rfl, .inl rfl⟩
    · rename_i first rest probes
      by_cases timeout : sender.timer.rto ≤ sender.timer.msTime + msSinceLastTick
      · rw [if_pos (due.mpr timeout)]
        exact .inr (.inr ⟨probing, timeout, first, rfl⟩)
      · rw [if_neg (mt due.mp timeout)]
        exact .inl ⟨unusual, _, rfl, rfl, .inr rfl⟩
  · rename_i usual
    rw [Bool.not_eq_true] at usual
    simp only [tickSimpleMode]
    split
    · rename_i empty
      exact .inl ⟨fun timesOut => timesOut.2.1 empty, sender.timer, rfl, rfl, .inl rfl⟩
    · rename_i first rest window
      by_cases timeout : sender.timer.rto ≤ sender.timer.msTime + msSinceLastTick
      · rw [if_pos (due.mpr timeout)]
        have filled : sender.window ≠ [] := by simp [window]
        exact .inr (.inl ⟨⟨usual, filled, timeout⟩, first, rfl⟩)
      · rw [if_neg (mt due.mp timeout)]
        exact .inl ⟨fun timesOut => timeout timesOut.2.2, _, rfl, rfl, .inr rfl⟩

end Calls

/-! Whole runs. -/

/-- A run with what has passed since the time was last set to zero. -/
structure Timing where
  flow : Flow
  elapsed : Nat

namespace Timing

def sender (timing : Timing) : TCPSender := timing.flow.trace.sender

def start (capacity : Nat) (isn : Wrap32) (initialRto : UInt64) : Timing :=
  ⟨Flow.start capacity isn initialRto, 0⟩

def elapsedAfter (timing : Timing) : Event → Nat
  | .receive msg leftover =>
      if timing.sender.zeroWindowProbe = true ∨
          timing.sender.Covers (timing.sender.acknowledged msg leftover) then 0
      else timing.elapsed
  | .tick msSinceLastTick =>
      if (timing.sender.tick msSinceLastTick).transmitted ≠ timing.sender.transmitted then 0
      else timing.elapsed + msSinceLastTick.toNat
  | _ => timing.elapsed

def step (timing : Timing) (event : Event) : Except Undefined Timing :=
  match timing.flow.step event with
  | .error undefined => .error undefined
  | .ok flow => .ok ⟨flow, timing.elapsedAfter event⟩

/-- What the timer owes its user in one call: an acknowledgment above the last one resets it, and it
sends again only after `RTO_`, which it doubles if the receiver has a window. -/
def Disciplined (timing : Timing) : Event → Timing → Prop
  | .receive _ _, next =>
      timing.sender.lastAckno < next.sender.lastAckno →
        next.sender.timer = ⟨0, next.sender.initialRto⟩ ∧ next.sender.crt = 0
  | .tick msSinceLastTick, next =>
      next.sender.transmitted ≠ timing.sender.transmitted →
        timing.sender.timer.rto ≤ timing.sender.timer.msTime + msSinceLastTick ∧
          timing.sender.timer.rto.toNat ≤ timing.elapsed + msSinceLastTick.toNat ∧
          if timing.flow.latest = some 0 then
            next.sender.timer.rto = timing.sender.timer.rto ∧ next.sender.crt = timing.sender.crt
          else
            next.sender.timer.rto = timing.sender.timer.rto * 2 ∧
              next.sender.crt = timing.sender.crt + 1
  | _, _ => True

/-- The answer to a probe acknowledges something new only while `CRT_` is zero, and `CRT_` does not
wrap around. -/
def KeepsTimer (timing : Timing) : Event → Prop
  | .receive msg leftover =>
      timing.sender.zeroWindowProbe = true →
        timing.sender.lastAckno < timing.sender.acknowledged msg leftover → timing.sender.crt = 0
  | .tick msSinceLastTick =>
      timing.sender.TimesOut msSinceLastTick → timing.sender.crt.toNat = 2 ^ 64 - 1 →
        timing.sender.initialRto = 0
  | _ => True

structure Inv (timing : Timing) : Prop where
  probing : timing.sender.zeroWindowProbe = true ↔ timing.flow.latest = some 0
  counted : timing.sender.timer.msTime.toNat ≤ timing.elapsed

def BacksOff (timing : Timing) : Prop := timing.sender.Backoff

variable {timing next : Timing}

theorem Inv.same (inv : timing.Inv) (same : timing.sender.SameTimer next.sender)
    (latest : next.flow.latest = timing.flow.latest) (elapsed : next.elapsed = timing.elapsed) :
    next.Inv := by
  constructor
  · rw [same.zeroWindowProbe, latest]
    exact inv.probing
  · rw [same.timer, elapsed]
    exact inv.counted

theorem quiet_step (inv : timing.Inv) (backsOff : timing.BacksOff)
    (quiet : timing.sender.SameTimer next.sender ∧ next.flow.latest = timing.flow.latest ∧
      next.elapsed = timing.elapsed) : next.Inv ∧ (next.BacksOff ∧ True ↔ True) := by
  obtain ⟨same, latest, elapsed⟩ := quiet
  have kept : next.BacksOff := Backoff.same backsOff (by rw [same.timer]) same.crt same.initialRto
  exact ⟨inv.same same latest elapsed, iff_of_true ⟨kept, trivial⟩ trivial⟩

theorem step_receive {msg : TCPReceiverMessage} {leftover : Wrap32}
    (stepped : timing.step (.receive msg leftover) = .ok next) :
    timing.sender.receive msg leftover = .ok next.sender ∧
      next.flow.latest = some msg.windowSize ∧
      next.elapsed = timing.elapsedAfter (.receive msg leftover) := by
  simp only [step, Flow.step, Trace.step] at stepped
  cases received : timing.flow.trace.sender.receive msg leftover with
  | error undefined =>
      simp only [received] at stepped
      cases stepped
  | ok made =>
      simp only [received] at stepped
      cases stepped
      exact ⟨received, rfl, rfl⟩

theorem receive_step (inv : timing.Inv) (backsOff : timing.BacksOff) {msg : TCPReceiverMessage}
    {leftover : Wrap32} (stepped : timing.step (.receive msg leftover) = .ok next) :
    next.Inv ∧ (next.BacksOff ∧ timing.Disciplined (.receive msg leftover) next ↔
      timing.KeepsTimer (.receive msg leftover)) := by
  obtain ⟨received, latest, elapsed⟩ := step_receive stepped
  have probing : next.sender.zeroWindowProbe = true ↔ next.flow.latest = some 0 := by
    rw [(receive_window received).1, latest, decide_eq_true_eq, Option.some_inj]
  obtain ⟨initialRto, cases⟩ := receive_cases received
  rcases cases with ⟨mode, timer, crt, lastAckno⟩ | ⟨mode, covers, timer, crt⟩ |
    ⟨mode, stale, timer, crt, lastAckno⟩
  · have same : next.BacksOff := Backoff.same backsOff (by rw [timer]) crt initialRto
    refine ⟨⟨probing, by rw [timer]; exact Nat.zero_le _⟩, ?_⟩
    simp only [same, true_and, Disciplined, KeepsTimer, mode, true_implies, lastAckno, crt, timer,
      initialRto]
    constructor
    · intro resets above
      exact (resets above).2
    · intro calm above
      have reset := (backoff_iff_of_calm (calm above)).mp backsOff
      exact ⟨by rw [reset], calm above⟩
  · have reset : next.BacksOff := by
      apply (backoff_iff_of_calm crt).mpr
      rw [timer, initialRto]
    refine ⟨⟨probing, by rw [timer]; exact Nat.zero_le _⟩, ?_⟩
    apply iff_of_true
    · refine ⟨reset, fun _ => ⟨?_, crt⟩⟩
      rw [timer, initialRto]
    · intro isProbing
      rw [mode] at isProbing
      cases isProbing
  · have same : next.BacksOff := Backoff.same backsOff (by rw [timer]) crt initialRto
    have waits : next.elapsed = timing.elapsed := by
      rw [elapsed, elapsedAfter, if_neg]
      simp [mode, stale]
    refine ⟨⟨probing, ?_⟩, ?_⟩
    · rw [timer, waits]
      exact inv.counted
    · apply iff_of_true
      · refine ⟨same, fun above => ?_⟩
        rw [lastAckno] at above
        exact absurd above (Nat.lt_irrefl _)
      · intro isProbing
        rw [mode] at isProbing
        cases isProbing

theorem tick_step (inv : timing.Inv) (backsOff : timing.BacksOff) {msSinceLastTick : UInt64}
    (stepped : timing.step (.tick msSinceLastTick) = .ok next) :
    next.Inv ∧ (next.BacksOff ∧ timing.Disciplined (.tick msSinceLastTick) next ↔
      timing.KeepsTimer (.tick msSinceLastTick)) := by
  have ticked : next.sender = timing.sender.tick msSinceLastTick ∧
      next.flow.latest = timing.flow.latest ∧
      next.elapsed = timing.elapsedAfter (.tick msSinceLastTick) := by
    cases stepped
    exact ⟨rfl, rfl, rfl⟩
  obtain ⟨tick, latest, elapsed⟩ := ticked
  have plus : (timing.sender.timer.msTime + msSinceLastTick).toNat ≤
      timing.elapsed + msSinceLastTick.toNat := by
    have counted := inv.counted
    rw [UInt64.toNat_add]
    exact Nat.le_trans (Nat.mod_le _ _) (Nat.add_le_add_right counted _)
  have waited : timing.sender.timer.rto ≤ timing.sender.timer.msTime + msSinceLastTick →
      timing.sender.timer.rto.toNat ≤ timing.elapsed + msSinceLastTick.toNat :=
    fun timeout => Nat.le_trans (UInt64.le_iff_toNat_le.mp timeout) plus
  rw [elapsedAfter, ← tick] at elapsed
  rcases timing.sender.tick_cases msSinceLastTick with
    ⟨unusual, timer, made, rto, time⟩ | ⟨timesOut, first, made⟩ | ⟨mode, timeout, first, made⟩
  · rw [made] at tick
    have silent : next.sender.transmitted = timing.sender.transmitted := by rw [tick]
    have same : next.BacksOff :=
      Backoff.same backsOff (by rw [tick]; exact rto) (by rw [tick]) (by rw [tick])
    rw [if_neg (not_not.mpr silent)] at elapsed
    refine ⟨⟨?_, ?_⟩, ?_⟩
    · rw [tick, latest]
      exact inv.probing
    · rw [tick, elapsed]
      simp only
      rcases time with stays | passes
      · rw [stays]
        exact Nat.le_add_right_of_le inv.counted
      · rw [passes]
        exact plus
    · apply iff_of_true
      · exact ⟨same, fun sends => absurd silent sends⟩
      · exact fun timesOut => absurd timesOut unusual
  · rw [made] at tick
    have crt : next.sender.crt = timing.sender.crt + 1 := by rw [tick]
    have timer : next.sender.timer = ⟨0, timing.sender.timer.rto * 2⟩ := by rw [tick]
    have wide : timing.flow.latest ≠ some 0 := by
      rw [Ne, ← inv.probing, timesOut.1]
      exact Bool.false_ne_true
    have initialRto : next.sender.initialRto = timing.sender.initialRto := by rw [tick]
    have again := Backoff.again_iff backsOff initialRto crt (by rw [timer])
    refine ⟨⟨?_, by rw [timer]; exact Nat.zero_le _⟩, ?_⟩
    · rw [tick, latest]
      exact inv.probing
    · have disciplined : timing.Disciplined (.tick msSinceLastTick) next := by
        intro _
        rw [if_neg wide]
        exact ⟨timesOut.2.2, waited timesOut.2.2, by rw [timer], crt⟩
      simp only [disciplined, and_true, KeepsTimer, timesOut, true_implies]
      exact again
  · rw [made] at tick
    have crt : next.sender.crt = timing.sender.crt := by rw [tick]
    have timer : next.sender.timer = ⟨0, timing.sender.timer.rto⟩ := by rw [tick]
    have same : next.BacksOff :=
      Backoff.same backsOff (by rw [timer]) crt (by rw [tick])
    refine ⟨⟨?_, by rw [timer]; exact Nat.zero_le _⟩, ?_⟩
    · rw [tick, latest]
      exact inv.probing
    · apply iff_of_true
      · refine ⟨same, fun _ => ?_⟩
        rw [if_pos (inv.probing.mp mode)]
        exact ⟨timeout, waited timeout, by rw [timer], crt⟩
      · intro timesOut
        rw [timesOut.1] at mode
        cases mode

theorem step_decides {event : Event} (inv : timing.Inv) (backsOff : timing.BacksOff)
    (stepped : timing.step event = .ok next) :
    next.Inv ∧ (next.BacksOff ∧ timing.Disciplined event next ↔ timing.KeepsTimer event) := by
  cases event with
  | write data =>
      apply quiet_step inv backsOff
      cases stepped
      exact ⟨⟨rfl, rfl, rfl, rfl⟩, rfl, rfl⟩
  | close =>
      apply quiet_step inv backsOff
      cases stepped
      exact ⟨⟨rfl, rfl, rfl, rfl⟩, rfl, rfl⟩
  | push =>
      apply quiet_step inv backsOff
      cases stepped
      exact ⟨timing.sender.push_sameTimer, rfl, rfl⟩
  | receive msg leftover => exact receive_step inv backsOff stepped
  | tick msSinceLastTick => exact tick_step inv backsOff stepped

theorem start_inv (capacity : Nat) (isn : Wrap32) (initialRto : UInt64) :
    (start capacity isn initialRto).Inv where
  probing := iff_of_false Bool.false_ne_true nofun
  counted := Nat.le_refl _

theorem start_backsOff (capacity : Nat) (isn : Wrap32) (initialRto : UInt64) :
    (start capacity isn initialRto).BacksOff :=
  (backoff_iff_of_calm rfl).mpr rfl

theorem disciplined_iff (capacity : Nat) (isn : Wrap32) (initialRto : UInt64)
    (events : List Event) :
    Runs.Always step BacksOff (start capacity isn initialRto) events ∧
        Runs.EachStep step Disciplined (start capacity isn initialRto) events ↔
      Runs.EachStep step (fun timing event _ => timing.KeepsTimer event)
        (start capacity isn initialRto) events :=
  Runs.always_and_eachStep_iff
    (fun _ _ _ inv backsOff stepped => (step_decides inv backsOff stepped).1)
    (fun _ _ _ inv backsOff stepped => (step_decides inv backsOff stepped).2) events
    (start_inv capacity isn initialRto) (start_backsOff capacity isn initialRto)

/-- After a timeout the window closes and the answer to the probe acknowledges a byte: `CRT_` stays
one and `RTO_` doubled. -/
theorem probe_answer_keeps_backoff :
    ¬Runs.EachStep step Disciplined (start 100 ⟨7⟩ 50)
      [.push, .receive ⟨some ⟨8⟩, 10, false⟩ ⟨0⟩, .write [1, 2, 3], .push, .tick 50,
        .receive ⟨some ⟨8⟩, 0, false⟩ ⟨0⟩, .push, .receive ⟨some ⟨9⟩, 10, false⟩ ⟨0⟩] := by
  intro each
  rw [Runs.eachStep_cons rfl, Runs.eachStep_cons rfl, Runs.eachStep_cons rfl,
    Runs.eachStep_cons rfl, Runs.eachStep_cons rfl, Runs.eachStep_cons rfl,
    Runs.eachStep_cons rfl, Runs.eachStep_cons rfl] at each
  have reset := each.2.2.2.2.2.2.2.1 (by decide +kernel)
  exact absurd reset.2 (by decide +kernel)

end Timing

end TCPSender

end LearnInternet.Tcp
