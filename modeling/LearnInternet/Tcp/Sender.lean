import LearnInternet.Tcp.ByteStream
import LearnInternet.Tcp.Messages

/-!
The `TCPSender`. `RWSize_` and `SeqFNum_` are subtracted as `uint64_t` and may wrap around, the
absolute sequence numbers are natural numbers.
-/

namespace LearnInternet.Tcp

/-- A message with the number its `seqno` is wrapped from, which no function reads. -/
structure Numbered where
  absolute : Nat
  message : TCPSenderMessage
  deriving DecidableEq, Repr

structure RetransmissionTimer where
  msTime : UInt64
  rto : UInt64
  deriving DecidableEq, Repr

namespace RetransmissionTimer

def isTimeout (timer : RetransmissionTimer) : Bool := decide (timer.msTime ≥ timer.rto)

def timePlus (timer : RetransmissionTimer) (msSinceLastTick : UInt64) : RetransmissionTimer :=
  { timer with msTime := timer.msTime + msSinceLastTick }

def timeReset (timer : RetransmissionTimer) : RetransmissionTimer := { timer with msTime := 0 }

def rtoReset (timer : RetransmissionTimer) (initialRto : UInt64) : RetransmissionTimer :=
  { timer with rto := initialRto }

def rtoMulti (timer : RetransmissionTimer) : RetransmissionTimer :=
  { timer with rto := timer.rto * 2 }

end RetransmissionTimer

structure TCPSender where
  input : ByteStream
  isn : Wrap32
  initialRto : UInt64
  crt : UInt64
  seqFNum : UInt64
  nextSeq : Nat
  rwSize : UInt64
  lastAckno : Nat
  isFined : Bool
  isSyned : Bool
  shouldRst : Bool
  zeroWindowProbe : Bool
  isZeroWindowProbing : Bool
  zeroWindowProbeMsg : List Numbered
  window : List Numbered
  timer : RetransmissionTimer
  transmitted : List Numbered
  deriving DecidableEq

inductive Undefined where
  | popBack
  deriving DecidableEq, Repr

namespace TCPSender

def ofStream (input : ByteStream) (isn : Wrap32) (initialRto : UInt64) : TCPSender where
  input
  isn
  initialRto
  crt := 0
  seqFNum := 0
  nextSeq := isn.unwrap isn 0
  rwSize := 0
  lastAckno := 0
  isFined := false
  isSyned := false
  shouldRst := false
  zeroWindowProbe := false
  isZeroWindowProbing := false
  zeroWindowProbeMsg := []
  window := []
  timer := ⟨0, initialRto⟩
  transmitted := []

def makeEmptyMessage (sender : TCPSender) : TCPSenderMessage where
  seqno := Wrap32.wrap sender.nextSeq sender.isn
  syn := false
  payload := []
  fin := false
  rst := sender.shouldRst || sender.input.hasError

def space (sender : TCPSender) : UInt64 := sender.rwSize - sender.seqFNum

def positiveInt64 (value : UInt64) : Bool := decide (0 < value ∧ value < 0x8000000000000000)

/-- `transmit`, and the mark of a single `RST` taken back. -/
def transmit (sender : TCPSender) (sent : Numbered) : TCPSender :=
  { sender with
    transmitted := sender.transmitted ++ [sent]
    shouldRst := if sent.message.rst then false else sender.shouldRst }

def fillSyn (sender : TCPSender) (message : TCPSenderMessage) : TCPSender × TCPSenderMessage :=
  if sender.isSyned then (sender, message)
  else ({ sender with isSyned := true }, { message with syn := true })

/-- Payload for the message: what is taken from `peek` and what is popped are counted apart. -/
def fillPayload (sender : TCPSender) (message : TCPSenderMessage) : TCPSender × TCPSenderMessage :=
  let free := sender.space - UInt64.ofNat message.sequenceLength
  if 0 < free ∧ free ≤ 1000 then
    ({ sender with input := sender.input.pop sender.space.toNat },
      { message with payload := sender.input.peek.take sender.space.toNat })
  else if 1000 < free then
    ({ sender with input := sender.input.pop 1000 },
      { message with payload := sender.input.peek.take 1000 })
  else (sender, message)

def fillFin (sender : TCPSender) (message : TCPSenderMessage) : TCPSender × TCPSenderMessage :=
  if sender.isFined = false ∧ 0 < sender.space - UInt64.ofNat message.sequenceLength ∧
      sender.input.isFinished = true ∧ sender.input.bytesBuffered = 0 then
    ({ sender with isFined := true }, { message with fin := true })
  else (sender, message)

def launch (sender : TCPSender) (message : TCPSenderMessage) : TCPSender :=
  if message.sequenceLength = 0 then sender
  else
    let sent := Numbered.mk sender.nextSeq message
    let counted :=
      { sender with
        nextSeq := sender.nextSeq + message.sequenceLength
        seqFNum := sender.seqFNum + UInt64.ofNat message.sequenceLength
        window := sender.window ++ [sent] }
    counted.transmit sent

def pushSimpleMode (sender : TCPSender) : TCPSender :=
  let syned := sender.fillSyn sender.makeEmptyMessage
  let filled := syned.1.fillPayload syned.2
  let fined := filled.1.fillFin filled.2
  fined.1.launch fined.2

def hasToPush (sender : TCPSender) : Bool :=
  positiveInt64 sender.space && !sender.isFined && decide (sender.input.bytesBuffered > 0)

/-- The loop of `push`; every round takes at least one byte from the buffer. -/
def pushLoop : Nat → TCPSender → TCPSender
  | 0, sender => sender
  | rounds + 1, sender =>
      if sender.hasToPush then pushLoop rounds sender.pushSimpleMode else sender

def pushSyned (sender : TCPSender) : TCPSender :=
  let pushed := pushLoop sender.input.bytesBuffered sender
  if pushed.isFined = false ∧ 0 < pushed.space ∧ pushed.input.isFinished = true ∧
      pushed.input.bytesBuffered = 0 then
    pushed.pushSimpleMode
  else pushed

def pushSimple (sender : TCPSender) : TCPSender :=
  if sender.isSyned then sender.pushSyned else sender.pushSimpleMode.pushSyned

def probe (sender : TCPSender) (sent : Numbered) : TCPSender :=
  { (sender.transmit sent) with
    isZeroWindowProbing := true
    zeroWindowProbeMsg := sender.zeroWindowProbeMsg ++ [sent] }

def cutFirst (message first : TCPSenderMessage) : TCPSenderMessage × TCPSenderMessage :=
  if first.syn = true then ({ message with syn := true }, { first with syn := false })
  else if first.payload.length ≠ 0 then
    ({ message with payload := first.payload.take 1 },
      { first with payload := first.payload.take 1 })
  else if first.fin = true then ({ message with fin := true }, { first with fin := false })
  else (message, first)

def cutStream (sender : TCPSender) (message : TCPSenderMessage) : TCPSender × TCPSenderMessage :=
  if sender.isSyned = false then ({ sender with isSyned := true }, { message with syn := true })
  else if sender.input.bytesBuffered ≠ 0 then
    ({ sender with input := sender.input.pop 1 }, { message with payload := sender.input.peek.take 1 })
  else if sender.input.isFinished = true ∧ sender.isFined = false then
    ({ sender with isFined := true }, { message with fin := true })
  else (sender, message)

def pushZwpMode (sender : TCPSender) : TCPSender :=
  match sender.window with
  | first :: rest =>
      let cut := cutFirst sender.makeEmptyMessage first.message
      let kept :=
        if cut.2.sequenceLength = 0 then rest else { first with message := cut.2 } :: rest
      { sender with window := kept }.probe ⟨sender.nextSeq, cut.1⟩
  | [] =>
      let cut := sender.cutStream sender.makeEmptyMessage
      if cut.2.sequenceLength ≠ 1 then cut.1
      else
        { cut.1 with nextSeq := sender.nextSeq + 1, seqFNum := sender.seqFNum + 1 }.probe
          ⟨sender.nextSeq, cut.2⟩

def push (sender : TCPSender) : TCPSender :=
  if sender.zeroWindowProbe = true ∧ sender.isZeroWindowProbing = false then sender.pushZwpMode
  else if sender.zeroWindowProbe = false then sender.pushSimple
  else sender

/-- The absolute number of an acknowledgment; `*msg.ackno` of a message without one reads the
`leftover` of its storage. -/
def acknowledged (sender : TCPSender) (msg : TCPReceiverMessage) (leftover : Wrap32) : Nat :=
  (msg.ackno.getD leftover).unwrap sender.isn sender.lastAckno

def dropAcknowledged (sender : TCPSender) (ackno : Nat) : List Numbered :=
  sender.window.dropWhile fun sent => decide
    (sent.message.seqno.unwrap sender.isn sender.lastAckno + sent.message.sequenceLength ≤ ackno)

def takeAckno (sender : TCPSender) (ackno : Nat) : TCPSender :=
  if ackno > sender.nextSeq then sender
  else if UInt64.ofNat ackno > UInt64.ofNat sender.nextSeq - sender.seqFNum then
    { sender with
      window := sender.dropAcknowledged ackno
      crt := 0
      timer := (sender.timer.rtoReset sender.initialRto).timeReset
      seqFNum := sender.seqFNum - (UInt64.ofNat ackno - UInt64.ofNat sender.lastAckno)
      lastAckno := ackno }
  else sender

def takeProbe (sender : TCPSender) (ackno : Nat) : Except Undefined TCPSender :=
  if sender.zeroWindowProbeMsg = [] then .error .popBack
  else
    .ok { sender with
      seqFNum := sender.seqFNum - 1
      isZeroWindowProbing := false
      timer := sender.timer.timeReset
      zeroWindowProbeMsg := sender.zeroWindowProbeMsg.dropLast
      lastAckno := ackno }

def checkRst (sender : TCPSender) (msg : TCPReceiverMessage) : TCPSender :=
  if msg.rst then { sender with input := sender.input.setError } else sender

def receiveSimpleMode (sender : TCPSender) (msg : TCPReceiverMessage) (leftover : Wrap32) :
    Except Undefined TCPSender :=
  let checked := { sender.checkRst msg with rwSize := msg.windowSize.toUInt64 }
  let ackno := checked.acknowledged msg leftover
  if checked.zeroWindowProbe then
    match checked.takeProbe ackno with
    | .error undefined => .error undefined
    | .ok answered => .ok { answered with zeroWindowProbe := false }
  else .ok { checked.takeAckno ackno with zeroWindowProbe := false }

def receiveZwpMode (sender : TCPSender) (msg : TCPReceiverMessage) (leftover : Wrap32) :
    Except Undefined TCPSender :=
  let checked := sender.checkRst msg
  let ackno := checked.acknowledged msg leftover
  if checked.zeroWindowProbe then checked.takeProbe ackno
  else .ok ({ checked with rwSize := 0, zeroWindowProbe := true }.takeAckno ackno)

def receive (sender : TCPSender) (msg : TCPReceiverMessage) (leftover : Wrap32) :
    Except Undefined TCPSender :=
  if msg.windowSize = 0 then sender.receiveZwpMode msg leftover
  else sender.receiveSimpleMode msg leftover

def retransmitSimpleMode (sender : TCPSender) (sent : Numbered) : TCPSender :=
  { sender with
    transmitted := sender.transmitted ++ [sent]
    crt := sender.crt + 1
    timer := sender.timer.rtoMulti.timeReset }

def tickSimpleMode (sender : TCPSender) (msSinceLastTick : UInt64) : TCPSender :=
  match sender.window with
  | [] => sender
  | first :: _ =>
      let later := { sender with timer := sender.timer.timePlus msSinceLastTick }
      if later.timer.isTimeout then later.retransmitSimpleMode first else later

def retransmitZwpMode (sender : TCPSender) (sent : Numbered) : TCPSender :=
  { sender with
    transmitted := sender.transmitted ++ [sent]
    timer := sender.timer.timeReset }

def tickZwpMode (sender : TCPSender) (msSinceLastTick : UInt64) : TCPSender :=
  match sender.zeroWindowProbeMsg with
  | [] => sender
  | first :: _ =>
      let later := { sender with timer := sender.timer.timePlus msSinceLastTick }
      if later.timer.isTimeout then later.retransmitZwpMode first else later

def tick (sender : TCPSender) (msSinceLastTick : UInt64) : TCPSender :=
  if sender.zeroWindowProbe then sender.tickZwpMode msSinceLastTick
  else sender.tickSimpleMode msSinceLastTick

end TCPSender

end LearnInternet.Tcp
