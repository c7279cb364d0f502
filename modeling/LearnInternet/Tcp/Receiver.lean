import LearnInternet.Tcp.Messages
import LearnInternet.Tcp.Reassembler

/-!
The `TCPReceiver`. Its flags `SYN`, `SYN_before`, `FIN` and `need_FIN` are counters of type
`uint32_t`.
-/

namespace LearnInternet.Tcp

structure TCPReceiver where
  reassembler : Reassembler
  zeroPoint : Wrap32
  checkpoint : Nat
  syn : UInt32
  synBefore : UInt32
  fin : UInt32
  needFin : UInt32
  deriving DecidableEq

namespace TCPReceiver

def ofReassembler (reassembler : Reassembler) : TCPReceiver where
  reassembler
  zeroPoint := ⟨100⟩
  checkpoint := 0
  syn := 0
  synBefore := 0
  fin := 0
  needFin := 0

def checkConnected (receiver : TCPReceiver) (message : TCPSenderMessage) : TCPReceiver :=
  if message.syn = false ∧ receiver.syn = 0 then
    { receiver with
      reassembler := { receiver.reassembler with output := receiver.reassembler.output.setError } }
  else receiver

def initSyn (receiver : TCPReceiver) (message : TCPSenderMessage) : TCPReceiver :=
  if message.syn = true ∧ receiver.syn = 0 then
    let reset :=
      if receiver.reassembler.output.isClosed = true ∧ receiver.fin = 1 ∧ receiver.syn = 1 then
        { receiver with fin := receiver.fin - 1, syn := receiver.syn - 1 }
      else receiver
    { reset with zeroPoint := message.seqno, syn := reset.syn + 1 }
  else receiver

def initSynBefore (receiver : TCPReceiver) (message : TCPSenderMessage) : TCPReceiver :=
  if message.syn = true ∧ receiver.synBefore = 0 then
    { receiver with synBefore := receiver.synBefore + 1 }
  else receiver

/-- The first index of the payload in the stream; `- SYN` is done on `uint64_t`. -/
def firstIndex (receiver : TCPReceiver) (message : TCPSenderMessage) : Nat :=
  let absolute := message.seqno.unwrap receiver.zeroPoint receiver.checkpoint
  if message.syn = true then absolute
  else if receiver.syn.toNat ≤ absolute then absolute - receiver.syn.toNat
  else 2 ^ 64 - (receiver.syn.toNat - absolute)

def markFin (receiver : TCPReceiver) (message : TCPSenderMessage) : TCPReceiver :=
  if message.fin = true then { receiver with needFin := receiver.needFin + 1 } else receiver

/-- One `FIN` and nothing pending is taken for the end of the stream. -/
def settleFin (receiver : TCPReceiver) : TCPReceiver :=
  if receiver.reassembler.bytesPending = 0 ∧ receiver.fin = 0 ∧ receiver.needFin = 1 then
    { receiver with fin := receiver.fin + 1, needFin := receiver.needFin - 1 }
  else receiver

def deliver (receiver : TCPReceiver) (message : TCPSenderMessage) : Except Fault TCPReceiver :=
  match receiver.reassembler.insert (receiver.firstIndex message) message.payload message.fin with
  | .error fault => .error fault
  | .ok reassembler =>
      let pushed := reassembler.output.bytesPushed - receiver.reassembler.output.bytesPushed
      let delivered := { receiver with reassembler, checkpoint := receiver.checkpoint + pushed }
      .ok (delivered.markFin message).settleFin

def receive (receiver : TCPReceiver) (message : TCPSenderMessage) : Except Fault TCPReceiver :=
  let checked := receiver.checkConnected message
  let connected := (checked.initSyn message).initSynBefore message
  if connected.syn ≠ 0 then connected.deliver message else .ok connected

def uint16Max : Nat := 65535

def send (receiver : TCPReceiver) : TCPReceiverMessage where
  windowSize :=
    UInt16.ofNat (if receiver.reassembler.output.availableCapacity > uint16Max then uint16Max
      else receiver.reassembler.output.availableCapacity)
  ackno :=
    if receiver.synBefore ≠ 0 then
      some (Wrap32.wrap (receiver.checkpoint + receiver.syn.toNat + receiver.fin.toNat)
        receiver.zeroPoint)
    else none
  rst := receiver.reassembler.output.hasError

end TCPReceiver

end LearnInternet.Tcp
