import LearnInternet.Lib.Decimal
import LearnInternet.Tcp.Wrap32

/-!
The messages between the two ends of a connection.
-/

namespace LearnInternet.Tcp

structure TCPSenderMessage where
  seqno : Wrap32
  syn : Bool
  payload : Bytes
  fin : Bool
  rst : Bool
  deriving DecidableEq, Repr

def TCPSenderMessage.sequenceLength (message : TCPSenderMessage) : Nat :=
  message.syn.toNat + message.payload.length + message.fin.toNat

structure TCPReceiverMessage where
  ackno : Option Wrap32
  windowSize : UInt16
  rst : Bool
  deriving DecidableEq, Repr

end LearnInternet.Tcp
