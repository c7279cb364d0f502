import LearnInternet.Lib.UnorderedMap
import LearnInternet.Socket

/-!
`HttpMessageCodec`: requests read from a socket, responses written to it.
`decode` is what `obtain` makes of a whole byte stream; `obtain_eq_decode` says that the reads
the stream arrives in do not matter.
-/

namespace LearnInternet.Http

open LearnInternet

abbrev Headers := UnorderedMap Bytes Bytes

structure HTTPReqObj where
  method : Bytes
  reqTarget : Bytes
  version : Bytes
  header : Headers
  data : Bytes

def HTTPReqObj.fresh : HTTPReqObj := ⟨[], [], [], UnorderedMap.empty, []⟩

structure HTTPResObj where
  version : Bytes
  resCode : Bytes
  resState : Bytes
  header : Headers
  data : Bytes

def HTTPResObj.fresh : HTTPResObj := ⟨[], [], [], UnorderedMap.empty, []⟩

def crlf : Bytes := [13, 10]

def blankLine : Bytes := [13, 10, 13, 10]

def space : Bytes := [32]

def colon : Bytes := [58, 32]

def contentLength : Bytes := ascii "Content-Length"

def npos : Nat := 2 ^ 64 - 1

def position (pattern text : Bytes) : Nat := (Text.find pattern text).getD npos

/-- The common body of `get_method_` and `get_req_target_`: `find` goes through a `uint16_t`. -/
def cutAtSpace (requestLine : Bytes) : Bytes × Bytes :=
  let length := position space requestLine % 2 ^ 16
  (requestLine.take length, requestLine.drop (length + 1))

def getMethod (requestLine : Bytes) : Bytes × Bytes := cutAtSpace requestLine

def getReqTarget (requestLine : Bytes) : Bytes × Bytes := cutAtSpace requestLine

def getVersion (requestLine : Bytes) : Bytes := requestLine

def deserializeReqLine (reqLine : Bytes) (obj : HTTPReqObj) : HTTPReqObj :=
  let (method, afterMethod) := getMethod reqLine
  let (reqTarget, afterTarget) := getReqTarget afterMethod
  { obj with method := method, reqTarget := reqTarget, version := getVersion afterTarget }

def getKeyValue (msg : Bytes) : Except Abort (Bytes × Bytes × Bytes) :=
  match Text.find crlf msg with
  | none => .error (.exit .protocolErr)
  | some kvLen =>
      let kv := msg.take kvLen
      match Text.find colon kv with
      | none => .error (.exit .protocolErr)
      | some keyLen => .ok (kv.take keyLen, kv.drop (keyLen + 2), msg.drop (kvLen + 2))

/-- Every round takes at least two bytes, so as many rounds as bytes are enough. -/
def getHeaderFrom : Nat → Bytes → Headers → Except Abort Headers
  | 0, _, ret => .ok ret
  | fuel + 1, msg, ret =>
      if msg.isEmpty then .ok ret
      else
        match getKeyValue msg with
        | .error abort => .error abort
        | .ok (key, value, rest) => getHeaderFrom fuel rest (ret.assign key value)

def getHeader (msg : Bytes) : Except Abort Headers := getHeaderFrom msg.length msg UnorderedMap.empty

/-- `buff.erase(0, 2)` before the data is taken out. -/
def deserializeData (buff : Bytes) (length : Nat) (obj : HTTPReqObj) : HTTPReqObj :=
  { obj with data := (buff.drop 2).take length }

def obtainHead (reqAndHeader : Bytes) (obj : HTTPReqObj) : Except Abort Bool × HTTPReqObj :=
  match Text.find crlf reqAndHeader with
  | none => (.error (.exit .protocolErr), obj)
  | some requestLineLen =>
      let header := reqAndHeader.drop (requestLineLen + 2)
      let obj := deserializeReqLine (reqAndHeader.take requestLineLen) obj
      if header.length = 0 then (.ok false, obj)
      else
        match getHeader header with
        | .error abort => (.error abort, obj)
        | .ok fields => (.ok true, { obj with header := fields })

/-- The number of bytes `obtain` waits for, `none` when it takes no data. A negative number
becomes an `unsigned long`. -/
def dataLen (obj : HTTPReqObj) : Except Abort (Option Nat) :=
  match obj.header.find contentLength with
  | none => .ok none
  | some value =>
      if value = ascii "0" then .ok none
      else
        match Decimal.stoi value with
        | .error failure => .error (Abort.ofConversion failure)
        | .ok length => .ok (some (length % 2 ^ 64).toNat)

structure HttpMessageCodec where
  buff : Bytes
  sock : Socket

def HttpMessageCodec.ofSocket (sock : Socket) : HttpMessageCodec := ⟨[], sock⟩

structure Obtained where
  result : Except Abort Bool
  obj : HTTPReqObj
  codec : HttpMessageCodec

def obtainData (codec : HttpMessageCodec) (length : Nat) (obj : HTTPReqObj) : Obtained :=
  let enough := fun buff : Bytes => decide (¬buff.length < length)
  let received :=
    if enough codec.buff then ⟨.ok true, codec.buff, codec.sock⟩
    else codec.sock.recvUntil enough codec.buff
  match received.result with
  | .error abort => ⟨.error abort, obj, ⟨received.buff, received.sock⟩⟩
  | .ok false => ⟨.ok false, obj, ⟨received.buff, received.sock⟩⟩
  | .ok true =>
      ⟨.ok true, deserializeData (received.buff.take length) length obj,
        ⟨received.buff.drop length, received.sock⟩⟩

def HttpMessageCodec.obtain (codec : HttpMessageCodec) (obj : HTTPReqObj) : Obtained :=
  let received := codec.sock.recvUntil (fun buff => (Text.find blankLine buff).isSome) codec.buff
  match received.result with
  | .error abort => ⟨.error abort, obj, ⟨received.buff, received.sock⟩⟩
  | .ok false => ⟨.ok false, obj, ⟨received.buff, received.sock⟩⟩
  | .ok true =>
      let cut := position blankLine received.buff + 2
      let codec : HttpMessageCodec := ⟨received.buff.drop cut, received.sock⟩
      match obtainHead (received.buff.take cut) obj with
      | (.error abort, obj) => ⟨.error abort, obj, codec⟩
      | (.ok false, obj) => ⟨.ok true, obj, codec⟩
      | (.ok true, obj) =>
          match dataLen obj with
          | .error abort => ⟨.error abort, obj, codec⟩
          | .ok none => ⟨.ok true, obj, codec⟩
          | .ok (some length) => obtainData codec length obj

def serialize (order : Headers → List (Bytes × Bytes)) (obj : HTTPResObj) : Bytes :=
  obj.version ++ space ++ obj.resCode ++ space ++ obj.resState ++ crlf ++
    ((order obj.header).map fun field => field.1 ++ colon ++ field.2 ++ crlf).flatten ++
    crlf ++ obj.data

def HttpMessageCodec.deliver (order : Headers → List (Bytes × Bytes)) (codec : HttpMessageCodec)
    (obj : HTTPResObj) : Bool × HttpMessageCodec :=
  let (sent, sock) := codec.sock.send (serialize order obj)
  (sent, { codec with sock := sock })

end LearnInternet.Http
