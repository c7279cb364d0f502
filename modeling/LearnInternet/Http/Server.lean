import LearnInternet.Http.Decode
import LearnInternet.Http.Router

/-!
`HttpConnection` checks what the codec hands over, and `HttpServer::run` answers it.
-/

namespace LearnInternet.Http

open LearnInternet

inductive ReqErr where
  | reqMethodUnknown
  | reqOk
  | reqLengthErr
  | reqLengthNotFound
  | reqPathErr
  | reqVersionErr
  deriving DecidableEq, Repr

inductive ResErr where
  | resCodeUnknown
  | resOk
  | resStateErr
  | resVersionErr
  | resLengthErr
  | resLengthNotFound
  deriving DecidableEq, Repr

def stoul (text : Bytes) : Except Abort Nat :=
  match Decimal.stoul text with
  | .ok number => .ok number
  | .error failure => .error (Abort.ofConversion failure)

structure HttpConnection where
  msgCodec : HttpMessageCodec

def HttpConnection.ofSocket (sock : Socket) : HttpConnection := ⟨HttpMessageCodec.ofSocket sock⟩

def HttpConnection.sent (connection : HttpConnection) : List Bytes := connection.msgCodec.sock.sent

def resForBadReq : HTTPResObj :=
  { HTTPResObj.fresh with
    resCode := ascii "400"
    resState := ascii "Bad Request"
    version := ascii "HTTP/1.0"
    header := UnorderedMap.empty.assign contentLength (ascii "0") }

def serializeDated (host : Host) (obj : HTTPResObj) : Bytes :=
  serialize host.order { obj with header := obj.header.assign (ascii "Date") host.date }

/-- The result of the codec's `deliver` is dropped. -/
def HttpConnection.deliver (host : Host) (connection : HttpConnection) (obj : HTTPResObj) :
    Except Abort ResErr × HttpConnection :=
  if obj.resCode = [] then (.ok .resCodeUnknown, connection)
  else if obj.resState = [] then (.ok .resStateErr, connection)
  else if obj.version = [] then (.ok .resVersionErr, connection)
  else
    match obj.header.find contentLength with
    | none => (.ok .resLengthNotFound, connection)
    | some value =>
        match stoul value with
        | .error abort => (.error abort, connection)
        | .ok length =>
            if length ≠ obj.data.length then (.ok .resLengthErr, connection)
            else
              let dated := { obj with header := obj.header.assign (ascii "Date") host.date }
              (.ok .resOk, ⟨(connection.msgCodec.deliver host.order dated).2⟩)

def HttpConnection.refuse (host : Host) (connection : HttpConnection) (err : ReqErr) :
    Except Abort ReqErr × HttpConnection :=
  match connection.deliver host resForBadReq with
  | (.error abort, connection) => (.error abort, connection)
  | (.ok _, connection) => (.ok err, connection)

/-- The check of `check_get` and `check_post`, which differ in a request without the field. -/
def checkLength (host : Host) (absent : Except Abort ReqErr × HttpConnection) (obj : HTTPReqObj)
    (connection : HttpConnection) : Except Abort ReqErr × HttpConnection :=
  match obj.header.find contentLength with
  | none => absent
  | some value =>
      match stoul value with
      | .error abort => (.error abort, connection)
      | .ok length =>
          if length ≠ obj.data.length then connection.refuse host .reqLengthErr
          else (.ok .reqOk, connection)

def checkGet (host : Host) (obj : HTTPReqObj) (connection : HttpConnection) :
    Except Abort ReqErr × HttpConnection :=
  checkLength host (.ok .reqOk, connection) obj connection

def checkPost (host : Host) (obj : HTTPReqObj) (connection : HttpConnection) :
    Except Abort ReqErr × HttpConnection :=
  checkLength host (connection.refuse host .reqLengthNotFound) obj connection

/-- The arm for other methods answers nothing. -/
def reqCheck (host : Host) (obj : HTTPReqObj) (connection : HttpConnection) :
    Except Abort ReqErr × HttpConnection :=
  if obj.reqTarget = [] then connection.refuse host .reqPathErr
  else if obj.version = [] then connection.refuse host .reqVersionErr
  else if obj.method = ascii "GET" then checkGet host obj connection
  else if obj.method = ascii "POST" then checkPost host obj connection
  else (.ok .reqMethodUnknown, connection)

structure Accepted where
  result : Except Abort ReqErr
  obj : HTTPReqObj
  connection : HttpConnection

/-- What the codec returns, true or false, is dropped; only what it parsed is looked at. -/
def HttpConnection.obtain (host : Host) (connection : HttpConnection) (obj : HTTPReqObj) :
    Accepted :=
  let obtained := connection.msgCodec.obtain HTTPReqObj.fresh
  match obtained.result with
  | .error abort => ⟨.error abort, obj, ⟨obtained.codec⟩⟩
  | .ok _ =>
      let (result, connection) := reqCheck host obtained.obj ⟨obtained.codec⟩
      match result with
      | .ok .reqOk => ⟨result, obtained.obj, connection⟩
      | _ => ⟨result, obj, connection⟩

structure HttpServer where
  connector : HttpConnection
  router : HttpRouter
  mime : Headers

structure Ran where
  result : Except Abort Unit
  server : HttpServer

def HttpServer.run (host : Host) (server : HttpServer) : Ran :=
  let accepted := server.connector.obtain host HTTPReqObj.fresh
  let server := { server with connector := accepted.connection }
  match accepted.result with
  | .error abort => ⟨.error abort, server⟩
  | .ok .reqOk =>
      match server.router.routes host server.mime accepted.obj with
      | .error abort => ⟨.error abort, server⟩
      | .ok routed =>
          let (delivered, connector) := server.connector.deliver host routed.res
          let server := { server with connector := connector, mime := routed.mime }
          match delivered with
          | .error abort => ⟨.error abort, server⟩
          | .ok _ => ⟨.ok (), server⟩
  | .ok _ => ⟨.ok (), server⟩

/-! ### One message for each delivery -/

theorem codec_deliver_sent (order : Headers → List (Bytes × Bytes)) (codec : HttpMessageCodec)
    (obj : HTTPResObj) :
    (codec.deliver order obj).2.sock.sent = codec.sock.sent ++ [serialize order obj] := by
  simp [HttpMessageCodec.deliver]

theorem deliver_complete (host : Host) (connection : HttpConnection) (obj : HTTPResObj)
    (code : obj.resCode ≠ []) (state : obj.resState ≠ []) (version : obj.version ≠ [])
    (value : Bytes) (found : obj.header.find contentLength = some value)
    (length : Decimal.stoul value = .ok obj.data.length) :
    (connection.deliver host obj).1 = .ok .resOk ∧
      (connection.deliver host obj).2.sent = connection.sent ++ [serializeDated host obj] := by
  simp only [HttpConnection.deliver, code, state, version, if_false, found, stoul, length,
    ne_eq, not_true_eq_false]
  refine ⟨trivial, ?_⟩
  exact codec_deliver_sent host.order connection.msgCodec _

theorem refuse_outcome (host : Host) (connection : HttpConnection) (err : ReqErr) :
    (connection.refuse host err).1 = .ok err ∧
      (connection.refuse host err).2.sent =
        connection.sent ++ [serializeDated host resForBadReq] := by
  have delivered := deliver_complete host connection resForBadReq (by decide) (by decide)
    (by decide) (ascii "0") (by decide) (by decide)
  obtain ⟨result, sent⟩ := delivered
  simp only [HttpConnection.refuse]
  generalize connection.deliver host resForBadReq = outcome at result sent ⊢
  obtain ⟨first, second⟩ := outcome
  obtain rfl : first = .ok .resOk := result
  exact ⟨rfl, sent⟩

theorem finishResponse_delivered (host : Host) (connection : HttpConnection) (res : HTTPResObj)
    (code : res.resCode ≠ []) (state : res.resState ≠ []) (bound : res.data.length < 2 ^ 64) :
    (connection.deliver host (finishResponse res)).1 = .ok .resOk ∧
      (connection.deliver host (finishResponse res)).2.sent =
        connection.sent ++ [serializeDated host (finishResponse res)] := by
  have version : (finishResponse res).version ≠ [] := by
    change ascii "HTTP/1.0" ≠ []
    decide
  apply deliver_complete host connection (finishResponse res) code state version
    (Decimal.toBytes res.data.length)
  · simp [finishResponse]
  · exact Decimal.stoul_toBytes bound

end LearnInternet.Http
