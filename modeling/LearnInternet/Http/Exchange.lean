import LearnInternet.Http.Deliverable
import LearnInternet.Http.Delivery
import LearnInternet.Http.Requests
import LearnInternet.Http.RoundTrip

/-!
One exchange with the HTTP server as its client sees it: the bytes that come back, taken apart at
their first blank line, are the file the request asks for.
-/

namespace LearnInternet.Http

open LearnInternet

/-- A response as its reader takes it apart: the connection is closed behind it, so that all that
follows the blank line are its data. -/
structure Response where
  status : Bytes
  header : Headers
  data : Bytes

def readResponse (msg : Bytes) : Option Response :=
  match Text.find blankLine msg, splitHead msg with
  | some index, some (line, header) =>
      match getHeader header with
      | .ok fields => some ⟨line, fields, msg.drop (index + blankLine.length)⟩
      | .error _ => none
  | _, _ => none

/-- The clock writes no carriage return, and a map is listed with all its entries. -/
structure Host.Sane (host : Host) : Prop where
  date : 13 ∉ host.date
  order : ∀ map, (host.order map).Perm map.entries

/-- What a file server answers: the first of the files asked for that can be read, or the page for
those that cannot. -/
def fetch (host : Host) (target : Bytes) : Bytes × Bytes :=
  match (askedFiles target).findSome? host.readFile with
  | some data => (ascii "HTTP/1.0 200 OK", data)
  | none => (ascii "HTTP/1.0 404 Not Found", (host.readFile notFoundPath).getD [])

/-! What was written can be read. -/

section Reading

theorem splitHead_text {line : Bytes} {fields : List (Bytes × Bytes)} (body : Bytes)
    (lineNoCr : 13 ∉ line) (fieldsNoCr : ∀ field ∈ fields, 13 ∉ fieldLine field) :
    splitHead (line ++ crlf ++ fieldsText fields ++ crlf ++ body) =
      some (line, fieldsText fields) := by
  have lineEnd : Text.find crlf (line ++ crlf ++ fieldsText fields) = some line.length :=
    Text.find_lead [10] lineNoCr _
  simp only [splitHead, find_blankLine line fields body lineNoCr fieldsNoCr, Option.map_some,
    (cut_head line fields body).1, position, lineEnd, Option.getD_some, take_line, drop_line]

theorem drop_blankLine (line : Bytes) (fields : List (Bytes × Bytes)) (body : Bytes) :
    (line ++ crlf ++ fieldsText fields ++ crlf ++ body).drop
      ((line ++ fieldsText fields).length + blankLine.length) = body := by
  rw [show blankLine.length = 2 + crlf.length from rfl, ← Nat.add_assoc, ← List.drop_drop,
    (cut_head line fields body).2, List.drop_left]

theorem readResponse_serialize (order : Headers → List (Bytes × Bytes)) {obj : HTTPResObj}
    (plain : obj.Plain) (listed : (order obj.header).Perm obj.header.entries) :
    ∃ fields, readResponse (serialize order obj) = some ⟨statusLine obj, fields, obj.data⟩ ∧
      fields.Same obj.header := by
  have noCr : ∀ field ∈ order obj.header, 13 ∉ fieldLine field :=
    fun field member => plain.fieldLine (listed.mem_iff.mp member)
  have each : ∀ field ∈ order obj.header, IsField field := fun field member =>
    isField_of_plain (noCr field member) (plain.keys field (listed.mem_iff.mp member)).2
  have unique : ((order obj.header).map Prod.fst).Nodup :=
    (listed.map Prod.fst).nodup_iff.mpr obj.header.unique
  have parsed := getHeader_fieldsText ⟨order obj.header, unique⟩ each
  refine ⟨⟨order obj.header, unique⟩, ?_, UnorderedMap.same_of_perm listed⟩
  simp only [readResponse, serialize_eq, splitHead_text obj.data plain.statusLine noCr,
    find_blankLine _ _ obj.data plain.statusLine noCr, drop_blankLine]
  rw [parsed]

end Reading

/-! The responses of the server are plain. -/

section Plain

def PlainField (field : Bytes × Bytes) : Prop :=
  (13 ∉ field.1 ∧ ¬colon <:+: field.1) ∧ 13 ∉ field.2

def PlainHeader (header : Headers) : Prop := ∀ field ∈ header.entries, PlainField field

theorem PlainHeader.assign {header : Headers} (plain : PlainHeader header) (key : Bytes)
    {value : Bytes} (keyNoCr : 13 ∉ key) (keyNoColon : Text.find colon key = none)
    (valueNoCr : 13 ∉ value) : PlainHeader (header.assign key value) := by
  intro field member
  rcases UnorderedMap.mem_assignIn member with rfl | inside
  · exact ⟨⟨keyNoCr, (Text.find_eq_none_iff _ _).mp keyNoColon⟩, valueNoCr⟩
  · exact plain field inside

theorem plainHeader_empty : PlainHeader UnorderedMap.empty := by
  intro field member
  cases member

def dated (host : Host) (obj : HTTPResObj) : HTTPResObj :=
  { obj with header := obj.header.assign (ascii "Date") host.date }

theorem plain_finish {host : Host} (sane : host.Sane) {res : HTTPResObj}
    (code : 13 ∉ res.resCode) (state : 13 ∉ res.resState) (header : PlainHeader res.header) :
    (dated host (finishResponse res)).Plain := by
  have length : 13 ∉ Decimal.toBytes res.data.length := Decimal.not_mem_toBytes (by decide) _
  have connection := header.assign (ascii "Connection") (by decide) (by decide)
    (by decide : 13 ∉ ascii "close")
  have all := (connection.assign contentLength (by decide) (by decide) length).assign
    (ascii "Date") (by decide) (by decide) sane.date
  exact ⟨(by decide : 13 ∉ ascii "HTTP/1.0"), code, state, fun field member => (all field member).1,
    fun field member => (all field member).2⟩

theorem plain_mimeType (exten : Bytes) : 13 ∉ (mimeType mimeMap exten).1 := by
  have values : ∀ field ∈ mimeMap.entries, 13 ∉ field.2 := by decide
  simp only [mimeType]
  split
  · rename_i value found
    exact values _ (UnorderedMap.findIn_eq_some_mem found)
  · simp

theorem plain_found {host : Host} (sane : host.Sane) {contentType : Bytes}
    (noCr : 13 ∉ contentType) (data : Bytes) :
    (dated host (foundResponse contentType data)).Plain :=
  plain_finish sane (by decide : 13 ∉ ascii "200") (by decide : 13 ∉ ascii "OK")
    (plainHeader_empty.assign (ascii "Content-Type") (by decide) (by decide) noCr)

theorem plain_notFound {host : Host} (sane : host.Sane) :
    (dated host (notFoundResponse host)).Plain :=
  plain_finish sane (by decide : 13 ∉ ascii "404") (by decide : 13 ∉ ascii "Not Found")
    plainHeader_empty

end Plain

/-! The server is a file server. -/

structure Fetched (host : Host) (target : Bytes) (res : HTTPResObj) : Prop where
  plain : (dated host res).Plain
  answer : (statusLine res, res.data) = fetch host target
  length : res.header.find contentLength = some (Decimal.toBytes res.data.length)
  close : res.header.find (ascii "Connection") = some (ascii "close")

theorem fetched_found {host : Host} (sane : host.Sane) {target path contentType data : Bytes}
    (noCr : 13 ∉ contentType) (asked : askedFiles target = [path])
    (file : host.readFile path = some data) :
    Fetched host target (foundResponse contentType data) where
  plain := plain_found sane noCr data
  answer := by
    simp only [fetch, asked, List.findSome?_cons, file]
    exact Prod.ext (by decide : ascii "HTTP/1.0" ++ space ++ ascii "200" ++ space ++ ascii "OK" =
      ascii "HTTP/1.0 200 OK") rfl
  length := by simp [foundResponse, finishResponse]
  close := by
    have different : contentLength ≠ ascii "Connection" := by decide
    simp [foundResponse, finishResponse, different.symm]

theorem fetched_notFound {host : Host} (sane : host.Sane) {target : Bytes}
    (missing : ∀ path ∈ askedFiles target, host.readFile path = none) :
    Fetched host target (notFoundResponse host) where
  plain := plain_notFound sane
  answer := by
    have none : (askedFiles target).findSome? host.readFile = none :=
      List.findSome?_eq_none_iff.mpr missing
    simp only [fetch, none]
    exact Prod.ext (by decide : ascii "HTTP/1.0" ++ space ++ ascii "404" ++ space ++
      ascii "Not Found" = ascii "HTTP/1.0 404 Not Found") rfl
  length := by simp [notFoundResponse, finishResponse]
  close := by
    have different : contentLength ≠ ascii "Connection" := by decide
    simp [notFoundResponse, finishResponse, different.symm]

theorem routeFile_fetched {host : Host} (sane : host.Sane) {target : Bytes} (reads : List Bytes)
    (asked : ∀ exten, getFileExten target = some exten → askedFiles target = [webroot ++ target])
    (missing : ∀ path ∈ askedFiles target, path ≠ webroot ++ target → host.readFile path = none)
    (noFile : getFileExten target = none → webroot ++ target ∉ askedFiles target) :
    Fetched host target (routeFile host mimeMap target reads).res := by
  simp only [routeFile]
  cases exten : getFileExten target with
  | none =>
      refine fetched_notFound sane fun path member => missing path member ?_
      rintro rfl
      exact noFile exten member
  | some exten' =>
      have only := asked exten' exten
      cases file : host.readFile (webroot ++ target) with
      | none =>
          refine fetched_notFound sane fun path member => ?_
          rw [only, List.mem_singleton] at member
          rw [member, file]
      | some data => exact fetched_found sane (plain_mimeType exten') only file

theorem routeStatic_fetched {host : Host} (sane : host.Sane) (req : HTTPReqObj) :
    Fetched host req.reqTarget (routeStatic host mimeMap req).res := by
  have noExten : getFileExten (ascii "/") = none := by decide
  simp only [routeStatic]
  split
  · rename_i root
    have asked : askedFiles req.reqTarget = [indexPath] := by simp [askedFiles, root, noExten]
    cases file : host.readFile indexPath with
    | some data =>
        exact fetched_found sane (by decide : 13 ∉ ascii "text/html; charset=UTF-8") asked file
    | none =>
        have none : getFileExten req.reqTarget = none := by rw [root, noExten]
        refine routeFile_fetched sane _ (fun exten some => ?_) (fun path member _ => ?_) fun _ => ?_
        · rw [none] at some
          cases some
        · rw [asked, List.mem_singleton] at member
          rw [member, file]
        · rw [asked, root]
          decide
  · rename_i notRoot
    have asked : askedFiles req.reqTarget =
        if (getFileExten req.reqTarget).isSome then [webroot ++ req.reqTarget] else [] := by
      simp [askedFiles, notRoot]
    refine routeFile_fetched sane _ (fun exten some => ?_) (fun path member other => ?_)
      fun none => ?_
    · simp [asked, some]
    · rw [asked] at member
      split at member
      · exact absurd (List.mem_singleton.mp member) other
      · cases member
    · simp [asked, none]

theorem obtain_output (codec : HttpMessageCodec) (obj : HTTPReqObj) :
    (codec.obtain obj).codec.sock.kernel = codec.sock.kernel ∧
      (codec.obtain obj).codec.sock.wire = codec.sock.wire := by
  have reads (done : Bytes → Bool) (sock : Socket) (buff : Bytes) :
      (sock.recvUntil done buff).sock.kernel = sock.kernel ∧
        (sock.recvUntil done buff).sock.wire = sock.wire :=
    Socket.recvUntilFrom_output done sock buff sock.incoming
  have data (codec : HttpMessageCodec) (length : Nat) (obj : HTTPReqObj) :
      (obtainData codec length obj).codec.sock.kernel = codec.sock.kernel ∧
        (obtainData codec length obj).codec.sock.wire = codec.sock.wire := by
    have more := reads (fun buff : Bytes => decide (¬buff.length < length)) codec.sock codec.buff
    simp only [obtainData]
    split <;> split <;> first | exact ⟨rfl, rfl⟩ | exact more
  have head := reads (fun buff => (Text.find blankLine buff).isSome) codec.sock codec.buff
  simp only [HttpMessageCodec.obtain]
  split
  · exact head
  · exact head
  · split
    · exact head
    · exact head
    · split
      · exact head
      · exact head
      · obtain ⟨kernel, wire⟩ := data ⟨_, _⟩ _ _
        exact ⟨kernel.trans head.1, wire.trans head.2⟩

structure Get where
  target : Bytes
  version : Bytes
  fields : List (Bytes × Bytes)
  targetNonempty : target ≠ []
  targetPlain : 32 ∉ target ∧ 13 ∉ target
  targetBound : target.length < 2 ^ 16
  versionNonempty : version ≠ []
  versionPlain : 13 ∉ version
  fieldsPlain : ∀ field ∈ fields, PlainField field
  noLength : ∀ field ∈ fields, field.1 ≠ contentLength

namespace Get

variable (get : Get)

def line : Bytes := ascii "GET" ++ space ++ get.target ++ space ++ get.version

def text : Bytes := get.line ++ crlf ++ fieldsText get.fields ++ crlf

def decoded : HTTPReqObj where
  method := ascii "GET"
  reqTarget := get.target
  version := get.version
  header := assignAll get.fields UnorderedMap.empty
  data := []

theorem line_noCr : 13 ∉ get.line := by
  have method : 13 ∉ ascii "GET" := by decide
  simp [line, space, method, get.targetPlain.2, get.versionPlain]

theorem fields_noCr : ∀ field ∈ get.fields, 13 ∉ fieldLine field := by
  intro field member
  obtain ⟨⟨key, -⟩, value⟩ := get.fieldsPlain field member
  simp [fieldLine, colon, key, value]

theorem deserializeReqLine_line :
    deserializeReqLine get.line HTTPReqObj.fresh =
      { HTTPReqObj.fresh with
        method := ascii "GET"
        reqTarget := get.target
        version := get.version } :=
  (splits_iff (by decide : 32 ∉ ascii "GET") get.targetPlain.1 get.version HTTPReqObj.fresh).mpr
    ⟨by decide, get.targetBound⟩

theorem header_noLength :
    (assignAll get.fields UnorderedMap.empty).find contentLength = none := by
  rw [find_assignAll, UnorderedMap.find_empty, Option.or_none]
  refine UnorderedMap.findIn_eq_none_iff.mpr fun member => ?_
  obtain ⟨field, inside, key⟩ := List.mem_map.mp member
  exact get.noLength field (List.mem_reverse.mp inside) key

theorem decode_text (rest : Bytes) :
    decode (get.text ++ rest) HTTPReqObj.fresh = (.ok true, get.decoded) := by
  have split : splitHead (get.text ++ rest) = some (get.line, fieldsText get.fields) :=
    splitHead_text rest get.line_noCr get.fields_noCr
  obtain ⟨behind, computed⟩ := decode_splitHead split HTTPReqObj.fresh
  have each : ∀ field ∈ get.fields, IsField field := fun field member =>
    isField_of_plain (get.fields_noCr field member) (get.fieldsPlain field member).1.2
  have parsed : getHeader (fieldsText get.fields) = .ok (assignAll get.fields UnorderedMap.empty) :=
    (getHeader_ok_iff _ _).mpr ⟨get.fields, each, rfl, rfl⟩
  rw [computed]
  split
  · rename_i empty
    have none : get.fields = [] := by
      cases fields : get.fields with
      | nil => rfl
      | cons field others =>
          have width := fieldLine_crlf_length field
          rw [fields, fieldsText_cons] at empty
          rw [(List.append_eq_nil_iff.mp empty).1] at width
          cases width
    rw [deserializeReqLine_line, decoded, none]
    rfl
  · simp only [parsed, decodeData, dataLen, get.header_noLength, deserializeReqLine_line]
    rfl

theorem reqCheck_decoded (host : Host) (connection : HttpConnection) :
    reqCheck host get.decoded connection = (.ok .reqOk, connection) := by
  simp [reqCheck, decoded, get.targetNonempty, get.versionNonempty, checkGet, checkLength,
    get.header_noLength]

end Get

theorem deliver_given (host : Host) (connection : HttpConnection) {obj : HTTPResObj}
    (named : obj.Named) {value : Bytes} (found : obj.header.find contentLength = some value)
    (length : Decimal.stoul value = .ok obj.data.length) :
    connection.deliver host obj =
      (.ok .resOk, ⟨(connection.msgCodec.deliver host.order (dated host obj)).2⟩) := by
  simp only [HttpConnection.deliver, named.1, named.2.1, named.2.2, if_false, found, stoul, length,
    ne_eq, not_true_eq_false, dated]

theorem Fetched.read {host : Host} (sane : host.Sane) {target : Bytes} {res : HTTPResObj}
    (fetched : Fetched host target res) :
    ∃ response, readResponse (serializeDated host res) = some response ∧
      (response.status, response.data) = fetch host target ∧
      response.header.find contentLength = some (Decimal.toBytes response.data.length) ∧
      response.header.find (ascii "Connection") = some (ascii "close") := by
  obtain ⟨fields, read, same⟩ :=
    readResponse_serialize host.order fetched.plain (sane.order (dated host res).header)
  have notLength : contentLength ≠ ascii "Date" := by decide
  have notClose : ascii "Connection" ≠ ascii "Date" := by decide
  refine ⟨_, read, fetched.answer, ?_, ?_⟩
  · rw [same contentLength, dated, UnorderedMap.find_assign, if_neg notLength]
    exact fetched.length
  · rw [same (ascii "Connection"), dated, UnorderedMap.find_assign, if_neg notClose]
    exact fetched.close

/-- However the request is cut and whatever follows it, the client reads the file it asked for, with
its length, or the page for those that are not there. -/
theorem run_fetches {host : Host} (sane : host.Sane) (get : Get) (opens : Opens host get.target)
    (rest : Bytes) (chunks : List Chunk) (kernel : List SendEvent)
    (cut : (chunks.map Chunk.bytes).flatten = get.text ++ rest) (noZero : 0 ∉ get.text ++ rest)
    (takes : Socket.AcceptsWhole kernel
      (serializeDated host (routeStatic host mimeMap get.decoded).res)) :
    let ran := (freshServer chunks kernel).run host
    ran.result = .ok () ∧ ∃ response,
      readResponse ran.server.connector.wire = some response ∧
        (response.status, response.data) = fetch host get.target ∧
        response.header.find contentLength = some (Decimal.toBytes response.data.length) ∧
        response.header.find (ascii "Connection") = some (ascii "close") := by
  have fetched := routeStatic_fetched sane get.decoded
  obtain ⟨decoded, -⟩ := freshServer_obtain chunks kernel (cut ▸ noZero)
  rw [cut, get.decode_text] at decoded
  obtain ⟨result, parsed⟩ := Prod.mk.inj decoded
  obtain ⟨kept, silent⟩ := obtain_output (freshServer chunks kernel).connector.msgCodec
    HTTPReqObj.fresh
  obtain ⟨res, same, code, state, bound⟩ :=
    finishResponse_of_routeStatic host mimeMap get.decoded
  have named : (routeStatic host mimeMap get.decoded).res.Named := by
    rw [same]
    exact ⟨code, state, (by decide : ascii "HTTP/1.0" ≠ [])⟩
  have length : Decimal.stoul
      (Decimal.toBytes (routeStatic host mimeMap get.decoded).res.data.length) =
        .ok (routeStatic host mimeMap get.decoded).res.data.length := by
    rw [same]
    exact Decimal.stoul_toBytes bound
  have accepted : (freshServer chunks kernel).connector.obtain host HTTPReqObj.fresh =
      ⟨.ok .reqOk, get.decoded, ⟨((freshServer chunks kernel).connector.msgCodec.obtain
        HTTPReqObj.fresh).codec⟩⟩ := by
    simp only [HttpConnection.obtain, result, parsed, get.reqCheck_decoded]
  have routed : (freshServer chunks kernel).router.routes host (freshServer chunks kernel).mime
      get.decoded = .ok (routeStatic host mimeMap get.decoded) :=
    (routes_static host mimeMap get.decoded).1 opens
  simp only [HttpServer.run, accepted, routed]
  generalize ((freshServer chunks kernel).connector.msgCodec.obtain HTTPReqObj.fresh).codec = codec
    at kept silent
  have given := deliver_given host ⟨codec⟩ named fetched.length length
  have accepts := (codec_deliver_wire_iff host.order codec
    (dated host (routeStatic host mimeMap get.decoded).res)).mpr (kept ▸ takes)
  simp only [given]
  refine ⟨trivial, ?_⟩
  rw [HttpConnection.wire, accepts, silent]
  exact fetched.read sane

theorem helloHost_sane : helloHost.Sane := ⟨by decide, fun map => List.Perm.refl map.entries⟩

theorem ascii_version_ne_nil : ascii "HTTP/1.1" ≠ [] := by decide

def styleGet : Get where
  target := ascii "/a.css"
  version := ascii "HTTP/1.1"
  fields := [(ascii "Host", ascii "a: b"), (ascii "Accept", ascii "*/*")]
  targetNonempty := by decide
  targetPlain := by decide
  targetBound := by decide
  versionNonempty := ascii_version_ne_nil
  versionPlain := by decide
  fieldsPlain := by
    intro field member
    simp only [List.mem_cons, List.not_mem_nil, or_false] at member
    rcases member with rfl | rfl <;>
      exact ⟨⟨by decide, (Text.find_eq_none_iff _ _).mp (by decide)⟩, by decide⟩
  noLength := by
    intro field member
    simp only [List.mem_cons, List.not_mem_nil, or_false] at member
    rcases member with rfl | rfl <;> decide

/-- The blank line comes in two reads, with a byte behind it. -/
def styleReads : List Chunk :=
  [⟨styleGet.text.take 47, by decide, by decide⟩,
    ⟨styleGet.text.drop 47 ++ ascii "x", by decide, by decide⟩]

theorem run_fetches_style :
    let ran := (freshServer styleReads []).run helloHost
    ran.result = .ok () ∧ ∃ response,
      readResponse ran.server.connector.wire = some response ∧
        (response.status, response.data) = fetch helloHost (ascii "/a.css") ∧
        response.header.find contentLength = some (Decimal.toBytes response.data.length) ∧
        response.header.find (ascii "Connection") = some (ascii "close") :=
  run_fetches helloHost_sane styleGet ⟨fun _ _ => rfl, fun _ => rfl⟩ (ascii "x") styleReads []
    (by decide) (by decide) trivial

end LearnInternet.Http
