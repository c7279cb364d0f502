import LearnInternet.Http.Grammar
import LearnInternet.Http.Server

/-!
How many responses a byte stream gets from a server without dynamic routes. The codec ends the
process over a header line that is no field, and lets the exceptions of `std::stoi` out for a
length it cannot read; both are caught by nobody below `main`.
-/

namespace LearnInternet.Http

open LearnInternet

def splitHead (stream : Bytes) : Option (Bytes × Bytes) :=
  (Text.find blankLine stream).map fun index =>
    let head := stream.take (index + 2)
    (head.take (position crlf head), head.drop (position crlf head + 2))

def IsFields (header : Bytes) (fields : List (Bytes × Bytes)) : Prop :=
  (∀ field ∈ fields, IsField field) ∧ header = fieldsText fields

def lengthText (fields : List (Bytes × Bytes)) : Option Bytes :=
  UnorderedMap.findIn contentLength fields.reverse

def ReadableLength (fields : List (Bytes × Bytes)) : Prop :=
  ∀ value, lengthText fields = some value →
    value = ascii "0" ∨ ∃ number, Decimal.stoi value = .ok number

/-! The requests that are answered. -/

/-- The request line is one that `req_check` has an answer for. -/
def Dispatchable (requestLine : Bytes) : Prop :=
  let req := deserializeReqLine requestLine HTTPReqObj.fresh
  req.reqTarget = [] ∨ req.version = [] ∨ req.method = ascii "GET" ∨ req.method = ascii "POST"

/-- The files a target asks for: the index for the root, and the one it names when it has an
extension. -/
def askedFiles (target : Bytes) : List Bytes :=
  (if target = ascii "/" then [indexPath] else []) ++
    (if (getFileExten target).isSome then [webroot ++ target] else [])

theorem routeFile_cases (host : Host) (mime : Headers) (target : Bytes) (reads : List Bytes) :
    (∃ data contentType extended, (getFileExten target).isSome ∧
      host.readFile (webroot ++ target) = some data ∧
      routeFile host mime target reads =
        ⟨foundResponse contentType data, extended, reads ++ [webroot ++ target]⟩) ∨
      ((getFileExten target).isSome → host.readFile (webroot ++ target) = none) ∧
        routeFile host mime target reads =
          ⟨notFoundResponse host, mime, reads ++
            (if (getFileExten target).isSome then [webroot ++ target] else []) ++
              [notFoundPath]⟩ := by
  simp only [routeFile]
  cases getFileExten target with
  | none => exact Or.inr ⟨by simp, by simp⟩
  | some exten =>
      cases file : host.readFile (webroot ++ target) with
      | none => exact Or.inr ⟨by simp, by simp⟩
      | some data => exact Or.inl ⟨data, _, _, rfl, rfl, rfl⟩

/-- What static routing can build: a file that was asked for as it is, or the answer to requests
none of whose files can be read. -/
theorem routeStatic_cases (host : Host) (mime : Headers) (req : HTTPReqObj) :
    (∃ path data contentType extended, askedFiles req.reqTarget = [path] ∧
      host.readFile path = some data ∧
      routeStatic host mime req = ⟨foundResponse contentType data, extended, [path]⟩) ∨
      (∀ path ∈ askedFiles req.reqTarget, host.readFile path = none) ∧
        routeStatic host mime req =
          ⟨notFoundResponse host, mime, askedFiles req.reqTarget ++ [notFoundPath]⟩ := by
  have noExten : getFileExten (ascii "/") = none := by decide
  by_cases root : req.reqTarget = ascii "/"
  · have asked : askedFiles req.reqTarget = [indexPath] := by simp [askedFiles, root, noExten]
    rw [asked]
    simp only [routeStatic, root, if_true]
    cases file : host.readFile indexPath with
    | none =>
        refine Or.inr ⟨by simpa using file, ?_⟩
        simp [routeFile, noExten]
    | some data => exact Or.inl ⟨indexPath, data, _, _, rfl, file, rfl⟩
  · have asked : askedFiles req.reqTarget =
        if (getFileExten req.reqTarget).isSome then [webroot ++ req.reqTarget] else [] := by
      simp [askedFiles, root]
    simp only [routeStatic, root, if_false]
    rcases routeFile_cases host mime req.reqTarget [] with
      ⟨data, contentType, extended, exten, file, routed⟩ | ⟨missing, routed⟩
    · rw [asked, if_pos exten]
      exact Or.inl ⟨_, data, contentType, extended, rfl, file, routed⟩
    · refine Or.inr ⟨?_, ?_⟩
      · intro path member
        rw [asked] at member
        split at member
        · rename_i exten
          rw [List.mem_singleton.mp member]
          exact missing exten
        · cases member
      · rw [routed, asked, List.nil_append]

/-- No file that is tried for the target makes `Util::ReadFile` throw. -/
def Opens (host : Host) (target : Bytes) : Prop :=
  (∀ path ∈ askedFiles target, host.throws path = false) ∧
    ((∀ path ∈ askedFiles target, host.readFile path = none) → host.throws notFoundPath = false)

theorem routes_static (host : Host) (mime : Headers) (req : HTTPReqObj) :
    (Opens host req.reqTarget →
        HttpRouter.empty.routes host mime req = .ok (HttpRouter.empty.routing host mime req)) ∧
      (¬Opens host req.reqTarget →
        HttpRouter.empty.routes host mime req = .error .resizeFailed) := by
  have quiet : Opens host req.reqTarget ↔
      (HttpRouter.empty.routing host mime req).reads.any host.throws = false := by
    change _ ↔ (routeStatic host mime req).reads.any host.throws = false
    rcases routeStatic_cases host mime req with
      ⟨path, data, contentType, extended, asked, file, routed⟩ | ⟨missing, routed⟩
    · simp [Opens, asked, file, routed]
    · rw [Opens, imp_iff_right missing, routed]
      simp only [List.any_append, List.any_cons, List.any_nil, Bool.or_false,
        Bool.or_eq_false_iff, List.any_eq_false, Bool.not_eq_true]
  rw [quiet]
  simp only [HttpRouter.routes]
  constructor
  · intro none
    rw [none, if_neg Bool.false_ne_true]
  · intro some
    rw [if_pos (by simpa using some)]

def PassesChecks (obj : HTTPReqObj) : Prop :=
  obj.reqTarget ≠ [] ∧ obj.version ≠ [] ∧
    match obj.header.find contentLength with
    | none => obj.method = ascii "GET"
    | some value =>
        (obj.method = ascii "GET" ∨ obj.method = ascii "POST") ∧
          Decimal.stoul value = .ok obj.data.length

/-- The request is one that gets to `routing`. A length other than zero never does: the data is
parsed two bytes short of it. -/
def GetsRouted (requestLine : Bytes) (fields : List (Bytes × Bytes)) : Prop :=
  let req := deserializeReqLine requestLine HTTPReqObj.fresh
  req.reqTarget ≠ [] ∧ req.version ≠ [] ∧
    match lengthText fields with
    | none => req.method = ascii "GET"
    | some value =>
        (req.method = ascii "GET" ∨ req.method = ascii "POST") ∧ Decimal.stoi value = .ok 0

def Served (host : Host) (requestLine : Bytes) (fields : List (Bytes × Bytes)) : Prop :=
  GetsRouted requestLine fields →
    Opens host (deserializeReqLine requestLine HTTPReqObj.fresh).reqTarget

def freshServer (chunks : List Chunk) (kernel : List SendEvent) : HttpServer where
  connector := HttpConnection.ofSocket { Socket.ofChunks chunks with kernel := kernel }
  router := HttpRouter.empty
  mime := mimeMap

/-- `run` returns, and hands one message to `Socket::send`: the routed response for a request that
`obtain` accepts, a 400 for any other. -/
def AnsweredOnce (host : Host) (server : HttpServer) : Prop :=
  let accepted := server.connector.obtain host HTTPReqObj.fresh
  let ran := server.run host
  ran.result = .ok () ∧ ∃ err, accepted.result = .ok err ∧
    ran.server.connector.sent =
      [serializeDated host
        (if err = .reqOk then (server.router.routing host server.mime accepted.obj).res
          else resForBadReq)]

def Abandoned (host : Host) (server : HttpServer) (abort : Abort) : Prop :=
  (server.run host).result = .error abort ∧ (server.run host).server.connector.sent = []

def Unanswered (host : Host) (server : HttpServer) : Prop :=
  (server.run host).result = .ok () ∧ (server.run host).server.connector.sent = []

theorem finishResponse_of_routeFile (host : Host) (mime : Headers) (target : Bytes)
    (reads : List Bytes) :
    ∃ res, (routeFile host mime target reads).res = finishResponse res ∧
      res.resCode ≠ [] ∧ res.resState ≠ [] ∧ res.data.length < 2 ^ 64 := by
  have missing : ∃ res, notFoundResponse host = finishResponse res ∧
      res.resCode ≠ [] ∧ res.resState ≠ [] ∧ res.data.length < 2 ^ 64 := by
    refine ⟨_, rfl, by simp [ascii], by simp [ascii], ?_⟩
    cases file : host.readFile (webroot ++ ascii "/404.html") with
    | none => simp
    | some data =>
        have bound := host.readFile_bound _ _ file
        simp only [Option.getD_some]
        omega
  simp only [routeFile]
  split
  · exact missing
  · split
    · exact missing
    · rename_i data file
      have bound := host.readFile_bound _ _ file
      refine ⟨_, rfl, by simp [ascii], by simp [ascii], ?_⟩
      simp only
      omega

theorem finishResponse_of_routeStatic (host : Host) (mime : Headers) (req : HTTPReqObj) :
    ∃ res, (routeStatic host mime req).res = finishResponse res ∧
      res.resCode ≠ [] ∧ res.resState ≠ [] ∧ res.data.length < 2 ^ 64 := by
  simp only [routeStatic]
  split
  · split
    · rename_i data file
      have bound := host.readFile_bound _ _ file
      refine ⟨_, rfl, by simp [ascii], by simp [ascii], ?_⟩
      simp only
      omega
    · exact finishResponse_of_routeFile host mime req.reqTarget [indexPath]
  · exact finishResponse_of_routeFile host mime req.reqTarget []

theorem checkLength_outcome (host : Host) (absent : Except Abort ReqErr × HttpConnection)
    (obj : HTTPReqObj) (connection : HttpConnection) {value : Bytes} {number : Nat}
    (field : obj.header.find contentLength = some value)
    (read : Decimal.stoul value = .ok number) :
    number = obj.data.length ∧ checkLength host absent obj connection = (.ok .reqOk, connection) ∨
      number ≠ obj.data.length ∧
        checkLength host absent obj connection = connection.refuse host .reqLengthErr := by
  by_cases fits : number = obj.data.length
  · exact .inl ⟨fits, by simp [checkLength, stoul, field, read, fits]⟩
  · exact .inr ⟨fits, by simp [checkLength, stoul, field, read, fits]⟩

theorem reqCheck_outcome (host : Host) (obj : HTTPReqObj) (connection : HttpConnection)
    (readable : ∀ value, obj.header.find contentLength = some value →
      ∃ number, Decimal.stoul value = .ok number)
    (dispatch : obj.reqTarget = [] ∨ obj.version = [] ∨ obj.method = ascii "GET" ∨
      obj.method = ascii "POST") :
    PassesChecks obj ∧ reqCheck host obj connection = (.ok .reqOk, connection) ∨
      ¬PassesChecks obj ∧
        ∃ err ≠ ReqErr.reqOk, reqCheck host obj connection = connection.refuse host err := by
  by_cases noTarget : obj.reqTarget = []
  · exact .inr ⟨fun passes => passes.1 noTarget, .reqPathErr, by decide, by simp [reqCheck, noTarget]⟩
  by_cases noVersion : obj.version = []
  · exact .inr ⟨fun passes => passes.2.1 noVersion, .reqVersionErr, by decide,
      by simp [reqCheck, noTarget, noVersion]⟩
  have different : ascii "POST" ≠ ascii "GET" := by decide
  have known : obj.method = ascii "GET" ∨ obj.method = ascii "POST" :=
    (dispatch.resolve_left noTarget).resolve_left noVersion
  cases field : obj.header.find contentLength with
  | none =>
      rcases known with get | post
      · refine .inl ⟨⟨noTarget, noVersion, by simp only [field, get]⟩, ?_⟩
        simp only [reqCheck, noTarget, noVersion, get, if_false, if_true, checkGet, checkLength, field]
      · refine .inr ⟨fun passes => ?_, .reqLengthNotFound, by decide, ?_⟩
        · have get := passes.2.2
          simp only [field, post] at get
          exact different get
        · simp only [reqCheck, noTarget, noVersion, post, different, if_false, if_true, checkPost,
            checkLength, field]
  | some value =>
      obtain ⟨number, read⟩ := readable value field
      have passes : PassesChecks obj ↔ number = obj.data.length := by
        simp only [PassesChecks, field, read, Except.ok.injEq]
        exact ⟨fun passes => passes.2.2.2, fun fits => ⟨noTarget, noVersion, known, fits⟩⟩
      have checked : ∃ absent,
          reqCheck host obj connection = checkLength host absent obj connection := by
        rcases known with get | post
        · exact ⟨_, by simp only [reqCheck, noTarget, noVersion, get, if_false, if_true, checkGet]; rfl⟩
        · exact ⟨_, by
            simp only [reqCheck, noTarget, noVersion, post, different, if_false, if_true, checkPost]
            rfl⟩
      obtain ⟨absent, checked⟩ := checked
      rw [passes, checked]
      rcases checkLength_outcome host absent obj connection field read with
        ⟨fits, accepted⟩ | ⟨other, refused⟩
      · exact .inl ⟨fits, accepted⟩
      · exact .inr ⟨other, .reqLengthErr, by decide, refused⟩

theorem answered_of_obtained (host : Host) (server : HttpServer)
    (noRoutes : server.router = HttpRouter.empty) (unanswered : server.connector.sent = [])
    {returned : Bool} {obj : HTTPReqObj}
    (result : (server.connector.msgCodec.obtain HTTPReqObj.fresh).result = .ok returned)
    (parsed : (server.connector.msgCodec.obtain HTTPReqObj.fresh).obj = obj)
    (silent : (server.connector.msgCodec.obtain HTTPReqObj.fresh).codec.sock.sent =
      server.connector.msgCodec.sock.sent)
    (readable : ∀ value, obj.header.find contentLength = some value →
      ∃ number, Decimal.stoul value = .ok number)
    (dispatch : obj.reqTarget = [] ∨ obj.version = [] ∨ obj.method = ascii "GET" ∨
      obj.method = ascii "POST") :
    ((PassesChecks obj → Opens host obj.reqTarget) → AnsweredOnce host server) ∧
      (¬(PassesChecks obj → Opens host obj.reqTarget) →
        Abandoned host server .resizeFailed) := by
  subst parsed
  simp only [AnsweredOnce, Abandoned, HttpServer.run, HttpConnection.obtain, result, noRoutes]
  generalize server.connector.msgCodec.obtain HTTPReqObj.fresh = obtained at silent readable dispatch ⊢
  have nothing : HttpConnection.sent ⟨obtained.codec⟩ = [] := silent.trans unanswered
  have routes := routes_static host server.mime obtained.obj
  rcases reqCheck_outcome host obtained.obj ⟨obtained.codec⟩ readable dispatch with
    ⟨passes, accepted⟩ | ⟨stopped, err, notOk, refused⟩
  · simp only [accepted, passes, forall_const]
    refine ⟨fun opens => ?_, fun throws => ?_⟩
    · obtain ⟨res, same, code, state, bound⟩ :=
        finishResponse_of_routeStatic host server.mime obtained.obj
      have routed : HttpRouter.empty.routing host server.mime obtained.obj =
          routeStatic host server.mime obtained.obj := rfl
      have delivered := finishResponse_delivered host ⟨obtained.codec⟩ res code state bound
      rw [← same, ← routed, nothing, List.nil_append] at delivered
      obtain ⟨done, sent⟩ := delivered
      simp only [routes.1 opens, done]
      exact ⟨trivial, .reqOk, rfl, sent⟩
    · simp only [routes.2 throws]
      exact ⟨trivial, nothing⟩
  · refine ⟨fun _ => ?_, fun unserved => absurd (fun passes => absurd passes stopped) unserved⟩
    have outcome := refuse_outcome host ⟨obtained.codec⟩ err
    rw [nothing, List.nil_append] at outcome
    obtain ⟨done, sent⟩ := outcome
    simp only [refused]
    generalize HttpConnection.refuse host ⟨obtained.codec⟩ err = refusal at done sent
    obtain ⟨first, connection⟩ := refusal
    obtain rfl : first = .ok err := done
    cases err with
    | reqOk => exact absurd rfl notOk
    | _ => exact ⟨rfl, _, rfl, by simpa using sent⟩

theorem abandoned_of_obtained (host : Host) (server : HttpServer)
    (unanswered : server.connector.sent = []) {abort : Abort}
    (result : (server.connector.msgCodec.obtain HTTPReqObj.fresh).result = .error abort)
    (silent : (server.connector.msgCodec.obtain HTTPReqObj.fresh).codec.sock.sent =
      server.connector.msgCodec.sock.sent) : Abandoned host server abort := by
  simp only [Abandoned, HttpServer.run, HttpConnection.obtain, result]
  exact ⟨trivial, silent.trans unanswered⟩

theorem unanswered_of_obtained (host : Host) (server : HttpServer)
    (unanswered : server.connector.sent = []) {returned : Bool} {obj : HTTPReqObj}
    (result : (server.connector.msgCodec.obtain HTTPReqObj.fresh).result = .ok returned)
    (parsed : (server.connector.msgCodec.obtain HTTPReqObj.fresh).obj = obj)
    (silent : (server.connector.msgCodec.obtain HTTPReqObj.fresh).codec.sock.sent =
      server.connector.msgCodec.sock.sent)
    (unknown : ¬(obj.reqTarget = [] ∨ obj.version = [] ∨ obj.method = ascii "GET" ∨
      obj.method = ascii "POST")) : Unanswered host server := by
  subst parsed
  simp only [not_or] at unknown
  obtain ⟨target, version, notGet, notPost⟩ := unknown
  simp only [Unanswered, HttpServer.run, HttpConnection.obtain, result, reqCheck, target, version,
    notGet, notPost, if_false]
  exact ⟨trivial, silent.trans unanswered⟩

theorem find_crlf_head {stream : Bytes} {index : Nat}
    (blank : Text.find blankLine stream = some index) :
    ∃ length, Text.find crlf (stream.take (index + 2)) = some length := by
  rw [← Option.isSome_iff_exists, Text.find_isSome_iff]
  have inside := Text.find_bound blank
  have around := Text.find_split blank
  have length : (stream.take index).length = index := by
    rw [List.length_take]
    simp only [blankLine, List.length_cons] at inside
    omega
  have head : stream.take (index + 2) = stream.take index ++ crlf := by
    conv_lhs => rw [around]
    rw [List.append_assoc, List.take_append, length, List.take_of_length_le (by omega)]
    simp [blankLine, crlf]
  rw [head]
  exact (List.suffix_append _ _).isInfix

theorem decode_splitHead {stream line header : Bytes} (split : splitHead stream = some (line, header))
    (obj : HTTPReqObj) :
    ∃ rest, decode stream obj =
      if header = [] then (.ok true, deserializeReqLine line obj)
      else
        match getHeader header with
        | .error abort => (.error abort, deserializeReqLine line obj)
        | .ok fields => decodeData rest { deserializeReqLine line obj with header := fields } := by
  simp only [splitHead, Option.map_eq_some_iff, Prod.mk.injEq] at split
  obtain ⟨index, blank, rfl, rfl⟩ := split
  obtain ⟨length, lineEnd⟩ := find_crlf_head blank
  refine ⟨stream.drop (index + 2), ?_⟩
  simp only [decode, blank, obtainHead, lineEnd, position, Option.getD_some,
    List.length_eq_zero_iff]
  by_cases empty : (stream.take (index + 2)).drop (length + 2) = []
  · simp only [empty, if_true]
  · simp only [empty, if_false]
    cases getHeader ((stream.take (index + 2)).drop (length + 2)) <;> rfl

theorem decode_none {stream : Bytes} (split : splitHead stream = none) (obj : HTTPReqObj) :
    decode stream obj = (.ok false, obj) := by
  simp only [splitHead, Option.map_eq_none_iff] at split
  simp only [decode, split]

theorem freshServer_obtain (chunks : List Chunk) (kernel : List SendEvent)
    (noZero : 0 ∉ (chunks.map Chunk.bytes).flatten) :
    let obtained := (freshServer chunks kernel).connector.msgCodec.obtain HTTPReqObj.fresh
    (obtained.result, obtained.obj) =
        decode (chunks.map Chunk.bytes).flatten HTTPReqObj.fresh ∧
      obtained.codec.sock.sent = (freshServer chunks kernel).connector.msgCodec.sock.sent := by
  have arrived : Socket.pendingText { Socket.ofChunks chunks with kernel := kernel } =
      (chunks.map Chunk.bytes).flatten := by
    rw [← Socket.flatten_cText noZero]
    exact Socket.ofChunks_pendingText chunks
  have decoded := obtain_eq_decode { Socket.ofChunks chunks with kernel := kernel }
    HTTPReqObj.fresh (Socket.ofChunks_healthy chunks)
  rw [arrived] at decoded
  exact decoded

theorem fields_of_nil {fields : List (Bytes × Bytes)} (isFields : IsFields [] fields) :
    fields = [] := by
  cases fields with
  | nil => rfl
  | cons field fields =>
      have text := isFields.2
      simp [crlf] at text

theorem find_contentLength (fields : List (Bytes × Bytes)) :
    (assignAll fields UnorderedMap.empty).find contentLength = lengthText fields := by
  rw [find_assignAll, UnorderedMap.find_empty, Option.or_none, lengthText]

/-- The data is two bytes short of the length that announces it, so the two agree at zero only. -/
theorem decodeData_length (rest : Bytes) (obj : HTTPReqObj) (empty : obj.data = [])
    {value : Bytes} (found : obj.header.find contentLength = some value) {number : Int}
    (read : Decimal.stoi value = .ok number) :
    (∃ returned, (decodeData rest obj).1 = .ok returned) ∧
      ((number % 2 ^ 64).toNat = (decodeData rest obj).2.data.length ↔ number = 0) := by
  obtain ⟨-, low, high, -⟩ := (Decimal.stoi_ok_iff value number).mp read
  simp only [decodeData, dataLen, found, read]
  by_cases zero : value = ascii "0"
  · obtain rfl : 0 = number := by
      rw [zero] at read
      exact Except.ok.inj read
    simp [zero, empty]
  simp only [zero, if_false]
  by_cases short : rest.length < (number % 2 ^ 64).toNat
  · simp only [short, if_true, empty, List.length_nil]
    exact ⟨⟨false, rfl⟩, by omega⟩
  · simp only [short, if_false, deserializeData, List.length_take, List.length_drop]
    exact ⟨⟨true, rfl⟩, by omega⟩

theorem decode_readable {stream line header : Bytes} (split : splitHead stream = some (line, header))
    {fields : List (Bytes × Bytes)} (isFields : IsFields header fields)
    (readable : ReadableLength fields) :
    ∃ returned head data, decode stream HTTPReqObj.fresh = (.ok returned,
        { deserializeReqLine line HTTPReqObj.fresh with header := head, data }) ∧
      head.find contentLength = lengthText fields ∧
      ∀ value, lengthText fields = some value → ∃ number, Decimal.stoul value = .ok number ∧
        (number = data.length ↔ Decimal.stoi value = .ok 0) := by
  obtain ⟨rest, computed⟩ := decode_splitHead split HTTPReqObj.fresh
  rw [computed]
  have parse : getHeader header = .ok (assignAll fields UnorderedMap.empty) :=
    (getHeader_ok_iff _ _).mpr ⟨fields, isFields.1, isFields.2, rfl⟩
  by_cases empty : header = []
  · subst empty
    obtain rfl := fields_of_nil isFields
    rw [if_pos rfl]
    exact ⟨true, UnorderedMap.empty, [], rfl, by simp [lengthText, UnorderedMap.findIn],
      fun value found => by simp [lengthText, UnorderedMap.findIn] at found⟩
  rw [if_neg empty, parse]
  have named := find_contentLength fields
  generalize assignAll fields UnorderedMap.empty = head at named ⊢
  obtain ⟨data, frame⟩ :=
    decodeData_frame rest { deserializeReqLine line HTTPReqObj.fresh with header := head }
  cases found : lengthText fields with
  | none =>
      refine ⟨true, head, data, Prod.ext ?_ frame, found ▸ named, fun value other => by cases other⟩
      simp only [decodeData, dataLen, named, found]
  | some value =>
      obtain ⟨number, read⟩ : ∃ number, Decimal.stoi value = .ok number := by
        rcases readable value found with rfl | read
        · exact ⟨0, rfl⟩
        · exact read
      obtain ⟨⟨returned, result⟩, agrees⟩ := decodeData_length rest
        { deserializeReqLine line HTTPReqObj.fresh with header := head } rfl
        (named.trans found) read
      rw [frame] at agrees
      refine ⟨returned, head, data, Prod.ext result frame, named.trans found, ?_⟩
      intro same equal
      obtain rfl := Option.some.inj equal
      refine ⟨_, Decimal.stoul_of_stoi read, ?_⟩
      rw [agrees, read, Except.ok.injEq]

theorem passesChecks_iff_getsRouted {line : Bytes} {fields : List (Bytes × Bytes)} {head : Headers}
    {data : Bytes} (named : head.find contentLength = lengthText fields)
    (length : ∀ value, lengthText fields = some value →
      ∃ number, Decimal.stoul value = .ok number ∧
        (number = data.length ↔ Decimal.stoi value = .ok 0)) :
    PassesChecks { deserializeReqLine line HTTPReqObj.fresh with header := head, data } ↔
      GetsRouted line fields := by
  simp only [PassesChecks, GetsRouted, named]
  cases found : lengthText fields with
  | none => exact Iff.rfl
  | some value =>
      obtain ⟨number, read, agrees⟩ := length value found
      simp only [read, Except.ok.injEq, agrees]

/-- What becomes of a stream. One that is cut off before its blank line is answered; a header line
that is no field ends the process, and an unreadable length leaves `run` as the exception of
`std::stoi`; else a request line with an unknown method gets no answer, and of the others those are
answered that come to no file that makes `routing` throw. -/
theorem run_outcomes (host : Host) (chunks : List Chunk) (kernel : List SendEvent)
    (noZero : 0 ∉ (chunks.map Chunk.bytes).flatten) :
    let stream := (chunks.map Chunk.bytes).flatten
    let server := freshServer chunks kernel
    (splitHead stream = none → AnsweredOnce host server) ∧
    ∀ line header, splitHead stream = some (line, header) →
      ((¬∃ fields, IsFields header fields) → Abandoned host server (.exit .protocolErr)) ∧
      ∀ fields, IsFields header fields →
        (∀ value failure, lengthText fields = some value → value ≠ ascii "0" →
          Decimal.stoi value = .error failure →
            Abandoned host server (Abort.ofConversion failure)) ∧
        (ReadableLength fields →
          (¬Dispatchable line → Unanswered host server) ∧
          (Dispatchable line →
            (Served host line fields → AnsweredOnce host server) ∧
              (¬Served host line fields → Abandoned host server .resizeFailed))) := by
  obtain ⟨decoded, silent⟩ := freshServer_obtain chunks kernel noZero
  refine ⟨?_, ?_⟩
  · intro cutOff
    rw [decode_none cutOff] at decoded
    obtain ⟨result, parsed⟩ := Prod.mk.inj decoded
    refine (answered_of_obtained host _ rfl rfl result parsed silent
      (by simp [HTTPReqObj.fresh]) (Or.inl rfl)).1 fun passes => absurd rfl passes.1
  · intro line header split
    refine ⟨?_, fun fields isFields => ⟨?_, ?_⟩⟩
    · intro noFields
      obtain ⟨rest, computed⟩ := decode_splitHead split HTTPReqObj.fresh
      have present : header ≠ [] := by
        rintro rfl
        exact noFields ⟨[], by simp [IsFields, fieldsText]⟩
      cases parse : getHeader header with
      | ok headers =>
          obtain ⟨fields, all, text, -⟩ := (getHeader_ok_iff header headers).mp parse
          exact absurd ⟨fields, all, text⟩ noFields
      | error abort =>
          obtain rfl := getHeaderFrom_error parse
          rw [computed, if_neg present, parse] at decoded
          exact abandoned_of_obtained host _ rfl (Prod.mk.inj decoded).1 silent
    · intro value failure found notZero unreadable
      obtain ⟨rest, computed⟩ := decode_splitHead split HTTPReqObj.fresh
      have parse : getHeader header = .ok (assignAll fields UnorderedMap.empty) :=
        (getHeader_ok_iff _ _).mpr ⟨fields, isFields.1, isFields.2, rfl⟩
      have present : header ≠ [] := by
        rintro rfl
        rw [fields_of_nil isFields] at found
        simp [lengthText, UnorderedMap.findIn] at found
      rw [computed, if_neg present, parse] at decoded
      simp only [decodeData, dataLen, find_contentLength, found, notZero, if_false, unreadable]
        at decoded
      exact abandoned_of_obtained host _ rfl (Prod.mk.inj decoded).1 silent
    · intro readable
      obtain ⟨returned, head, data, computed, named, length⟩ :=
        decode_readable split isFields readable
      rw [computed] at decoded
      obtain ⟨result, parsed⟩ := Prod.mk.inj decoded
      refine ⟨fun unknown => ?_, fun known => ?_⟩
      · exact unanswered_of_obtained host _ rfl result parsed silent unknown
      · rw [Served, ← passesChecks_iff_getsRouted named length]
        refine answered_of_obtained host _ rfl rfl result parsed silent (fun value found => ?_) known
        obtain ⟨number, read, -⟩ := length value (named ▸ found)
        exact ⟨number, read⟩

def Answerable (host : Host) (stream : Bytes) : Prop :=
  ∀ line header, splitHead stream = some (line, header) →
    ∃ fields, IsFields header fields ∧ ReadableLength fields ∧ Dispatchable line ∧
      Served host line fields

theorem AnsweredOnce.not_abandoned {host : Host} {server : HttpServer}
    (answered : AnsweredOnce host server) (abort : Abort) : ¬Abandoned host server abort := by
  rintro ⟨result, -⟩
  have done := answered.1
  rw [result] at done
  cases done

theorem AnsweredOnce.not_unanswered {host : Host} {server : HttpServer}
    (answered : AnsweredOnce host server) : ¬Unanswered host server := by
  rintro ⟨-, nothing⟩
  obtain ⟨-, err, -, sent⟩ := answered
  rw [nothing] at sent
  cases sent

/-- A stream gets exactly one response if and only if it is answerable, however it is cut. -/
theorem run_answeredOnce_iff (host : Host) (chunks : List Chunk) (kernel : List SendEvent)
    (noZero : 0 ∉ (chunks.map Chunk.bytes).flatten) :
    AnsweredOnce host (freshServer chunks kernel) ↔
      Answerable host (chunks.map Chunk.bytes).flatten := by
  obtain ⟨cutOff, whole⟩ := run_outcomes host chunks kernel noZero
  constructor
  · intro answered line header split
    obtain ⟨exits, others⟩ := whole line header split
    have some : ∃ fields, IsFields header fields := by
      by_contra noFields
      exact answered.not_abandoned _ (exits noFields)
    obtain ⟨fields, isFields⟩ := some
    obtain ⟨throws, rest⟩ := others fields isFields
    have readable : ReadableLength fields := by
      intro value found
      by_contra neither
      rw [not_or] at neither
      cases read : Decimal.stoi value with
      | ok number => exact neither.2 ⟨number, read⟩
      | error failure => exact answered.not_abandoned _ (throws value failure found neither.1 read)
    obtain ⟨unknown, known⟩ := rest readable
    have dispatchable : Dispatchable line := by
      by_contra other
      exact answered.not_unanswered (unknown other)
    refine ⟨fields, isFields, readable, dispatchable, ?_⟩
    by_contra unserved
    exact answered.not_abandoned _ ((known dispatchable).2 unserved)
  · intro answerable
    cases split : splitHead (chunks.map Chunk.bytes).flatten with
    | none => exact cutOff split
    | some head =>
        obtain ⟨line, header⟩ := head
        obtain ⟨fields, isFields, readable, dispatchable, served⟩ := answerable line header split
        exact ((((whole line header split).2 fields isFields).2 readable).2 dispatchable).1 served

def helloRead : Chunk :=
  ⟨ascii "GET / HTTP/1.0\r\nA: b\r\n\r\n", wholeRead.nonempty, wholeRead.bound⟩

theorem run_answers_hello : AnsweredOnce emptyHost (freshServer [helloRead] []) := by
  refine (run_answeredOnce_iff emptyHost [helloRead] [] (by decide)).mpr fun line header split => ?_
  have head : splitHead (([helloRead].map Chunk.bytes).flatten) =
      some (ascii "GET / HTTP/1.0", ascii "A: b\r\n") := by decide
  rw [head] at split
  cases split
  refine ⟨[(ascii "A", ascii "b")], ⟨?_, by decide⟩, ?_, .inr (.inr (.inl (by decide))), fun _ => ?_⟩
  · intro field member
    obtain rfl := List.mem_singleton.mp member
    exact ⟨by decide, by decide⟩
  · intro value found
    revert found
    simp [lengthText, UnorderedMap.findIn, contentLength, ascii]
  · exact ⟨fun _ _ => rfl, fun _ => rfl⟩

def putRead : Chunk := ⟨ascii "PUT / HTTP/1.0\r\n\r\n", by decide, by decide⟩

theorem put_unanswered :
    ¬∀ (host : Host) (chunks : List Chunk) (kernel : List SendEvent),
      0 ∉ (chunks.map Chunk.bytes).flatten →
        blankLine <:+: (chunks.map Chunk.bytes).flatten →
          AnsweredOnce host (freshServer chunks kernel) := by
  intro answered
  have once := answered emptyHost [putRead] [] (by decide) (by decide)
  apply once.not_unanswered
  exact ⟨by decide, by decide⟩

/-- `GET /.` asks for the web root itself. -/
def directoryHost : Host := { emptyHost with throws := fun path => decide (path = ascii "./webroot/.") }

def directoryRead : Chunk := ⟨ascii "GET /. HTTP/1.0\r\n\r\n", by decide, by decide⟩

example : Abandoned directoryHost (freshServer [directoryRead] []) .resizeFailed := by
  exact ⟨by decide, by decide⟩

end LearnInternet.Http
