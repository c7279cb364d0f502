import LearnInternet.Http.Grammar
import LearnInternet.Http.RequestLine

/-!
What arrives of a well-formed request. The terminator search leaves a CRLF in front of the data,
which counts towards the length that is waited for and is then cut off with two bytes less behind
it.
-/

namespace LearnInternet.Http

open LearnInternet

/-- A request in the form of `HTTPObj.hpp` whose `Content-Length` is the length of its data. -/
structure Request where
  method : Bytes
  target : Bytes
  version : Bytes
  header : Headers
  body : Bytes
  methodKnown : method = ascii "GET" ∨ method = ascii "POST"
  targetNonempty : target ≠ []
  targetPlain : ∀ byte ∈ target, byte ≠ 32 ∧ byte ≠ 13 ∧ byte ≠ 10
  targetBound : target.length < 65535
  versionNonempty : version ≠ []
  versionPlain : ∀ byte ∈ version, byte ≠ 13 ∧ byte ≠ 10
  headerPlain : ∀ field ∈ header.entries, (∀ byte ∈ field.1, byte ≠ 13 ∧ byte ≠ 10) ∧
    (∀ byte ∈ field.2, byte ≠ 13 ∧ byte ≠ 10) ∧ ¬colon <:+: field.1
  lengthField : header.find contentLength = some (Decimal.toBytes body.length)
  bodyNoZero : 0 ∉ body
  bodyBound : body.length < 2 ^ 31

namespace Request

variable (request : Request)

def line : Bytes := request.method ++ space ++ request.target ++ space ++ request.version

def text : Bytes :=
  request.line ++ crlf ++ fieldsText request.header.entries ++ crlf ++ request.body

def decoded : HTTPReqObj where
  method := request.method
  reqTarget := request.target
  version := request.version
  header := request.header
  data := request.body.take (request.body.length - 2)

theorem method_plain : ∀ byte ∈ request.method, byte ≠ 32 ∧ byte ≠ 13 ∧ byte ≠ 10 ∧ byte ≠ 0 := by
  rcases request.methodKnown with method | method
  · rw [method]
    apply forall_mem_bytes
    decide
  · rw [method]
    apply forall_mem_bytes
    decide

theorem line_noCr : 13 ∉ request.line := by
  intro member
  simp only [line, List.mem_append, space, List.mem_singleton] at member
  rcases member with (((inMethod | blank) | inTarget) | blank) | inVersion
  · exact (request.method_plain 13 inMethod).2.1 rfl
  · contradiction
  · exact (request.targetPlain 13 inTarget).2.1 rfl
  · contradiction
  · exact (request.versionPlain 13 inVersion).1 rfl

theorem fields_noCr : ∀ field ∈ request.header.entries, 13 ∉ fieldLine field := by
  intro field member inside
  obtain ⟨key, value, -⟩ := request.headerPlain field member
  simp only [fieldLine, colon, List.mem_append, List.mem_cons, List.not_mem_nil, or_false] at inside
  rcases inside with (inKey | first | second) | inValue
  · exact (key 13 inKey).1 rfl
  · contradiction
  · contradiction
  · exact (value 13 inValue).1 rfl

theorem fields_isField : ∀ field ∈ request.header.entries, IsField field :=
  fun field member => isField_of_plain (request.fields_noCr field member)
    (request.headerPlain field member).2.2

theorem deserializeReqLine_line (obj : HTTPReqObj) :
    deserializeReqLine request.line obj =
      { obj with
        method := request.method
        reqTarget := request.target
        version := request.version } := by
  have methodFree : 32 ∉ request.method := fun member => (request.method_plain 32 member).1 rfl
  have targetFree : 32 ∉ request.target := fun member => (request.targetPlain 32 member).1 rfl
  have methodShort : request.method.length < 2 ^ 16 := by
    rcases request.methodKnown with method | method <;> rw [method] <;> decide
  have targetShort : request.target.length < 2 ^ 16 := by
    have bound := request.targetBound
    omega
  exact (splits_iff methodFree targetFree request.version obj).mpr ⟨methodShort, targetShort⟩

theorem entries_ne_nil : request.header.entries ≠ [] := by
  intro empty
  have field := request.lengthField
  simp [UnorderedMap.find, empty, UnorderedMap.findIn] at field

theorem obtainHead_text (obj : HTTPReqObj) :
    obtainHead (request.line ++ crlf ++ fieldsText request.header.entries) obj =
      (.ok true, { obj with
        method := request.method
        reqTarget := request.target
        version := request.version
        header := request.header }) := by
  have foundLine : Text.find crlf (request.line ++ crlf ++ fieldsText request.header.entries) =
      some request.line.length := Text.find_lead [10] request.line_noCr _
  have header := drop_line request.line (fieldsText request.header.entries)
  have lineTaken := take_line request.line (fieldsText request.header.entries)
  have present : (fieldsText request.header.entries).length ≠ 0 := by
    cases entries : request.header.entries with
    | nil => exact absurd entries request.entries_ne_nil
    | cons field fields =>
        have width := fieldLine_crlf_length field
        rw [fieldsText_cons, List.length_append]
        omega
  have fields := getHeader_fieldsText request.header request.fields_isField
  simp only [obtainHead, foundLine, header, lineTaken, present, if_false, fields,
    deserializeReqLine_line]

theorem toBytes_eq_zero_iff (number : Nat) : Decimal.toBytes number = ascii "0" ↔ number = 0 := by
  have zero : Decimal.toBytes 0 = ascii "0" := by decide
  rw [← zero]
  exact Decimal.toBytes_injective.eq_iff

/-- The data are the body without its last two bytes. -/
theorem decode_text : decode request.text HTTPReqObj.fresh = (.ok true, request.decoded) := by
  have blank : Text.find blankLine request.text =
      some (request.line ++ fieldsText request.header.entries).length :=
    find_blankLine _ _ _ request.line_noCr request.fields_noCr
  obtain ⟨head, rest⟩ := cut_head request.line request.header.entries request.body
  rw [← text] at head rest
  simp only [decode, blank, head, rest, obtainHead_text, decodeData, dataLen, request.lengthField,
    toBytes_eq_zero_iff]
  by_cases empty : request.body.length = 0
  · have nothing : request.body = [] := List.length_eq_zero_iff.mp empty
    simp [decoded, nothing, HTTPReqObj.fresh]
  · have bound := request.bodyBound
    have length : ((request.body.length : Int) % 2 ^ 64).toNat = request.body.length := by omega
    have longEnough : ¬(crlf ++ request.body).length < request.body.length := by
      rw [List.length_append]
      omega
    simp only [empty, if_false, Decimal.stoi_toBytes bound, length, longEnough]
    congr 1
    have cut : ((crlf ++ request.body).take request.body.length).drop 2 =
        request.body.take (request.body.length - 2) := by
      rw [List.drop_take]
      rfl
    simp only [deserializeData, cut, decoded, HTTPReqObj.mk.injEq, true_and]
    exact List.take_of_length_le (by rw [List.length_take]; omega)

def ReceivedExactly (host : Host) (chunks : List Chunk) : Prop :=
  let sock := Socket.ofChunks chunks
  let obtained := (HttpMessageCodec.ofSocket sock).obtain HTTPReqObj.fresh
  let accepted := (HttpConnection.ofSocket sock).obtain host HTTPReqObj.fresh
  (obtained.result = .ok true ∧ obtained.obj.method = request.method ∧
    obtained.obj.reqTarget = request.target ∧ obtained.obj.version = request.version ∧
    obtained.obj.header.Same request.header ∧ obtained.obj.data = request.body) ∧
  accepted.result = .ok .reqOk ∧ accepted.obj = obtained.obj

end Request

theorem not_mem_cutAtSpace {line : Bytes} {byte : UInt8} (absent : byte ∉ line) :
    byte ∉ (cutAtSpace line).1 ∧ byte ∉ (cutAtSpace line).2 :=
  ⟨fun member => absent (List.mem_of_mem_take member),
    fun member => absent (List.mem_of_mem_drop member)⟩

theorem not_mem_deserializeReqLine {line : Bytes} {byte : UInt8} (absent : byte ∉ line)
    (obj : HTTPReqObj) :
    byte ∉ (deserializeReqLine line obj).reqTarget ∧ byte ∉ (deserializeReqLine line obj).version :=
  not_mem_cutAtSpace (not_mem_cutAtSpace absent).2

theorem not_mem_getHeader {msg : Bytes} {byte : UInt8} (absent : byte ∉ msg) {headers : Headers}
    (parsed : getHeader msg = .ok headers) {key value : Bytes}
    (found : headers.find key = some value) : byte ∉ key ∧ byte ∉ value := by
  obtain ⟨fields, -, rfl, rfl⟩ := (getHeader_ok_iff msg headers).mp parsed
  rw [find_assignAll, UnorderedMap.find_empty, Option.or_none] at found
  have member := List.mem_reverse.mp (UnorderedMap.findIn_eq_some_mem found)
  have inText (inside : byte ∈ fieldLine (key, value)) : byte ∈ fieldsText fields :=
    List.mem_flatten.mpr ⟨_, List.mem_map_of_mem member, List.mem_append_left _ inside⟩
  exact ⟨fun inKey => absent (inText (by simp [fieldLine, inKey])),
    fun inValue => absent (inText (by simp [fieldLine, inValue]))⟩

theorem not_mem_decode {stream : Bytes} {byte : UInt8} (absent : byte ∉ stream) :
    byte ∉ (decode stream HTTPReqObj.fresh).2.reqTarget ∧
      byte ∉ (decode stream HTTPReqObj.fresh).2.version ∧
      ∀ key value, (decode stream HTTPReqObj.fresh).2.header.find key = some value →
        byte ∉ key ∧ byte ∉ value := by
  simp only [decode]
  cases blank : Text.find blankLine stream with
  | none => simp [HTTPReqObj.fresh]
  | some index =>
      have absentHead : byte ∉ stream.take (index + 2) := fun member => absent (List.mem_of_mem_take member)
      simp only [obtainHead]
      cases lineEnd : Text.find crlf (stream.take (index + 2)) with
      | none => simp [HTTPReqObj.fresh]
      | some requestLineLen =>
          have line := not_mem_deserializeReqLine
            (fun member => absentHead (List.mem_of_mem_take (i := requestLineLen) member))
            HTTPReqObj.fresh
          have noHeader : ∀ key value,
              (deserializeReqLine ((stream.take (index + 2)).take requestLineLen)
                HTTPReqObj.fresh).header.find key = some value → byte ∉ key ∧ byte ∉ value := by
            intro key value found
            simp [deserializeReqLine, HTTPReqObj.fresh] at found
          simp only
          split
          · rename_i outcome _ obj parsed
            split at parsed
            · simp at parsed
            · split at parsed
              · obtain ⟨-, rfl⟩ := Prod.mk.inj parsed
                exact ⟨line.1, line.2, noHeader⟩
              · simp at parsed
          · rename_i obj parsed
            split at parsed
            · obtain ⟨-, rfl⟩ := Prod.mk.inj parsed
              exact ⟨line.1, line.2, noHeader⟩
            · split at parsed <;> simp at parsed
          · rename_i obj parsed
            split at parsed
            · simp at parsed
            · split at parsed
              · simp at parsed
              · rename_i headers header
                obtain ⟨-, rfl⟩ := Prod.mk.inj parsed
                obtain ⟨data, same⟩ := decodeData_frame (stream.drop (index + 2))
                  { deserializeReqLine ((stream.take (index + 2)).take requestLineLen)
                      HTTPReqObj.fresh with header := headers }
                rw [same]
                refine ⟨line.1, line.2, fun key value found => ?_⟩
                exact not_mem_getHeader (fun member => absentHead (List.mem_of_mem_drop member))
                  header found

namespace Request

theorem zero_not_mem_text (request : Request) (target : 0 ∉ request.target)
    (version : 0 ∉ request.version)
    (header : ∀ key value, request.header.find key = some value → 0 ∉ key ∧ 0 ∉ value) :
    0 ∉ request.text := by
  intro member
  simp only [text, line, space, crlf, List.mem_append, List.mem_cons, List.not_mem_nil,
    or_false] at member
  rcases member with
    (((((((inMethod | blank) | inTarget) | blank) | inVersion) | end₁ | end₂) | inFields) |
      end₁ | end₂) | inBody
  · exact (request.method_plain 0 inMethod).2.2.2 rfl
  · contradiction
  · exact target inTarget
  · contradiction
  · exact version inVersion
  · contradiction
  · contradiction
  · obtain ⟨written, isLine, inside⟩ := List.mem_flatten.mp inFields
    obtain ⟨⟨key, value⟩, entry, rfl⟩ := List.mem_map.mp isLine
    have plain := header key value (UnorderedMap.findIn_of_mem request.header.unique entry)
    simp only [fieldLine, colon, crlf, List.mem_append, List.mem_cons, List.not_mem_nil,
      or_false] at inside
    rcases inside with ((inKey | mark₁ | mark₂) | inValue) | end₁ | end₂
    · exact plain.1 inKey
    · contradiction
    · contradiction
    · exact plain.2 inValue
    · contradiction
    · contradiction
  · contradiction
  · contradiction
  · exact request.bodyNoZero inBody

theorem reqCheck_decoded (request : Request) (empty : request.body = []) (host : Host)
    (connection : HttpConnection) :
    reqCheck host request.decoded connection = (.ok .reqOk, connection) := by
  have field := request.lengthField
  rw [empty, List.length_nil] at field
  have length : Decimal.stoul (Decimal.toBytes 0) = .ok 0 := Decimal.stoul_toBytes (by omega)
  have different : ascii "POST" ≠ ascii "GET" := by decide
  rcases request.methodKnown with method | method
  · simp [reqCheck, decoded, request.targetNonempty, request.versionNonempty, method, checkGet,
      checkLength,
      field, stoul, length, empty]
  · simp [reqCheck, decoded, request.targetNonempty, request.versionNonempty, method, different,
      checkPost, checkLength, field, stoul, length, empty]

/-- A well-formed request, cut into reads in any way, is received exactly if it has no data and
no zero byte. -/
theorem receivedExactly_iff (host : Host) (request : Request) (chunks : List Chunk)
    (cut : (chunks.map Chunk.bytes).flatten = request.text) :
    request.ReceivedExactly host chunks ↔ request.body = [] ∧ 0 ∉ request.text := by
  have decoding := (obtain_eq_decode (Socket.ofChunks chunks) HTTPReqObj.fresh
    (Socket.ofChunks_healthy chunks)).1
  have arrived (noZero : 0 ∉ request.text) : (Socket.ofChunks chunks).pendingText = request.text := by
    rw [Socket.ofChunks_pendingText, Socket.flatten_cText (by rwa [cut]), cut]
  simp only [ReceivedExactly, HttpConnection.obtain, HttpConnection.ofSocket]
  constructor
  · rintro ⟨⟨-, -, target, version, header, data⟩, -⟩
    have decodedObj := congrArg Prod.snd decoding
    simp only at decodedObj
    rw [decodedObj] at target version header data
    have strings := not_mem_decode (Socket.not_mem_pendingText (Socket.ofChunks chunks))
    have noZero : 0 ∉ request.text := by
      apply request.zero_not_mem_text
      · rw [← target]
        exact strings.1
      · rw [← version]
        exact strings.2.1
      · intro key value found
        exact strings.2.2 key value ((header key).trans found)
    refine ⟨?_, noZero⟩
    rw [arrived noZero, request.decode_text] at data
    have length := congrArg List.length data
    simp only [decoded, List.length_take] at length
    exact List.length_eq_zero_iff.mp (by omega)
  · rintro ⟨empty, noZero⟩
    rw [arrived noZero, request.decode_text] at decoding
    obtain ⟨result, obj⟩ := Prod.mk.inj decoding
    rw [result, obj]
    refine ⟨⟨rfl, rfl, rfl, rfl, fun _ => rfl, ?_⟩, ?_⟩
    · simp [decoded, empty]
    · simp [request.reqCheck_decoded empty]

theorem oneField_plain {value : Bytes} (plain : ∀ byte ∈ value, byte ≠ 13 ∧ byte ≠ 10) :
    ∀ field ∈ (UnorderedMap.empty.assign contentLength value).entries,
      (∀ byte ∈ field.1, byte ≠ 13 ∧ byte ≠ 10) ∧
        (∀ byte ∈ field.2, byte ≠ 13 ∧ byte ≠ 10) ∧ ¬colon <:+: field.1 := by
  intro field member
  have single : (UnorderedMap.empty.assign contentLength value).entries =
      [(contentLength, value)] := rfl
  rw [single, List.mem_singleton] at member
  subst member
  have noColon : Text.find colon contentLength = none := by decide
  have lettersOnly : ∀ byte ∈ contentLength, byte ≠ 13 ∧ byte ≠ 10 :=
    forall_mem_bytes (by decide)
  exact ⟨lettersOnly, plain, (Text.find_eq_none_iff _ _).mp noColon⟩

def plainGet : Request where
  method := ascii "GET"
  target := ascii "/"
  version := ascii "HTTP/1.0"
  header := UnorderedMap.empty.assign contentLength (ascii "0")
  body := []
  methodKnown := by decide
  targetNonempty := by decide
  targetPlain := forall_mem_bytes (by decide)
  targetBound := by decide
  versionNonempty := by decide
  versionPlain := forall_mem_bytes (by decide)
  headerPlain := oneField_plain (forall_mem_bytes (by decide))
  lengthField := by decide
  bodyNoZero := by decide
  bodyBound := by decide

def plainGetRead : Chunk := ⟨plainGet.text, by decide, by decide⟩

theorem receivedExactly_plainGet : plainGet.ReceivedExactly emptyHost [plainGetRead] :=
  (receivedExactly_iff emptyHost plainGet [plainGetRead] (by decide)).mpr (by decide)

def shortPost : Request where
  method := ascii "POST"
  target := ascii "/api/test"
  version := ascii "HTTP/1.1"
  header := UnorderedMap.empty.assign contentLength (ascii "2")
  body := ascii "hi"
  methodKnown := by decide
  targetNonempty := by decide
  targetPlain := forall_mem_bytes (by decide)
  targetBound := by decide
  versionNonempty := by decide
  versionPlain := forall_mem_bytes (by decide)
  headerPlain := oneField_plain (forall_mem_bytes (by decide))
  lengthField := by decide
  bodyNoZero := by decide
  bodyBound := by decide

def shortPostRead : Chunk := ⟨shortPost.text, by decide, by decide⟩

theorem shortPost_data_lost :
    ¬∀ (host : Host) (request : Request) (chunks : List Chunk),
      (chunks.map Chunk.bytes).flatten = request.text → request.ReceivedExactly host chunks := by
  intro received
  obtain ⟨⟨-, -, -, -, -, data⟩, -⟩ := received emptyHost shortPost [shortPostRead] (by decide)
  revert data
  decide

end Request

end LearnInternet.Http
