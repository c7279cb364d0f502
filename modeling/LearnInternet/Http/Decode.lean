import LearnInternet.Http.Codec

/-!
`decode` is what `obtain` makes of a whole byte stream. It knows nothing of reads, so that
`obtain_eq_decode` makes the reads a stream arrives in irrelevant.
-/

namespace LearnInternet.Http

open LearnInternet

def decodeData (rest : Bytes) (obj : HTTPReqObj) : Except Abort Bool × HTTPReqObj :=
  match dataLen obj with
  | .error abort => (.error abort, obj)
  | .ok none => (.ok true, obj)
  | .ok (some length) =>
      if rest.length < length then (.ok false, obj)
      else (.ok true, deserializeData (rest.take length) length obj)

def decode (stream : Bytes) (obj : HTTPReqObj) : Except Abort Bool × HTTPReqObj :=
  match Text.find blankLine stream with
  | none => (.ok false, obj)
  | some index =>
      match obtainHead (stream.take (index + 2)) obj with
      | (.error abort, obj) => (.error abort, obj)
      | (.ok false, obj) => (.ok true, obj)
      | (.ok true, obj) => decodeData (stream.drop (index + 2)) obj

theorem decodeData_frame (rest : Bytes) (obj : HTTPReqObj) :
    ∃ data, (decodeData rest obj).2 = { obj with data := data } := by
  simp only [decodeData]
  split
  · exact ⟨obj.data, rfl⟩
  · exact ⟨obj.data, rfl⟩
  · split
    · exact ⟨obj.data, rfl⟩
    · exact ⟨_, rfl⟩

theorem obtainData_outcome (codec : HttpMessageCodec) (length : Nat) (obj : HTTPReqObj)
    (healthy : codec.sock.Healthy) :
    let rest := codec.buff ++ codec.sock.pendingText
    let obtained := obtainData codec length obj
    (obtained.result, obtained.obj) =
        (if rest.length < length then (.ok false, obj)
          else (.ok true, deserializeData (rest.take length) length obj)) ∧
      obtained.codec.sock.sent = codec.sock.sent := by
  simp only [obtainData]
  by_cases enough : codec.buff.length < length
  · have loop := Socket.recvUntil_healthy (fun buff : Bytes => decide (¬buff.length < length))
      codec.sock codec.buff healthy
    simp only [enough, not_true_eq_false, decide_false, Bool.false_eq_true, if_false]
    generalize codec.sock.recvUntil (fun buff : Bytes => decide (¬buff.length < length)) codec.buff
      = received at loop ⊢
    obtain ⟨text, -, sentSame, ⟨success, reached⟩ | ⟨failed, ended, unfinished⟩⟩ := loop
    · have long : length ≤ received.buff.length := by simpa using reached
      simp only [success]
      rw [← text, List.length_append, if_neg (by omega), List.take_append_of_le_length long]
      exact ⟨rfl, sentSame⟩
    · have noMore : received.sock.pendingText = [] := by simp [Socket.pendingText, ended]
      have short : received.buff.length < length := by
        by_cases silent : codec.sock.incoming = []
        · have nothing : codec.sock.pendingText = [] := by simp [Socket.pendingText, silent]
          rw [noMore, nothing, List.append_nil, List.append_nil] at text
          rwa [text]
        · simpa using unfinished silent
      simp only [failed]
      rw [← text, noMore, List.append_nil, if_pos short]
      exact ⟨rfl, sentSame⟩
  · simp only [enough, not_false_eq_true, decide_true, if_true]
    rw [List.length_append, if_neg (by omega), List.take_append_of_le_length (by omega)]
    exact ⟨rfl, trivial⟩

/-- `obtain` on an empty buffer computes `decode` of everything the peer sends before it closes,
and sends nothing. -/
theorem obtain_eq_decode (sock : Socket) (obj : HTTPReqObj) (healthy : sock.Healthy) :
    let obtained := (HttpMessageCodec.ofSocket sock).obtain obj
    (obtained.result, obtained.obj) = decode sock.pendingText obj ∧
      obtained.codec.sock.sent = sock.sent := by
  have loop := Socket.recvUntil_healthy (fun buff => (Text.find blankLine buff).isSome)
    sock [] healthy
  simp only [HttpMessageCodec.obtain, HttpMessageCodec.ofSocket]
  generalize sock.recvUntil (fun buff => (Text.find blankLine buff).isSome) [] = received
    at loop ⊢
  obtain ⟨text, stillHealthy, sentSame, ⟨success, reached⟩ | ⟨failed, ended, unfinished⟩⟩ := loop
  · obtain ⟨index, found⟩ := Option.isSome_iff_exists.mp reached
    have streamFound : Text.find blankLine sock.pendingText = some index := by
      rw [List.nil_append] at text
      rw [← text]
      exact Text.find_append found _
    have inside := Text.find_bound found
    have cutInside : index + 2 ≤ received.buff.length := by
      simp only [blankLine, List.length_cons] at inside
      omega
    have headSame : sock.pendingText.take (index + 2) = received.buff.take (index + 2) := by
      rw [List.nil_append] at text
      rw [← text, List.take_append_of_le_length cutInside]
    have restSame : sock.pendingText.drop (index + 2) =
        received.buff.drop (index + 2) ++ received.sock.pendingText := by
      rw [List.nil_append] at text
      rw [← text, List.drop_append_of_le_length cutInside]
    simp only [success, decode, streamFound, headSame, restSame, position, found, Option.getD_some]
    cases head : obtainHead (received.buff.take (index + 2)) obj with
    | mk outcome parsed =>
        cases outcome with
        | error abort => exact ⟨rfl, sentSame⟩
        | ok present =>
            cases present with
            | false => exact ⟨rfl, sentSame⟩
            | true =>
                simp only [decodeData]
                cases lengthKnown : dataLen parsed with
                | error abort => exact ⟨rfl, sentSame⟩
                | ok length =>
                    cases length with
                    | none => exact ⟨rfl, sentSame⟩
                    | some length =>
                        have outcome := obtainData_outcome
                          ⟨received.buff.drop (index + 2), received.sock⟩ length parsed stillHealthy
                        exact ⟨outcome.1, outcome.2.trans sentSame⟩
  · have noMore : received.sock.pendingText = [] := by simp [Socket.pendingText, ended]
    have absent : Text.find blankLine sock.pendingText = none := by
      rw [noMore, List.append_nil, List.nil_append] at text
      rw [← text]
      by_cases silent : sock.incoming = []
      · have nothing : sock.pendingText = [] := by simp [Socket.pendingText, silent]
        rw [text, nothing]
        decide
      · simpa using unfinished silent
    simp only [failed, decode, absent]
    exact ⟨trivial, sentSame⟩

/-- Two ways of cutting one stream into reads give the same result and the same request. -/
theorem obtain_chunking_independent (left right : List Chunk) (obj : HTTPReqObj)
    (sameStream : (left.map Chunk.bytes).flatten = (right.map Chunk.bytes).flatten)
    (noZero : 0 ∉ (left.map Chunk.bytes).flatten) :
    let first := (HttpMessageCodec.ofSocket (Socket.ofChunks left)).obtain obj
    let second := (HttpMessageCodec.ofSocket (Socket.ofChunks right)).obtain obj
    first.result = second.result ∧ first.obj = second.obj := by
  have firstDecoded := (obtain_eq_decode _ obj (Socket.ofChunks_healthy left)).1
  have secondDecoded := (obtain_eq_decode _ obj (Socket.ofChunks_healthy right)).1
  have sameText : (Socket.ofChunks left).pendingText = (Socket.ofChunks right).pendingText := by
    rw [Socket.ofChunks_pendingText, Socket.ofChunks_pendingText, Socket.flatten_cText noZero,
      Socket.flatten_cText (sameStream ▸ noZero), sameStream]
  rw [sameText, ← secondDecoded] at firstDecoded
  exact Prod.mk.inj firstDecoded

def wholeRead : Chunk := ⟨ascii "GET / HTTP/1.0\r\nA: b\r\n\r\n", by decide, by decide⟩

def splitReads : List Chunk :=
  [⟨ascii "GET / HTTP/1.0\r\nA: b\r", by decide, by decide⟩, ⟨ascii "\n\r\n", by decide, by decide⟩]

theorem obtain_chunking_independent_split :
    ((HttpMessageCodec.ofSocket (Socket.ofChunks [wholeRead])).obtain HTTPReqObj.fresh).obj =
      ((HttpMessageCodec.ofSocket (Socket.ofChunks splitReads)).obtain HTTPReqObj.fresh).obj :=
  (obtain_chunking_independent [wholeRead] splitReads HTTPReqObj.fresh (by decide) (by decide)).2

end LearnInternet.Http
