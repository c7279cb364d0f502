import LearnInternet.Calculator.Client

/-!
The protocol of `TcpServer_v3`, an earlier text of the calculator's: the frames and the two records
are the same, the functions that take a frame out of the buffer are not.
-/

namespace LearnInternet.TcpServerV3

open LearnInternet Calculator

/-- `number_area_len` is a `uint16_t`; `erase` and `substr` take no more than there is. -/
def parsePayload (json : JsonCpp) (msg : Bytes) : Option (String → Int) :=
  let numberAreaLen := firstBreak msg % 2 ^ 16
  let behind := msg.drop numberAreaLen
  json.parse (behind.take (firstBreak behind))

def readFrame {α : Type} (deserialize : Bytes → α) (buff : Bytes) :
    Except Abort (Option (α × Bytes)) :=
  if buff.length = 0 ∨ Text.findFirstOf crlf buff = none then .ok none
  else
    let numberAreaLen := firstBreak buff % 2 ^ 16
    match Decimal.stoi (buff.take (firstBreak buff)) with
    | .error error => .error (Abort.ofConversion error)
    | .ok value =>
        let number := (value % 2 ^ 16).toNat
        if sizeSub (sizeSub buff.length numberAreaLen) 2 < number then .ok none
        else
          let behind := buff.drop numberAreaLen
          .ok (some (deserialize buff, behind.drop (firstBreak behind)))

structure Endpoint where
  buff : Bytes
  sock : Socket
  deriving DecidableEq

namespace Endpoint

def ofSocket (sock : Socket) : Endpoint := ⟨[], sock⟩

structure Obtained (α : Type) where
  result : Except Abort Bool
  message : α
  endpoint : Endpoint

def obtain {α : Type} (deserialize : Bytes → α) (endpoint : Endpoint) (message : α) : Obtained α :=
  match endpoint.sock.recv endpoint.buff with
  | .error abort => ⟨.error abort, message, endpoint⟩
  | .ok (false, buff, sock) => ⟨.ok false, message, ⟨buff, sock⟩⟩
  | .ok (true, buff, sock) =>
      match readFrame deserialize buff with
      | .error abort => ⟨.error abort, message, ⟨buff, sock⟩⟩
      | .ok none => ⟨.ok false, message, ⟨buff, sock⟩⟩
      | .ok (some (taken, buff)) => ⟨.ok true, taken, ⟨buff, sock⟩⟩

/-- The next calls of `obtain` return true with these messages one by one, each leaving the buffer
empty. A call may depend on how many are still to come. -/
def Delivers {α : Type} (obtain : Nat → Endpoint → α → Obtained α) (endpoint : Endpoint)
    (message : α) : List α → Prop
  | [] => True
  | wanted :: later =>
      let obtained := obtain later.length endpoint message
      obtained.result = .ok true ∧ obtained.message = wanted ∧ obtained.endpoint.buff = [] ∧
        obtained.endpoint.Delivers obtain obtained.message later

end Endpoint

namespace ProtocolServer

def serialize (json : JsonCpp) (result : Result) : Bytes := frame (json.write result.object)

def deserialize (json : JsonCpp) (leftover : Info) (msg : Bytes) : Info :=
  match parsePayload json msg with
  | none => leftover
  | some value =>
      ⟨Int16.ofInt (value "x"), Int16.ofInt (value "y"), Int8.ofInt (value "oper")⟩

def obtain (json : JsonCpp) (leftover : Info) (server : Endpoint) (info : Info) :
    Endpoint.Obtained Info :=
  server.obtain (deserialize json leftover) info

def deliver (json : JsonCpp) (server : Endpoint) (result : Result) : Bool × Endpoint :=
  let sent := server.sock.send (serialize json result)
  (sent.1, { server with sock := sent.2 })

end ProtocolServer

namespace ProtocolClient

def serialize (json : JsonCpp) (info : Info) : Bytes := frame (json.write info.object)

def deserialize (json : JsonCpp) (leftover : Result) (msg : Bytes) : Result :=
  match parsePayload json msg with
  | none => leftover
  | some value => ⟨Int16.ofInt (value "result")⟩

def obtain (json : JsonCpp) (leftover : Result) (client : Endpoint) (result : Result) :
    Endpoint.Obtained Result :=
  client.obtain (deserialize json leftover) result

def deliver (json : JsonCpp) (client : Endpoint) (info : Info) : Bool × Endpoint :=
  let sent := client.sock.send (serialize json info)
  (sent.1, { client with sock := sent.2 })

end ProtocolClient

theorem findFirstOf_break (tail : Bytes) : Text.findFirstOf crlf (13 :: tail) = some 0 := by
  simp [Text.findFirstOf, List.findIdx?_cons, crlf]

theorem firstBreak_break (tail : Bytes) : firstBreak (13 :: tail) = 0 := by
  simp [firstBreak, findFirstOf_break]

section Frames

variable {α : Type} (deserialize : Bytes → α) {text : Bytes}

theorem behind_digits (short : text.length < 2 ^ 31) (rest : Bytes) :
    (frame text ++ rest).drop (firstBreak (frame text ++ rest) % 2 ^ 16) =
      13 :: (10 :: (text ++ crlf ++ rest)) := by
  have digits := width_le short
  rw [frame_append, firstBreak_header, Nat.mod_eq_of_lt (by omega), width, List.drop_left]

/-- The second `erase` finds the break at offset 0 and takes nothing away. -/
theorem readFrame_frame (short : text.length < 2 ^ 31) (rest : Bytes) :
    readFrame deserialize (frame text ++ rest) =
      .ok (some (deserialize (frame text ++ rest), crlf ++ text ++ crlf ++ rest)) := by
  have digits := width_le short
  have behind := behind_digits short rest
  have size : (frame text ++ rest).length =
      width text.length + 2 + text.length + 2 + rest.length := by
    rw [List.length_append, length_frame, frameLength]
  have number : Decimal.stoi ((frame text ++ rest).take (firstBreak (frame text ++ rest))) =
      .ok text.length := by
    rw [frame_append, firstBreak_header, take_width, Decimal.stoi_toBytes short]
  have looked : ¬((frame text ++ rest).length = 0 ∨
      Text.findFirstOf crlf (frame text ++ rest) = none) := by
    rw [frame_append, findFirstOf_header]
    simp
  have enough : ¬sizeSub (sizeSub (frame text ++ rest).length
      (firstBreak (frame text ++ rest) % 2 ^ 16)) 2 < text.length % 2 ^ 16 := by
    rw [size, frame_append, firstBreak_header, Nat.mod_eq_of_lt (by omega)]
    rw [sizeSub_of_le (show width text.length ≤ _ by omega), sizeSub_of_le (by omega)]
    omega
  simp only [readFrame, if_neg looked, number, length_emod, if_neg enough, behind,
    firstBreak_break]
  simp [crlf]

theorem readFrame_break (tail : Bytes) :
    readFrame deserialize (13 :: tail) = .error .invalidArgument := by
  have noNumber : Decimal.stoi [] = .error .invalidArgument := by decide
  simp [readFrame, findFirstOf_break, firstBreak_break, noNumber, Abort.ofConversion]

theorem parsePayload_frame (json : JsonCpp) (short : text.length < 2 ^ 31) :
    parsePayload json (frame text) = json.parse [] := by
  have behind := behind_digits short []
  rw [List.append_nil] at behind
  simp only [parsePayload, behind, firstBreak_break, List.take_zero]

end Frames

namespace Endpoint

variable {α : Type} (sock : Socket) (chunk : Chunk) (rest : List ReadEvent)

theorem obtain_frame (deserialize : Bytes → α) {text : Bytes} (message : α)
    (holds : chunk.bytes = frame text) (noZero : 0 ∉ text) (short : text.length < 2 ^ 31) :
    obtain deserialize ⟨[], { sock with incoming := .data chunk :: rest }⟩ message =
      ⟨.ok true, deserialize (frame text),
        ⟨crlf ++ text ++ crlf, { sock with incoming := rest }⟩⟩ := by
  have received : Socket.cText chunk = frame text := by
    rw [Socket.cText_eq_bytes (holds ▸ noZero_frame noZero), holds]
  have taken := readFrame_frame deserialize short []
  rw [List.append_nil] at taken
  simp only [obtain, Socket.recv, List.nil_append, received, taken, List.append_nil]

theorem obtain_break (deserialize : Bytes → α) (held : Bytes) (message : α) :
    obtain deserialize ⟨13 :: held, { sock with incoming := .data chunk :: rest }⟩ message =
      ⟨.error .invalidArgument, message,
        ⟨13 :: held ++ Socket.cText chunk, { sock with incoming := rest }⟩⟩ := by
  simp only [obtain, Socket.recv, List.cons_append, readFrame_break]

theorem obtain_twice (later : Chunk) (first second : Bytes → α) {text : Bytes} (message : α)
    (holds : chunk.bytes = frame text) (noZero : 0 ∉ text) (short : text.length < 2 ^ 31) :
    let obtained := obtain first ⟨[], { sock with incoming := .data chunk :: .data later :: rest }⟩
      message
    obtained.message = first (frame text) ∧
      (obtained.endpoint.obtain second obtained.message).result = .error .invalidArgument := by
  intro obtained
  have taken : obtained = _ :=
    obtain_frame sock chunk (.data later :: rest) first message holds noZero short
  rw [taken]
  refine ⟨rfl, ?_⟩
  have broken := obtain_break sock later rest second (10 :: (text ++ crlf)) (first (frame text))
  exact congrArg Obtained.result broken

theorem delivers_iff_nil (deserialize : Nat → Bytes → α) (write : α → Bytes) {wanted : List α}
    {chunks : List Chunk} (message : α) (noZero : ∀ each ∈ wanted, 0 ∉ write each)
    (short : ∀ each ∈ wanted, (write each).length < 2 ^ 31)
    (framed : chunks.map Chunk.bytes = wanted.map fun each => frame (write each)) :
    (ofSocket (Socket.ofChunks chunks)).Delivers (fun call => obtain (deserialize call)) message
        wanted ↔ wanted = [] := by
  cases wanted with
  | nil => simp [Delivers]
  | cons first later =>
      obtain ⟨chunk, chunks, rfl, holds, -⟩ := List.map_eq_cons_iff.mp framed
      have taken := obtain_frame (Socket.ofChunks []) chunk (chunks.map ReadEvent.data)
        (deserialize later.length) message holds (noZero first (by simp)) (short first (by simp))
      constructor
      · rintro ⟨-, -, empty, -⟩
        have left := congrArg (fun obtained => obtained.endpoint.buff) taken
        simp only [crlf, List.cons_append] at left
        cases empty.symm.trans left
      · intro none
        cases none

end Endpoint

theorem delivers_frames_iff (json : JsonCpp) :
    (∀ (infos : List Info) (chunks : List Chunk) (memory : Nat → Info) (info : Info),
      (∀ asked ∈ infos, json.Writes asked.object) →
        chunks.map Chunk.bytes = infos.map (ProtocolClient.serialize json) →
          ((Endpoint.ofSocket (Socket.ofChunks chunks)).Delivers
            (fun call => ProtocolServer.obtain json (memory call)) info infos ↔ infos = [])) ∧
      ∀ (results : List Result) (chunks : List Chunk) (memory : Nat → Result) (result : Result),
        (∀ sent ∈ results, json.Writes sent.object) →
          chunks.map Chunk.bytes = results.map (ProtocolServer.serialize json) →
            ((Endpoint.ofSocket (Socket.ofChunks chunks)).Delivers
              (fun call => ProtocolClient.obtain json (memory call)) result results ↔
                results = []) := by
  constructor
  · intro infos chunks memory info writes framed
    apply Endpoint.delivers_iff_nil (fun call => ProtocolServer.deserialize json (memory call))
      (fun asked : Info => json.write asked.object) info _ _ framed
    · intro asked member
      exact (writes asked member).noZero
    · intro asked member
      exact Nat.lt_trans (writes asked member).short (by omega)
  · intro results chunks memory result writes framed
    apply Endpoint.delivers_iff_nil (fun call => ProtocolClient.deserialize json (memory call))
      (fun sent : Result => json.write sent.object) result _ _ framed
    · intro sent member
      exact (writes sent member).noZero
    · intro sent member
      exact Nat.lt_trans (writes sent member).short (by omega)

def twoMinusOne : Info := ⟨2, 1, 45⟩

def minusThree : Result := ⟨-3⟩

def sampleJson : JsonCpp := tableJson [twoMinusOne.object, minusThree.object]

def request : Chunk := ⟨ProtocolClient.serialize sampleJson twoMinusOne, by decide, by decide⟩

def response : Chunk := ⟨ProtocolServer.serialize sampleJson minusThree, by decide, by decide⟩

theorem request_writes : sampleJson.Writes twoMinusOne.object :=
  tableJson_writes (by decide) (by decide) (by decide) (by decide) (by decide)

theorem response_writes : sampleJson.Writes minusThree.object :=
  tableJson_writes (by decide) (by decide) (by decide) (by decide) (by decide)

theorem delivers_frames_sample :
    ¬(Endpoint.ofSocket (Socket.ofChunks [request])).Delivers
        (fun _ => ProtocolServer.obtain sampleJson ⟨0, 0, 0⟩) ⟨0, 0, 0⟩ [twoMinusOne] ∧
      ¬(Endpoint.ofSocket (Socket.ofChunks [response])).Delivers
        (fun _ => ProtocolClient.obtain sampleJson ⟨0⟩) ⟨0⟩ [minusThree] := by
  constructor
  · intro delivers
    cases ((delivers_frames_iff sampleJson).1 [twoMinusOne] [request] (fun _ => ⟨0, 0, 0⟩)
      ⟨0, 0, 0⟩ (by simpa using request_writes) rfl).mp delivers
  · intro delivers
    cases ((delivers_frames_iff sampleJson).2 [minusThree] [response] (fun _ => ⟨0⟩) ⟨0⟩
      (by simpa using response_writes) rfl).mp delivers

theorem requests_not_delivered :
    ¬∀ (json : JsonCpp) (infos : List Info) (chunks : List Chunk) (memory : Nat → Info)
      (info : Info), (∀ asked ∈ infos, json.Writes asked.object) →
        chunks.map Chunk.bytes = infos.map (ProtocolClient.serialize json) →
          (Endpoint.ofSocket (Socket.ofChunks chunks)).Delivers
            (fun call => ProtocolServer.obtain json (memory call)) info infos := by
  intro roundTrips
  obtain ⟨-, message, -⟩ := roundTrips sampleJson [twoMinusOne] [request] (fun _ => ⟨0, 0, 0⟩)
    ⟨0, 0, 0⟩ (by simpa using request_writes) rfl
  revert message
  decide

end LearnInternet.TcpServerV3
