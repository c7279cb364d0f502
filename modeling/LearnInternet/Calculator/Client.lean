import LearnInternet.Calculator.Server

/-!
`ProtocolClient`, the other end of the calculator. Its `obtain` is the server's with one `recv` in
place of the loop.
-/

namespace LearnInternet.Calculator

open LearnInternet

structure ProtocolClient where
  buff : Bytes
  sock : Socket
  deriving DecidableEq

namespace ProtocolClient

/-- `leftover` is what the uninitialised `Result result` holds. -/
def deserialize (json : JsonCpp) (leftover : Result) (msg : Bytes) : Except Abort Result :=
  match parsePayload json msg with
  | .error abort => .error abort
  | .ok none => .ok leftover
  | .ok (some value) => .ok ⟨Int16.ofInt (value "result")⟩

structure Obtained where
  result : Except Abort Bool
  value : Result
  client : ProtocolClient

def obtain (json : JsonCpp) (leftover : Result) (client : ProtocolClient) (value : Result) :
    Obtained :=
  match client.sock.recv client.buff with
  | .error abort => ⟨.error abort, value, client⟩
  | .ok (false, buff, sock) => ⟨.ok false, value, ⟨buff, sock⟩⟩
  | .ok (true, buff, sock) =>
      match readFrame (deserialize json leftover) buff with
      | .error abort => ⟨.error abort, value, ⟨buff, sock⟩⟩
      | .ok none => ⟨.ok false, value, ⟨buff, sock⟩⟩
      | .ok (some (message, buff)) => ⟨.ok true, message, ⟨buff, sock⟩⟩

def deliver (json : JsonCpp) (client : ProtocolClient) (info : Info) : Bool × ProtocolClient :=
  let sent := client.sock.send (serialize json info)
  (sent.1, { client with sock := sent.2 })

theorem deserialize_frame {json : JsonCpp} {result : Result} (leftover : Result)
    (writes : json.Writes result.object) :
    deserialize json leftover (ProtocolServer.serialize json result) = .ok result := by
  obtain ⟨value, parsed, fields⟩ := writes.parsedBack
  rw [deserialize, ProtocolServer.serialize,
    parsePayload_frame json writes.payload_lt, parsed]
  simp only
  rw [fields ("result", result.v.toInt) (by simp [Result.object])]
  simp

theorem readFrame_whole {json : JsonCpp} {result : Result} (leftover : Result)
    (writes : json.Writes result.object) (rest : Bytes) :
    readFrame (deserialize json leftover) (ProtocolServer.serialize json result ++ rest) =
      .ok (some (result, rest)) := by
  have whole := deserialize_frame leftover writes
  rw [ProtocolServer.serialize] at whole ⊢
  rw [readFrame_frame _ (frameLength_lt writes.short), whole]

end ProtocolClient

/-- Each program reads what the other wrote: whenever a `recv` leaves a serialized message and more
in the buffer, `obtain` returns that message and leaves the rest. -/
theorem obtain_speaks (json : JsonCpp) :
    (∀ (info leftover before : Info) (server : ProtocolServer) (buff rest : Bytes) (sock : Socket),
      json.Writes info.object → server.sock.recv server.buff = .ok (true, buff, sock) →
        buff = ProtocolClient.serialize json info ++ rest →
          server.obtain json leftover before = ⟨.ok true, info, ⟨rest, sock⟩⟩) ∧
      ∀ (result leftover before : Result) (client : ProtocolClient) (buff rest : Bytes)
        (sock : Socket),
        json.Writes result.object → client.sock.recv client.buff = .ok (true, buff, sock) →
          buff = ProtocolServer.serialize json result ++ rest →
            client.obtain json leftover before = ⟨.ok true, result, ⟨rest, sock⟩⟩ := by
  constructor
  · intro info leftover before server buff rest sock writes received holds
    rw [ProtocolServer.obtain_step, received]
    simp only [holds, readFrame_whole leftover writes]
  · intro result leftover before client buff rest sock writes received holds
    rw [ProtocolClient.obtain, received]
    simp only [holds, ProtocolClient.readFrame_whole leftover writes]

def minusTwo : Result := ⟨-2⟩

def talkJson : JsonCpp := tableJson [ProtocolServer.onePlusTwo.object, minusTwo.object]

def asked : Chunk :=
  ⟨ProtocolClient.serialize talkJson ProtocolServer.onePlusTwo ++ ascii "7\r\n\x7b", by decide,
    by decide⟩

def answer : Chunk :=
  ⟨ProtocolServer.serialize talkJson minusTwo ++ ascii "7\r\n\x7b", by decide, by decide⟩

theorem obtain_speaks_sample :
    (ProtocolServer.ofSocket (Socket.ofChunks [asked])).obtain talkJson ⟨5, 5, 5⟩ ⟨0, 0, 0⟩ =
        ⟨.ok true, ProtocolServer.onePlusTwo, ⟨ascii "7\r\n\x7b", Socket.ofChunks []⟩⟩ ∧
      (ProtocolClient.mk [] (Socket.ofChunks [answer])).obtain talkJson ⟨5⟩ ⟨0⟩ =
        ⟨.ok true, minusTwo, ⟨ascii "7\r\n\x7b", Socket.ofChunks []⟩⟩ := by
  have requestWrites : talkJson.Writes ProtocolServer.onePlusTwo.object :=
    tableJson_writes (by decide) (by decide) (by decide) (by decide) (by decide)
  have resultWrites : talkJson.Writes minusTwo.object :=
    tableJson_writes (by decide) (by decide) (by decide) (by decide) (by decide)
  exact ⟨(obtain_speaks talkJson).1 _ _ _ _ _ _ _ requestWrites (by rfl) (by decide),
    (obtain_speaks talkJson).2 _ _ _ _ _ _ _ resultWrites (by rfl) (by decide)⟩

end LearnInternet.Calculator
