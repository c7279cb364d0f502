import LearnInternet.Calculator.Peers

/-!
One whole frame in the buffer, of any length: for which lengths `obtain` takes out as many bytes as
the frame has, or none.
-/

namespace LearnInternet.Calculator

open LearnInternet

namespace ProtocolServer

def readJson (json : JsonCpp) (leftover : Info) (payload : Bytes) : Info :=
  match json.parse payload with
  | none => leftover
  | some value => CalculatorServer.requestOf value

/-- The length is below 65534; or no `int`; or its remainder is below 65534 and comes to `2 ^ 16` with
what stands around the payload, so that the message cut off ends before its payload starts. -/
def LengthKept (length : Nat) : Prop :=
  length < 65534 ∨ 2 ^ 31 ≤ length ∨
    (length % 2 ^ 16 < 65534 ∧ 2 ^ 16 ≤ width length + 4 + length % 2 ^ 16)

theorem lengthKept_iff {length : Nat} (bound : length < 2 ^ 31) :
    LengthKept length ↔
      frameLength length < 2 ^ 16 ∨ ¬LengthFits (width length) (length % 2 ^ 16) := by
  have digits := width_le bound
  simp only [LengthKept, LengthFits, frameLength]
  omega

theorem deserialize_payload (json : JsonCpp) (leftover : Info) {payload : Bytes}
    (short : payload.length < 2 ^ 16) :
    deserialize json leftover (frame payload) = .ok (readJson json leftover payload) := by
  rw [deserialize, parsePayload_frame json short, readJson]
  cases json.parse payload with
  | none => rfl
  | some value => rfl

section Whole

variable (json : JsonCpp) (leftover : Info) {payload : Bytes} (rest : Bytes)

theorem header_frame (bound : payload.length < 2 ^ 31) :
    Header (frame payload ++ rest) (width payload.length) payload.length := by
  rw [frame_append]
  refine ⟨findFirstOf_header _ _, ?_⟩
  rw [take_width, Decimal.stoi_toBytes bound]

theorem length_frame_append :
    (frame payload ++ rest).length = frameLength payload.length + rest.length := by
  rw [List.length_append, length_frame]

theorem readFrame_takes (bound : payload.length < 2 ^ 31) :
    readFrame (deserialize json leftover) (frame payload ++ rest) =
      takeMessage (deserialize json leftover) (frame payload ++ rest)
        ((width payload.length % 2 ^ 16 + 2 + ((payload.length : Int) % 2 ^ 16).toNat + 2) %
          2 ^ 16) := by
  have digits := width_le bound
  have header := header_frame rest bound
  have enough : ¬sizeSub (sizeSub (frame payload ++ rest).length (width payload.length % 2 ^ 16)) 4 <
      ((payload.length : Int) % 2 ^ 16).toNat := by
    rw [length_frame_append, frameLength, Nat.mod_eq_of_lt (by omega), sizeSub_wait (by omega)]
    omega
  rw [readFrame_found _ header.1, header.2]
  simp only [if_neg enough]

theorem readFrame_exact (short : frameLength payload.length < 2 ^ 16) :
    readFrame (deserialize json leftover) (frame payload ++ rest) =
      .ok (some (readJson json leftover payload, rest)) := by
  have payloadShort : payload.length < 2 ^ 16 := by
    rw [frameLength] at short
    omega
  rw [readFrame_frame _ short, deserialize_payload json leftover payloadShort]

theorem readFrame_large (large : 2 ^ 31 ≤ payload.length) :
    readFrame (deserialize json leftover) (frame payload ++ rest) = .error .outOfRange := by
  have found : Text.findFirstOf crlf (frame payload ++ rest) = some (width payload.length) := by
    rw [frame_append]
    exact findFirstOf_header _ _
  have digits : (frame payload ++ rest).take (width payload.length) =
      Decimal.toBytes payload.length := by
    rw [frame_append]
    exact take_width _ _
  rw [readFrame_found _ found, digits, Decimal.stoi_toBytes_large large]
  rfl

theorem readFrame_unfit (bound : payload.length < 2 ^ 31)
    (unfit : ¬LengthFits (width payload.length) (payload.length % 2 ^ 16)) :
    ∃ abort, readFrame (deserialize json leftover) (frame payload ++ rest) = .error abort := by
  rw [readFrame_takes json leftover rest bound]
  exact takeMessage_unfit json leftover (header_frame rest bound) (by rwa [length_emod])

theorem readFrame_cut (bound : payload.length < 2 ^ 31)
    (fits : LengthFits (width payload.length) (payload.length % 2 ^ 16))
    (long : 2 ^ 16 ≤ frameLength payload.length) :
    ∃ message left,
      readFrame (deserialize json leftover) (frame payload ++ rest) = .ok (some (message, left)) ∧
        left.length ≠ rest.length := by
  have below := Nat.mod_lt payload.length (show 0 < 2 ^ 16 by omega)
  have less := Nat.mod_le payload.length (2 ^ 16)
  have enough : width payload.length + 4 + ((payload.length : Int) % 2 ^ 16).toNat ≤
      (frame payload ++ rest).length := by
    rw [length_frame_append, length_emod, frameLength]
    omega
  obtain ⟨message, taken⟩ := takeMessage_fits json leftover (header_frame rest bound)
    (by rwa [length_emod]) enough
  refine ⟨message, _, (readFrame_takes json leftover rest bound).trans taken, ?_⟩
  rw [List.length_drop, length_frame_append]
  omega

end Whole

/-- The payload is handed to the JSON reader and what follows the frame stays; or an exception leaves
`obtain` with the buffer as it was. -/
def Exact (json : JsonCpp) (leftover info : Info) (payload rest : Bytes) (sock : Socket)
    (obtained : Obtained) : Prop :=
  obtained = ⟨.ok true, readJson json leftover payload, ⟨rest, sock⟩⟩ ∨
    ∃ abort, obtained = ⟨.error abort, info, ⟨frame payload ++ rest, sock⟩⟩

theorem obtain_cut (json : JsonCpp) (leftover info : Info) (server : ProtocolServer)
    {payload rest : Bytes} {sock : Socket}
    (received : server.sock.recv server.buff = .ok (true, frame payload ++ rest, sock))
    (bound : payload.length < 2 ^ 31)
    (fits : LengthFits (width payload.length) (payload.length % 2 ^ 16))
    (long : 2 ^ 16 ≤ frameLength payload.length) :
    ¬Exact json leftover info payload rest sock (server.obtain json leftover info) := by
  obtain ⟨message, left, taken, other⟩ := readFrame_cut json leftover rest bound fits long
  have different : left ≠ rest := fun same => other (by rw [same])
  rw [obtain_step, received]
  simp [Exact, taken, different]

/-- A whole frame in the buffer is taken out as it is, or not at all, exactly for these lengths of
its payload. -/
theorem obtain_exact_iff (json : JsonCpp) (leftover info : Info) (server : ProtocolServer)
    (payload rest : Bytes) (sock : Socket)
    (received : server.sock.recv server.buff = .ok (true, frame payload ++ rest, sock)) :
    Exact json leftover info payload rest sock (server.obtain json leftover info) ↔
      LengthKept payload.length := by
  by_cases bound : payload.length < 2 ^ 31
  · rw [lengthKept_iff bound]
    by_cases short : frameLength payload.length < 2 ^ 16
    · rw [obtain_step, received]
      simp only [readFrame_exact json leftover rest short, short, true_or, iff_true]
      exact Or.inl rfl
    · by_cases fits : LengthFits (width payload.length) (payload.length % 2 ^ 16)
      · have cut := obtain_cut json leftover info server received bound fits (by omega)
        simp only [cut, short, fits, not_true_eq_false, or_self]
      · obtain ⟨abort, thrown⟩ := readFrame_unfit json leftover rest bound fits
        rw [obtain_step, received]
        simp only [thrown, fits, not_false_eq_true, or_true, iff_true]
        exact Or.inr ⟨abort, rfl⟩
  · have large : LengthKept payload.length := Or.inr (Or.inl (by omega))
    rw [obtain_step, received]
    simp only [readFrame_large json leftover rest (show 2 ^ 31 ≤ payload.length by omega), large,
      iff_true]
    exact Or.inr ⟨.outOfRange, rfl⟩

def wholeAndNext : Chunk := ⟨frame (ascii "[]") ++ ascii "7\r\n", by decide, by decide⟩

theorem obtain_exact_whole :
    Exact talkJson ⟨5, 5, 5⟩ ⟨0, 0, 0⟩ (ascii "[]") (ascii "7\r\n") (Socket.ofChunks [])
      ((ofSocket (Socket.ofChunks [wholeAndNext])).obtain talkJson ⟨5, 5, 5⟩ ⟨0, 0, 0⟩) :=
  (obtain_exact_iff talkJson ⟨5, 5, 5⟩ ⟨0, 0, 0⟩ (ofSocket (Socket.ofChunks [wholeAndNext]))
    (ascii "[]") (ascii "7\r\n") (Socket.ofChunks []) (by rfl)).mpr (Or.inl (by decide))

def endOfFrame : Chunk := ⟨crlf, by decide, by decide⟩

theorem obtain_cuts_payload :
    ¬∀ (server : ProtocolServer) (payload rest : Bytes) (sock : Socket),
      server.sock.recv server.buff = .ok (true, frame payload ++ rest, sock) →
        Exact talkJson ⟨5, 5, 5⟩ ⟨0, 0, 0⟩ payload rest sock
          (server.obtain talkJson ⟨5, 5, 5⟩ ⟨0, 0, 0⟩) := by
  intro exact
  obtain ⟨size, large⟩ : ∃ size : Nat, size = 2 ^ 16 := ⟨2 ^ 16, rfl⟩
  let payload : Bytes := List.replicate size 55
  have length : payload.length = size := List.length_replicate
  have digits := width_le (show payload.length < 2 ^ 31 by omega)
  have received : (Socket.ofChunks [endOfFrame]).recv
      (Decimal.toBytes payload.length ++ crlf ++ payload) =
        .ok (true, frame payload ++ [], Socket.ofChunks []) := by
    rw [List.append_nil]
    rfl
  refine obtain_cut talkJson _ _ ⟨_, Socket.ofChunks [endOfFrame]⟩ received (by omega) ?_ ?_
    (exact _ payload [] _ received)
  · exact Or.inl (by omega)
  · rw [frameLength]
    omega

end ProtocolServer

end LearnInternet.Calculator
