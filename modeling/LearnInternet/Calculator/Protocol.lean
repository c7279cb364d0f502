import LearnInternet.Socket

/-!
The message format `<len>\r\n<functional part>\r\n` of the calculator: requests are written by
`ProtocolClient` and read by `ProtocolServer` of the second server. jsoncpp is a parameter.
-/

namespace LearnInternet.Calculator

open LearnInternet

structure Info where
  x : Int16
  y : Int16
  oper : Int8
  deriving DecidableEq, Repr

abbrev JsonObject := List (String × Int)

/-- `Json::FastWriter::write` and `Json::Reader::parse`; a parsed value answers `v[name].asInt()`. -/
structure JsonCpp where
  write : JsonObject → Bytes
  parse : Bytes → Option (String → Int)

/-- What is relied on for one object: it is read back, and its text is a short line that opens
with a brace and the quotes of the first member. -/
structure JsonCpp.Writes (json : JsonCpp) (object : JsonObject) : Prop where
  parsedBack : ∃ value, json.parse (json.write object) = some value ∧
    ∀ entry ∈ object, value entry.1 = entry.2
  noZero : 0 ∉ json.write object
  short : (json.write object).length < 1000
  opens : [123, 34] <+: json.write object

/-- Subtraction of two `size_t`; a string's size is below `2 ^ 64`. -/
def sizeSub (left right : Nat) : Nat :=
  if right ≤ left then left - right else 2 ^ 64 - (right - left)

def crlf : Bytes := [13, 10]

def npos : Nat := 2 ^ 64 - 1

def firstBreak (text : Bytes) : Nat := (Text.findFirstOf crlf text).getD npos

def frame (text : Bytes) : Bytes := Decimal.toBytes text.length ++ crlf ++ text ++ crlf

def Info.object (info : Info) : JsonObject :=
  [("x", info.x.toInt), ("y", info.y.toInt), ("oper", info.oper.toInt)]

def ProtocolClient.serialize (json : JsonCpp) (info : Info) : Bytes :=
  frame (json.write info.object)

def parsePayload (json : JsonCpp) (msg : Bytes) : Except Abort (Option (String → Int)) :=
  let numberAreaLen := firstBreak msg % 2 ^ 16
  match Decimal.stoi (msg.take numberAreaLen) with
  | .error error => .error (Abort.ofConversion error)
  | .ok value =>
      let number := (value % 2 ^ 16).toNat
      if msg.length < numberAreaLen + 2 then .error .outOfRange
      else .ok (json.parse ((msg.drop (numberAreaLen + 2)).take number))

def ProtocolServer.deserialize (json : JsonCpp) (leftover : Info) (msg : Bytes) :
    Except Abort Info :=
  match parsePayload json msg with
  | .error abort => .error abort
  | .ok none => .ok leftover
  | .ok (some value) =>
      .ok ⟨Int16.ofInt (value "x"), Int16.ofInt (value "y"), Int8.ofInt (value "oper")⟩

def takeMessage {α : Type} (deserialize : Bytes → Except Abort α) (buff : Bytes) (msgLen : Nat) :
    Except Abort (Option (α × Bytes)) :=
  match deserialize (buff.take msgLen) with
  | .error abort => .error abort
  | .ok message => .ok (some (message, buff.drop msgLen))

/-- What both `obtain` do with the buffer after a `recv`: nothing yet, or a message is taken out. -/
def readFrame {α : Type} (deserialize : Bytes → Except Abort α) (buff : Bytes) :
    Except Abort (Option (α × Bytes)) :=
  if buff.length = 0 ∨ Text.findFirstOf crlf buff = none then .ok none
  else
    let numberAreaLen := firstBreak buff % 2 ^ 16
    match Decimal.stoi (buff.take (firstBreak buff)) with
    | .error error => .error (Abort.ofConversion error)
    | .ok value =>
        let number := (value % 2 ^ 16).toNat
        if sizeSub (sizeSub buff.length numberAreaLen) 4 < number then .ok none
        else takeMessage deserialize buff ((numberAreaLen + 2 + number + 2) % 2 ^ 16)

structure ProtocolServer where
  buff : Bytes
  sock : Socket
  deriving DecidableEq

namespace ProtocolServer

def ofSocket (sock : Socket) : ProtocolServer := ⟨[], sock⟩

structure Obtained where
  result : Except Abort Bool
  info : Info
  server : ProtocolServer

def obtainFrom (json : JsonCpp) (leftover info : Info) (server : ProtocolServer) :
    List ReadEvent → Obtained
  | [] => ⟨.ok false, info, ⟨server.buff, { server.sock with incoming := [] }⟩⟩
  | .error :: rest =>
      ⟨.error (.exit .readErr), info,
        ⟨server.buff, { server.sock with incoming := .error :: rest }⟩⟩
  | .data chunk :: rest =>
      let buff := server.buff ++ Socket.cText chunk
      let sock := { server.sock with incoming := rest }
      match readFrame (deserialize json leftover) buff with
      | .error abort => ⟨.error abort, info, ⟨buff, sock⟩⟩
      | .ok none => obtainFrom json leftover info ⟨buff, sock⟩ rest
      | .ok (some (message, buff)) => ⟨.ok true, message, ⟨buff, sock⟩⟩

def obtain (json : JsonCpp) (leftover : Info) (server : ProtocolServer) (info : Info) : Obtained :=
  obtainFrom json leftover info server server.sock.incoming

theorem obtain_step (json : JsonCpp) (leftover info : Info) (server : ProtocolServer) :
    server.obtain json leftover info =
      match server.sock.recv server.buff with
      | .error abort => ⟨.error abort, info, server⟩
      | .ok (false, buff, sock) => ⟨.ok false, info, ⟨buff, sock⟩⟩
      | .ok (true, buff, sock) =>
          match readFrame (deserialize json leftover) buff with
          | .error abort => ⟨.error abort, info, ⟨buff, sock⟩⟩
          | .ok none => (ProtocolServer.mk buff sock).obtain json leftover info
          | .ok (some (message, buff)) => ⟨.ok true, message, ⟨buff, sock⟩⟩ := by
  obtain ⟨buff, incoming, kernel, sent, wire⟩ := server
  cases incoming with
  | nil => rfl
  | cons event rest =>
      cases event with
      | error => rfl
      | data chunk => simp only [obtain, obtainFrom, Socket.recv]

/-- `obtain` called `calls` times with one `info`, until it first returns false or is left by an
exception: the requests it returned, and how it ended. `memory` is what its fresh objects hold. -/
def obtainAll (json : JsonCpp) (memory : Nat → Info) (info : Info) :
    Nat → ProtocolServer → List (Except Abort (Option Info))
  | 0, _ => []
  | calls + 1, server =>
      let obtained := server.obtain json (memory calls) info
      match obtained.result with
      | .error abort => [.error abort]
      | .ok false => [.ok none]
      | .ok true =>
          .ok (some obtained.info) :: obtainAll json memory obtained.info calls obtained.server

end ProtocolServer

end LearnInternet.Calculator
