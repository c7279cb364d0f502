import LearnInternet.Http.Server

/-!
What `HttpConnection::deliver` promises and what the kernel took: the answer of `Socket::send` is
its sign only, and nobody asks the codec for it.
-/

namespace LearnInternet.Http

open LearnInternet

def HttpConnection.kernel (connection : HttpConnection) : List SendEvent :=
  connection.msgCodec.sock.kernel

def HttpConnection.wire (connection : HttpConnection) : Bytes := connection.msgCodec.sock.wire

/-- `deliver` returns, says `RES_OK` only of a message that was accepted to its last byte, and has
sent nothing when it says anything else. -/
structure Delivers (host : Host) (connection : HttpConnection) (obj : HTTPResObj) : Prop where
  returns : ∃ code, (connection.deliver host obj).1 = .ok code
  whole : (connection.deliver host obj).1 = .ok .resOk →
    (connection.deliver host obj).2.wire = connection.wire ++ serializeDated host obj
  silent : ∀ code, (connection.deliver host obj).1 = .ok code → code ≠ .resOk →
    (connection.deliver host obj).2 = connection

theorem serialize_ne_nil (order : Headers → List (Bytes × Bytes)) (obj : HTTPResObj) :
    serialize order obj ≠ [] := by
  simp [serialize, space]

theorem codec_deliver_wire_iff (order : Headers → List (Bytes × Bytes)) (codec : HttpMessageCodec)
    (obj : HTTPResObj) :
    (codec.deliver order obj).2.sock.wire = codec.sock.wire ++ serialize order obj ↔
      Socket.AcceptsWhole codec.sock.kernel (serialize order obj) :=
  Socket.send_wire_iff codec.sock (serialize_ne_nil order obj)

def HTTPResObj.Named (obj : HTTPResObj) : Prop :=
  obj.resCode ≠ [] ∧ obj.resState ≠ [] ∧ obj.version ≠ []

theorem deliver_cases (host : Host) (connection : HttpConnection) (obj : HTTPResObj) :
    ((∃ code, code ≠ .resOk ∧ connection.deliver host obj = (.ok code, connection)) ∧
        (obj.Named → ∀ value, obj.header.find contentLength = some value →
          ∃ length, Decimal.stoul value = .ok length ∧ length ≠ obj.data.length)) ∨
      (∃ value failure, obj.Named ∧ obj.header.find contentLength = some value ∧
        Decimal.stoul value = .error failure ∧
        connection.deliver host obj = (.error (Abort.ofConversion failure), connection)) ∨
      (∃ value, obj.Named ∧ obj.header.find contentLength = some value ∧
        Decimal.stoul value = .ok obj.data.length ∧
        connection.deliver host obj = (.ok .resOk, ⟨(connection.msgCodec.deliver host.order
          { obj with header := obj.header.assign (ascii "Date") host.date }).2⟩)) := by
  simp only [HttpConnection.deliver]
  by_cases code : obj.resCode = []
  · exact Or.inl ⟨⟨.resCodeUnknown, by simp, if_pos code⟩, fun named => absurd code named.1⟩
  · by_cases state : obj.resState = []
    · exact Or.inl ⟨⟨.resStateErr, by simp, by rw [if_neg code, if_pos state]⟩,
        fun named => absurd state named.2.1⟩
    · by_cases version : obj.version = []
      · exact Or.inl ⟨⟨.resVersionErr, by simp, by rw [if_neg code, if_neg state, if_pos version]⟩,
          fun named => absurd version named.2.2⟩
      · rw [if_neg code, if_neg state, if_neg version]
        have named : obj.Named := ⟨code, state, version⟩
        cases found : obj.header.find contentLength with
        | none => exact Or.inl ⟨⟨.resLengthNotFound, by simp, rfl⟩, fun _ value some => by cases some⟩
        | some value =>
            cases read : Decimal.stoul value with
            | error failure =>
                exact Or.inr (Or.inl ⟨value, failure, named, rfl, read, by simp [stoul, read]⟩)
            | ok length =>
                by_cases right : length = obj.data.length
                · subst right
                  exact Or.inr (Or.inr ⟨value, named, rfl, read, by simp [stoul, read]⟩)
                · refine Or.inl ⟨⟨.resLengthErr, by simp, by simp [stoul, read, right]⟩, ?_⟩
                  intro _ other same
                  obtain rfl := Option.some.inj same
                  exact ⟨length, read, right⟩

/-- A length that is there can be read, and when it is right the kernel takes the whole message. -/
def Sendable (host : Host) (connection : HttpConnection) (obj : HTTPResObj) : Prop :=
  obj.Named → ∀ value, obj.header.find contentLength = some value →
    ∃ length, Decimal.stoul value = .ok length ∧
      (length = obj.data.length →
        Socket.AcceptsWhole connection.kernel (serializeDated host obj))

theorem delivers_iff (host : Host) (connection : HttpConnection) (obj : HTTPResObj) :
    Delivers host connection obj ↔ Sendable host connection obj := by
  rcases deliver_cases host connection obj with
    ⟨⟨code, other, refused⟩, wrong⟩ | ⟨value, failure, named, found, unread, thrown⟩ |
      ⟨value, named, found, right, given⟩
  · constructor
    · intro _ named value found
      obtain ⟨length, read, different⟩ := wrong named value found
      exact ⟨length, read, fun same => absurd same different⟩
    · intro _
      refine ⟨⟨code, by rw [refused]⟩, ?_, fun _ _ _ => by rw [refused]⟩
      intro ok
      rw [refused] at ok
      exact absurd (Except.ok.inj ok) other
  · constructor
    · intro delivers
      obtain ⟨code, returned⟩ := delivers.returns
      rw [thrown] at returned
      cases returned
    · intro sendable
      obtain ⟨length, read, -⟩ := sendable named value found
      rw [unread] at read
      cases read
  · have taken := codec_deliver_wire_iff host.order connection.msgCodec
      { obj with header := obj.header.assign (ascii "Date") host.date }
    constructor
    · intro delivers _ other otherFound
      rw [found] at otherFound
      cases otherFound
      have wire := delivers.whole (by rw [given])
      rw [given] at wire
      exact ⟨obj.data.length, right, fun _ => taken.mp wire⟩
    · intro sendable
      obtain ⟨length, read, accepts⟩ := sendable named value found
      rw [right] at read
      cases read
      refine ⟨⟨.resOk, by rw [given]⟩, fun _ => ?_, ?_⟩
      · rw [given]
        exact taken.mpr (accepts rfl)
      · intro code returned other
        rw [given] at returned
        exact absurd (Except.ok.inj returned).symm other

def textResponse (length : Bytes) : HTTPResObj where
  version := ascii "HTTP/1.0"
  resCode := ascii "200"
  resState := ascii "OK"
  header := UnorderedMap.empty.assign contentLength length
  data := ascii "b"

/-- A length that is no number throws. A send that takes one byte, and one that fails, count as
sent. -/
theorem deliver_claims_short_write :
    (¬∀ (connection : HttpConnection) (obj : HTTPResObj),
      ∃ code, (connection.deliver emptyHost obj).1 = .ok code) ∧
      ∀ event ∈ [SendEvent.accepted 1, SendEvent.failed],
        let connection : HttpConnection := ⟨⟨[], ⟨[], [event], [], []⟩⟩⟩
        let delivered := connection.deliver emptyHost (textResponse (ascii "1"))
        delivered.1 = .ok .resOk ∧
          delivered.2.wire ≠
            connection.wire ++ serializeDated emptyHost (textResponse (ascii "1")) := by
  constructor
  · intro returns
    obtain ⟨code, returned⟩ :=
      returns (HttpConnection.ofSocket (Socket.ofChunks [])) (textResponse (ascii "one"))
    revert returned
    cases code <;> decide
  · decide

end LearnInternet.Http
