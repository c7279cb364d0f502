import LearnInternet.Calculator.Protocol

/-!
Requests over a fragmented stream. `obtain` makes one `recv` before every look at the buffer and
takes out one frame at most, and its size test wraps around when one to three bytes stand behind
the length digits; `Paced` is the condition on the sizes of reads and frames under which neither
matters.
-/

namespace LearnInternet.Calculator

open LearnInternet

def width (length : Nat) : Nat := (Decimal.toBytes length).length

def frameLength (length : Nat) : Nat := width length + 2 + length + 2

/-- With `held` bytes in the buffer, reads of these sizes bring payloads of these sizes one by one:
each frame has a read of its own that leaves it complete in the buffer, and no earlier read ends
within the three bytes behind its digits. -/
def Paced : Nat → List Nat → List Nat → Prop
  | _, _, [] => True
  | _, [], _ :: _ => False
  | held, read :: reads, length :: lengths =>
      if frameLength length ≤ held + read then
        Paced (held + read - frameLength length) reads lengths
      else
        ¬(width length < held + read ∧ held + read < width length + 4) ∧
          Paced (held + read) reads (length :: lengths)

instance decidablePaced : ∀ held reads lengths, Decidable (Paced held reads lengths)
  | _, _, [] => isTrue (by simp [Paced])
  | _, [], _ :: _ => isFalse (by simp [Paced])
  | held, read :: reads, length :: lengths =>
      have := decidablePaced (held + read - frameLength length) reads lengths
      have := decidablePaced (held + read) reads (length :: lengths)
      inferInstanceAs (Decidable (if frameLength length ≤ held + read then
        Paced (held + read - frameLength length) reads lengths
      else ¬(width length < held + read ∧ held + read < width length + 4) ∧
        Paced (held + read) reads (length :: lengths)))

theorem sizeSub_of_le {left right : Nat} (room : right ≤ left) :
    sizeSub left right = left - right :=
  if_pos room

theorem digit_not_mem_crlf {number : Nat} {byte : UInt8}
    (member : byte ∈ Decimal.toBytes number) : byte ∉ crlf := by
  have digit := Decimal.isDigit_of_mem_toBytes member
  intro isBreak
  simp only [crlf, List.mem_cons, List.not_mem_nil, or_false] at isBreak
  rcases isBreak with rfl | rfl <;> simp [Decimal.isDigit] at digit

theorem findFirstOf_header (length : Nat) (tail : Bytes) :
    Text.findFirstOf crlf (Decimal.toBytes length ++ 13 :: tail) = some (width length) :=
  Text.findFirstOf_lead (fun _ member => digit_not_mem_crlf member) (by decide) tail

theorem firstBreak_header (length : Nat) (tail : Bytes) :
    firstBreak (Decimal.toBytes length ++ 13 :: tail) = width length := by
  simp [firstBreak, findFirstOf_header]

theorem take_width (length : Nat) (tail : Bytes) :
    (Decimal.toBytes length ++ tail).take (width length) = Decimal.toBytes length :=
  List.take_left' rfl

theorem length_header (length : Nat) (tail : Bytes) :
    (Decimal.toBytes length ++ 13 :: tail).length = width length + 1 + tail.length := by
  simp [width]
  omega

theorem width_le {length : Nat} (bound : length < 2 ^ 31) : width length ≤ 10 :=
  (Decimal.length_toBytes_le_iff (by omega)).mpr (by omega)

theorem length_emod {length : Nat} : ((length : Int) % 2 ^ 16).toNat = length % 2 ^ 16 := by
  omega

theorem parsePayload_header (json : JsonCpp) {length : Nat} (bound : length < 2 ^ 31)
    (tail : Bytes) :
    parsePayload json (Decimal.toBytes length ++ 13 :: tail) =
      if tail = [] then .error .outOfRange
      else .ok (json.parse ((tail.drop 1).take (length % 2 ^ 16))) := by
  have digits := width_le bound
  have small : width length % 2 ^ 16 = width length := Nat.mod_eq_of_lt (by omega)
  have behind : (Decimal.toBytes length ++ 13 :: tail).drop (width length + 2) = tail.drop 1 := by
    rw [show width length + 2 = (Decimal.toBytes length).length + 2 from rfl,
      List.drop_length_add_append]
    rfl
  simp only [parsePayload, firstBreak_header, small, take_width, Decimal.stoi_toBytes bound,
    length_emod, length_header, behind]
  cases tail with
  | nil => simp
  | cons next tail =>
      rw [if_neg (by simp only [List.length_cons]; omega), if_neg (by simp)]

theorem readFrame_header {α : Type} (deserialize : Bytes → Except Abort α) {length : Nat}
    (bound : length < 2 ^ 31) (tail : Bytes) :
    readFrame deserialize (Decimal.toBytes length ++ 13 :: tail) =
      if sizeSub (tail.length + 1) 4 < length % 2 ^ 16 then .ok none
      else takeMessage deserialize (Decimal.toBytes length ++ 13 :: tail)
        ((width length + 2 + length % 2 ^ 16 + 2) % 2 ^ 16) := by
  have digits := width_le bound
  have small : width length % 2 ^ 16 = width length := Nat.mod_eq_of_lt (by omega)
  have size : sizeSub (Decimal.toBytes length ++ 13 :: tail).length (width length) =
      tail.length + 1 := by
    rw [length_header, sizeSub_of_le (by omega)]
    omega
  have looked : ¬((Decimal.toBytes length ++ 13 :: tail).length = 0 ∨
      Text.findFirstOf crlf (Decimal.toBytes length ++ 13 :: tail) = none) := by
    rw [findFirstOf_header]
    simp
  simp only [readFrame, if_neg looked, firstBreak_header, small, take_width,
    Decimal.stoi_toBytes bound, length_emod, size]

theorem frame_prefix {text buff more after : Bytes}
    (same : buff ++ more = frame text ++ after) (long : width text.length < buff.length) :
    ∃ tail, buff = Decimal.toBytes text.length ++ 13 :: tail ∧
      tail ++ more = 10 :: (text ++ crlf ++ after) := by
  have split : buff ++ more =
      Decimal.toBytes text.length ++ 13 :: 10 :: (text ++ crlf ++ after) := by
    rw [same]
    simp [frame, crlf]
  rcases List.append_eq_append_iff.mp split with ⟨missing, digits, -⟩ | ⟨tail, whole, rest⟩
  · have size := congrArg List.length digits
    rw [List.length_append] at size
    simp only [width] at long
    omega
  · cases tail with
    | nil =>
        rw [whole] at long
        simp [width] at long
    | cons first tail =>
        rw [List.cons_append, List.cons.injEq] at rest
        obtain ⟨rfl, rest⟩ := rest
        exact ⟨tail, whole, rest.symm⟩

theorem length_frame (text : Bytes) : (frame text).length = frameLength text.length := by
  simp [frame, frameLength, width, crlf]
  omega

theorem frame_append (text rest : Bytes) :
    frame text ++ rest =
      Decimal.toBytes text.length ++ 13 :: (10 :: (text ++ crlf ++ rest)) := by
  simp [frame, crlf]

theorem noZero_frame {text : Bytes} (noZero : 0 ∉ text) : 0 ∉ frame text := by
  intro zero
  simp only [frame, List.mem_append] at zero
  rcases zero with ((digit | isBreak) | written) | isBreak
  · exact Decimal.not_mem_toBytes (by decide) text.length digit
  · simp [crlf] at isBreak
  · exact noZero written
  · simp [crlf] at isBreak

theorem JsonCpp.Writes.payload_lt {json : JsonCpp} {object : JsonObject}
    (writes : json.Writes object) : (json.write object).length < 2 ^ 16 :=
  Nat.lt_trans writes.short (by omega)

theorem frameLength_lt {length : Nat} (short : length < 1000) : frameLength length < 2 ^ 16 := by
  have digits := width_le (show length < 2 ^ 31 by omega)
  rw [frameLength]
  omega

theorem parsePayload_frame (json : JsonCpp) {text : Bytes} (short : text.length < 2 ^ 16) :
    parsePayload json (frame text) = .ok (json.parse text) := by
  have payload : ((10 :: (text ++ crlf ++ [])).drop 1).take (text.length % 2 ^ 16) = text := by
    rw [Nat.mod_eq_of_lt (by omega)]
    simp
  rw [← List.append_nil (frame text), frame_append, parsePayload_header json (by omega), payload]
  simp

theorem readFrame_frame {α : Type} (deserialize : Bytes → Except Abort α) {text : Bytes}
    (short : frameLength text.length < 2 ^ 16) (rest : Bytes) :
    readFrame deserialize (frame text ++ rest) =
      match deserialize (frame text) with
      | .error abort => .error abort
      | .ok message => .ok (some (message, rest)) := by
  rw [frameLength] at short
  have msgLen : (width text.length + 2 + text.length % 2 ^ 16 + 2) % 2 ^ 16 =
      (frame text).length := by
    rw [length_frame, frameLength]
    omega
  have enough : ¬sizeSub ((10 :: (text ++ crlf ++ rest)).length + 1) 4 <
      text.length % 2 ^ 16 := by
    simp only [crlf, List.length_cons, List.length_append, List.length_nil]
    rw [sizeSub_of_le (by omega)]
    omega
  rw [frame_append, readFrame_header _ (by omega), if_neg enough, ← frame_append]
  cases read : deserialize (frame text) with
  | error abort => simp only [takeMessage, msgLen, List.take_left, read]
  | ok message => simp only [takeMessage, msgLen, List.take_left, List.drop_left, read]

section Prefixes

variable {json : JsonCpp} {info : Info} {buff more after : Bytes}

theorem readFrame_digits {α : Type} (deserialize : Bytes → Except Abort α)
    (same : buff ++ more = ProtocolClient.serialize json info ++ after)
    (short : buff.length ≤ width (json.write info.object).length) :
    readFrame deserialize buff = .ok none := by
  have inDigits : buff <+: Decimal.toBytes (json.write info.object).length := by
    refine List.prefix_of_prefix_length_le (List.prefix_append buff more) ?_ short
    rw [same, ProtocolClient.serialize, frame, List.append_assoc, List.append_assoc,
      List.append_assoc]
    exact List.prefix_append _ _
  have noBreak : Text.findFirstOf crlf buff = none :=
    Text.findFirstOf_eq_none.mpr fun byte member => digit_not_mem_crlf (inDigits.subset member)
  simp [readFrame, noBreak]

theorem readFrame_partial {α : Type} (deserialize : Bytes → Except Abort α)
    (writes : json.Writes info.object)
    (same : buff ++ more = ProtocolClient.serialize json info ++ after)
    (enough : width (json.write info.object).length + 4 ≤ buff.length)
    (short : buff.length < frameLength (json.write info.object).length) :
    readFrame deserialize buff = .ok none := by
  have lengthShort := writes.short
  obtain ⟨tail, rfl, -⟩ := frame_prefix same (by omega)
  rw [length_header] at enough short
  rw [frameLength] at short
  have missing : sizeSub (tail.length + 1) 4 < (json.write info.object).length % 2 ^ 16 := by
    rw [sizeSub_of_le (by omega)]
    omega
  rw [readFrame_header deserialize (by omega), if_pos missing]

theorem deserialize_frame (leftover : Info) (writes : json.Writes info.object) :
    ProtocolServer.deserialize json leftover (ProtocolClient.serialize json info) = .ok info := by
  obtain ⟨value, parsed, fields⟩ := writes.parsedBack
  rw [ProtocolServer.deserialize, ProtocolClient.serialize,
    parsePayload_frame json writes.payload_lt, parsed]
  simp only
  rw [fields ("x", info.x.toInt) (by simp [Info.object]),
    fields ("y", info.y.toInt) (by simp [Info.object]),
    fields ("oper", info.oper.toInt) (by simp [Info.object])]
  simp

theorem length_serialize :
    (ProtocolClient.serialize json info).length = frameLength (json.write info.object).length :=
  length_frame _

theorem readFrame_whole (leftover : Info) (writes : json.Writes info.object) (rest : Bytes) :
    readFrame (ProtocolServer.deserialize json leftover)
        (ProtocolClient.serialize json info ++ rest) = .ok (some (info, rest)) := by
  have whole := deserialize_frame leftover writes
  rw [ProtocolClient.serialize] at whole ⊢
  rw [readFrame_frame _ (frameLength_lt writes.short), whole]

theorem serialize_split
    (same : buff ++ more = ProtocolClient.serialize json info ++ after)
    (complete : frameLength (json.write info.object).length ≤ buff.length) :
    ∃ rest, buff = ProtocolClient.serialize json info ++ rest := by
  have starts := List.prefix_of_prefix_length_le (List.prefix_append _ _)
    (same ▸ List.prefix_append _ _) (length_serialize.trans_le complete)
  exact ⟨_, (List.prefix_iff_eq_append.mp starts).symm⟩

theorem readFrame_waits {α : Type} (deserialize : Bytes → Except Abort α)
    (writes : json.Writes info.object)
    (same : buff ++ more = ProtocolClient.serialize json info ++ after)
    (short : buff.length < frameLength (json.write info.object).length)
    (apart : ¬(width (json.write info.object).length < buff.length ∧
      buff.length < width (json.write info.object).length + 4)) :
    readFrame deserialize buff = .ok none := by
  by_cases digits : buff.length ≤ width (json.write info.object).length
  · exact readFrame_digits deserialize same digits
  · exact readFrame_partial deserialize writes same (by omega) short

/-- The wrapped size test: with one byte behind the digits `substr` throws, with two or three
something is returned for a request and the whole buffer is erased. -/
theorem readFrame_wrapped (leftover : Info) (writes : json.Writes info.object)
    (same : buff ++ more = ProtocolClient.serialize json info ++ after)
    (begun : width (json.write info.object).length < buff.length)
    (few : buff.length < width (json.write info.object).length + 4) :
    readFrame (ProtocolServer.deserialize json leftover) buff = .error .outOfRange ∨
      width (json.write info.object).length + 2 ≤ buff.length ∧
        ∃ message, readFrame (ProtocolServer.deserialize json leftover) buff =
          .ok (some (message, [])) := by
  have lengthShort := writes.short
  have digits := width_le (show (json.write info.object).length < 2 ^ 31 by omega)
  obtain ⟨tail, rfl, -⟩ := frame_prefix same begun
  rw [length_header] at begun few ⊢
  have opens := writes.opens.length_le
  simp only [List.length_cons, List.length_nil] at opens
  have wrapped : ¬sizeSub (tail.length + 1) 4 < (json.write info.object).length % 2 ^ 16 := by
    rw [sizeSub, if_neg (by omega)]
    omega
  rw [readFrame_header _ (by omega), if_neg wrapped]
  have whole : (Decimal.toBytes (json.write info.object).length ++ 13 :: tail).length ≤
      (width (json.write info.object).length + 2 +
        (json.write info.object).length % 2 ^ 16 + 2) % 2 ^ 16 := by
    rw [length_header]
    omega
  simp only [takeMessage, List.take_of_length_le whole, List.drop_of_length_le whole,
    ProtocolServer.deserialize, parsePayload_header json
      (show (json.write info.object).length < 2 ^ 31 by omega)]
  cases tail with
  | nil => exact Or.inl (by simp)
  | cons next tail =>
      refine Or.inr ⟨by simp only [List.length_cons]; omega, ?_⟩
      simp only [reduceCtorEq, if_false]
      cases json.parse _ with
      | none => exact ⟨leftover, rfl⟩
      | some value => exact ⟨_, rfl⟩

end Prefixes

theorem readFrame_noNumber {α : Type} (deserialize : Bytes → Except Abort α) {first : UInt8}
    {rest : Bytes} {index : Nat} (noSpace : Decimal.isSpace first = false)
    (noDigit : Decimal.isDigit first = false) (notMinus : first ≠ 45) (notPlus : first ≠ 43)
    (found : Text.findFirstOf crlf (first :: rest) = some index) :
    readFrame deserialize (first :: rest) = .error .invalidArgument := by
  have notFirst : index ≠ 0 := by
    rintro rfl
    have isBreak : first ∈ crlf := by
      by_contra other
      simp [Text.findFirstOf, List.findIdx?_cons, other] at found
    simp only [crlf, List.mem_cons, List.not_mem_nil, or_false] at isBreak
    rcases isBreak with rfl | rfl <;> simp [Decimal.isSpace] at noSpace
  obtain ⟨index, rfl⟩ := Nat.exists_eq_succ_of_ne_zero notFirst
  simp only [readFrame, firstBreak, found, Option.getD_some, List.length_cons, List.take_succ_cons,
    Decimal.stoi_invalid _ noSpace noDigit notMinus notPlus]
  simp [Abort.ofConversion]

theorem obtain_chunk (json : JsonCpp) (leftover info : Info) (buff : Bytes) (chunk : Chunk)
    (chunks : List Chunk) :
    (ProtocolServer.mk buff (Socket.ofChunks (chunk :: chunks))).obtain json leftover info =
      match readFrame (ProtocolServer.deserialize json leftover)
          (buff ++ Socket.cText chunk) with
      | .error abort =>
          ⟨.error abort, info, ⟨buff ++ Socket.cText chunk, Socket.ofChunks chunks⟩⟩
      | .ok none =>
          (ProtocolServer.mk (buff ++ Socket.cText chunk) (Socket.ofChunks chunks)).obtain
            json leftover info
      | .ok (some (message, buff)) => ⟨.ok true, message, ⟨buff, Socket.ofChunks chunks⟩⟩ :=
  ProtocolServer.obtain_step json leftover info _

theorem obtain_noNumber (json : JsonCpp) (leftover info : Info) (first : UInt8) {rest : Bytes}
    (noSpace : Decimal.isSpace first = false) (noDigit : Decimal.isDigit first = false)
    (notMinus : first ≠ 45) (notPlus : first ≠ 43) (chunks : List Chunk) (buff : Bytes)
    (noZero : 0 ∉ (chunks.map Chunk.bytes).flatten)
    (stream : buff ++ (chunks.map Chunk.bytes).flatten = first :: rest)
    (unbroken : Text.findFirstOf crlf buff = none) (broken : 10 ∈ first :: rest) :
    ((ProtocolServer.mk buff (Socket.ofChunks chunks)).obtain json leftover info).result =
      .error .invalidArgument := by
  induction chunks generalizing buff with
  | nil =>
      rw [List.map_nil, List.flatten_nil, List.append_nil] at stream
      rw [stream, Text.findFirstOf_eq_none] at unbroken
      exact absurd (by decide) (unbroken 10 broken)
  | cons chunk chunks ih =>
      rw [List.map_cons, List.flatten_cons] at stream noZero
      have text : Socket.cText chunk = chunk.bytes :=
        Socket.cText_eq_bytes fun zero => noZero (List.mem_append_left _ zero)
      rw [obtain_chunk, text]
      cases look : Text.findFirstOf crlf (buff ++ chunk.bytes) with
      | none =>
          have waits : readFrame (ProtocolServer.deserialize json leftover)
              (buff ++ chunk.bytes) = .ok none := by
            simp [readFrame, look]
          rw [waits]
          exact ih (buff ++ chunk.bytes) (fun zero => noZero (List.mem_append_right _ zero))
            (by rw [List.append_assoc, stream]) look
      | some index =>
          obtain ⟨tail, begins⟩ : ∃ tail, buff ++ chunk.bytes = first :: tail := by
            rw [← List.append_assoc] at stream
            cases held : buff ++ chunk.bytes with
            | nil => exact absurd held (by simp [chunk.nonempty])
            | cons head tail =>
                rw [held, List.cons_append, List.cons.injEq] at stream
                exact ⟨tail, by rw [stream.1]⟩
          rw [begins] at look ⊢
          rw [readFrame_noNumber _ noSpace noDigit notMinus notPlus look]

namespace ProtocolServer

section Runs

variable {json : JsonCpp}

theorem obtain_after_wrapped {requested : Info} (writes : json.Writes requested.object)
    (leftover info : Info) (chunks : List Chunk) {buff after : Bytes}
    (noZero : 0 ∉ (chunks.map Chunk.bytes).flatten)
    (same : buff ++ (chunks.map Chunk.bytes).flatten =
      ProtocolClient.serialize json requested ++ after)
    (begun : width (json.write requested.object).length + 2 ≤ buff.length)
    (few : buff.length < width (json.write requested.object).length + 4) :
    ((ProtocolServer.mk [] (Socket.ofChunks chunks)).obtain json leftover info).result =
      .error .invalidArgument := by
  obtain ⟨rest, opens⟩ := writes.opens
  have long : width (json.write requested.object).length < buff.length := by omega
  obtain ⟨tail, rfl, split⟩ := frame_prefix same long
  rw [length_header] at begun few
  have noBreak : Text.findFirstOf crlf ([] : Bytes) = none := rfl
  rw [← opens] at split
  cases tail with
  | nil => simp at begun
  | cons next tail =>
      simp only [List.cons_append, List.cons.injEq] at split
      obtain ⟨rfl, split⟩ := split
      cases tail with
      | nil =>
          exact obtain_noNumber json leftover info (123 : UInt8) (by decide) (by decide)
            (by decide) (by decide) chunks [] noZero (by simpa using split) noBreak
            (by simp [crlf])
      | cons brace tail =>
          have single : tail = [] := by
            simp only [List.length_cons] at few
            exact List.eq_nil_of_length_eq_zero (by omega)
          subst single
          simp only [List.cons_append, List.nil_append, List.cons.injEq] at split
          exact obtain_noNumber json leftover info (34 : UInt8) (by decide) (by decide)
            (by decide) (by decide) chunks [] noZero (by simpa using split.2) noBreak
            (by simp [crlf])

theorem obtainAll_of_wrapped {asked : Info} (writes : json.Writes asked.object)
    (memory : Nat → Info) (info : Info) (infos : List Info) {chunk : Chunk} (chunks : List Chunk)
    {buff after : Bytes} (text : Socket.cText chunk = chunk.bytes)
    (noZero : 0 ∉ (chunks.map Chunk.bytes).flatten)
    (same : (buff ++ chunk.bytes) ++ (chunks.map Chunk.bytes).flatten =
      ProtocolClient.serialize json asked ++ after)
    (begun : width (json.write asked.object).length < (buff ++ chunk.bytes).length)
    (few : (buff ++ chunk.bytes).length < width (json.write asked.object).length + 4) :
    obtainAll json memory info (infos.length + 1 + 1) ⟨buff, Socket.ofChunks (chunk :: chunks)⟩ ≠
      .ok (some asked) :: infos.map (fun asked => .ok (some asked)) ++ [.ok none] := by
  have obtained := obtain_chunk json (memory (infos.length + 1)) info buff chunk chunks
  rw [text] at obtained
  rcases readFrame_wrapped (memory (infos.length + 1)) writes same begun few with
    thrown | ⟨enough, message, returned⟩
  · rw [thrown] at obtained
    simp [obtainAll, obtained]
  · rw [returned] at obtained
    have next := obtain_after_wrapped writes (memory infos.length) message chunks noZero same
      enough few
    simp only [obtainAll, obtained, next]
    cases infos <;> simp

theorem obtainAll_from (chunks : List Chunk) (infos : List Info) (buff : Bytes)
    (memory : Nat → Info) (info : Info) (writes : ∀ asked ∈ infos, json.Writes asked.object)
    (noZero : 0 ∉ (chunks.map Chunk.bytes).flatten)
    (stream : buff ++ (chunks.map Chunk.bytes).flatten =
      (infos.map (ProtocolClient.serialize json)).flatten) :
    obtainAll json memory info (infos.length + 1) ⟨buff, Socket.ofChunks chunks⟩ =
        infos.map (fun asked => .ok (some asked)) ++ [.ok none] ↔
      Paced buff.length (chunks.map fun chunk => chunk.bytes.length)
        (infos.map fun asked => (json.write asked.object).length) := by
  induction chunks generalizing infos buff info with
  | nil =>
      cases infos with
      | nil => simp [obtainAll, obtain, obtainFrom, Socket.ofChunks, Paced]
      | cons asked infos => simp [obtainAll, obtain, obtainFrom, Socket.ofChunks, Paced]
  | cons chunk chunks ih =>
      cases infos with
      | nil =>
          have nonempty := chunk.nonempty
          simp [nonempty] at stream
      | cons asked infos =>
          have askedWrites := writes asked (by simp)
          simp only [List.map_cons, List.flatten_cons] at stream noZero
          have text : Socket.cText chunk = chunk.bytes :=
            Socket.cText_eq_bytes fun zero => noZero (List.mem_append_left _ zero)
          have restNoZero : 0 ∉ (chunks.map Chunk.bytes).flatten :=
            fun zero => noZero (List.mem_append_right _ zero)
          have same : (buff ++ chunk.bytes) ++ (chunks.map Chunk.bytes).flatten =
              ProtocolClient.serialize json asked ++
                (infos.map (ProtocolClient.serialize json)).flatten := by
            rw [List.append_assoc, stream]
          have size : (buff ++ chunk.bytes).length = buff.length + chunk.bytes.length :=
            List.length_append
          have obtained := obtain_chunk json (memory (infos.length + 1)) info buff chunk chunks
          rw [text] at obtained
          simp only [List.map_cons, List.length_cons, Paced, ← size]
          by_cases complete : frameLength (json.write asked.object).length ≤
              (buff ++ chunk.bytes).length
          · obtain ⟨rest, split⟩ := serialize_split same complete
            have left : rest.length = (buff ++ chunk.bytes).length -
                frameLength (json.write asked.object).length := by
              rw [split, List.length_append, length_serialize]
              omega
            rw [split, readFrame_whole _ askedWrites] at obtained
            rw [split, List.append_assoc] at same
            have tail := ih infos rest asked (fun other member => writes other (by simp [member]))
              restNoZero (List.append_cancel_left same)
            rw [if_pos complete, ← left, ← tail]
            simp [obtainAll, obtained]
          · rw [if_neg complete]
            by_cases wrapped : width (json.write asked.object).length <
                  (buff ++ chunk.bytes).length ∧
                (buff ++ chunk.bytes).length < width (json.write asked.object).length + 4
            · have fails := obtainAll_of_wrapped askedWrites memory info infos chunks text restNoZero
                same wrapped.1 wrapped.2
              exact ⟨fun delivered => absurd delivered fails, fun paced => absurd wrapped paced.1⟩
            · rw [readFrame_waits _ askedWrites same (by omega) wrapped] at obtained
              have tail := ih (asked :: infos) (buff ++ chunk.bytes) info writes restNoZero
                (by rw [same]; simp)
              simp only [List.map_cons, List.length_cons] at tail
              rw [← tail]
              simp only [obtainAll, obtained, wrapped, not_false_eq_true, true_and]

theorem noZero_requests {json : JsonCpp} {infos : List Info}
    (writes : ∀ asked ∈ infos, json.Writes asked.object) :
    0 ∉ (infos.map (ProtocolClient.serialize json)).flatten := by
  intro zero
  obtain ⟨text, member, zero⟩ := List.mem_flatten.mp zero
  obtain ⟨asked, asks, rfl⟩ := List.mem_map.mp member
  exact noZero_frame (writes asked asks).noZero zero

/-- The requests of a stream are returned one by one in order, and then false, exactly when the
reads are paced to the frames. -/
theorem obtainAll_delivers_iff (json : JsonCpp) (memory : Nat → Info) (info : Info)
    (infos : List Info) (chunks : List Chunk)
    (writes : ∀ asked ∈ infos, json.Writes asked.object)
    (cut : (chunks.map Chunk.bytes).flatten =
      (infos.map (ProtocolClient.serialize json)).flatten) :
    obtainAll json memory info (infos.length + 1) (ofSocket (Socket.ofChunks chunks)) =
        infos.map (fun asked => .ok (some asked)) ++ [.ok none] ↔
      Paced 0 (chunks.map fun chunk => chunk.bytes.length)
        (infos.map fun asked => (json.write asked.object).length) := by
  apply obtainAll_from chunks infos [] memory info writes _ cut
  rw [cut]
  exact noZero_requests writes

end Runs

def sampleJson : JsonCpp where
  write object :=
    ascii "\x7b\"oper\":" ++ Decimal.intToBytes ((object.lookup "oper").getD 0) ++
      ascii ",\"x\":" ++ Decimal.intToBytes ((object.lookup "x").getD 0) ++
      ascii ",\"y\":" ++ Decimal.intToBytes ((object.lookup "y").getD 0) ++ ascii "\x7d\n"
  parse text :=
    if text = ascii "\x7b\"oper\":43,\"x\":1,\"y\":2\x7d\n" then
      some fun name => if name = "oper" then 43 else if name = "x" then 1 else
        if name = "y" then 2 else 0
    else none

def onePlusTwo : Info := ⟨1, 2, 43⟩

theorem sampleJson_writes : sampleJson.Writes onePlusTwo.object where
  parsedBack := ⟨_, rfl, by decide⟩
  noZero := by decide
  short := by decide
  opens := by decide

def sampleFrame : Bytes := ProtocolClient.serialize sampleJson onePlusTwo

def unsetInfo : Info := ⟨0, 0, 0⟩

def pacedReads : List Chunk :=
  [⟨sampleFrame.take 9, by decide, by decide⟩, ⟨sampleFrame.drop 9, by decide, by decide⟩,
    ⟨sampleFrame, by decide, by decide⟩]

theorem obtainAll_delivers_paced :
    obtainAll sampleJson (fun _ => unsetInfo) unsetInfo 3 (ofSocket (Socket.ofChunks pacedReads)) =
      [.ok (some onePlusTwo), .ok (some onePlusTwo), .ok none] :=
  (obtainAll_delivers_iff sampleJson (fun _ => unsetInfo) unsetInfo [onePlusTwo, onePlusTwo]
    pacedReads (by simpa using sampleJson_writes) (by decide)).mpr (by decide)

def coalescedRead : Chunk := ⟨sampleFrame ++ sampleFrame, by decide, by decide⟩

theorem obtain_loses_coalesced :
    coalescedRead.bytes =
        ([onePlusTwo, onePlusTwo].map (ProtocolClient.serialize sampleJson)).flatten ∧
      obtainAll sampleJson (fun _ => unsetInfo) unsetInfo 3
          (ofSocket (Socket.ofChunks [coalescedRead])) ≠
        [.ok (some onePlusTwo), .ok (some onePlusTwo), .ok none] := by
  decide

end ProtocolServer

end LearnInternet.Calculator
