import LearnInternet.Http.Grammar

/-!
What `serialize` writes, `get_header_` reads: the boundaries in a response are where they were put.
-/

namespace LearnInternet.Http

open LearnInternet

def statusLine (obj : HTTPResObj) : Bytes :=
  obj.version ++ space ++ obj.resCode ++ space ++ obj.resState

/-- No carriage return outside the data, and no `": "` in a key. Line feeds do no harm. -/
structure HTTPResObj.Plain (obj : HTTPResObj) : Prop where
  version : 13 ∉ obj.version
  resCode : 13 ∉ obj.resCode
  resState : 13 ∉ obj.resState
  keys : ∀ field ∈ obj.header.entries, 13 ∉ field.1 ∧ ¬colon <:+: field.1
  values : ∀ field ∈ obj.header.entries, 13 ∉ field.2

theorem HTTPResObj.Plain.statusLine {obj : HTTPResObj} (plain : obj.Plain) :
    13 ∉ statusLine obj := by
  simp [Http.statusLine, space, plain.version, plain.resCode, plain.resState]

theorem HTTPResObj.Plain.fieldLine {obj : HTTPResObj} (plain : obj.Plain) {field : Bytes × Bytes}
    (member : field ∈ obj.header.entries) : 13 ∉ fieldLine field := by
  simp [Http.fieldLine, colon, (plain.keys field member).1, plain.values field member]

theorem serialize_eq (order : Headers → List (Bytes × Bytes)) (obj : HTTPResObj) :
    serialize order obj =
      statusLine obj ++ crlf ++ fieldsText (order obj.header) ++ crlf ++ obj.data := by
  simp [serialize, statusLine, fieldsText, fieldLine]

/-- In whatever order the entries of the map are listed: the first blank line is followed by the
data, the first line is the status line, and the lines between are read as the map. -/
theorem serialize_decoded (order : Headers → List (Bytes × Bytes)) (obj : HTTPResObj)
    (plain : obj.Plain) (listed : (order obj.header).Perm obj.header.entries) :
    let msg := serialize order obj
    ∃ line blank fields,
      Text.find crlf msg = some line ∧ msg.take line = statusLine obj ∧
      Text.find blankLine msg = some blank ∧ msg.drop (blank + blankLine.length) = obj.data ∧
      getHeader ((msg.take (blank + 2)).drop (line + 2)) = .ok fields ∧
      fields.Same obj.header := by
  have lineNoCr : ∀ field ∈ order obj.header, 13 ∉ fieldLine field :=
    fun field member => plain.fieldLine (listed.mem_iff.mp member)
  have each : ∀ field ∈ order obj.header, IsField field := by
    intro field member
    exact isField_of_plain (lineNoCr field member) (plain.keys field (listed.mem_iff.mp member)).2
  have unique : ((order obj.header).map Prod.fst).Nodup :=
    (listed.map Prod.fst).nodup_iff.mpr obj.header.unique
  simp only [serialize_eq]
  refine ⟨(statusLine obj).length, (statusLine obj ++ fieldsText (order obj.header)).length,
    ⟨order obj.header, unique⟩, ?_, ?_, ?_, ?_, ?_, UnorderedMap.same_of_perm listed⟩
  · have found := Text.find_lead [10] plain.statusLine
      (fieldsText (order obj.header) ++ crlf ++ obj.data)
    simpa [crlf] using found
  · simp
  · exact find_blankLine _ _ _ plain.statusLine lineNoCr
  · have behind := (cut_head (statusLine obj) (order obj.header) obj.data).2
    rw [show blankLine.length = 2 + crlf.length from rfl, ← Nat.add_assoc, ← List.drop_drop, behind,
      List.drop_left]
  · have head := (cut_head (statusLine obj) (order obj.header) obj.data).1
    rw [head, drop_line]
    exact getHeader_fieldsText ⟨order obj.header, unique⟩ each

def oddResponse : HTTPResObj where
  version := ascii "HTTP/1.0"
  resCode := ascii "200"
  resState := []
  header := ((UnorderedMap.empty.assign (ascii "a:") (ascii ": b")).assign [] []).assign
    (ascii "Set-Cookie") (ascii "x: y")
  data := ascii "\r\n\r\nb: c\r\n\r\n"

theorem serialize_decoded_odd :
    ∃ line blank fields,
      Text.find crlf (serialize (fun map => map.entries.reverse) oddResponse) = some line ∧
      (serialize (fun map => map.entries.reverse) oddResponse).take line =
        statusLine oddResponse ∧
      Text.find blankLine (serialize (fun map => map.entries.reverse) oddResponse) = some blank ∧
      (serialize (fun map => map.entries.reverse) oddResponse).drop (blank + blankLine.length) =
        oddResponse.data ∧
      getHeader (((serialize (fun map => map.entries.reverse) oddResponse).take (blank + 2)).drop
        (line + 2)) = .ok fields ∧ fields.Same oddResponse.header :=
  serialize_decoded (fun map => map.entries.reverse) oddResponse
    ⟨by decide, by decide, by decide, by decide, by decide⟩ (List.reverse_perm _)

end LearnInternet.Http
