import LearnInternet.Http.Decode

/-!
The texts the request parsers accept: `<key>: <value>` lines for `get_header_`, and whole requests
in the form `HTTPObj.hpp` gives for them.
-/

namespace LearnInternet.Http

open LearnInternet

def fieldLine (field : Bytes × Bytes) : Bytes := field.1 ++ colon ++ field.2

def fieldsText (fields : List (Bytes × Bytes)) : Bytes :=
  (fields.map fun field => fieldLine field ++ crlf).flatten

/-- The line ends at its first CRLF, and its key at its first `": "`. -/
def IsField (field : Bytes × Bytes) : Prop :=
  Text.find crlf (fieldLine field ++ crlf) = some (fieldLine field).length ∧
    Text.find colon (fieldLine field) = some field.1.length

def assignAll (fields : List (Bytes × Bytes)) (headers : Headers) : Headers :=
  fields.foldl (fun headers field => headers.assign field.1 field.2) headers

@[simp] theorem fieldsText_cons (field : Bytes × Bytes) (fields : List (Bytes × Bytes)) :
    fieldsText (field :: fields) = fieldLine field ++ crlf ++ fieldsText fields := rfl

theorem take_line (line rest : Bytes) : (line ++ crlf ++ rest).take line.length = line := by
  rw [List.append_assoc, List.take_left]

theorem drop_line (line rest : Bytes) : (line ++ crlf ++ rest).drop (line.length + 2) = rest := by
  have width : line.length + 2 = (line ++ crlf).length := by simp [crlf]
  rw [width, List.drop_left]

theorem cut_head (line : Bytes) (fields : List (Bytes × Bytes)) (body : Bytes) :
    (line ++ crlf ++ fieldsText fields ++ crlf ++ body).take
        ((line ++ fieldsText fields).length + 2) = line ++ crlf ++ fieldsText fields ∧
      (line ++ crlf ++ fieldsText fields ++ crlf ++ body).drop
        ((line ++ fieldsText fields).length + 2) = crlf ++ body := by
  have width : (line ++ fieldsText fields).length + 2 =
      (line ++ crlf ++ fieldsText fields).length := by
    simp [crlf]
    omega
  rw [width, List.append_assoc _ crlf body]
  exact ⟨List.take_left, List.drop_left⟩

theorem getKeyValue_ok_iff (msg key value rest : Bytes) :
    getKeyValue msg = .ok (key, value, rest) ↔
      IsField (key, value) ∧ msg = fieldLine (key, value) ++ crlf ++ rest := by
  constructor
  · intro parsed
    simp only [getKeyValue] at parsed
    cases foundLine : Text.find crlf msg with
    | none => simp [foundLine] at parsed
    | some kvLen =>
        simp only [foundLine] at parsed
        cases foundKey : Text.find colon (msg.take kvLen) with
        | none => simp [foundKey] at parsed
        | some keyLen =>
            simp only [foundKey, Except.ok.injEq, Prod.mk.injEq] at parsed
            obtain ⟨rfl, rfl, rfl⟩ := parsed
            have keyInside := Text.find_bound foundKey
            have line : fieldLine ((msg.take kvLen).take keyLen, (msg.take kvLen).drop (keyLen + 2)) =
                msg.take kvLen := (Text.find_split foundKey).symm
            have lineInside := Text.find_bound foundLine
            have lineLength : (msg.take kvLen).length = kvLen := by
              rw [List.length_take]
              omega
            have around := Text.find_split foundLine
            refine ⟨⟨?_, ?_⟩, ?_⟩
            · have upTo := Text.find_take foundLine
              have taken : msg.take (kvLen + crlf.length) = msg.take kvLen ++ crlf := by
                conv_lhs => rw [around]
                rw [List.append_assoc, List.take_append, lineLength, List.take_of_length_le (by omega)]
                simp [crlf]
              rw [line, ← taken, upTo, lineLength]
            · rw [line, foundKey]
              congr 1
              rw [List.length_take]
              omega
            · rw [line]
              exact around
  · rintro ⟨⟨lineEnds, keyEnds⟩, rfl⟩
    have foundLine : Text.find crlf (fieldLine (key, value) ++ crlf ++ rest) =
        some (fieldLine (key, value)).length := Text.find_append lineEnds rest
    have taken := take_line (fieldLine (key, value)) rest
    simp only [getKeyValue, foundLine, taken, keyEnds, Except.ok.injEq, Prod.mk.injEq]
    refine ⟨?_, ?_, drop_line _ rest⟩
    · simp [fieldLine]
    · simp [fieldLine, colon, List.drop_append]

theorem getKeyValue_error {msg : Bytes} {abort : Abort} (failed : getKeyValue msg = .error abort) :
    abort = .exit .protocolErr := by
  simp only [getKeyValue] at failed
  split at failed
  · exact (Except.error.inj failed).symm
  · split at failed
    · exact (Except.error.inj failed).symm
    · contradiction

theorem fieldLine_crlf_length (field : Bytes × Bytes) : 2 ≤ (fieldLine field ++ crlf).length := by
  simp [crlf]

/-- With a round for every byte, `get_header_` accepts exactly sequences of field lines. -/
theorem getHeaderFrom_ok_iff (fuel : Nat) (msg : Bytes) (ret headers : Headers)
    (enough : msg.length ≤ fuel) :
    getHeaderFrom fuel msg ret = .ok headers ↔
      ∃ fields, (∀ field ∈ fields, IsField field) ∧ msg = fieldsText fields ∧
        headers = assignAll fields ret := by
  induction fuel generalizing msg ret with
  | zero =>
      have empty : msg = [] := List.length_eq_zero_iff.mp (by omega)
      subst empty
      simp only [getHeaderFrom, Except.ok.injEq]
      constructor
      · rintro rfl
        exact ⟨[], by simp, rfl, rfl⟩
      · rintro ⟨fields, -, text, rfl⟩
        cases fields with
        | nil => rfl
        | cons field fields => simp [crlf] at text
  | succ fuel ih =>
      rw [getHeaderFrom]
      by_cases empty : msg = []
      · subst empty
        simp only [List.isEmpty_nil, if_true, Except.ok.injEq]
        constructor
        · rintro rfl
          exact ⟨[], by simp, rfl, rfl⟩
        · rintro ⟨fields, -, text, rfl⟩
          cases fields with
          | nil => rfl
          | cons field fields => simp [crlf] at text
      · rw [if_neg (by simpa using empty)]
        constructor
        · intro parsed
          cases round : getKeyValue msg with
          | error abort => simp [round] at parsed
          | ok result =>
              obtain ⟨key, value, rest⟩ := result
              simp only [round] at parsed
              obtain ⟨isField, rfl⟩ := (getKeyValue_ok_iff _ _ _ _).mp round
              have width := fieldLine_crlf_length (key, value)
              rw [List.length_append] at enough
              obtain ⟨fields, all, rfl, rfl⟩ := (ih rest _ (by omega)).mp parsed
              refine ⟨(key, value) :: fields, ?_, rfl, rfl⟩
              intro field member
              rcases List.mem_cons.mp member with rfl | later
              · exact isField
              · exact all field later
        · rintro ⟨fields, all, rfl, rfl⟩
          cases fields with
          | nil => exact absurd rfl empty
          | cons field fields =>
              have round : getKeyValue (fieldsText (field :: fields)) =
                  .ok (field.1, field.2, fieldsText fields) :=
                (getKeyValue_ok_iff _ _ _ _).mpr ⟨all field (by simp), rfl⟩
              have width := fieldLine_crlf_length field
              rw [fieldsText_cons, List.length_append] at enough
              simp only [round]
              exact (ih _ _ (by omega)).mpr
                ⟨fields, fun other member => all other (by simp [member]), rfl, rfl⟩

theorem getHeader_ok_iff (msg : Bytes) (headers : Headers) :
    getHeader msg = .ok headers ↔
      ∃ fields, (∀ field ∈ fields, IsField field) ∧ msg = fieldsText fields ∧
        headers = assignAll fields UnorderedMap.empty :=
  getHeaderFrom_ok_iff msg.length msg UnorderedMap.empty headers (Nat.le_refl _)

theorem getHeaderFrom_error {fuel : Nat} {msg : Bytes} {ret : Headers} {abort : Abort}
    (failed : getHeaderFrom fuel msg ret = .error abort) : abort = .exit .protocolErr := by
  induction fuel generalizing msg ret with
  | zero => simp [getHeaderFrom] at failed
  | succ fuel ih =>
      rw [getHeaderFrom] at failed
      split at failed
      · contradiction
      · split at failed
        · rename_i round
          obtain rfl := Except.error.inj failed
          exact getKeyValue_error round
        · exact ih failed

theorem find_assignAll (fields : List (Bytes × Bytes)) (headers : Headers) (key : Bytes) :
    (assignAll fields headers).find key =
      (UnorderedMap.findIn key fields.reverse).or (headers.find key) := by
  induction fields generalizing headers with
  | nil => simp [assignAll, UnorderedMap.findIn]
  | cons field fields ih =>
      have tail := ih (headers.assign field.1 field.2)
      rw [assignAll, List.foldl_cons]
      rw [assignAll] at tail
      rw [tail, List.reverse_cons, UnorderedMap.findIn_concat, UnorderedMap.find_assign]
      by_cases here : field.1 = key
      · simp [here]
      · simp [here, Ne.symm here]

theorem assignAll_entries (headers : Headers) :
    assignAll headers.entries UnorderedMap.empty = headers := by
  have run (done rest : List (Bytes × Bytes)) (whole : ((done ++ rest).map Prod.fst).Nodup)
      (sofar : Headers) (entries : sofar.entries = done) :
      (assignAll rest sofar).entries = done ++ rest := by
    induction rest generalizing done sofar with
    | nil => simpa [assignAll] using entries
    | cons field rest ih =>
        have fresh : field.1 ∉ done.map Prod.fst := by
          rw [List.map_append, List.nodup_append] at whole
          exact fun member => whole.2.2 field.1 member field.1 (by simp) rfl
        have next := ih (done ++ [field]) (by simpa using whole) (sofar.assign field.1 field.2)
          (by
            change UnorderedMap.assignIn field.1 field.2 sofar.entries = done ++ [field]
            rw [entries, UnorderedMap.assignIn_fresh field.2 fresh])
        simpa [assignAll] using next
  exact UnorderedMap.ext (run [] headers.entries (by simpa using headers.unique) _ rfl)

theorem getHeader_fieldsText (headers : Headers)
    (each : ∀ field ∈ headers.entries, IsField field) :
    getHeader (fieldsText headers.entries) = .ok headers :=
  (getHeader_ok_iff _ _).mpr ⟨headers.entries, each, rfl, (assignAll_entries headers).symm⟩

theorem isField_of_plain {field : Bytes × Bytes} (noCr : 13 ∉ fieldLine field)
    (noColon : ¬colon <:+: field.1) : IsField field := by
  constructor
  · have found := Text.find_lead [10] noCr []
    simpa [crlf] using found
  · have different : (58 : UInt8) ≠ 32 := by decide
    have found := Text.find_pair_lead different noColon
      field.2
    exact found

theorem find_blankLine (line : Bytes) (fields : List (Bytes × Bytes)) (body : Bytes)
    (lineNoCr : 13 ∉ line) (fieldsNoCr : ∀ field ∈ fields, 13 ∉ fieldLine field) :
    Text.find blankLine (line ++ crlf ++ fieldsText fields ++ crlf ++ body) =
      some (line ++ fieldsText fields).length := by
  induction fields generalizing line with
  | nil =>
      have found := Text.find_lead [10, 13, 10] lineNoCr body
      simpa [fieldsText, crlf, blankLine] using found
  | cons field fields ih =>
      have fieldNoCr := fieldsNoCr field (by simp)
      have later := ih (fieldLine field) fieldNoCr (fun other member => fieldsNoCr other (by simp [member]))
      obtain ⟨first, rest, split⟩ : ∃ first rest, fieldLine field = first :: rest := by
        cases text : fieldLine field with
        | nil => simp [fieldLine, colon] at text
        | cons first rest => exact ⟨first, rest, rfl⟩
      have firstNotCr : first ≠ 13 := by
        rintro rfl
        exact fieldNoCr (by simp [split])
      have shape : line ++ crlf ++ fieldsText (field :: fields) ++ crlf ++ body =
          line ++ (13 :: 10 :: (fieldLine field ++ crlf ++ fieldsText fields ++ crlf ++ body)) := by
        simp [crlf]
      have atCr : ¬blankLine <+:
          13 :: 10 :: (fieldLine field ++ crlf ++ fieldsText fields ++ crlf ++ body) := by
        simp [blankLine, split, Ne.symm firstNotCr]
      have atLf : ¬blankLine <+:
          10 :: (fieldLine field ++ crlf ++ fieldsText fields ++ crlf ++ body) := by
        simp [blankLine]
      rw [shape, blankLine, Text.find_skip lineNoCr, ← blankLine,
        Text.find_cons_of_not_prefix atCr, Text.find_cons_of_not_prefix atLf, later]
      simp [crlf]
      omega

end LearnInternet.Http
