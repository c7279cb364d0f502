import LearnInternet.Http.Server

/-!
Request lines of any length: `get_method_` and `get_req_target_` keep the position of a space in a
`uint16_t`, and cut with it.
-/

namespace LearnInternet.Http

open LearnInternet

theorem position_lead {lead : Bytes} (absent : 32 ∉ lead) (text : Bytes) :
    position space (lead ++ space ++ text) = lead.length := by
  rw [position, space, Text.find_lead [] absent, Option.getD_some]

theorem position_absent {line : Bytes} (absent : 32 ∉ line) : position space line = npos := by
  have notInside : ¬space <:+: line :=
    fun inside => absent (inside.subset (by simp [space]))
  rw [position, (Text.find_eq_none_iff space line).mpr notInside, Option.getD_none]

theorem cutAtSpace_short {lead : Bytes} (absent : 32 ∉ lead) (short : lead.length < 2 ^ 16)
    (text : Bytes) : cutAtSpace (lead ++ space ++ text) = (lead, text) := by
  have width : lead.length + 1 = (lead ++ space).length := by simp [space]
  simp only [cutAtSpace, position_lead absent, Nat.mod_eq_of_lt short]
  rw [width, List.drop_left, List.append_assoc, List.take_left]

theorem cutAtSpace_long {lead : Bytes} (absent : 32 ∉ lead) (long : 2 ^ 16 ≤ lead.length)
    (text : Bytes) :
    cutAtSpace (lead ++ space ++ text) =
      (lead.take (lead.length % 2 ^ 16),
        lead.drop (lead.length % 2 ^ 16 + 1) ++ space ++ text) := by
  have below := Nat.mod_lt lead.length (show 0 < 2 ^ 16 by omega)
  simp only [cutAtSpace, position_lead absent]
  rw [List.append_assoc, List.take_append_of_le_length (by omega),
    List.drop_append_of_le_length (by omega), List.append_assoc]

theorem cutAtSpace_absent {line : Bytes} (absent : 32 ∉ line) :
    cutAtSpace line = (line.take (2 ^ 16 - 1), line.drop (2 ^ 16)) := by
  simp only [cutAtSpace, position_absent absent]
  rfl

theorem cutAtSpace_lead_iff {lead : Bytes} (absent : 32 ∉ lead) (text : Bytes) :
    (cutAtSpace (lead ++ space ++ text)).1 = lead ↔ lead.length < 2 ^ 16 := by
  constructor
  · intro whole
    by_contra long
    have below := Nat.mod_lt lead.length (show 0 < 2 ^ 16 by omega)
    rw [cutAtSpace_long absent (by omega)] at whole
    have width := congrArg List.length whole
    rw [List.length_take] at width
    omega
  · intro short
    rw [cutAtSpace_short absent short]

theorem deserializeReqLine_eq (line : Bytes) (obj : HTTPReqObj) :
    deserializeReqLine line obj =
      { obj with
        method := (cutAtSpace line).1
        reqTarget := (cutAtSpace (cutAtSpace line).2).1
        version := (cutAtSpace (cutAtSpace line).2).2 } := rfl

/-- The length of what is left of a line after both cuts is what decides whether it gets a version:
a line without spaces has none up to twice `2 ^ 16` bytes, and one with a space none up to `2 ^ 16`
bytes behind it, or when the space ends the line and comes before twice `2 ^ 16` bytes. -/
def Unsplit (line : Bytes) : Prop :=
  match Text.find space line with
  | none => line.length ≤ 2 ^ 17
  | some index =>
      (index < 2 ^ 16 ∧ line.length ≤ index + 1 + 2 ^ 16) ∨
        (index < 2 ^ 17 ∧ line.length = index + 1)

theorem find_one_space {line : Bytes} {index : Nat} (found : Text.find space line = some index)
    (few : line.count 32 < 2) :
    ∃ lead text, line = lead ++ space ++ text ∧ 32 ∉ lead ∧ 32 ∉ text ∧ lead.length = index := by
  have split := Text.find_split found
  have bound := Text.find_bound found
  have counted := few
  rw [split, List.count_append, List.count_append] at counted
  have one : space.count 32 = 1 := by decide
  refine ⟨line.take index, line.drop (index + space.length), split, ?_, ?_, ?_⟩
  · exact List.count_eq_zero.mp (by omega)
  · exact List.count_eq_zero.mp (by omega)
  · rw [List.length_take]
    omega

theorem cut_absent_empty_iff {line : Bytes} (absent : 32 ∉ line) :
    ((cutAtSpace line).1 = [] ∨ (cutAtSpace line).2 = []) ↔ line.length ≤ 2 ^ 16 := by
  rw [cutAtSpace_absent absent]
  simp only [List.take_eq_nil_iff, List.drop_eq_nil_iff]
  constructor
  · rintro ((zero | rfl) | short)
    · omega
    · simp
    · exact short
  · exact Or.inr

theorem unsplit_iff {line : Bytes} (few : line.count 32 < 2) :
    ((cutAtSpace (cutAtSpace line).2).1 = [] ∨ (cutAtSpace (cutAtSpace line).2).2 = []) ↔
      Unsplit line := by
  cases found : Text.find space line with
  | none =>
      have absent : 32 ∉ line := by
        intro member
        obtain ⟨before, after, rfl⟩ := List.append_of_mem member
        apply (Text.find_eq_none_iff _ _).mp found
        exact ⟨before, after, by simp [space]⟩
      have dropped : 32 ∉ line.drop (2 ^ 16) := fun member => absent (List.mem_of_mem_drop member)
      rw [cutAtSpace_absent absent, cut_absent_empty_iff dropped, List.length_drop]
      simp only [Unsplit, found]
      omega
  | some index =>
      obtain ⟨lead, text, rfl, leadFree, textFree, rfl⟩ := find_one_space found few
      simp only [Unsplit, found, List.length_append, show space.length = 1 from rfl]
      by_cases short : lead.length < 2 ^ 16
      · rw [cutAtSpace_short leadFree short, cut_absent_empty_iff textFree]
        omega
      · -- The first cut leaves the space where the second finds it 65535 bytes, or more, further.
        have below := Nat.mod_lt lead.length (show 0 < 2 ^ 16 by omega)
        have restFree : 32 ∉ lead.drop (lead.length % 2 ^ 16 + 1) :=
          fun member => leadFree (List.mem_of_mem_drop member)
        rw [cutAtSpace_long leadFree (by omega)]
        simp only [cutAtSpace, position_lead restFree, List.take_eq_nil_iff, List.drop_eq_nil_iff,
          List.length_append, List.length_drop, show space.length = 1 from rfl]
        have notEmpty : lead.drop (lead.length % 2 ^ 16 + 1) ++ space ++ text ≠ [] := by
          simp [space]
        simp only [notEmpty, or_false]
        omega

theorem reqCheck_rejects_iff (host : Host) (obj : HTTPReqObj) (connection : HttpConnection) :
    ((reqCheck host obj connection).1 = .ok .reqPathErr ∨
      (reqCheck host obj connection).1 = .ok .reqVersionErr) ↔
      obj.reqTarget = [] ∨ obj.version = [] := by
  have refused (err : ReqErr) : (connection.refuse host err).1 = .ok err :=
    (refuse_outcome host connection err).1
  have checked (absent : Except Abort ReqErr × HttpConnection)
      (other : absent.1 ≠ .ok .reqPathErr ∧ absent.1 ≠ .ok .reqVersionErr) :
      (checkLength host absent obj connection).1 ≠ .ok .reqPathErr ∧
        (checkLength host absent obj connection).1 ≠ .ok .reqVersionErr := by
    simp only [checkLength]
    split
    · exact other
    · split
      · simp
      · split
        · simp [refused]
        · simp
  simp only [reqCheck]
  by_cases target : obj.reqTarget = []
  · simp [target, refused]
  · by_cases version : obj.version = []
    · simp [target, version, refused]
    · simp only [target, version, if_false, or_self, iff_false, not_or]
      split
      · exact checked _ (by simp)
      · split
        · exact checked _ (by simp [refused])
        · simp

theorem splits_iff {method target : Bytes} (methodFree : 32 ∉ method) (targetFree : 32 ∉ target)
    (version : Bytes) (obj : HTTPReqObj) :
    deserializeReqLine (method ++ space ++ target ++ space ++ version) obj =
        { obj with method := method, reqTarget := target, version := version } ↔
      method.length < 2 ^ 16 ∧ target.length < 2 ^ 16 := by
  have shape : method ++ space ++ target ++ space ++ version =
      method ++ space ++ (target ++ space ++ version) := by simp
  rw [shape, deserializeReqLine_eq]
  simp only [HTTPReqObj.mk.injEq, and_true]
  constructor
  · rintro ⟨methodCut, targetCut, -⟩
    have methodShort := (cutAtSpace_lead_iff methodFree _).mp methodCut
    rw [cutAtSpace_short methodFree methodShort] at targetCut
    exact ⟨methodShort, (cutAtSpace_lead_iff targetFree _).mp targetCut⟩
  · rintro ⟨methodShort, targetShort⟩
    rw [cutAtSpace_short methodFree methodShort]
    simp only [cutAtSpace_short targetFree targetShort, and_self]

/-- A request line with two spaces is split at them exactly when both positions fit; one with fewer
leaves the target or the version empty, and is rejected for it, exactly when it is short enough. -/
theorem deserializeReqLine_iff (method target version line : Bytes) (obj : HTTPReqObj) :
    (32 ∉ method → 32 ∉ target →
      (deserializeReqLine (method ++ space ++ target ++ space ++ version) obj =
          { obj with method := method, reqTarget := target, version := version } ↔
        method.length < 2 ^ 16 ∧ target.length < 2 ^ 16)) ∧
      (line.count 32 < 2 →
        let parsed := deserializeReqLine line obj
        ((parsed.reqTarget = [] ∨ parsed.version = []) ↔ Unsplit line) ∧
          ∀ host connection,
            ((reqCheck host parsed connection).1 = .ok .reqPathErr ∨
              (reqCheck host parsed connection).1 = .ok .reqVersionErr) ↔ Unsplit line) := by
  constructor
  · intro methodFree targetFree
    exact splits_iff methodFree targetFree version obj
  · intro few parsed
    have rejected := unsplit_iff few
    refine ⟨rejected, fun host connection => ?_⟩
    rw [reqCheck_rejects_iff]
    exact rejected

theorem deserializeReqLine_plain :
    deserializeReqLine (ascii "GET" ++ space ++ ascii "/" ++ space ++ ascii "HTTP/1.0")
        HTTPReqObj.fresh =
      { HTTPReqObj.fresh with
        method := ascii "GET"
        reqTarget := ascii "/"
        version := ascii "HTTP/1.0" } ∧
      ((deserializeReqLine (ascii "GET /") HTTPReqObj.fresh).reqTarget = [] ∨
        (deserializeReqLine (ascii "GET /") HTTPReqObj.fresh).version = []) := by
  have unsplit : Unsplit (ascii "GET /") := Or.inl (by decide)
  have split := deserializeReqLine_iff (ascii "GET") (ascii "/") (ascii "HTTP/1.0") (ascii "GET /")
    HTTPReqObj.fresh
  exact ⟨(split.1 (by decide) (by decide)).mpr ⟨by decide, by decide⟩,
    (split.2 (by decide)).1.mpr unsplit⟩

/-- A method of `2 ^ 16` bytes is lost; a target one byte longer is cut in two, and what is left of
it passes for the version. -/
theorem deserializeReqLine_wraps :
    (¬∀ (method target version : Bytes) (obj : HTTPReqObj), 32 ∉ method → 32 ∉ target →
      deserializeReqLine (method ++ space ++ target ++ space ++ version) obj =
        { obj with method := method, reqTarget := target, version := version }) ∧
      ¬∀ (line : Bytes) (obj : HTTPReqObj), line.count 32 < 2 →
        (deserializeReqLine line obj).reqTarget = [] ∨ (deserializeReqLine line obj).version = [] := by
  obtain ⟨size, large⟩ : ∃ size : Nat, size = 2 ^ 16 := ⟨2 ^ 16, rfl⟩
  constructor
  · intro splits
    have free : (32 : UInt8) ∉ List.replicate size 65 := by simp [List.mem_replicate]
    have targetFree : 32 ∉ ascii "/" := by decide
    have short := (splits_iff free targetFree (ascii "HTTP/1.0") HTTPReqObj.fresh).mp
      (splits _ _ _ _ free targetFree)
    rw [List.length_replicate] at short
    omega
  · intro rejected
    have free : (32 : UInt8) ∉ List.replicate (size + 1) 97 := by simp [List.mem_replicate]
    have few : (ascii "GET" ++ space ++ List.replicate (size + 1) 97).count 32 < 2 := by
      rw [List.count_append, List.count_eq_zero.mpr free]
      decide
    have unsplit := (unsplit_iff few).mp (rejected _ HTTPReqObj.fresh few)
    have found : Text.find space (ascii "GET" ++ space ++ List.replicate (size + 1) 97) = some 3 :=
      Text.find_lead [] (by decide) _
    simp only [Unsplit, found, List.length_append, List.length_replicate,
      show (ascii "GET").length = 3 from rfl, show space.length = 1 from rfl] at unsplit
    omega

end LearnInternet.Http
