import LearnInternet.Calculator.Client

/-!
What `CalculatorClient::run` makes of a line from the keyboard.
-/

namespace LearnInternet.Calculator

open LearnInternet

namespace CalculatorClient

/-- `substr(0, find_first_of(' '))` and what `erase(0, find_first_of(' ') + 1)` leaves. Without a
blank the first takes everything, and the second, `npos + 1` being zero, erases nothing. -/
def nextPiece (buff : Bytes) : Bytes × Bytes :=
  match Text.findFirstOf [32] buff with
  | none => (buff, buff)
  | some index => (buff.take index, buff.drop (index + 1))

/-- `oper_str[0]` is a null character when the string is empty. -/
def readInfo (line : Bytes) : Except Abort Info :=
  let (xStr, buff) := nextPiece line
  let (operStr, buff) := nextPiece buff
  let (yStr, _) := nextPiece buff
  match Decimal.stoi xStr with
  | .error failure => .error (Abort.ofConversion failure)
  | .ok x =>
      match Decimal.stoi yStr with
      | .error failure => .error (Abort.ofConversion failure)
      | .ok y => .ok ⟨Int16.ofInt x, Int16.ofInt y, (operStr.headD 0).toInt8⟩

def ask (json : JsonCpp) (protocol : ProtocolClient) (line : Bytes) :
    Except Abort Info × ProtocolClient :=
  match readInfo line with
  | .error abort => (.error abort, protocol)
  | .ok info => (.ok info, (protocol.deliver json info).2)

/-! ### Pieces -/

theorem nextPiece_absent {buff : Bytes} (absent : 32 ∉ buff) : nextPiece buff = (buff, buff) := by
  have none : Text.findFirstOf [32] buff = none := by
    apply Text.findFirstOf_eq_none.mpr
    intro letter member
    rw [List.mem_singleton]
    rintro rfl
    exact absent member
  rw [nextPiece, none]

theorem nextPiece_lead {lead : Bytes} (absent : 32 ∉ lead) (rest : Bytes) :
    nextPiece (lead ++ 32 :: rest) = (lead, rest) := by
  have found : Text.findFirstOf [32] (lead ++ 32 :: rest) = some lead.length := by
    apply Text.findFirstOf_lead _ (by simp)
    intro letter member
    rw [List.mem_singleton]
    rintro rfl
    exact absent member
  have width : lead.length + 1 = (lead ++ [32]).length := by simp
  rw [nextPiece, found]
  simp only [List.take_left, Prod.mk.injEq, true_and]
  rw [width, show lead ++ 32 :: rest = (lead ++ [32]) ++ rest by simp, List.drop_left]

def operands (line : Bytes) : Bytes × Bytes :=
  (((line.splitOn 32).take 3).headD [], ((line.splitOn 32).take 3).getLastD [])

theorem nextPiece_head (buff : Bytes) : (nextPiece buff).1 = (buff.splitOn 32).headD [] := by
  by_cases member : 32 ∈ buff
  · obtain ⟨lead, rest, rfl, absent⟩ := List.eq_append_cons_of_mem member
    rw [nextPiece_lead absent, List.splitOn_append_cons_self_of_not_mem absent]
    rfl
  · rw [nextPiece_absent member, List.splitOn_eq_singleton member]
    rfl

theorem pieces_eq_operands (line : Bytes) :
    ((nextPiece line).1, (nextPiece (nextPiece (nextPiece line).2).2).1) = operands line := by
  by_cases member : 32 ∈ line
  · obtain ⟨first, rest, rfl, absent⟩ := List.eq_append_cons_of_mem member
    rw [nextPiece_lead absent, operands, List.splitOn_append_cons_self_of_not_mem absent]
    by_cases second : 32 ∈ rest
    · obtain ⟨middle, last, rfl, middleAbsent⟩ := List.eq_append_cons_of_mem second
      rw [nextPiece_lead middleAbsent, nextPiece_head,
        List.splitOn_append_cons_self_of_not_mem middleAbsent]
      obtain ⟨third, more, split⟩ := List.exists_cons_of_ne_nil (List.splitOn_ne_nil 32 last)
      simp [split]
    · rw [nextPiece_absent second, nextPiece_absent second, List.splitOn_eq_singleton second]
      rfl
  · rw [nextPiece_absent member, nextPiece_absent member, nextPiece_absent member, operands,
      List.splitOn_eq_singleton member]
    rfl

/-! ### Expressions -/

def Expression (line : Bytes) (x : Int) (oper : UInt8) (y : Int) : Prop :=
  ∃ left right, line = left ++ 32 :: oper :: 32 :: right ∧ oper ≠ 32 ∧
    Decimal.Literal left x ∧ Decimal.Literal right y ∧
    (-2 ^ 15 ≤ x ∧ x < 2 ^ 15) ∧ (-2 ^ 15 ≤ y ∧ y < 2 ^ 15)

/-- A request goes out for expressions and for nothing else, and carries their operands and their
operator. -/
structure AcceptsExactly (json : JsonCpp) (protocol : ProtocolClient) (line : Bytes) : Prop where
  accepted : ∀ x oper y, Expression line x oper y →
    ∃ info, ask json protocol line = (.ok info, (protocol.deliver json info).2) ∧
      info.x.toInt = x ∧ info.y.toInt = y ∧ info.oper = oper.toInt8
  refused : (¬∃ x oper y, Expression line x oper y) →
    (ask json protocol line).2.sock.sent = protocol.sock.sent

def Converts (text : Bytes) : Prop :=
  (Decimal.scan text).digits ≠ [] ∧ -2 ^ 31 ≤ (Decimal.scan text).toInt ∧
    (Decimal.scan text).toInt < 2 ^ 31

theorem converts_iff (text : Bytes) : Converts text ↔ ∃ value, Decimal.stoi text = .ok value := by
  simp only [Decimal.stoi_ok_iff, Converts]
  constructor
  · rintro ⟨digits, low, high⟩
    exact ⟨_, digits, low, high, rfl⟩
  · rintro ⟨value, digits, low, high, rfl⟩
    exact ⟨digits, low, high⟩

theorem readInfo_expression {line : Bytes} {x y : Int} {oper : UInt8}
    (expression : Expression line x oper y) :
    readInfo line = .ok ⟨Int16.ofInt x, Int16.ofInt y, oper.toInt8⟩ := by
  obtain ⟨left, right, rfl, notBlank, leftLiteral, rightLiteral, xBounds, yBounds⟩ := expression
  have blank : Decimal.isSpace 32 = true := by decide
  have leftFree := leftLiteral.not_mem_of_isSpace blank
  have operFree : (32 : UInt8) ∉ [oper] := by simpa using notBlank.symm
  have operPiece : nextPiece (oper :: 32 :: right) = ([oper], right) :=
    nextPiece_lead operFree right
  simp only [readInfo, nextPiece_lead leftFree, operPiece,
    nextPiece_absent (rightLiteral.not_mem_of_isSpace blank),
    leftLiteral.stoi (by omega) (by omega), rightLiteral.stoi (by omega) (by omega),
    List.headD_cons]

theorem readInfo_ok_iff (line : Bytes) :
    (∃ info, readInfo line = .ok info) ↔
      Converts (operands line).1 ∧ Converts (operands line).2 := by
  rw [← pieces_eq_operands, converts_iff, converts_iff]
  simp only [readInfo]
  cases Decimal.stoi (nextPiece line).1 with
  | error failure => simp
  | ok x =>
      cases Decimal.stoi (nextPiece (nextPiece (nextPiece line).2).2).1 with
      | error failure => simp
      | ok y => simp

theorem acceptsExactly_iff (json : JsonCpp) (protocol : ProtocolClient) (line : Bytes) :
    AcceptsExactly json protocol line ↔
      (∃ x oper y, Expression line x oper y) ∨
        ¬(Converts (operands line).1 ∧ Converts (operands line).2) := by
  rw [← readInfo_ok_iff]
  constructor
  · intro accepts
    by_cases expression : ∃ x oper y, Expression line x oper y
    · exact Or.inl expression
    · right
      rintro ⟨info, read⟩
      have silent := accepts.refused expression
      simp [ask, read, ProtocolClient.deliver] at silent
  · intro condition
    refine ⟨?_, ?_⟩
    · intro x oper y expression
      refine ⟨_, by rw [ask, readInfo_expression expression], ?_, ?_, rfl⟩
      · obtain ⟨-, -, -, -, -, -, bounds, -⟩ := expression
        exact Int16.toInt_ofInt_of_le bounds.1 bounds.2
      · obtain ⟨-, -, -, -, -, -, -, bounds⟩ := expression
        exact Int16.toInt_ofInt_of_le bounds.1 bounds.2
    · intro other
      have unread := condition.resolve_left other
      cases read : readInfo line with
      | error abort => rw [ask, read]
      | ok info => exact absurd ⟨info, read⟩ unread

theorem ask_sends_number :
    ¬∀ (protocol : ProtocolClient) (line : Bytes), AcceptsExactly talkJson protocol line := by
  intro accepts
  have noExpression : ¬∃ x oper y, Expression (ascii "5") x oper y := by
    rintro ⟨x, oper, y, left, right, split, -⟩
    have blank : (32 : UInt8) ∈ ascii "5" := by
      rw [split]
      simp
    revert blank
    decide
  have silent := (accepts ⟨[], Socket.ofChunks []⟩ (ascii "5")).refused noExpression
  revert silent
  decide

end CalculatorClient

end LearnInternet.Calculator
