import LearnInternet.Chat.Server

/-!
Where `UdpServer::send` sends to: `inet_addr` reads the address that `inet_ntoa` has written, and much
else besides.
-/

namespace LearnInternet.Chat

/-- In the bases up to 16; 36 stands for no digit. -/
def digitValue (byte : UInt8) : Nat :=
  if 48 ≤ byte.toNat ∧ byte.toNat ≤ 57 then byte.toNat - 48
  else if 97 ≤ byte.toNat ∧ byte.toNat ≤ 102 then byte.toNat - 87
  else if 65 ≤ byte.toNat ∧ byte.toNat ≤ 70 then byte.toNat - 55
  else 36

def numberIn (base : Nat) (digits : Bytes) : Option Nat :=
  if digits ≠ [] ∧ (digits.all fun byte => digitValue byte < base) = true then
    some (digits.foldl (fun sofar byte => base * sofar + digitValue byte) 0)
  else none

def number (text : Bytes) : Option Nat :=
  match text with
  | 48 :: 120 :: digits => numberIn 16 digits
  | 48 :: 88 :: digits => numberIn 16 digits
  | 48 :: digits => numberIn 8 (48 :: digits)
  | digits => numberIn 10 digits

/-- The last of up to four numbers stands for the octets that are left. -/
def octets : List Nat → Option InAddr
  | [first, second, third, fourth] =>
      if first < 256 ∧ second < 256 ∧ third < 256 ∧ fourth < 256 then
        some ⟨UInt8.ofNat first, UInt8.ofNat second, UInt8.ofNat third, UInt8.ofNat fourth⟩
      else none
  | [first, second, rest] =>
      if first < 256 ∧ second < 256 ∧ rest < 2 ^ 16 then
        some ⟨UInt8.ofNat first, UInt8.ofNat second, UInt8.ofNat (rest / 2 ^ 8), UInt8.ofNat rest⟩
      else none
  | [first, rest] =>
      if first < 256 ∧ rest < 2 ^ 24 then
        some ⟨UInt8.ofNat first, UInt8.ofNat (rest / 2 ^ 16), UInt8.ofNat (rest / 2 ^ 8),
          UInt8.ofNat rest⟩
      else none
  | [rest] =>
      if rest < 2 ^ 32 then
        some ⟨UInt8.ofNat (rest / 2 ^ 24), UInt8.ofNat (rest / 2 ^ 16), UInt8.ofNat (rest / 2 ^ 8),
          UInt8.ofNat rest⟩
      else none
  | _ => none

def inetAton (cp : Bytes) : Option InAddr :=
  match ((cp.takeWhile fun byte => !Decimal.isSpace byte).splitOn 46).mapM number with
  | none => none
  | some numbers => octets numbers

/-- `INADDR_NONE` is an address too. -/
def inetAddr (cp : Bytes) : InAddr := (inetAton cp).getD ⟨255, 255, 255, 255⟩

def UdpServer.send (outgoing : Outgoing) : Datagram :=
  ⟨⟨inetAddr outgoing.dstIp, htons outgoing.dstPort.toUInt16⟩, outgoing.msg⟩

theorem number_octet (octet : UInt8) : number (Decimal.toBytes octet.toNat) = some octet.toNat := by
  have checked : ((List.range 256).all fun value =>
      decide (number (Decimal.toBytes value) = some value)) = true := by
    decide +kernel
  exact of_decide_eq_true
    (List.all_eq_true.mp checked octet.toNat (List.mem_range.mpr octet.toNat_lt))

theorem inetAton_inetNtoa (addr : InAddr) : inetAton (inetNtoa addr) = some addr := by
  have noSpace : (inetNtoa addr).takeWhile (fun byte => !Decimal.isSpace byte) = inetNtoa addr := by
    rw [List.takeWhile_eq_self_iff]
    intro byte member
    cases space : Decimal.isSpace byte with
    | false => rfl
    | true =>
        exfalso
        refine not_mem_inetNtoa ?_ ?_ addr member
        · by_contra digit
          rw [Decimal.isSpace_eq_false_of_isDigit (by simpa using digit)] at space
          cases space
        · rintro rfl
          revert space
          decide
  have part (value : Nat) : (46 : UInt8) ∉ Decimal.toBytes value :=
    Decimal.not_mem_toBytes (by decide) value
  have parts : (inetNtoa addr).splitOn 46 =
      [Decimal.toBytes addr.first.toNat, Decimal.toBytes addr.second.toNat,
        Decimal.toBytes addr.third.toNat, Decimal.toBytes addr.fourth.toNat] := by
    rw [inetNtoa, List.splitOn_append_cons_self_of_not_mem (part _),
      List.splitOn_append_cons_self_of_not_mem (part _),
      List.splitOn_append_cons_self_of_not_mem (part _), List.splitOn_eq_singleton (part _)]
  have numbers : ((inetNtoa addr).splitOn 46).mapM number =
      some [addr.first.toNat, addr.second.toNat, addr.third.toNat, addr.fourth.toNat] := by
    rw [parts]
    simp [number_octet]
  have small := And.intro addr.first.toNat_lt (And.intro addr.second.toNat_lt
    (And.intro addr.third.toNat_lt addr.fourth.toNat_lt))
  rw [inetAton, noSpace, numbers]
  simp only [octets]
  rw [if_pos small]
  simp

theorem inetAddr_inetNtoa (addr : InAddr) : inetAddr (inetNtoa addr) = addr := by
  rw [inetAddr, inetAton_inetNtoa, Option.getD_some]

end LearnInternet.Chat
