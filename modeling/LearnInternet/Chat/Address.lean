import LearnInternet.Lib.Decimal

/-!
The socket addresses of the chat programs: four octets and a port in network byte order, and the
text and the host number that `UdpServer` makes of them.
-/

namespace LearnInternet.Chat

structure InAddr where
  first : UInt8
  second : UInt8
  third : UInt8
  fourth : UInt8
  deriving DecidableEq, Repr

structure SockaddrIn where
  sinAddr : InAddr
  sinPort : UInt16
  deriving DecidableEq, Repr

/-- On a little-endian host. -/
def htons (hostshort : UInt16) : UInt16 :=
  UInt16.ofNat (hostshort.toNat % 256 * 256 + hostshort.toNat / 256)

def ntohs (netshort : UInt16) : UInt16 :=
  UInt16.ofNat (netshort.toNat % 256 * 256 + netshort.toNat / 256)

def inetNtoa (addr : InAddr) : Bytes :=
  Decimal.toBytes addr.first.toNat ++ 46 :: (Decimal.toBytes addr.second.toNat ++
    46 :: (Decimal.toBytes addr.third.toNat ++ 46 :: Decimal.toBytes addr.fourth.toNat))

theorem htons_ntohs (netshort : UInt16) : htons (ntohs netshort) = netshort := by
  have bound := netshort.toNat_lt
  have exchanged : (ntohs netshort).toNat = netshort.toNat % 256 * 256 + netshort.toNat / 256 := by
    rw [ntohs, UInt16.toNat_ofNat']
    omega
  have low : (ntohs netshort).toNat % 256 = netshort.toNat / 256 := by omega
  have high : (ntohs netshort).toNat / 256 = netshort.toNat % 256 := by omega
  apply UInt16.toNat_inj.mp
  rw [htons, low, high, UInt16.toNat_ofNat']
  omega

theorem not_mem_inetNtoa {byte : UInt8} (other : Decimal.isDigit byte = false) (noDot : byte ≠ 46)
    (addr : InAddr) : byte ∉ inetNtoa addr := by
  simp [inetNtoa, Decimal.not_mem_toBytes other, noDot]

theorem toBytes_dot_inj {left right : Nat} {leftRest rightRest : Bytes}
    (same : Decimal.toBytes left ++ 46 :: leftRest = Decimal.toBytes right ++ 46 :: rightRest) :
    left = right ∧ leftRest = rightRest := by
  have digits : ∀ (number : Nat) (rest : Bytes),
      (Decimal.toBytes number ++ 46 :: rest).takeWhile Decimal.isDigit = Decimal.toBytes number := by
    intro number rest
    rw [List.takeWhile_append_of_pos (fun byte member => Decimal.isDigit_of_mem_toBytes member)]
    simp [Decimal.isDigit]
  have front : Decimal.toBytes left = Decimal.toBytes right := by
    rw [← digits left leftRest, same, digits]
  rw [front] at same
  have back := List.append_cancel_left same
  exact ⟨Decimal.toBytes_injective front, (List.cons.inj back).2⟩

theorem inetNtoa_injective : Function.Injective inetNtoa := by
  intro left right same
  obtain ⟨first, sameAfterFirst⟩ := toBytes_dot_inj same
  obtain ⟨second, sameAfterSecond⟩ := toBytes_dot_inj sameAfterFirst
  obtain ⟨third, sameAfterThird⟩ := toBytes_dot_inj sameAfterSecond
  have fourth := Decimal.toBytes_injective sameAfterThird
  cases left
  cases right
  simp only [UInt8.toNat_inj] at first second third fourth
  rw [first, second, third, fourth]

end LearnInternet.Chat
