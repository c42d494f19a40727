/-
NetVars.Ipv4 — network and host of an IPv4 address, `testcases/lib/tst_net_vars.c`.
-/
import LtpDdt.CTypes.Decimal
import LtpDdt.CTypes.CString

namespace LtpDdt.NetVars

open CTypes List

/-- An address in dotted decimal. -/
def dotted : List UInt8 → List UInt8
  | [] => []
  | [a] => decimal a.toNat
  | a :: b :: os => decimal a.toNat ++ 0x2e :: dotted (b :: os)

/-- `htonl(ip)`: the first octet is the highest one. -/
def hostOrder (os : List UInt8) : Nat := os.foldl (fun ip o => ip * 256 + o.toNat) 0

/-- `prefix` without its low bits, for IPv4 -/
def roundDownPrefix (bits : Nat) : Nat := bits / 8 * 8

/-- The rounds with `i` from `8 * k`. -/
def networkLoop (ip bits : Nat) : Nat → List UInt8
  | 0 => []
  | k + 1 =>
    let i := 8 * (k + 1)
    (if i < bits then [0x2e] else []) ++ decimal (ip / 2 ^ i % 256) ++ networkLoop ip bits k

def getIpv4Network (ip bits : Nat) : Option (List UInt8) :=
  if 32 < bits then none
  else if bits = 32 then some []
  else some (networkLoop ip (bits &&& 24) ((bits &&& 24) / 8))

/-- `none` is `NULL`, or a failed assertion. `strstr` finds `net` at the begin if it is there. -/
def getHostFromIp (ip net : List UInt8) : Option (List UInt8) :=
  if ¬ net <+: ip then none
  else if net.length = ip.length then some []
  else if net = [] then some ip
  else if ip[net.length]? ∈ [some 0x3a, some 0x2e] then some (ip.drop (net.length + 1)) else none

/-- The network has the first octets and the host the others. -/
def Ipv4Right (os : List UInt8) (bits : Nat) : Prop :=
  getIpv4Network (hostOrder os) (roundDownPrefix bits) = some (dotted (os.take (bits / 8))) ∧
    getHostFromIp (dotted os) (dotted (os.take (bits / 8))) = some (dotted (os.drop (bits / 8))) ∧
    dotted (os.take (bits / 8)) ++ 0x2e :: dotted (os.drop (bits / 8)) = dotted os

lemma getHostFromIp_append (net host : List UInt8) (h : net ≠ []) :
    getHostFromIp (net ++ 0x2e :: host) net = some host := by
  rw [getHostFromIp, if_neg (not_not.2 (prefix_append _ _)), if_neg (by simp), if_neg h, if_pos]
  · simp
  · simp

lemma decimal_inj {a b : UInt8} : decimal a.toNat = decimal b.toNat ↔ a = b := by
  refine ⟨fun h => UInt8.toNat_inj.1 ?_, fun h => h ▸ rfl⟩
  rw [← leadingDigits_decimal a.toNat, h, leadingDigits_decimal]

lemma dotted_pair {a b c d : UInt8} : decimal a.toNat ++ 0x2e :: decimal b.toNat =
    decimal c.toNat ++ 0x2e :: decimal d.toNat ↔ a = c ∧ b = d := by
  have hdot : isDigitByte 0x2e = false := by decide
  constructor
  · intro h
    have hfirst := congrArg (takeWhile isDigitByte) h
    rw [takeWhile_append_stop (isDigitByte_decimal _) hdot,
      takeWhile_append_stop (isDigitByte_decimal _) hdot] at hfirst
    rw [hfirst] at h
    exact ⟨decimal_inj.1 hfirst, decimal_inj.1 (cons.inj (append_cancel_left h)).2⟩
  · rintro ⟨rfl, rfl⟩
    rfl

/-- The text of the octets that are taken for the first `k`. -/
lemma networkLoop_octets (a b c d : UInt8) : networkLoop (hostOrder [a, b, c, d]) 8 1 = dotted [c] ∧
    networkLoop (hostOrder [a, b, c, d]) 16 2 = dotted [b, c] ∧
    networkLoop (hostOrder [a, b, c, d]) 24 3 = dotted [a, b, c] := by
  have ha := a.toNat_lt
  have hb := b.toNat_lt
  have hc := c.toNat_lt
  have hd := d.toNat_lt
  have hip : hostOrder [a, b, c, d] =
      ((a.toNat * 256 + b.toNat) * 256 + c.toNat) * 256 + d.toNat := by
    simp [hostOrder]
  have h₁ : hostOrder [a, b, c, d] / 2 ^ 24 % 256 = a.toNat := by omega
  have h₂ : hostOrder [a, b, c, d] / 2 ^ 16 % 256 = b.toNat := by omega
  have h₃ : hostOrder [a, b, c, d] / 2 ^ 8 % 256 = c.toNat := by omega
  simp only [networkLoop, Nat.reduceAdd, Nat.reduceMul, h₁, h₂, h₃, dotted]
  simp

/-- With the right network the host is right too. -/
lemma ipv4Right_iff_network {os bits k} (hk : bits / 8 = k) (hlt : k < 4)
    (hne : dotted (os.take k) ≠ [])
    (hos : dotted os = dotted (os.take k) ++ 0x2e :: dotted (os.drop k)) :
    Ipv4Right os bits ↔ networkLoop (hostOrder os) (8 * k) k = dotted (os.take k) := by
  have hand : k * 8 &&& 24 = 8 * k := (by decide : ∀ k < 4, k * 8 &&& 24 = 8 * k) k hlt
  rw [Ipv4Right, roundDownPrefix, hk, hos, getHostFromIp_append _ _ hne, getIpv4Network,
    if_neg (by omega), if_neg (by omega), hand, Nat.mul_div_cancel_left _ (by decide)]
  simp

/-- **Network and host** of an address are right for prefixes from 24 on; before that only if the
octets that are taken for the first ones are the same. -/
theorem ipv4_right_iff (a b c d : UInt8) (bits : Nat) (h8 : 8 ≤ bits) (h31 : bits ≤ 31) :
    Ipv4Right [a, b, c, d] bits ↔
      24 ≤ bits ∨ (16 ≤ bits ∧ a = b ∧ b = c) ∨ (bits < 16 ∧ a = c) := by
  obtain ⟨h₁, h₂, h₃⟩ := networkLoop_octets a b c d
  obtain hk | hk | hk : bits / 8 = 1 ∨ bits / 8 = 2 ∨ bits / 8 = 3 := by omega
  · rw [ipv4Right_iff_network hk (by decide) (by simp [dotted, decimal_ne_nil])
      (by simp [dotted]), h₁]
    change decimal _ = decimal _ ↔ _
    rw [decimal_inj]
    grind
  · rw [ipv4Right_iff_network hk (by decide) (by simp [dotted]) (by simp [dotted]), h₂]
    change decimal _ ++ 0x2e :: decimal _ = decimal _ ++ 0x2e :: decimal _ ↔ _
    rw [dotted_pair]
    grind
  · rw [ipv4Right_iff_network hk (by decide) (by simp [dotted]) (by simp [dotted]), h₃]
    exact iff_of_true rfl (.inl (by omega))

/-- The network of 10.1.2.3/16 comes out as 1.2. -/
theorem ipv4_network_shifted :
    getIpv4Network (hostOrder [10, 1, 2, 3]) (roundDownPrefix 16) = some (dotted [1, 2]) := by
  simp [getIpv4Network, hostOrder, roundDownPrefix, networkLoop, dotted]

theorem ipv4_right_class_c : Ipv4Right [192, 168, 1, 7] 24 :=
  (ipv4_right_iff 192 168 1 7 24 (by decide) (by decide)).2 (.inl (by decide))

end LtpDdt.NetVars
