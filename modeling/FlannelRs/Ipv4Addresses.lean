import FlannelRs.RustText
import Mathlib.Data.List.Nodup
import Mathlib.Tactic.IntervalCases

/-!
# IPv4 addresses and networks, and their texts

`Ipv4Addr` and its text follow `std::net`. `Ipv4Network` follows what version 0.20 of the
`ipnetwork` crate documents of `ip`, `prefix`, `size`, `network`, `broadcast`, `contains` and
`iter`. How the crate reads the text of a network is not defined here.
-/

namespace FlannelRs.Ipv4Addresses
open RustText

/-- `std::net::Ipv4Addr` as the number `u32::from` gives. -/
structure Ipv4Addr where
  toNat : ℕ
  isLt : toNat < 2 ^ 32
  deriving DecidableEq

namespace Ipv4Addr

theorem ext_toNat {a b : Ipv4Addr} (h : a.toNat = b.toNat) : a = b := by
  cases a; cases b; cases h; rfl

/-- `Ipv4Addr::from(u32)`, which wraps like the `u32` it is given. -/
def ofNat (n : ℕ) : Ipv4Addr := ⟨n % 2 ^ 32, Nat.mod_lt _ (by decide)⟩

theorem toNat_ofNat {n : ℕ} (h : n < 2 ^ 32) : (ofNat n).toNat = n := Nat.mod_eq_of_lt h

theorem ofNat_toNat (a : Ipv4Addr) : ofNat a.toNat = a := ext_toNat (toNat_ofNat a.isLt)

def octet (ip : Ipv4Addr) (i : ℕ) : ℕ := ip.toNat / 256 ^ i % 256

theorem octet_lt (ip : Ipv4Addr) (i : ℕ) : ip.octet i < 256 := Nat.mod_lt _ (by decide)

def ofOctets (a b c d : ℕ) : Ipv4Addr := ofNat (((a * 256 + b) * 256 + c) * 256 + d)

/-- `Display`: four decimal octets, the most significant one first. -/
protected def toString (ip : Ipv4Addr) : String :=
  (ip.octet 3).repr ++ "." ++ (ip.octet 2).repr ++ "." ++ (ip.octet 1).repr ++ "." ++
    (ip.octet 0).repr

end Ipv4Addr

/-- One octet of an address text: one to three digits without a leading zero. -/
def parseOctet (cs : List Char) : Option ℕ :=
  if cs ≠ [] ∧ cs.length ≤ 3 ∧ cs.all Char.isDigit ∧ (cs.head? = some '0' → cs.length = 1) ∧
      Nat.ofDigitChars 10 cs 0 < 256 then
    some (Nat.ofDigitChars 10 cs 0)
  else none

/-- `str::parse::<Ipv4Addr>`. -/
def parseIpv4 (s : String) : Option Ipv4Addr :=
  match s.toList.splitOn '.' with
  | [a, b, c, d] => do
    return .ofOctets (← parseOctet a) (← parseOctet b) (← parseOctet c) (← parseOctet d)
  | _ => none

private theorem length_toDigits_octet {n : ℕ} (h : n < 256) :
    (Nat.toDigits 10 n).length ≤ 3 :=
  (Nat.length_toDigits_le_iff (by omega) (by omega)).mpr (by omega)

private theorem head_toDigits {n : ℕ} (h : (Nat.toDigits 10 n).head? = some '0') :
    (Nat.toDigits 10 n).length = 1 := by
  by_cases hn : n < 10
  · simp [Nat.toDigits_of_lt_base hn]
  · exfalso
    have key : ∀ m : ℕ, 0 < m → (Nat.toDigits 10 m).head? ≠ some '0' := by
      intro m
      induction m using Nat.strongRecOn with
      | ind m ih =>
        intro hm
        by_cases hlt : m < 10
        · rw [Nat.toDigits_of_lt_base hlt]
          simp only [List.head?_cons, ne_eq, Option.some.injEq, Nat.digitChar_eq_zero]
          omega
        · rw [Nat.toDigits_of_base_le (by omega) (by omega)]
          have hr := ih (m / 10) (by omega) (by omega)
          cases hd : Nat.toDigits 10 (m / 10) with
          | nil => exact absurd hd Nat.toDigits_ne_nil
          | cons a l => simpa [hd] using hr
    exact key n (by omega) h

@[simp] theorem parseOctet_toDigits {n : ℕ} (h : n < 256) :
    parseOctet (Nat.toDigits 10 n) = some n := by
  have hall : (Nat.toDigits 10 n).all Char.isDigit = true :=
    List.all_eq_true.mpr fun c hc => isDigit_of_mem_toDigits hc
  rw [parseOctet, if_pos ?_, Nat.ofDigitChars_ten_toDigits]
  refine ⟨Nat.toDigits_ne_nil, length_toDigits_octet h, hall, head_toDigits, ?_⟩
  rwa [Nat.ofDigitChars_ten_toDigits]

theorem parseOctet_eq_some {cs : List Char} {n : ℕ} (h : parseOctet cs = some n) :
    n < 256 ∧ cs = Nat.toDigits 10 n := by
  unfold parseOctet at h
  split at h
  · rename_i hc
    obtain ⟨hne, -, hall, hhead, hlt⟩ := hc
    obtain rfl := Option.some.inj h
    have hd : ∀ c ∈ cs, c.isDigit = true := List.all_eq_true.mp hall
    exact ⟨hlt, (toDigits_ofDigitChars cs hne hd hhead).symm⟩
  · cases h

namespace Ipv4Addr

theorem splitOn_toString (ip : Ipv4Addr) : ip.toString.toList.splitOn '.' =
    [Nat.toDigits 10 (ip.octet 3), Nat.toDigits 10 (ip.octet 2), Nat.toDigits 10 (ip.octet 1),
      Nat.toDigits 10 (ip.octet 0)] := by
  have hdot : ∀ n, '.' ∉ Nat.toDigits 10 n := fun n => not_mem_toDigits (by decide)
  have hl : ip.toString.toList = Nat.toDigits 10 (ip.octet 3) ++ '.' ::
      (Nat.toDigits 10 (ip.octet 2) ++ '.' :: (Nat.toDigits 10 (ip.octet 1) ++ '.' ::
        Nat.toDigits 10 (ip.octet 0))) := by
    simp [Ipv4Addr.toString]
  rw [hl, List.splitOn_append_cons_self_of_not_mem (hdot _),
    List.splitOn_append_cons_self_of_not_mem (hdot _),
    List.splitOn_append_cons_self_of_not_mem (hdot _), List.splitOn_eq_singleton (hdot _)]

theorem not_mem_toString (ip : Ipv4Addr) {c : Char} (hd : c.isDigit = false) (hdot : c ≠ '.') :
    c ∉ ip.toString.toList := by
  have hdigits : ∀ n, c ∉ Nat.toDigits 10 n := fun n => not_mem_toDigits hd
  simp [Ipv4Addr.toString, hdigits, hdot]

theorem ofOctets_octet (ip : Ipv4Addr) :
    ofOctets (ip.octet 3) (ip.octet 2) (ip.octet 1) (ip.octet 0) = ip := by
  apply ext_toNat
  have h := ip.isLt
  simp only [ofOctets, ofNat, octet]
  norm_num
  omega

/-- Printing an address and reading it back. -/
@[simp] theorem parseIpv4_toString (ip : Ipv4Addr) : parseIpv4 ip.toString = some ip := by
  rw [parseIpv4, splitOn_toString]
  simp [octet_lt, ofOctets_octet]

end Ipv4Addr

/-- Only the printed text of an address is read as that address. -/
theorem eq_toString_of_parseIpv4 {s : String} {ip : Ipv4Addr} (h : parseIpv4 s = some ip) :
    s = ip.toString := by
  unfold parseIpv4 at h
  split at h
  · rename_i a b c d hsplit
    simp only [Option.pure_def, Option.bind_eq_bind, Option.bind_eq_some_iff] at h
    obtain ⟨na, ha, nb, hb, nc, hc, nd, hd, hip⟩ := h
    obtain ⟨hna, rfl⟩ := parseOctet_eq_some ha
    obtain ⟨hnb, rfl⟩ := parseOctet_eq_some hb
    obtain ⟨hnc, rfl⟩ := parseOctet_eq_some hc
    obtain ⟨hnd, rfl⟩ := parseOctet_eq_some hd
    obtain rfl := Option.some.inj hip
    have ho : ∀ i, (Ipv4Addr.ofOctets na nb nc nd).octet i =
        ((((na * 256 + nb) * 256 + nc) * 256 + nd) % 2 ^ 32) / 256 ^ i % 256 := fun i => rfl
    have h3 : (Ipv4Addr.ofOctets na nb nc nd).octet 3 = na := by rw [ho]; norm_num; omega
    have h2 : (Ipv4Addr.ofOctets na nb nc nd).octet 2 = nb := by rw [ho]; norm_num; omega
    have h1 : (Ipv4Addr.ofOctets na nb nc nd).octet 1 = nc := by rw [ho]; norm_num; omega
    have h0 : (Ipv4Addr.ofOctets na nb nc nd).octet 0 = nd := by rw [ho]; norm_num; omega
    apply String.toList_inj.mp
    calc s.toList = ['.'].intercalate (s.toList.splitOn '.') :=
          (List.intercalate_splitOn '.').symm
      _ = ['.'].intercalate ((Ipv4Addr.ofOctets na nb nc nd).toString.toList.splitOn '.') := by
          rw [Ipv4Addr.splitOn_toString, hsplit, h3, h2, h1, h0]
      _ = (Ipv4Addr.ofOctets na nb nc nd).toString.toList := List.intercalate_splitOn '.'
  · cases h

/-- The addresses among some texts. -/
theorem mem_filterMap_parseIpv4 {texts : List String} {ip : Ipv4Addr} :
    ip ∈ texts.filterMap parseIpv4 ↔ ip.toString ∈ texts := by
  rw [List.mem_filterMap]
  constructor
  · rintro ⟨text, htext, hip⟩
    rwa [← eq_toString_of_parseIpv4 hip]
  · exact fun h => ⟨_, h, ip.parseIpv4_toString⟩

theorem Ipv4Addr.toString_injective : Function.Injective Ipv4Addr.toString := by
  intro a b h
  have ha := a.parseIpv4_toString
  rw [h, b.parseIpv4_toString] at ha
  exact (Option.some.inj ha).symm

/-- `ipnetwork::Ipv4Network`: the address that it was made of, host bits included, and its prefix
length, of which `Ipv4Network::new` allows at most 32. -/
structure Ipv4Network where
  ip : Ipv4Addr
  len : ℕ
  len_le : len ≤ 32
  deriving DecidableEq

namespace Ipv4Network

/-- The length that stands for a single address. -/
theorem whole_le : 32 ≤ 32 := le_rfl

/-- `size`: the number of possible host addresses in the network. -/
def size (n : Ipv4Network) : ℕ := 2 ^ (32 - n.len)

theorem size_pos (n : Ipv4Network) : 0 < n.size := Nat.two_pow_pos _

theorem size_dvd (n : Ipv4Network) : n.size ∣ 2 ^ 32 :=
  pow_dvd_pow 2 (by omega)

/-- `network`: the lowest possible address inside of the network, which is the address masked by
the prefix. -/
def network (n : Ipv4Network) : Ipv4Addr :=
  ⟨n.ip.toNat / n.size * n.size, (Nat.div_mul_le_self _ _).trans_lt n.ip.isLt⟩

theorem network_add_lt (n : Ipv4Network) {k : ℕ} (hk : k < n.size) :
    n.network.toNat + k < 2 ^ 32 := by
  obtain ⟨q, hq⟩ := n.size_dvd
  have hdiv : n.ip.toNat / n.size < q := by
    rw [Nat.div_lt_iff_lt_mul n.size_pos, Nat.mul_comm]
    exact hq ▸ n.ip.isLt
  calc n.ip.toNat / n.size * n.size + k < (n.ip.toNat / n.size + 1) * n.size := by
        rw [Nat.add_mul, Nat.one_mul]; omega
    _ ≤ q * n.size := Nat.mul_le_mul_right _ hdiv
    _ = 2 ^ 32 := by rw [hq, Nat.mul_comm]

/-- `broadcast`: the highest possible address inside of the network. -/
def broadcast (n : Ipv4Network) : Ipv4Addr :=
  ⟨n.network.toNat + (n.size - 1), n.network_add_lt (by have := n.size_pos; omega)⟩

/-- `contains`: the given address, masked by the prefix, is that of the network. -/
def contains (n : Ipv4Network) (a : Ipv4Addr) : Bool :=
  a.toNat / n.size = n.ip.toNat / n.size

/-- `iter`: all addresses of the network, from the lowest one to the highest one. -/
def iter (n : Ipv4Network) : List Ipv4Addr :=
  (List.range n.size).map fun k => .ofNat (n.network.toNat + k)

theorem contains_of_offset {n : Ipv4Network} {a : Ipv4Addr} {k : ℕ}
    (ha : a.toNat = n.network.toNat + k) (hk : k < n.size) : n.contains a = true := by
  have hnet : n.network.toNat = n.ip.toNat / n.size * n.size := rfl
  rw [contains, decide_eq_true_eq, ha, hnet, Nat.add_comm, Nat.add_mul_div_right _ _ n.size_pos,
    Nat.div_eq_of_lt hk, Nat.zero_add]

theorem offset_of_contains {n : Ipv4Network} {a : Ipv4Addr} (h : n.contains a = true) :
    a.toNat = n.network.toNat + a.toNat % n.size := by
  have hnet : n.network.toNat = n.ip.toNat / n.size * n.size := rfl
  rw [contains, decide_eq_true_eq] at h
  rw [hnet, ← h, Nat.mul_comm, Nat.div_add_mod]

theorem contains_network (n : Ipv4Network) : n.contains n.network = true :=
  contains_of_offset (Nat.add_zero _).symm n.size_pos

theorem contains_broadcast (n : Ipv4Network) : n.contains n.broadcast = true := by
  have hpos := n.size_pos
  exact contains_of_offset (k := n.size - 1) rfl (by omega)

/-- No address of the network is below `network` or above `broadcast`. -/
theorem network_le_of_contains {n : Ipv4Network} {a : Ipv4Addr} (h : n.contains a = true) :
    n.network.toNat ≤ a.toNat ∧ a.toNat ≤ n.broadcast.toNat := by
  have hoffset := offset_of_contains h
  have hlt := Nat.mod_lt a.toNat n.size_pos
  have hbroadcast : n.broadcast.toNat = n.network.toNat + (n.size - 1) := rfl
  omega

/-- The iterator returns the addresses that the network contains, and no others. -/
theorem mem_iter {n : Ipv4Network} {a : Ipv4Addr} : a ∈ n.iter ↔ n.contains a = true := by
  rw [iter, List.mem_map]
  constructor
  · rintro ⟨k, hk, rfl⟩
    have hlt := List.mem_range.mp hk
    exact contains_of_offset (Ipv4Addr.toNat_ofNat (n.network_add_lt hlt)) hlt
  · intro h
    refine ⟨a.toNat % n.size, List.mem_range.mpr (Nat.mod_lt _ n.size_pos), ?_⟩
    rw [← offset_of_contains h, Ipv4Addr.ofNat_toNat]

theorem pairwise_iter (n : Ipv4Network) : n.iter.Pairwise (·.toNat < ·.toNat) := by
  rw [iter, List.pairwise_map]
  apply List.pairwise_lt_range.imp_of_mem
  intro k l hk hl hlt
  rw [Ipv4Addr.toNat_ofNat (n.network_add_lt (List.mem_range.mp hk)),
    Ipv4Addr.toNat_ofNat (n.network_add_lt (List.mem_range.mp hl))]
  omega

theorem nodup_iter (n : Ipv4Network) : n.iter.Nodup := by
  apply n.pairwise_iter.imp
  intro a b hlt he
  exact absurd (he ▸ hlt) (Nat.lt_irrefl _)

end Ipv4Network

end FlannelRs.Ipv4Addresses
