import FlannelRs.KernelTables

/-!
# Where a kernel sends a packet

The most specific routes decide. Behind a gateway on the link of a tunnel stand a hardware
address and the address of the underlay that the frame is sent to.
-/

namespace FlannelRs.PacketForwarding
open Ipv4Addresses CniTypes Flanneld KernelTables

/-- The address begins with the first `len` bits of `dst`. -/
def covers (dst : Ipv4Addr) (len : ℕ) (ip : Ipv4Addr) : Bool :=
  ip.toNat / 2 ^ (32 - len) = dst.toNat / 2 ^ (32 - len)

/-- A packet leaves by the interface `oif` for an address of the underlay. Through a tunnel it
goes in a frame to the hardware address. -/
structure Hop where
  len : ℕ
  oif : ℕ
  underlay : Ipv4Addr
  mac : Option Mac
  deriving DecidableEq

def hop (k : Kernel) (len oif : ℕ) (g : Gateway) : Option Hop :=
  if g.onlink then do
    let mac ← k.neighbours.lookup (oif, g.addr)
    let underlay ← k.fdb.lookup (oif, mac)
    return ⟨len, oif, underlay, some mac⟩
  else some ⟨len, oif, g.addr, none⟩

/-- The routes for an address. -/
def matching (k : Kernel) (ip : Ipv4Addr) : List (Sigma fun _ : Ipv4Addr × ℕ × ℕ => Gateway) :=
  k.routes.entries.filter fun e => covers e.1.1 e.1.2.1 ip

/-- The hops that the most specific routes lead to. A packet without one is dropped. -/
def hops (k : Kernel) (ip : Ipv4Addr) : List Hop :=
  ((matching k ip).filter fun e => (matching k ip).all fun e' => e'.1.2.1 ≤ e.1.2.1).filterMap
    fun e => hop k e.1.2.1 e.1.2.2 e.2

variable {k : Kernel} {ip : Ipv4Addr}

theorem mem_matching {dst : Ipv4Addr} {len oif : ℕ} {g : Gateway} :
    ⟨(dst, len, oif), g⟩ ∈ matching k ip ↔
      k.routes.lookup (dst, len, oif) = some g ∧ covers dst len ip = true := by
  have h : k.routes.lookup (dst, len, oif) = some g ↔ ⟨(dst, len, oif), g⟩ ∈ k.routes.entries :=
    AList.mem_lookup_iff
  rw [matching, List.mem_filter, h]

/-- A hop belongs to a route that no other one is more specific than. -/
theorem mem_hops {h : Hop} : h ∈ hops k ip ↔ ∃ dst len oif g,
    k.routes.lookup (dst, len, oif) = some g ∧ covers dst len ip = true ∧
    (∀ dst' len' oif' g', k.routes.lookup (dst', len', oif') = some g' →
      covers dst' len' ip = true → len' ≤ len) ∧ hop k len oif g = some h := by
  simp only [hops, List.mem_filterMap, List.mem_filter, List.all_eq_true, decide_eq_true_eq]
  constructor
  · rintro ⟨⟨⟨dst, len, oif⟩, g⟩, ⟨hmatch, hmost⟩, hhop⟩
    obtain ⟨hroute, hcovers⟩ := mem_matching.mp hmatch
    refine ⟨dst, len, oif, g, hroute, hcovers, fun dst' len' oif' g' hroute' hcovers' => ?_, hhop⟩
    exact hmost ⟨(dst', len', oif'), g'⟩ (mem_matching.mpr ⟨hroute', hcovers'⟩)
  · rintro ⟨dst, len, oif, g, hroute, hcovers, hmost, hhop⟩
    refine ⟨⟨(dst, len, oif), g⟩, ⟨mem_matching.mpr ⟨hroute, hcovers⟩, fun e' he' => ?_⟩, hhop⟩
    obtain ⟨⟨dst', len', oif'⟩, g'⟩ := e'
    obtain ⟨hroute', hcovers'⟩ := mem_matching.mp he'
    exact hmost dst' len' oif' g' hroute' hcovers'

/-- What stands behind a hop through a tunnel. -/
theorem hop_onlink {len oif : ℕ} {gw : Ipv4Addr} {h : Hop}
    (hhop : hop k len oif ⟨gw, true⟩ = some h) : ∃ mac underlay,
      k.neighbours.lookup (oif, gw) = some mac ∧ k.fdb.lookup (oif, mac) = some underlay ∧
      h = ⟨len, oif, underlay, some mac⟩ := by
  simp only [hop, if_true, Option.bind_eq_bind, Option.bind_eq_some_iff] at hhop
  obtain ⟨mac, hmac, underlay, hunderlay, hh⟩ := hhop
  exact ⟨mac, underlay, hmac, hunderlay, (Option.some.inj hh).symm⟩

/-- A hop keeps the length and the interface of its route. -/
theorem hop_route {len oif : ℕ} {g : Gateway} {h : Hop} (hhop : hop k len oif g = some h) :
    h.len = len ∧ h.oif = oif := by
  obtain ⟨addr, onlink⟩ := g
  cases onlink with
  | false =>
    obtain rfl : (⟨len, oif, addr, none⟩ : Hop) = h := Option.some.inj hhop
    exact ⟨rfl, rfl⟩
  | true =>
    obtain ⟨mac, underlay, -, -, rfl⟩ := hop_onlink hhop
    exact ⟨rfl, rfl⟩

theorem covers_network (n : Ipv4Network) (ip : Ipv4Addr) :
    covers n.network n.len ip = n.contains ip := by
  have hnet : n.network.toNat = n.ip.toNat / n.size * n.size := rfl
  have hsize : n.size = 2 ^ (32 - n.len) := rfl
  rw [covers, Ipv4Network.contains, ← hsize, hnet, Nat.mul_div_cancel _ n.size_pos]

/-- A route that is as specific as a network of which it covers an address leads to an address
of the network. -/
theorem contains_of_covers {n : Ipv4Network} {dst ip : Ipv4Addr} {len : ℕ} (hlen : n.len ≤ len)
    (hcovers : covers dst len ip = true) (hip : n.contains ip = true) : n.contains dst = true := by
  have hsize : n.size = 2 ^ (32 - len) * 2 ^ (32 - n.len - (32 - len)) := by
    rw [← Nat.pow_add, Ipv4Network.size]
    congr 1
    omega
  simp only [covers, Ipv4Network.contains, decide_eq_true_eq] at hcovers hip ⊢
  rw [← hip, hsize, ← Nat.div_div_eq_div_mul, ← Nat.div_div_eq_div_mul, hcovers]

theorem view_route {dst : Ipv4Addr} {len dev : ℕ} {v : Value} :
    k.view dev (.route dst len) = some v ↔
      ∃ g, k.routes.lookup (dst, len, dev) = some g ∧ v = .gateway g := by
  simp [Kernel.view, eq_comm]

theorem view_neighbour {dev : ℕ} {v : Value} :
    k.view dev (.neighbour ip) = some v ↔
      ∃ m, k.neighbours.lookup (dev, ip) = some m ∧ v = .mac m := by
  simp [Kernel.view, eq_comm]

theorem view_fdb {m : Mac} {dev : ℕ} {v : Value} :
    k.view dev (.fdb m) = some v ↔ ∃ u, k.fdb.lookup (dev, m) = some u ∧ v = .underlay u := by
  simp [Kernel.view, eq_comm]

end FlannelRs.PacketForwarding
