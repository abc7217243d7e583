import FlannelRs.HostLocalCommands
import FlannelRs.RoundRobin

/-!
# The next address of an allocator

`next_ip` goes through the indices of a filtered list, and wraps at its end. What it finds
is the first free host in the round of the hosts that begins just after the cursor.
-/

namespace FlannelRs.NextAddress
open Ipv4Addresses HostLocal RoundRobin

variable {a : Allocator} {cursor : Option Ipv4Addr} {last ip : Ipv4Addr}

/-- An address of the subnet that may be handed out. -/
def Host (a : Allocator) (ip : Ipv4Addr) : Prop :=
  a.net.contains ip = true ∧ ip ≠ a.net.network ∧ ip ≠ a.net.broadcast ∧ ip ≠ a.gateway

instance (a : Allocator) (ip : Ipv4Addr) : Decidable (Host a ip) := instDecidableAnd

/-- The place of an address in the round that begins just after the cursor: the addresses up
to the cursor come after those above it. The round begins with the lowest address if the
cursor is absent or not a host. -/
def place (a : Allocator) (cursor : Option Ipv4Addr) (ip : Ipv4Addr) : ℕ :=
  match cursor with
  | some last => if Host a last ∧ ip.toNat ≤ last.toNat then 2 ^ 32 + ip.toNat else ip.toNat
  | none => ip.toNat

theorem mem_usableHosts : ip ∈ a.usableHosts ↔ Host a ip := Allocator.mem_usableHosts

theorem pairwise_usableHosts (a : Allocator) : a.usableHosts.Pairwise (·.toNat < ·.toNat) :=
  a.net.pairwise_iter.filter _

theorem place_above (h : last.toNat < ip.toNat) : place a (some last) ip = ip.toNat :=
  if_neg fun hle => absurd hle.2 (by omega)

theorem place_upTo (hlast : Host a last) (h : ip.toNat ≤ last.toNat) :
    place a (some last) ip = 2 ^ 32 + ip.toNat :=
  if_pos ⟨hlast, h⟩

theorem place_lowest (h : ∀ last, cursor = some last → ¬ Host a last) (ip : Ipv4Addr) :
    place a cursor ip = ip.toNat := by
  cases cursor with
  | none => rfl
  | some last => exact if_neg fun hle => h last rfl hle.1

/-- The round after a host goes up to the highest host, begins again with the lowest one and
ends with the host itself. -/
theorem pairwise_round {u v : List Ipv4Addr} (hosts : a.usableHosts = u ++ last :: v) :
    (v ++ u ++ [last]).Pairwise fun x y => place a (some last) x < place a (some last) y := by
  have hlast : Host a last := mem_usableHosts.mp (by simp [hosts])
  have hall := pairwise_usableHosts a
  rw [hosts] at hall
  obtain ⟨hu, hv, hbelow⟩ := List.pairwise_append.mp hall
  obtain ⟨habove, hv⟩ := List.pairwise_cons.mp hv
  have hplaceV : ∀ x ∈ v, place a (some last) x = x.toNat := fun x hx =>
    place_above (habove x hx)
  have hplaceU : ∀ x ∈ u, place a (some last) x = 2 ^ 32 + x.toNat := fun x hx =>
    place_upTo hlast (Nat.le_of_lt (hbelow x hx last (by simp)))
  have hend : place a (some last) last = 2 ^ 32 + last.toNat := place_upTo hlast (Nat.le_refl _)
  rw [List.append_assoc, List.pairwise_append, List.pairwise_append]
  refine ⟨hv.imp_of_mem ?_, ⟨hu.imp_of_mem ?_, by simp, ?_⟩, ?_⟩
  · intro x y hx hy hlt
    rwa [hplaceV x hx, hplaceV y hy]
  · intro x y hx hy hlt
    rw [hplaceU x hx, hplaceU y hy]
    omega
  · intro x hx y hy
    have hlt := hbelow x hx last (by simp)
    rw [List.mem_singleton.mp hy, hplaceU x hx, hend]
    omega
  · intro x hx y hy
    have hwrapped : 2 ^ 32 ≤ place a (some last) y := by
      rcases List.mem_append.mp hy with hy | hy
      · rw [hplaceU y hy]
        omega
      · rw [List.mem_singleton.mp hy, hend]
        omega
    have hlt := x.isLt
    rw [hplaceV x hx]
    omega

/-- The loop is a search over a rotation of the hosts. -/
theorem nextIp_eq_find? (a : Allocator) (leased : List Ipv4Addr) (cursor : Option Ipv4Addr) :
    a.nextIp leased cursor =
      (a.usableHosts.rotate (((cursor.bind fun last => a.usableHosts.idxOf? last).map
        (· + 1)).getD 0)).find? (· ∉ leased) := by
  have hfree : (fun ip => if ip ∈ leased then none else some ip) =
      Option.guard fun ip : Ipv4Addr => decide (ip ∉ leased) := by
    funext ip
    by_cases h : ip ∈ leased <;> simp [Option.guard, h]
  simp only [Allocator.nextIp, hfree, findSome?_wrapping, List.findSome?_guard]
  split
  · rename_i hempty
    simp [List.isEmpty_iff.mp hempty]
  · cases cursor <;> rfl

/-- With a host as the cursor. -/
theorem nextIp_after (hlast : last ∈ a.usableHosts) (leased : List Ipv4Addr) :
    ∃ u v, a.usableHosts = u ++ last :: v ∧
      a.nextIp leased (some last) = (v ++ u ++ [last]).find? (· ∉ leased) := by
  obtain ⟨u, v, hosts, hu⟩ := List.eq_append_cons_of_mem hlast
  have hindex : a.usableHosts.idxOf? last = some u.length := by
    rw [hosts, List.idxOf?_eq_some_iff]
    refine ⟨by simp, by simp, fun j hj he => hu ?_⟩
    rw [List.getElem_append_left hj] at he
    exact he ▸ List.getElem_mem hj
  refine ⟨u, v, hosts, ?_⟩
  rw [nextIp_eq_find?, Option.bind_some, hindex, Option.map_some, Option.getD_some, hosts,
    rotate_past]

/-- Without a host as the cursor. -/
theorem nextIp_lowest (h : ∀ last, cursor = some last → ¬ Host a last)
    (leased : List Ipv4Addr) :
    a.nextIp leased cursor = a.usableHosts.find? (· ∉ leased) := by
  have hindex : (cursor.bind fun last => a.usableHosts.idxOf? last) = none := by
    cases cursor with
    | none => rfl
    | some last =>
      rw [Option.bind_some, List.idxOf?_eq_none_iff, mem_usableHosts]
      exact h last rfl
  rw [nextIp_eq_find?, hindex, Option.map_none, Option.getD_none, List.rotate_zero]

/-- The loop is a search over the hosts in the order of the round. -/
theorem exists_round (a : Allocator) (leased : List Ipv4Addr) (cursor : Option Ipv4Addr) :
    ∃ round : List Ipv4Addr, (∀ ip, ip ∈ round ↔ Host a ip) ∧
      round.Pairwise (place a cursor · < place a cursor ·) ∧
      a.nextIp leased cursor = round.find? (· ∉ leased) := by
  by_cases h : ∃ last, cursor = some last ∧ Host a last
  · obtain ⟨last, rfl, hlast⟩ := h
    obtain ⟨u, v, hosts, hnext⟩ := nextIp_after (mem_usableHosts.mpr hlast) leased
    refine ⟨v ++ u ++ [last], fun ip => ?_, pairwise_round hosts, hnext⟩
    rw [← mem_usableHosts, hosts]
    simp only [List.mem_append, List.mem_cons, List.not_mem_nil, or_false]
    tauto
  · have hnot : ∀ last, cursor = some last → ¬ Host a last := fun last he hlast =>
      h ⟨last, he, hlast⟩
    refine ⟨a.usableHosts, fun ip => mem_usableHosts, ?_, nextIp_lowest hnot leased⟩
    simp only [place_lowest hnot]
    exact pairwise_usableHosts a

/-- An allocator is out of addresses when all hosts are leased. Otherwise it hands out the
free host that comes first after the cursor. -/
theorem next_ip_exact (net : Ipv4Network) (gateway : Option Ipv4Addr) (leased : List Ipv4Addr)
    (cursor : Option Ipv4Addr) :
    ((Allocator.new net gateway).nextIp leased cursor = none ↔
      ∀ ip, Host (.new net gateway) ip → ip ∈ leased) ∧
    ∀ ip, (Allocator.new net gateway).nextIp leased cursor = some ip ↔
      Host (.new net gateway) ip ∧ ip ∉ leased ∧
      ∀ x, Host (.new net gateway) x → x ∉ leased →
        place (.new net gateway) cursor ip ≤ place (.new net gateway) cursor x := by
  obtain ⟨round, hmem, hascending, hnext⟩ := exists_round (.new net gateway) leased cursor
  rw [hnext]
  constructor
  · rw [List.find?_eq_none]
    simp only [hmem, decide_not, Bool.not_eq_true', decide_eq_false_iff_not, not_not]
  · intro ip
    rw [find?_eq_some_iff_least hascending]
    simp only [hmem, decide_eq_true_eq]

example : (Allocator.new ⟨.ofOctets 10 244 1 0, 29, by omega⟩ none).nextIp
    [.ofOctets 10 244 1 5, .ofOctets 10 244 1 6] (some (.ofOctets 10 244 1 4)) =
      some (.ofOctets 10 244 1 2) := by decide +kernel

end FlannelRs.NextAddress
