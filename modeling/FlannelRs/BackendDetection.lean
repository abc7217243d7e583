import FlannelRs.RustText

/-!
# The `iptables` backends that `flanneld` and the plugins pick

Both look for the table that `kube-proxy` works on, each in a way of its own: `ipmasq.rs` of
`flanneld` and `iptables.rs` of the shared `cni` crate.
-/

namespace FlannelRs.BackendDetection
open RustText

/-- What listing the `nat` table gave. -/
structure Listing where
  success : Bool
  stdout : String

/-- The listing by each binary that could be run. -/
abbrev Listings := String → Option Listing

/-- `str::starts_with`. -/
def startsWith (s pattern : String) : Bool := pattern.toList <+: s.toList

variable (run : Listings)

def backendSignal (backend : String) : Bool × ℕ :=
  match run backend with
  | none => (false, 0)
  | some out =>
    if !out.success then (false, 0)
    else ((lines out.stdout).any (contains · "KUBE-"),
      ((lines out.stdout).filter (startsWith · "-A")).length)

/-- `IpMasq::detect`. -/
def detectIpMasq : String :=
  let (nftKube, nftRules) := backendSignal run "iptables-nft"
  let (legacyKube, legacyRules) := backendSignal run "iptables-legacy"
  match nftKube, legacyKube with
  | true, false => "iptables-nft"
  | false, true => "iptables-legacy"
  | _, _ =>
    if nftRules ≥ legacyRules && (nftRules > 0 || nftKube) then "iptables-nft"
    else if legacyRules > 0 || legacyKube then "iptables-legacy"
    else "iptables"

def holdsKube (backend : String) : Bool :=
  match run backend with
  | none => false
  | some out => out.success && contains out.stdout "KUBE-"

/-- `Iptables::detect`. -/
def detectIptables : String :=
  (["iptables-nft", "iptables-legacy"].find? (holdsKube run)).getD "iptables"

/-- The first signal is the plugins' as well. -/
theorem backendSignal_fst (run : Listings) (backend : String) :
    (backendSignal run backend).1 = holdsKube run backend := by
  unfold backendSignal holdsKube
  cases run backend with
  | none => rfl
  | some out =>
    have hlines := @any_lines_contains "KUBE-" (by decide) (by decide) (by decide) out.stdout
    cases hs : out.success <;> simp [hs, hlines]

/-- The two pick the same binary if one table alone has the chains of `kube-proxy`, if both
have them and `iptables-nft` does not list fewer rules, and if neither has them nor any
rule. -/
theorem detect_eq_iff (run : Listings) : detectIpMasq run = detectIptables run ↔
    let (nftKube, nftRules) := backendSignal run "iptables-nft"
    let (legacyKube, legacyRules) := backendSignal run "iptables-legacy"
    match nftKube, legacyKube with
    | true, true => legacyRules ≤ nftRules
    | false, false => nftRules = 0 ∧ legacyRules = 0
    | _, _ => True := by
  have hnft := backendSignal_fst run "iptables-nft"
  have hlegacy := backendSignal_fst run "iptables-legacy"
  simp only [detectIpMasq, detectIptables, List.find?_cons, List.find?_nil, ← hnft, ← hlegacy]
  obtain ⟨nftKube, nftRules⟩ := backendSignal run "iptables-nft"
  obtain ⟨legacyKube, legacyRules⟩ := backendSignal run "iptables-legacy"
  cases nftKube with
  | true =>
    cases legacyKube with
    | true =>
      by_cases hle : legacyRules ≤ nftRules
      · simp [hle]
      · simp [hle]
    | false => simp
  | false =>
    cases legacyKube with
    | true => simp
    | false =>
      by_cases hle : legacyRules ≤ nftRules
      · by_cases hpos : 0 < nftRules
        · simp [hle, hpos]
          omega
        · simp [hle, hpos]
          omega
      · have hpos : 0 < legacyRules := by omega
        simp [hle, hpos]
        omega

/-- `kube-proxy` works on the legacy table, and an old chain of it is left in the other. -/
def bothTables : Listings
  | "iptables-nft" => some ⟨true, "-P POSTROUTING ACCEPT\n-N KUBE-MARK-MASQ\n"⟩
  | "iptables-legacy" => some ⟨true, "-N KUBE-SERVICES\n-A PREROUTING -j KUBE-SERVICES\n"⟩
  | _ => none

theorem bothTables_disagree : ¬detectIpMasq bothTables = detectIptables bothTables := by
  decide +kernel

end FlannelRs.BackendDetection
