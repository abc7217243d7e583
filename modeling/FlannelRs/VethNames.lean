import FlannelRs.BridgePlugin

/-!
# The names of the two ends of a veth pair

Both ends stand in the namespace of the host while an ADD wires its pod, and the ends of
every other pod with them. The names are made of the container id alone.
-/

namespace FlannelRs.VethNames
open InteractionPrograms Bridge CniTypes RustText

/-- What is alphanumeric in `a` is a `c` and then the beginning of what is in `b`, as far as
both come into a name. -/
def Mimics (a b : String) : Prop :=
  ∃ rest, sanitizedId a = 'c' :: rest ∧ rest.take 10 = (sanitizedId b).take 10

theorem utf8Size_of_isAsciiAlphanumeric {c : Char} (h : isAsciiAlphanumeric c = true) :
    c.utf8Size = 1 := by
  rw [Char.utf8Size_eq_one_iff]
  have hle : ∀ d : Char, d.val ≤ 127 → c ≤ d → c.val ≤ 127 := fun d hd hc => UInt32.le_trans hc hd
  simp only [isAsciiAlphanumeric, decide_eq_true_eq] at h
  rcases h with h | h | h
  · exact hle '9' (by decide) h.2
  · exact hle 'Z' (by decide) h.2
  · exact hle 'z' (by decide) h.2

theorem utf8ByteSize_ofList {cs : List Char} (h : ∀ c ∈ cs, isAsciiAlphanumeric c = true) :
    (String.ofList cs).utf8ByteSize = cs.length := by
  induction cs with
  | nil => rfl
  | cons c cs ih =>
    have hc := utf8Size_of_isAsciiAlphanumeric (h c List.mem_cons_self)
    have hcs := ih fun d hd => h d (List.mem_cons_of_mem c hd)
    rw [String.ofList_cons, String.utf8ByteSize_append, String.utf8ByteSize_singleton, hc, hcs,
      List.length_cons, Nat.add_comm]

theorem utf8ByteSize_take (id : String) (n : ℕ) :
    (String.ofList ((sanitizedId id).take n)).utf8ByteSize ≤ n := by
  rw [utf8ByteSize_ofList]
  · exact List.length_take_le n _
  · exact fun c hc => (List.mem_filter.mp (List.mem_of_mem_take hc)).2

theorem hostVethName_le (id : String) : (hostVethName id).utf8ByteSize ≤ ifnameMax := by
  have h := utf8ByteSize_take id 11
  have hveth : "veth".utf8ByteSize = 4 := by decide
  rw [hostVethName, String.utf8ByteSize_append, hveth]
  unfold ifnameMax
  omega

theorem tempContName_le (id : String) : (tempContName id).utf8ByteSize ≤ ifnameMax := by
  have h := utf8ByteSize_take id (ifnameMax - 5)
  have hvethc : "vethc".utf8ByteSize = 5 := by decide
  rw [tempContName, String.utf8ByteSize_append, hvethc]
  unfold ifnameMax at *
  omega

theorem names_eq_iff (a b : String) : hostVethName a = tempContName b ↔
    (sanitizedId a).take 11 = 'c' :: (sanitizedId b).take 10 := by
  rw [← String.toList_inj]
  simp [hostVethName, tempContName, ifnameMax]

theorem clash_iff (a b : String) : hostVethName a = tempContName b ↔ Mimics a b := by
  rw [names_eq_iff, Mimics]
  constructor
  · intro h
    cases hid : sanitizedId a with
    | nil => simp [hid] at h
    | cons c rest =>
      rw [hid, List.take_succ_cons] at h
      obtain ⟨rfl, hrest⟩ := List.cons.inj h
      exact ⟨rest, rfl, hrest⟩
  · rintro ⟨rest, hid, hrest⟩
    rw [hid, List.take_succ_cons, hrest]

/-- The names are short enough for the kernel. They differ exactly if the first id does not
mimic the second. -/
theorem veth_names_apart_iff (a b : String) :
    (hostVethName a ≠ tempContName b ∧ (hostVethName a).utf8ByteSize ≤ ifnameMax ∧
      (tempContName b).utf8ByteSize ≤ ifnameMax) ↔ ¬ Mimics a b := by
  rw [← clash_iff]
  exact ⟨fun h => h.1, fun h => ⟨h, hostVethName_le a, tempContName_le b⟩⟩

/-- A pod whose id begins with `c` has the name of another one's temporary end. -/
theorem veth_names_clash :
    hostVethName "cabcdef0123456789" = tempContName "abcdef0123fedcba" := by
  decide +kernel

end FlannelRs.VethNames
