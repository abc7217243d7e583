import Mathlib.Data.List.DropRight
import Mathlib.Data.List.Induction
import Mathlib.Data.List.Infix
import Mathlib.Data.Nat.Basic

/-!
# The text functions of Rust's standard library

A `String` is the sequence of its characters, as a Rust `str` is. The functions work on
that sequence; their names are those of `std`.
-/

namespace FlannelRs.RustText

/-- Unicode `White_Space`, which `str::trim` removes. -/
def isWhitespace (c : Char) : Bool :=
  let n := c.toNat
  (9 ≤ n && n ≤ 13) || n = 32 || n = 0x85 || n = 0xa0 || n = 0x1680 ||
    (0x2000 ≤ n && n ≤ 0x200a) || n = 0x2028 || n = 0x2029 || n = 0x202f || n = 0x205f ||
    n = 0x3000

def trim (s : String) : String :=
  String.ofList ((s.toList.dropWhile isWhitespace).reverse.dropWhile isWhitespace).reverse

/-- `str::lines` drops a carriage return only in front of a line feed. -/
def stripCarriageReturn (cs : List Char) : List Char :=
  if cs.getLast? = some '\r' then cs.dropLast else cs

def lines (s : String) : List String :=
  let pieces := s.toList.splitOn '\n'
  let last := pieces.getLast?.getD []
  (pieces.dropLast.map stripCarriageReturn ++ if last = [] then [] else [last]).map
    String.ofList

def splitOn (c : Char) (s : String) : List String :=
  (s.toList.splitOn c).map String.ofList

/-- A string as `{:?}` prints it. Of the control characters only those with a short
escape are escaped here. -/
def debugText (s : String) : String :=
  let escape : Char → List Char
    | '"' => ['\\', '"']
    | '\\' => ['\\', '\\']
    | '\n' => ['\\', 'n']
    | '\r' => ['\\', 'r']
    | '\t' => ['\\', 't']
    | c => if c.val = 0 then ['\\', '0'] else [c]
  "\"" ++ String.ofList (s.toList.flatMap escape) ++ "\""

/-- `str::contains`. -/
def contains (s pattern : String) : Bool := pattern.toList <:+: s.toList

/-- `PathBuf::join`. -/
def joinPath (dir name : String) : String :=
  if name.toList.head? = some '/' then name
  else if dir = "" ∨ dir.toList.getLast? = some '/' then dir ++ name
  else dir ++ "/" ++ name

/-- `str::parse` for the unsigned integers below `bound`. -/
def parseUnsigned (bound : ℕ) (s : String) : Option ℕ :=
  let digits := match s.toList with
    | '+' :: cs => cs
    | cs => cs
  if digits ≠ [] ∧ digits.all Char.isDigit ∧ Nat.ofDigitChars 10 digits 0 < bound then
    some (Nat.ofDigitChars 10 digits 0)
  else none

def hexDigit (c : Char) : Option ℕ :=
  if c.isDigit then some (c.toNat - '0'.toNat)
  else if 'a' ≤ c ∧ c ≤ 'f' then some (c.toNat - 'a'.toNat + 10)
  else if 'A' ≤ c ∧ c ≤ 'F' then some (c.toNat - 'A'.toNat + 10)
  else none

/-- Two pieces around one separator. -/
theorem splitOn_pair {c : Char} {a b sep : String} (hsep : sep.toList = [c]) (ha : c ∉ a.toList)
    (hb : c ∉ b.toList) : splitOn c (a ++ sep ++ b) = [a, b] := by
  have hl : (a ++ sep ++ b).toList = a.toList ++ c :: b.toList := by simp [hsep]
  rw [splitOn, hl, List.splitOn_append_cons_self_of_not_mem ha, List.splitOn_eq_singleton hb]
  simp

theorem isDigit_of_mem_toDigits {n : ℕ} {c : Char} (h : c ∈ Nat.toDigits 10 n) :
    c.isDigit = true :=
  Nat.isDigit_of_mem_toDigits (by omega) (by omega) h

theorem not_mem_toDigits {n : ℕ} {c : Char} (h : c.isDigit = false) :
    c ∉ Nat.toDigits 10 n := by
  intro hc
  rw [isDigit_of_mem_toDigits hc] at h
  cases h

theorem not_mem_repr {n : ℕ} {c : Char} (h : c.isDigit = false) : c ∉ n.repr.toList := by
  rw [Nat.toList_repr]
  exact not_mem_toDigits h

private theorem noPlus (cs : List Char) : (∀ c ∈ cs, c.isDigit = true) →
    (match cs with
      | '+' :: cs => cs
      | cs => cs) = cs := by
  intro h
  split
  · cases h '+' List.mem_cons_self
  · rfl

theorem parseUnsigned_digits {bound : ℕ} {cs : List Char} (hne : cs ≠ [])
    (h : ∀ c ∈ cs, c.isDigit = true) (hlt : Nat.ofDigitChars 10 cs 0 < bound) :
    parseUnsigned bound (String.ofList cs) = some (Nat.ofDigitChars 10 cs 0) := by
  simp [parseUnsigned, noPlus cs h, hne, List.all_eq_true.mpr h, hlt]

/-- Printing a number and reading it back. -/
theorem parseUnsigned_repr {bound n : ℕ} (h : n < bound) :
    parseUnsigned bound n.repr = some n := by
  have hvalue := Nat.ofDigitChars_ten_toDigits (n := n)
  have hlt : Nat.ofDigitChars 10 (Nat.toDigits 10 n) 0 < bound := hvalue.symm ▸ h
  have hparse := parseUnsigned_digits Nat.toDigits_ne_nil
    (fun c hc => isDigit_of_mem_toDigits hc) hlt
  rwa [hvalue, ← Nat.toList_repr, String.ofList_toList] at hparse

theorem lt_of_parseUnsigned_repr {bound n k : ℕ} (h : parseUnsigned bound n.repr = some k) :
    n < bound := by
  have hdigits := noPlus (Nat.toDigits 10 n) fun c hc => isDigit_of_mem_toDigits hc
  rw [parseUnsigned, Nat.toList_repr, hdigits] at h
  obtain ⟨⟨-, -, hlt⟩, -⟩ := Option.ite_none_right_eq_some.mp h
  rwa [Nat.ofDigitChars_ten_toDigits] at hlt

theorem mem_of_parseUnsigned {bound n : ℕ} {s : String} (h : parseUnsigned bound s = some n)
    {c : Char} (hc : c ∈ s.toList) : c.isDigit = true ∨ c = '+' := by
  simp only [parseUnsigned, Option.ite_none_right_eq_some] at h
  obtain ⟨⟨-, hall, -⟩, -⟩ := h
  split at hall
  · rename_i cs heq
    rw [heq] at hc
    rcases List.mem_cons.mp hc with h | hc
    · exact .inr h
    · exact .inl (List.all_eq_true.mp hall c hc)
  · exact .inl (List.all_eq_true.mp hall c hc)

/-- Of the printed digits of a number, some of the first ones: they are read as that number
only if they are all of them. -/
theorem parseUnsigned_cut {bound n : ℕ} (h : n < bound) {cs : List Char}
    (hcs : cs <+: n.repr.toList) (hne : cs ≠ []) :
    ∃ k < bound, parseUnsigned bound (String.ofList cs) = some k ∧ (k = n ↔ cs = n.repr.toList) := by
  rw [Nat.toList_repr] at hcs ⊢
  obtain ⟨rest, hrest⟩ := hcs
  have hdigit : ∀ c ∈ cs, c.isDigit = true := by
    intro c hc
    exact isDigit_of_mem_toDigits (hrest ▸ List.mem_append_left rest hc)
  have hvalue : n = 10 ^ rest.length * Nat.ofDigitChars 10 cs 0 + Nat.ofDigitChars 10 rest 0 := by
    rw [← Nat.ofDigitChars_eq_ofDigitChars_zero, ← Nat.ofDigitChars_append, hrest,
      Nat.ofDigitChars_ten_toDigits]
  have hle : Nat.ofDigitChars 10 cs 0 ≤ n := by
    have hpow := Nat.one_le_pow rest.length 10 (by omega)
    calc Nat.ofDigitChars 10 cs 0 ≤ 10 ^ rest.length * Nat.ofDigitChars 10 cs 0 :=
          Nat.le_mul_of_pos_left _ hpow
      _ ≤ n := by omega
  have hparse := parseUnsigned_digits hne hdigit (hle.trans_lt h)
  refine ⟨Nat.ofDigitChars 10 cs 0, hle.trans_lt h, hparse, ?_, ?_⟩
  · intro heq
    rw [heq] at hvalue
    cases rest with
    | nil => simpa using hrest
    | cons c rest =>
      exfalso
      -- ten times the number is at most the number, which is then a single zero
      have hzero : n = 0 := by
        rw [List.length_cons, Nat.pow_succ] at hvalue
        have hpow := Nat.one_le_pow rest.length 10 (by omega)
        have hten : 10 * n ≤ 10 ^ rest.length * 10 * n :=
          Nat.mul_le_mul_right n (by omega)
        omega
      have hlen := congrArg List.length hrest
      rw [hzero] at hlen
      have hpos := List.length_pos_iff.mpr hne
      simp at hlen
      omega
  · intro heq
    rw [heq, Nat.ofDigitChars_ten_toDigits]

private theorem exists_digitChar {c : Char} (h : c.isDigit = true) :
    ∃ d < 10, c = Nat.digitChar d := by
  have h0 : ('0' : Char).val.toNat = 48 := rfl
  have h9 : ('9' : Char).val.toNat = 57 := rfl
  have hc : c.toNat = c.val.toNat := rfl
  simp only [Char.isDigit, Bool.and_eq_true, decide_eq_true_eq, UInt32.le_iff_toNat_le] at h
  have hd : c.toNat - 48 < 10 := by omega
  refine ⟨c.toNat - 48, hd, Char.toNat_inj.mp ?_⟩
  rw [Nat.toNat_digitChar_of_lt_ten hd]
  omega

/-- A digit text without a leading zero is the one that is printed for its number. -/
theorem toDigits_ofDigitChars (cs : List Char) (hne : cs ≠ [])
    (hd : ∀ c ∈ cs, c.isDigit = true) (h0 : cs.head? = some '0' → cs.length = 1) :
    Nat.toDigits 10 (Nat.ofDigitChars 10 cs 0) = cs := by
  induction cs using List.reverseRecOn with
  | nil => exact absurd rfl hne
  | append_singleton l c ih =>
    obtain ⟨d, hd10, rfl⟩ := exists_digitChar (hd c (by simp))
    have hval : Nat.ofDigitChars 10 (l ++ [d.digitChar]) 0
        = 10 * Nat.ofDigitChars 10 l 0 + d := by
      rw [Nat.ofDigitChars_append, Nat.ofDigitChars_cons_digitChar_of_lt_ten hd10]
      simp
    rw [hval]
    cases l with
    | nil => simp [Nat.toDigits_of_lt_base hd10]
    | cons a l =>
      have hdig : ∀ x ∈ a :: l, x.isDigit = true := fun x hx =>
        hd x (List.mem_append_left _ hx)
      have hhead : a ≠ '0' := by
        intro ha
        have := h0 (by simp [ha])
        simp at this
      have hl := ih (by simp) hdig (by simp [hhead])
      have hpos : 0 < Nat.ofDigitChars 10 (a :: l) 0 := by
        by_contra hz
        have hz : Nat.ofDigitChars 10 (a :: l) 0 = 0 := by omega
        rw [hz, Nat.toDigits_zero] at hl
        exact hhead (List.cons.inj hl).1.symm
      rw [← Nat.toDigits_append_toDigits (by omega) hpos hd10, hl,
        Nat.toDigits_of_lt_base hd10]

/-- The lines of two joined by one line feed. -/
theorem lines_pair {a b : String} (ha : '\n' ∉ a.toList)
    (ha' : a.toList.getLast? ≠ some '\r') (hb : '\n' ∉ b.toList) (hne : b ≠ "") :
    lines (a ++ "\n" ++ b) = [a, b] := by
  have hsplit : (a ++ "\n" ++ b).toList.splitOn '\n' = [a.toList, b.toList] := by
    have hl : (a ++ "\n" ++ b).toList = a.toList ++ '\n' :: b.toList := by simp
    rw [hl, List.splitOn_append_cons_self_of_not_mem ha, List.splitOn_eq_singleton hb]
  have hstrip : stripCarriageReturn a.toList = a.toList := by
    simp [stripCarriageReturn, ha']
  have hbl : b.toList ≠ [] := fun h => hne (String.toList_inj.mp (by simpa using h))
  simp only [lines, hsplit]
  simp [hstrip, hbl]

theorem trim_eq (s : String) :
    trim s = String.ofList ((s.toList.dropWhile isWhitespace).rdropWhile isWhitespace) := rfl

/-- White space. -/
def Blanks (s : String) : Prop := ∀ c ∈ s.toList, isWhitespace c = true

/-- No white space. -/
def Solid (s : String) : Prop := ∀ c ∈ s.toList, isWhitespace c = false

instance (s : String) : Decidable (Blanks s) :=
  List.decidableBAll (isWhitespace · = true) s.toList

instance (s : String) : Decidable (Solid s) :=
  List.decidableBAll (isWhitespace · = false) s.toList

theorem Solid.not_mem_newline {s : String} (h : Solid s) : '\n' ∉ s.toList := by
  intro hc
  cases h _ hc

theorem rdropWhile_append_blanks {cs bs : List Char} (h : ∀ c ∈ bs, isWhitespace c = true) :
    (cs ++ bs).rdropWhile isWhitespace = cs.rdropWhile isWhitespace := by
  have hb : ∀ c ∈ bs.reverse, isWhitespace c = true := fun c hc => h c (List.mem_reverse.mp hc)
  rw [List.rdropWhile, List.reverse_append, List.dropWhile_append_of_pos hb, List.rdropWhile]

theorem trim_append_blanks {s b : String} (h : Blanks b) : trim (s ++ b) = trim s := by
  rw [trim_eq, trim_eq, String.toList_append, List.dropWhile_append]
  by_cases hs : (s.toList.dropWhile isWhitespace).isEmpty = true
  · have hb : b.toList.dropWhile isWhitespace = [] := List.dropWhile_eq_nil_iff.mpr h
    rw [if_pos hs, hb, List.isEmpty_iff.mp hs]
  · rw [if_neg hs, rdropWhile_append_blanks h]

theorem trim_blanks_append {s b : String} (h : Blanks b) : trim (b ++ s) = trim s := by
  rw [trim_eq, trim_eq, String.toList_append, List.dropWhile_append_of_pos h]

theorem rdropWhile_of_solid {cs : List Char} (h : ∀ c ∈ cs, isWhitespace c = false) :
    cs.rdropWhile isWhitespace = cs := by
  apply List.rdropWhile_eq_self_iff.mpr
  intro hne
  simp [h _ (List.getLast_mem hne)]

theorem not_isWhitespace_of_isDigit {c : Char} (h : c.isDigit = true) :
    isWhitespace c = false := by
  have h0 : ('0' : Char).val.toNat = 48 := rfl
  have h9 : ('9' : Char).val.toNat = 57 := rfl
  have hc : c.toNat = c.val.toNat := rfl
  simp only [Char.isDigit, Bool.and_eq_true, decide_eq_true_eq, UInt32.le_iff_toNat_le] at h
  simp only [isWhitespace, Bool.or_eq_false_iff, Bool.and_eq_false_iff, decide_eq_false_iff_not]
  omega

theorem trim_of_solid {s : String} (h : Solid s) : trim s = s := by
  have hstart : s.toList.dropWhile isWhitespace = s.toList := by
    apply List.dropWhile_eq_self_iff.mpr
    intro hne
    simp [h _ (List.getElem_mem hne)]
  rw [trim_eq, hstart, rdropWhile_of_solid h, String.ofList_toList]

theorem trim_pad {a s b : String} (ha : Blanks a) (hs : Solid s) (hb : Blanks b) :
    trim (a ++ s ++ b) = s := by
  rw [trim_append_blanks hb, trim_blanks_append ha, trim_of_solid hs]

/-- Every line with its line feed. -/
def unlines : List String → String
  | [] => ""
  | l :: ls => l ++ "\n" ++ unlines ls

theorem splitOn_unlines {ls : List String} (hls : ∀ l ∈ ls, '\n' ∉ l.toList) {last : String}
    (hlast : '\n' ∉ last.toList) :
    (unlines ls ++ last).toList.splitOn '\n' = ls.map String.toList ++ [last.toList] := by
  induction ls with
  | nil => simpa [unlines] using List.splitOn_eq_singleton hlast
  | cons l ls ih =>
    obtain ⟨hl, hls⟩ := List.forall_mem_cons.mp hls
    have htext : (unlines (l :: ls) ++ last).toList =
        l.toList ++ '\n' :: (unlines ls ++ last).toList := by
      simp [unlines]
    rw [htext, List.splitOn_append_cons_self_of_not_mem hl, ih hls, List.map_cons,
      List.cons_append]

/-- The lines of a text are the ones it was put together from. -/
theorem lines_unlines {ls : List String} (hls : ∀ l ∈ ls, '\n' ∉ l.toList) {last : String}
    (hlast : '\n' ∉ last.toList) : lines (unlines ls ++ last) =
      ls.map (fun l => String.ofList (stripCarriageReturn l.toList)) ++
        if last = "" then [] else [last] := by
  have hempty : last.toList = [] ↔ last = "" := by
    rw [← String.toList_inj]
    rfl
  simp only [lines, splitOn_unlines hls hlast, List.getLast?_concat, Option.getD_some,
    List.dropLast_concat, hempty, List.map_append, List.map_map]
  by_cases h : last = ""
  · simp [h, Function.comp_def]
  · simp [h, Function.comp_def]

theorem not_mem_stripCarriageReturn {c : Char} {cs : List Char} (h : c ∉ cs) :
    c ∉ stripCarriageReturn cs := by
  unfold stripCarriageReturn
  split
  · exact fun hc => h (List.dropLast_subset cs hc)
  · exact h

theorem trim_stripCarriageReturn (s : String) :
    trim (String.ofList (stripCarriageReturn s.toList)) = trim s := by
  unfold stripCarriageReturn
  by_cases h : s.toList.getLast? = some '\r'
  · obtain ⟨cs, hcs⟩ := List.getLast?_eq_some_iff.mp h
    have hs : s = String.ofList cs ++ "\r" := by
      apply String.toList_inj.mp
      simp [hcs]
    rw [if_pos h, hcs, List.dropLast_concat, hs,
      trim_append_blanks (by decide +kernel)]
  · rw [if_neg h, String.ofList_toList]

theorem exists_unlines (s : String) : ∃ ls last, (∀ l ∈ ls, '\n' ∉ l.toList) ∧
    '\n' ∉ last.toList ∧ s = unlines ls ++ last := by
  obtain ⟨cs, rfl⟩ : ∃ cs, s = String.ofList cs := ⟨s.toList, String.ofList_toList.symm⟩
  induction cs with
  | nil => exact ⟨[], "", by simp, by simp, rfl⟩
  | cons c cs ih =>
    obtain ⟨ls, last, hls, hlast, hs⟩ := ih
    have hs := congrArg String.toList hs
    by_cases hc : c = '\n'
    · refine ⟨"" :: ls, last, by simpa using hls, hlast, String.toList_inj.mp ?_⟩
      simpa [unlines, hc] using hs
    · cases ls with
      | nil =>
        refine ⟨[], String.singleton c ++ last, by simp, by simp [hlast, Ne.symm hc], ?_⟩
        apply String.toList_inj.mp
        simpa [unlines] using hs
      | cons l ls =>
        obtain ⟨hl, hls⟩ := List.forall_mem_cons.mp hls
        refine ⟨(String.singleton c ++ l) :: ls, last, ?_, hlast, ?_⟩
        · exact List.forall_mem_cons.mpr ⟨by simp [hl, Ne.symm hc], hls⟩
        · apply String.toList_inj.mp
          simpa [unlines] using hs

theorem prefix_append_cons {α : Type} {pat a b : List α} {x : α} (hx : x ∉ pat)
    (h : pat <+: a ++ x :: b) : pat <+: a := by
  by_cases hlen : pat.length ≤ a.length
  · exact List.prefix_of_prefix_length_le h (List.prefix_append _ _) hlen
  · have hax : a ++ [x] <+: pat := by
      apply List.prefix_of_prefix_length_le _ h
      · simp only [List.length_append, List.length_singleton]
        omega
      · exact ⟨b, by simp⟩
    exact absurd (hax.subset (by simp)) hx

/-- A pattern without the separator stands on one side of it. -/
theorem infix_append_cons {α : Type} {pat a b : List α} {x : α} (hx : x ∉ pat) :
    pat <:+: a ++ x :: b ↔ pat <:+: a ∨ pat <:+: b := by
  constructor
  · intro h
    induction a with
    | nil =>
      rcases List.infix_cons_iff.mp h with h | h
      · exact .inl (prefix_append_cons (a := []) hx h).isInfix
      · exact .inr h
    | cons c a ih =>
      rw [List.cons_append, List.infix_cons_iff] at h
      rcases h with h | h
      · exact .inl (prefix_append_cons (a := c :: a) hx h).isInfix
      · exact (ih h).imp (fun h => h.trans (List.suffix_cons c a).isInfix) id
  · rintro (h | h)
    · exact h.trans (List.prefix_append _ _).isInfix
    · exact h.trans ((List.suffix_cons x b).trans (List.suffix_append _ _)).isInfix

theorem not_mem_of_mem_lines {s l : String} (h : l ∈ lines s) : '\n' ∉ l.toList := by
  obtain ⟨ls, last, hls, hlast, rfl⟩ := exists_unlines s
  rw [lines_unlines hls hlast, List.mem_append, List.mem_map] at h
  rcases h with ⟨l', hl', rfl⟩ | h
  · rw [String.toList_ofList]
    exact not_mem_stripCarriageReturn (hls l' hl')
  · split at h
    · cases h
    · rwa [List.mem_singleton.mp h]

/-- When two texts that were joined by a line feed are read as they were. -/
theorem lines_pair_iff {a b : String} :
    (lines (a ++ "\n" ++ b))[0]? = some a ∧ (lines (a ++ "\n" ++ b))[1]? = some b ↔
      '\n' ∉ a.toList ∧ a.toList.getLast? ≠ some '\r' ∧ '\n' ∉ b.toList ∧ b ≠ "" := by
  constructor
  · rintro ⟨hfirst, hsecond⟩
    have ha := not_mem_of_mem_lines (List.mem_of_getElem? hfirst)
    have hb := not_mem_of_mem_lines (List.mem_of_getElem? hsecond)
    have hsingle : ∀ l ∈ [a], '\n' ∉ l.toList := by simpa using ha
    have hlines : lines (a ++ "\n" ++ b) = [String.ofList (stripCarriageReturn a.toList)] ++
        if b = "" then [] else [b] := by
      have h := lines_unlines hsingle hb
      rwa [unlines, unlines, String.append_empty] at h
    rw [hlines] at hfirst hsecond
    have hstrip : stripCarriageReturn a.toList = a.toList := by
      have h := congrArg String.toList (Option.some.inj hfirst)
      rwa [String.toList_ofList] at h
    refine ⟨ha, fun hlast => ?_, hb, fun hempty => ?_⟩
    · rw [stripCarriageReturn, if_pos hlast] at hstrip
      have hlen := congrArg List.length hstrip
      have hpos := List.length_pos_of_mem (List.mem_of_getLast? hlast)
      rw [List.length_dropLast] at hlen
      omega
    · rw [if_pos hempty] at hsecond
      cases hsecond
  · rintro ⟨ha, ha', hb, hne⟩
    rw [lines_pair ha ha' hb hne]
    exact ⟨rfl, rfl⟩

theorem infix_stripCarriageReturn {pat cs : List Char} (hpat : '\r' ∉ pat) :
    pat <:+: stripCarriageReturn cs ↔ pat <:+: cs := by
  unfold stripCarriageReturn
  split
  · rename_i h
    obtain ⟨front, rfl⟩ := List.getLast?_eq_some_iff.mp h
    rw [List.dropLast_concat, infix_append_cons hpat, List.infix_nil]
    constructor
    · exact .inl
    · rintro (h | rfl)
      · exact h
      · exact List.nil_infix
  · rfl

theorem infix_unlines {pat : List Char} (hnl : '\n' ∉ pat) (ls : List String) (last : String) :
    pat <:+: (unlines ls ++ last).toList ↔
      (∃ l ∈ ls, pat <:+: l.toList) ∨ pat <:+: last.toList := by
  induction ls with
  | nil => simp [unlines]
  | cons l ls ih =>
    have htext : (unlines (l :: ls) ++ last).toList =
        l.toList ++ '\n' :: (unlines ls ++ last).toList := by
      simp [unlines]
    rw [htext, infix_append_cons hnl, ih]
    simp [or_assoc]

/-- A pattern without an end of line stands in the text if it stands in a line. -/
theorem any_lines_contains {pattern : String} (hnl : '\n' ∉ pattern.toList)
    (hcr : '\r' ∉ pattern.toList) (hne : pattern ≠ "") (s : String) :
    (lines s).any (contains · pattern) = contains s pattern := by
  obtain ⟨ls, last, hls, hlast, rfl⟩ := exists_unlines s
  have hempty : ¬pattern.toList <:+: "".toList := by
    intro h
    exact hne (String.toList_inj.mp (List.infix_nil.mp h))
  have htail : ((if last = "" then [] else [last]).any (contains · pattern) = true) ↔
      pattern.toList <:+: last.toList := by
    by_cases h : last = ""
    · rw [h]
      exact iff_of_false (by simp) hempty
    · simp [h, contains]
  have hfront : (ls.map fun l => String.ofList (stripCarriageReturn l.toList)).any
      (contains · pattern) = true ↔ ∃ l ∈ ls, pattern.toList <:+: l.toList := by
    simp [contains, infix_stripCarriageReturn hcr]
  rw [lines_unlines hls hlast, Bool.eq_iff_iff, List.any_append, Bool.or_eq_true, htail, hfront,
    contains, decide_eq_true_iff, infix_unlines hnl]

/-- Where a text of lines can be cut off. -/
theorem cut_unlines {ls : List String} {t : String} (h : t.toList <+: (unlines ls).toList) :
    t = unlines ls ∨ ∃ front l back part, ls = front ++ l :: back ∧
      t = unlines front ++ part ∧ part.toList <+: l.toList := by
  induction ls generalizing t with
  | nil =>
    left
    apply String.toList_inj.mp
    simpa [unlines] using h
  | cons l ls ih =>
    have htext : (unlines (l :: ls)).toList = l.toList ++ '\n' :: (unlines ls).toList := by
      simp [unlines]
    rw [htext] at h
    by_cases hlen : t.toList.length ≤ l.toList.length
    · right
      refine ⟨[], l, ls, t, rfl, by simp [unlines], ?_⟩
      exact List.prefix_of_prefix_length_le h (List.prefix_append _ _) hlen
    · have hl : l.toList ++ ['\n'] <+: t.toList := by
        apply List.prefix_of_prefix_length_le _ h
        · simp only [List.length_append, List.length_singleton]
          omega
        · exact ⟨(unlines ls).toList, by simp⟩
      obtain ⟨rest, hrest⟩ := hl
      have ht : t = l ++ "\n" ++ String.ofList rest := by
        apply String.toList_inj.mp
        simp [← hrest]
      have hpre : (String.ofList rest).toList <+: (unlines ls).toList := by
        rw [← hrest, List.append_assoc, List.prefix_append_right_inj] at h
        simpa using h
      rcases ih hpre with hwhole | ⟨front, l', back, part, rfl, hpart, hprefix⟩
      · left
        rw [ht, hwhole, unlines]
      · right
        refine ⟨l :: front, l', back, part, rfl, ?_, hprefix⟩
        rw [ht, hpart, unlines]
        simp only [String.append_assoc]

end FlannelRs.RustText
