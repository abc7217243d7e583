import FlannelRs.JsonValues
import FlannelRs.RustText

/-!
# Compact JSON texts

The text `serde_json` writes for a value without floating point numbers, and a reader for
such texts, which has no use for white space.
-/

namespace FlannelRs.JsonTexts
open JsonValues RustText

def escapeChar (c : Char) : List Char :=
  if c = '"' then ['\\', '"']
  else if c = '\\' then ['\\', '\\']
  else if c = '\n' then ['\\', 'n']
  else if c = '\r' then ['\\', 'r']
  else if c = '\t' then ['\\', 't']
  else if c = Char.ofNat 8 then ['\\', 'b']
  else if c = Char.ofNat 12 then ['\\', 'f']
  else if c.toNat < 32 then
    ['\\', 'u', '0', '0', Nat.digitChar (c.toNat / 16), Nat.digitChar (c.toNat % 16)]
  else [c]

def printString (s : String) : List Char := '"' :: (s.toList.flatMap escapeChar ++ ['"'])

def printInt : ℤ → List Char
  | .ofNat n => Nat.toDigits 10 n
  | .negSucc n => '-' :: Nat.toDigits 10 (n + 1)

mutual

def print : Json → List Char
  | .null => ['n', 'u', 'l', 'l']
  | .bool true => ['t', 'r', 'u', 'e']
  | .bool false => ['f', 'a', 'l', 's', 'e']
  | .num (.int n) => printInt n
  | .num (.float text) => text.toList
  | .str s => printString s
  | .arr items => '[' :: printItems items
  | .obj members => '\x7b' :: printMembers members

/-- The rest of an array, from its first item on. -/
def printItems : List Json → List Char
  | [] => [']']
  | [j] => print j ++ [']']
  | j :: js => print j ++ ',' :: printItems js

/-- The rest of an object, from its first member on. -/
def printMembers : List (String × Json) → List Char
  | [] => ['\x7d']
  | [(k, j)] => printString k ++ ':' :: (print j ++ ['\x7d'])
  | (k, j) :: ms => printString k ++ ':' :: (print j ++ ',' :: printMembers ms)

end

def hexValue (c : Char) : Option ℕ :=
  if c.isDigit then some (c.toNat - 48)
  else if 'a' ≤ c ∧ c ≤ 'f' then some (c.toNat - 87)
  else none

def unescape (c : Char) : Option Char :=
  if c = '"' ∨ c = '\\' ∨ c = '/' then some c
  else if c = 'n' then some '\n'
  else if c = 'r' then some '\r'
  else if c = 't' then some '\t'
  else if c = 'b' then some (Char.ofNat 8)
  else if c = 'f' then some (Char.ofNat 12)
  else none

/-- A character of a string. Of the numeric escapes only those that are written are read. -/
def readChar : List Char → Option (Char × List Char)
  | [] => none
  | c :: cs =>
    if c = '\\' then
      match cs with
      | [] => none
      | 'u' :: '0' :: '0' :: a :: b :: rest => do
        return (Char.ofNat ((← hexValue a) * 16 + (← hexValue b)), rest)
      | e :: rest => do
        return (← unescape e, rest)
    else if c.toNat < 32 then none
    else some (c, cs)

/-- The rest of a string, after its opening quote. -/
def readString : ℕ → List Char → Option (List Char × List Char)
  | 0, _ => none
  | fuel + 1, cs =>
    if cs.head? = some '"' then some ([], cs.tail)
    else do
      let (c, rest) ← readChar cs
      let (s, rest) ← readString fuel rest
      return (c :: s, rest)

/-- The rest of a fixed word. -/
def readWord (word : List Char) (j : Json) (cs : List Char) : Option (Json × List Char) :=
  if cs.take word.length = word then some (j, cs.drop word.length) else none

def readNat (cs : List Char) : Option (ℕ × List Char) :=
  let digits := cs.takeWhile Char.isDigit
  if digits = [] then none
  else some (Nat.ofDigitChars 10 digits 0, cs.dropWhile Char.isDigit)

mutual

/-- A value at the head of a text. -/
def read : ℕ → List Char → Option (Json × List Char)
  | 0, _ => none
  | _ + 1, [] => none
  | fuel + 1, c :: cs =>
    if c.isDigit then do
      let (n, rest) ← readNat (c :: cs)
      return (.num (.int n), rest)
    else match c with
    | '"' => do
      let (s, rest) ← readString cs.length cs
      return (.str (String.ofList s), rest)
    | '-' => do
      let (n, rest) ← readNat cs
      return (.num (.int (-n)), rest)
    | 'n' => readWord ['u', 'l', 'l'] .null cs
    | 't' => readWord ['r', 'u', 'e'] (.bool true) cs
    | 'f' => readWord ['a', 'l', 's', 'e'] (.bool false) cs
    | '[' =>
      if cs.head? = some ']' then some (.arr [], cs.tail)
      else do
        let (items, rest) ← readItems fuel cs
        return (.arr items, rest)
    | '\x7b' =>
      if cs.head? = some '\x7d' then some (.obj [], cs.tail)
      else do
        let (members, rest) ← readMembers fuel cs
        return (.obj members, rest)
    | _ => none

def readItems : ℕ → List Char → Option (List Json × List Char)
  | 0, _ => none
  | fuel + 1, cs => do
    let (j, rest) ← read fuel cs
    match rest with
    | ']' :: rest => return ([j], rest)
    | ',' :: rest =>
      let (js, rest) ← readItems fuel rest
      return (j :: js, rest)
    | _ => none

def readMembers : ℕ → List Char → Option (List (String × Json) × List Char)
  | 0, _ => none
  | fuel + 1, cs =>
    match cs with
    | '"' :: cs => do
      let (k, rest) ← readString cs.length cs
      match rest with
      | ':' :: rest =>
        let (j, rest) ← read fuel rest
        match rest with
        | '\x7d' :: rest => return ([(String.ofList k, j)], rest)
        | ',' :: rest =>
          let (ms, rest) ← readMembers fuel rest
          return ((String.ofList k, j) :: ms, rest)
        | _ => none
      | _ => none
    | _ => none

end

def jsonText (j : Json) : String := String.ofList (print j)

def ofText (s : String) : Option Json :=
  match read s.toList.length s.toList with
  | some (j, []) => some j
  | _ => none

/-- The text does not go on with a digit. -/
def NoDigit (rest : List Char) : Prop := ∀ c, rest.head? = some c → c.isDigit = false

theorem hexValue_digitChar : ∀ n < 16, hexValue (Nat.digitChar n) = some n := by decide

/-- A character that is escaped by its code. -/
private theorem readChar_code {c : Char} (h : c.toNat < 32) (cs : List Char) :
    readChar ('\\' :: 'u' :: '0' :: '0' :: Nat.digitChar (c.toNat / 16) ::
      Nat.digitChar (c.toNat % 16) :: cs) = some (c, cs) := by
  have h1 : c.toNat / 16 < 16 := by omega
  have h2 : c.toNat % 16 < 16 := by omega
  have hc : Char.ofNat (c.toNat / 16 * 16 + c.toNat % 16) = c := by
    rw [Nat.div_add_mod' c.toNat 16, Char.ofNat_toNat]
  simp [readChar, hexValue_digitChar _ h1, hexValue_digitChar _ h2, hc]

theorem readChar_escapeChar (c : Char) (cs : List Char) :
    readChar (escapeChar c ++ cs) = some (c, cs) := by
  by_cases h1 : c = '"'
  · subst h1
    rfl
  by_cases h2 : c = '\\'
  · subst h2
    rfl
  by_cases h3 : c = '\n'
  · subst h3
    rfl
  by_cases h4 : c = '\r'
  · subst h4
    rfl
  by_cases h5 : c = '\t'
  · subst h5
    rfl
  by_cases h6 : c = Char.ofNat 8
  · subst h6
    rfl
  by_cases h7 : c = Char.ofNat 12
  · subst h7
    rfl
  by_cases h8 : c.toNat < 32
  · simp only [escapeChar, h1, h2, h3, h4, h5, h6, h7, h8, if_false, if_true]
    exact readChar_code h8 cs
  · simp [escapeChar, h1, h2, h3, h4, h5, h6, h7, h8, readChar]

theorem head_escapeChar (c : Char) (cs : List Char) :
    (escapeChar c ++ cs).head? ≠ some '"' := by
  unfold escapeChar
  split
  · simp
  · rename_i h
    repeat' split
    all_goals simp [h]

theorem length_flatMap_escapeChar (cs : List Char) :
    cs.length ≤ (cs.flatMap escapeChar).length := by
  induction cs with
  | nil => simp
  | cons c cs ih =>
    have hpos : 0 < (escapeChar c).length := by
      have hc := readChar_escapeChar c []
      cases h : escapeChar c with
      | nil => simp [h, readChar] at hc
      | cons x xs => simp
    rw [List.flatMap_cons, List.length_append, List.length_cons]
    omega

theorem readString_flatMap {fuel : ℕ} (cs rest : List Char) (h : cs.length < fuel) :
    readString fuel (cs.flatMap escapeChar ++ '"' :: rest) = some (cs, rest) := by
  induction cs generalizing fuel with
  | nil =>
    cases fuel with
    | zero => omega
    | succ fuel => rfl
  | cons c cs ih =>
    cases fuel with
    | zero => omega
    | succ fuel =>
      have hfuel : cs.length < fuel := by simpa using h
      rw [List.flatMap_cons, List.append_assoc, readString, if_neg (head_escapeChar c _),
        readChar_escapeChar]
      simp [ih hfuel]

/-- Reading a string that was written. -/
theorem readString_printString (s : String) (rest : List Char) :
    readString (s.toList.flatMap escapeChar ++ '"' :: rest).length
      (s.toList.flatMap escapeChar ++ '"' :: rest) = some (s.toList, rest) := by
  apply readString_flatMap
  have h := length_flatMap_escapeChar s.toList
  rw [List.length_append, List.length_cons]
  omega

theorem readNat_toDigits (n : ℕ) {rest : List Char} (h : NoDigit rest) :
    readNat (Nat.toDigits 10 n ++ rest) = some (n, rest) := by
  have hd : ∀ c ∈ Nat.toDigits 10 n, c.isDigit = true := fun c hc => isDigit_of_mem_toDigits hc
  have htake : (Nat.toDigits 10 n ++ rest).takeWhile Char.isDigit = Nat.toDigits 10 n := by
    rw [List.takeWhile_append_of_pos hd]
    cases rest with
    | nil => simp
    | cons c cs => simp [h c rfl]
  have hdrop : (Nat.toDigits 10 n ++ rest).dropWhile Char.isDigit = rest := by
    rw [List.dropWhile_append_of_pos hd]
    cases rest with
    | nil => rfl
    | cons c cs => simp [h c rfl]
  simp [readNat, htake, hdrop, Nat.toDigits_ne_nil, Nat.ofDigitChars_ten_toDigits]

mutual

/-- No number with a point or an exponent. -/
def Plain : Json → Prop
  | .num (.float _) => False
  | .arr items => PlainItems items
  | .obj members => PlainMembers members
  | _ => True

def PlainItems : List Json → Prop
  | [] => True
  | j :: js => Plain j ∧ PlainItems js

def PlainMembers : List (String × Json) → Prop
  | [] => True
  | (_, j) :: ms => Plain j ∧ PlainMembers ms

end

mutual

def decidePlain : (j : Json) → Decidable (Plain j)
  | .num (.float _) => .isFalse id
  | .num (.int _) => .isTrue trivial
  | .arr items => decidePlainItems items
  | .obj members => decidePlainMembers members
  | .null => .isTrue trivial
  | .bool _ => .isTrue trivial
  | .str _ => .isTrue trivial

def decidePlainItems : (items : List Json) → Decidable (PlainItems items)
  | [] => .isTrue trivial
  | j :: js => @instDecidableAnd _ _ (decidePlain j) (decidePlainItems js)

def decidePlainMembers : (members : List (String × Json)) → Decidable (PlainMembers members)
  | [] => .isTrue trivial
  | (_, j) :: ms => @instDecidableAnd _ _ (decidePlain j) (decidePlainMembers ms)

end

instance (j : Json) : Decidable (Plain j) := decidePlain j

@[simp] theorem plain_null : Plain .null := trivial

@[simp] theorem plain_bool (b : Bool) : Plain (.bool b) := trivial

@[simp] theorem plain_str (s : String) : Plain (.str s) := trivial

@[simp] theorem plain_int (n : ℤ) : Plain (.num (.int n)) := trivial

@[simp] theorem plain_arr (js : List Json) : Plain (.arr js) ↔ PlainItems js := .rfl

@[simp] theorem plain_obj (ms : List (String × Json)) : Plain (.obj ms) ↔ PlainMembers ms := .rfl

@[simp] theorem plainItems_iff {js : List Json} : PlainItems js ↔ ∀ j ∈ js, Plain j := by
  induction js with
  | nil => exact iff_of_true trivial nofun
  | cons j js ih =>
    rw [List.forall_mem_cons, ← ih]
    rfl

@[simp] theorem plainMembers_iff {ms : List (String × Json)} :
    PlainMembers ms ↔ ∀ m ∈ ms, Plain m.2 := by
  induction ms with
  | nil => exact iff_of_true trivial nofun
  | cons m ms ih =>
    rw [List.forall_mem_cons, ← ih]
    rfl

theorem noDigit_cons {c : Char} (h : c.isDigit = false) (cs : List Char) : NoDigit (c :: cs) := by
  intro d hd
  obtain rfl : c = d := by simpa using hd
  exact h

theorem read_toDigits {fuel : ℕ} (n : ℕ) {rest : List Char} (h : NoDigit rest) :
    read (fuel + 1) (Nat.toDigits 10 n ++ rest) = some (.num (.int n), rest) := by
  cases hd : Nat.toDigits 10 n with
  | nil => exact absurd hd Nat.toDigits_ne_nil
  | cons c cs =>
    have hc : c.isDigit = true := isDigit_of_mem_toDigits (n := n) (by rw [hd]; simp)
    have hread := readNat_toDigits n h
    rw [hd, List.cons_append] at hread
    simp [read, hc, hread]

theorem read_minus {fuel : ℕ} (n : ℕ) {rest : List Char} (h : NoDigit rest) :
    read (fuel + 1) ('-' :: (Nat.toDigits 10 n ++ rest)) = some (.num (.int (-n)), rest) := by
  have hc : ('-' : Char).isDigit = false := by decide
  simp [read, hc, readNat_toDigits n h]

theorem head_print {j : Json} (hj : Plain j) (rest : List Char) :
    (print j ++ rest).head? ≠ some ']' := by
  have hdigits : ∀ n cs, (Nat.toDigits 10 n ++ cs).head? ≠ some ']' := by
    intro n cs h
    cases hd : Nat.toDigits 10 n with
    | nil => exact absurd hd Nat.toDigits_ne_nil
    | cons c ds =>
      obtain rfl : c = ']' := by simpa [hd] using h
      have hc : (']' : Char).isDigit = true := isDigit_of_mem_toDigits (n := n) (by simp [hd])
      cases hc
  cases j with
  | num n =>
    cases n with
    | float text => exact hj.elim
    | int n =>
      cases n with
      | ofNat n => exact hdigits n rest
      | negSucc n => simp [print, printInt]
  | bool b => cases b <;> simp [print]
  | _ => simp [print, printString]

theorem head_printItems {j : Json} {js : List Json} (hj : Plain j) (rest : List Char) :
    (printItems (j :: js) ++ rest).head? ≠ some ']' := by
  cases js with
  | nil =>
    rw [printItems, List.append_assoc]
    exact head_print hj _
  | cons x xs =>
    rw [printItems, List.append_assoc]
    · exact head_print hj _
    · simp

theorem head_printMembers {k : String} {j : Json} {ms : List (String × Json)}
    (rest : List Char) : (printMembers ((k, j) :: ms) ++ rest).head? ≠ some '\x7d' := by
  cases ms <;> simp [printMembers, printString]

theorem length_print_pos {j : Json} (hj : Plain j) : 0 < (print j).length := by
  cases j with
  | num n =>
    cases n with
    | float text => exact hj.elim
    | int n =>
      cases n with
      | ofNat n => exact List.length_pos_of_ne_nil Nat.toDigits_ne_nil
      | negSucc n => simp [print, printInt]
  | bool b => cases b <;> simp [print]
  | _ => simp [print, printString]

/-- The reader gives back what was written when its fuel is at least the length of the text. -/
def ReadsValues (fuel : ℕ) : Prop :=
  ∀ j rest, Plain j → (print j).length ≤ fuel → NoDigit rest →
    read fuel (print j ++ rest) = some (j, rest)

def ReadsItems (fuel : ℕ) : Prop :=
  ∀ j js rest, PlainItems (j :: js) → (printItems (j :: js)).length ≤ fuel →
    readItems fuel (printItems (j :: js) ++ rest) = some (j :: js, rest)

def ReadsMembers (fuel : ℕ) : Prop :=
  ∀ k j ms rest, PlainMembers ((k, j) :: ms) → (printMembers ((k, j) :: ms)).length ≤ fuel →
    readMembers fuel (printMembers ((k, j) :: ms) ++ rest) = some ((k, j) :: ms, rest)

theorem readsValues_succ {fuel : ℕ} (hi : ReadsItems fuel) (hm : ReadsMembers fuel) :
    ReadsValues (fuel + 1) := by
  intro j rest hj h hrest
  cases j with
  | null => rfl
  | bool b => cases b <;> rfl
  | num n =>
    cases n with
    | float text => exact hj.elim
    | int n =>
      cases n with
      | ofNat n => exact read_toDigits n hrest
      | negSucc n => exact read_minus (n + 1) hrest
  | str s =>
    have hread := readString_printString s rest
    have hq : ('"' : Char).isDigit = false := by decide
    simp only [print, printString, List.cons_append, List.append_assoc, List.nil_append, read,
      hq, hread]
    simp
  | arr items =>
    have hb : ('[' : Char).isDigit = false := by decide
    cases items with
    | nil => rfl
    | cons x xs =>
      have hread := hi x xs rest hj (by simpa [print] using h)
      simp only [print, List.cons_append, read, hb, head_printItems hj.1]
      simp [hread]
  | obj members =>
    have hb : ('\x7b' : Char).isDigit = false := by decide
    cases members with
    | nil => rfl
    | cons m ms =>
      obtain ⟨k, v⟩ := m
      have hread := hm k v ms rest hj (by simpa [print] using h)
      simp only [print, List.cons_append, read, hb, head_printMembers]
      simp [hread]

theorem readsItems_succ {fuel : ℕ} (hv : ReadsValues fuel) (hi : ReadsItems fuel) :
    ReadsItems (fuel + 1) := by
  intro j js rest hj h
  cases js with
  | nil =>
    have hread := hv j (']' :: rest) hj.1 (by simpa [printItems] using h)
      (noDigit_cons (by decide) _)
    simp [printItems, readItems, hread]
  | cons x xs =>
    simp only [printItems, List.length_append, List.length_cons] at h
    have hread := hv j (',' :: (printItems (x :: xs) ++ rest)) hj.1 (by omega)
      (noDigit_cons (by decide) _)
    have hrest := hi x xs rest hj.2 (by omega)
    simp [printItems, readItems, hread, hrest]

theorem readsMembers_succ {fuel : ℕ} (hv : ReadsValues fuel) (hm : ReadsMembers fuel) :
    ReadsMembers (fuel + 1) := by
  intro k j ms rest hj h
  cases ms with
  | nil =>
    simp only [printMembers, List.length_append, List.length_cons] at h
    have hread := hv j ('\x7d' :: rest) hj.1 (by omega) (noDigit_cons (by decide) _)
    have hkey := readString_printString k (':' :: (print j ++ '\x7d' :: rest))
    simp only [printMembers, printString, List.cons_append, List.append_assoc, List.nil_append,
      readMembers, hkey]
    simp [hread]
  | cons m ms =>
    obtain ⟨k', j'⟩ := m
    simp only [printMembers, List.length_append, List.length_cons] at h
    have hread := hv j (',' :: (printMembers ((k', j') :: ms) ++ rest)) hj.1 (by omega)
      (noDigit_cons (by decide) _)
    have hkey := readString_printString k
      (':' :: (print j ++ ',' :: (printMembers ((k', j') :: ms) ++ rest)))
    have hrest := hm k' j' ms rest hj.2 (by omega)
    simp only [printMembers, printString, List.cons_append, List.append_assoc, List.nil_append,
      readMembers, hkey]
    simp [hread, hrest]

theorem reads (fuel : ℕ) : ReadsValues fuel ∧ ReadsItems fuel ∧ ReadsMembers fuel := by
  induction fuel with
  | zero =>
    refine ⟨fun j rest hj h => ?_, fun j js rest _ h => ?_, fun k j ms rest _ h => ?_⟩
    · have hpos := length_print_pos hj
      omega
    · cases js <;> simp [printItems] at h
    · cases ms <;> simp [printMembers] at h
  | succ fuel ih =>
    obtain ⟨hv, hi, hm⟩ := ih
    exact ⟨readsValues_succ hi hm, readsItems_succ hv hi, readsMembers_succ hv hm⟩

/-- The round trip. -/
theorem ofText_jsonText {j : Json} (h : Plain j) : ofText (jsonText j) = some j := by
  have hread := (reads (print j).length).1 j [] h le_rfl fun c hc => by cases hc
  rw [List.append_nil] at hread
  simp [ofText, jsonText, hread]

-- Whether a whole configuration is plain is not to be computed while a proof is elaborated.
attribute [irreducible] Plain PlainItems PlainMembers

end FlannelRs.JsonTexts
