import FlannelRs.FlannelPlugin

/-!
# The file `subnet.env` between `flanneld` and the `flannel` plugin

`flanneld` renders the file (`subnet.rs`), the plugin parses it (`subnetenv.rs`). The two have a
type of their own for it.
-/

namespace FlannelRs.SubnetEnvFiles
open RustText Ipv4Addresses CniTypes FlannelPlugin

structure SubnetEnv where
  network : String
  subnet : String
  mtu : ℕ
  ipmasq : Bool
  mtu_lt : mtu < 2 ^ 32

def SubnetEnv.render (e : SubnetEnv) : String :=
  "FLANNEL_NETWORK=" ++ e.network ++ "\nFLANNEL_SUBNET=" ++ e.subnet ++ "\nFLANNEL_MTU=" ++
    e.mtu.repr ++ "\nFLANNEL_IPMASQ=" ++ toString e.ipmasq ++ "\n"

/-- The networks were read as such before the file is written. -/
structure SubnetEnv.Admitted [Crates] (e : SubnetEnv) : Prop where
  network : (Crates.parseNetwork e.network).isSome
  subnet : (Crates.parseNetwork e.subnet).isSome

/-- The four values, in the plugin. -/
def SubnetEnv.read (e : SubnetEnv) : FlannelPlugin.SubnetEnv :=
  ⟨e.network, e.subnet, e.mtu, e.ipmasq, e.mtu_lt⟩

def exampleEnv : SubnetEnv := ⟨"10.244.0.0/16", "10.244.1.0/24", 1450, true, FlannelPlugin.nodeEnv.mtu_lt⟩

theorem exampleEnv_admitted : @SubnetEnv.Admitted Crates.compact exampleEnv :=
  @SubnetEnv.Admitted.mk Crates.compact _ (by decide +kernel) (by decide +kernel)

inductive Key where
  | network
  | subnet
  | mtu
  | ipmasq
  deriving DecidableEq

def Key.name : Key → String
  | .network => "FLANNEL_NETWORK"
  | .subnet => "FLANNEL_SUBNET"
  | .mtu => "FLANNEL_MTU"
  | .ipmasq => "FLANNEL_IPMASQ"

def SubnetEnv.value (e : SubnetEnv) : Key → String
  | .network => e.network
  | .subnet => e.subnet
  | .mtu => e.mtu.repr
  | .ipmasq => toString e.ipmasq

/-- White space within a line. -/
abbrev Blank := { s : String // Blanks s ∧ '\n' ∉ s.toList }

/-- A line with a key that the plugin does not know. -/
structure Other where
  key : String
  value : String
  unknown : ∀ k : Key, trim key ≠ k.name
  key_clean : '=' ∉ key.toList ∧ '\n' ∉ key.toList
  value_clean : '\n' ∉ value.toList

inductive Line where
  | entry (key : Key) (beforeKey afterKey beforeValue afterValue : Blank)
  | blank (b : Blank)
  | other (o : Other)

def Line.text (e : SubnetEnv) : Line → String
  | .entry k a b c d => a.1 ++ k.name ++ b.1 ++ "=" ++ (c.1 ++ e.value k ++ d.1)
  | .blank b => b.1
  | .other o => o.key ++ "=" ++ o.value

def Line.key? : Line → Option Key
  | .entry k _ _ _ _ => some k
  | _ => none

/-- The lines stand for the file if every key has its one line. -/
def Arranged (ls : List Line) : Prop :=
  (ls.filterMap Line.key?).Perm [.network, .subnet, .mtu, .ipmasq]

def SubnetEnv.line (e : SubnetEnv) (k : Key) : String := k.name ++ "=" ++ e.value k

/-- A line as it is rendered. -/
def plain (k : Key) : Line :=
  let none : Blank := ⟨"", by decide +kernel, by decide +kernel⟩
  .entry k none none none none

theorem text_plain (e : SubnetEnv) (k : Key) : (plain k).text e = e.line k := by
  simp [plain, Line.text, SubnetEnv.line]

theorem SubnetEnv.render_eq (e : SubnetEnv) : e.render =
    unlines [e.line .network, e.line .subnet, e.line .mtu, e.line .ipmasq] := by
  have hnetwork : "FLANNEL_NETWORK=" = "FLANNEL_NETWORK" ++ "=" := by simp
  have hsubnet : "\nFLANNEL_SUBNET=" = "\n" ++ ("FLANNEL_SUBNET" ++ "=") := by simp
  have hmtu : "\nFLANNEL_MTU=" = "\n" ++ ("FLANNEL_MTU" ++ "=") := by simp
  have hipmasq : "\nFLANNEL_IPMASQ=" = "\n" ++ ("FLANNEL_IPMASQ" ++ "=") := by simp
  unfold render
  rw [hnetwork, hsubnet, hmtu, hipmasq]
  simp only [unlines, line, Key.name, value, String.append_assoc, String.append_empty]

/-- The assignment of a line of the plugin's loop. -/
def assign (keys : SubnetKeys) (k v : String) : Option SubnetKeys :=
  match k with
  | "FLANNEL_NETWORK" => some { keys with network := some v }
  | "FLANNEL_SUBNET" => some { keys with subnet := some v }
  | "FLANNEL_MTU" => (parseMtu v).map fun mtu => { keys with mtu := some mtu }
  | "FLANNEL_IPMASQ" => some { keys with ipmasq := some (v = "true") }
  | _ => some keys

variable {keys : SubnetKeys} {a b l : String}

theorem dropWhile_append_cons {p : Char → Bool} {c : Char} (hc : p c = false)
    (xs ys : List Char) : (xs ++ c :: ys).dropWhile p = xs.dropWhile p ++ c :: ys := by
  rw [List.dropWhile_append]
  split
  · rename_i hnil
    rw [List.isEmpty_iff.mp hnil, List.dropWhile_cons_of_neg (by simp [hc]), List.nil_append]
  · rfl

theorem rdropWhile_append_cons {p : Char → Bool} {c : Char} (hc : p c = false)
    (xs ys : List Char) : (xs ++ c :: ys).rdropWhile p = xs ++ c :: ys.rdropWhile p := by
  have hrev : (xs ++ c :: ys).reverse = ys.reverse ++ c :: xs.reverse := by simp
  rw [List.rdropWhile, hrev, dropWhile_append_cons hc, List.rdropWhile]
  simp

theorem splitOnce_trim (ha : '=' ∉ a.toList) : splitOnce '=' (trim (a ++ "=" ++ b)) =
    some (String.ofList (a.toList.dropWhile isWhitespace),
      String.ofList (b.toList.rdropWhile isWhitespace)) := by
  have heq : isWhitespace '=' = false := rfl
  have hl : (a ++ "=" ++ b).toList = a.toList ++ '=' :: b.toList := by simp
  have hfront : ∀ c ∈ a.toList.dropWhile isWhitespace, decide (c ≠ '=') = true := by
    intro c hc
    have hmem := (List.dropWhile_sublist isWhitespace).subset hc
    exact decide_eq_true fun h => ha (h ▸ hmem)
  rw [splitOnce, trim_eq, hl, dropWhile_append_cons heq, rdropWhile_append_cons heq,
    String.toList_ofList, List.dropWhile_append_of_pos hfront,
    List.takeWhile_append_of_pos hfront]
  simp

theorem line_pair (ha : '=' ∉ a.toList) : keys.line (a ++ "=" ++ b) =
    assign keys (trim a) (trim (String.ofList (b.toList.rdropWhile isWhitespace))) := by
  have hne : trim (a ++ "=" ++ b) ≠ "" := by
    intro h
    have hsplit := splitOnce_trim (b := b) ha
    rw [h] at hsplit
    cases hsplit
  have htrim : trim (String.ofList (a.toList.dropWhile isWhitespace)) = trim a := by
    rw [trim_eq, String.toList_ofList, List.dropWhile_idempotent, ← trim_eq]
  simp only [SubnetKeys.line, hne, if_false, splitOnce_trim ha, Option.bind_eq_bind,
    Option.bind_some, htrim]
  generalize trim a = k
  unfold assign
  split <;> simp [Option.map_eq_bind]

/-- A line that is not blank needs its `=`. -/
theorem line_eq_none (hl : '=' ∉ l.toList) (hne : trim l ≠ "") : keys.line l = none := by
  have hdrop : (trim l).toList.dropWhile (· ≠ '=') = [] := by
    apply List.dropWhile_eq_nil_iff.mpr
    intro c hc
    rw [trim_eq, String.toList_ofList] at hc
    have hmem := (List.dropWhile_sublist _).subset ((List.rdropWhile_prefix _ _).subset hc)
    exact decide_eq_true fun h => hl (h ▸ hmem)
  have hsplit : splitOnce '=' (trim l) = none := by rw [splitOnce, hdrop]
  simp [SubnetKeys.line, hne, hsplit]

theorem line_blank (hl : trim l = "") : keys.line l = some keys := by
  simp [SubnetKeys.line, hl]

theorem line_stripCarriageReturn (keys : SubnetKeys) (l : String) :
    keys.line (String.ofList (stripCarriageReturn l.toList)) = keys.line l := by
  simp only [SubnetKeys.line, trim_stripCarriageReturn]

theorem mtu_lt (mtu : { n : ℕ // n < 2 ^ 32 }) : mtu.1 < 2 ^ 32 := mtu.2

/-- What the keys amount to. -/
def finish (keys : SubnetKeys) : Option FlannelPlugin.SubnetEnv := do
  let mtu ← keys.mtu
  return {
    network := ← keys.network
    subnet := ← keys.subnet
    mtu := mtu.1
    ipmasq := keys.ipmasq.getD false
    mtu_lt := mtu_lt mtu }

def noKeys : SubnetKeys := ⟨none, none, none, none⟩

theorem parse_unlines {ls : List String} (hls : ∀ l ∈ ls, '\n' ∉ l.toList) {last : String}
    (hlast : '\n' ∉ last.toList) : FlannelPlugin.SubnetEnv.parse (unlines ls ++ last) =
      (ls.foldlM SubnetKeys.line noKeys).bind fun keys =>
        (if last = "" then some keys else keys.line last).bind finish := by
  have hfold : ∀ keys, (ls.map fun l => String.ofList (stripCarriageReturn l.toList)).foldlM
      SubnetKeys.line keys = ls.foldlM SubnetKeys.line keys := by
    intro keys
    rw [List.foldlM_map]
    simp only [line_stripCarriageReturn]
  rw [FlannelPlugin.SubnetEnv.parse, lines_unlines hls hlast, List.foldlM_append, hfold]
  by_cases h : last = ""
  · simp [h, noKeys, finish]
  · simp only [h, if_false, List.foldlM_cons, List.foldlM_nil, Option.bind_eq_bind,
      Option.bind_assoc]
    rfl

/-- The texts that `ipnetwork` accepts: an address, and after a slash a length or a mask. -/
def PlainNetworks [Crates] : Prop :=
  ∀ s, (Crates.parseNetwork s).isSome → ∀ c ∈ s.toList, c.isDigit ∨ c = '.' ∨ c = '/' ∨ c = '+'

theorem plainNetworks_compact : @PlainNetworks Crates.compact := by
  intro s hs
  have hs : (parseCidr s).isSome := hs
  have haddr : ∀ {text : String} {ip}, parseIpv4 text = some ip → ∀ c ∈ text.toList,
      c.isDigit ∨ c = '.' ∨ c = '/' ∨ c = '+' := by
    intro text ip htext c hc
    rw [eq_toString_of_parseIpv4 htext] at hc
    by_contra hnot
    simp only [not_or, Bool.not_eq_true] at hnot
    exact ip.not_mem_toString hnot.1 hnot.2.1 hc
  have hlen : ∀ {text : String} {n}, parseUnsigned 256 text = some n → ∀ c ∈ text.toList,
      c.isDigit ∨ c = '.' ∨ c = '/' ∨ c = '+' := by
    intro text n htext c hc
    exact (mem_of_parseUnsigned htext hc).imp id fun h => .inr (.inr h)
  have hjoin : s.toList = ['/'].intercalate (s.toList.splitOn '/') :=
    (List.intercalate_splitOn '/').symm
  have hpieces : s.toList.splitOn '/' = (splitOn '/' s).map String.toList := by
    simp [splitOn, Function.comp_def]
  rw [hpieces] at hjoin
  unfold parseCidr at hs
  split at hs
  · rename_i addr len hsplit
    rw [hsplit] at hjoin
    obtain ⟨net, hnet⟩ := Option.isSome_iff_exists.mp hs
    simp only [Option.bind_eq_bind, Option.bind_eq_some_iff] at hnet
    obtain ⟨ip, hip, n, hn, -⟩ := hnet
    intro c hc
    have hc : c ∈ addr.toList ++ '/' :: len.toList := by
      rw [hjoin] at hc
      simpa using hc
    rcases List.mem_append.mp hc with hc | hc
    · exact haddr hip c hc
    · rcases List.mem_cons.mp hc with rfl | hc
      · exact .inr (.inr (.inl rfl))
      · exact hlen hn c hc
  · rename_i addr hsplit
    rw [hsplit] at hjoin
    rw [Option.isSome_map] at hs
    obtain ⟨ip, hip⟩ := Option.isSome_iff_exists.mp hs
    intro c hc
    have hc : c ∈ addr.toList := by
      rw [hjoin] at hc
      simpa using hc
    exact haddr hip c hc
  · cases hs

theorem solid_network [Crates] (hplain : PlainNetworks) {s : String}
    (hs : (Crates.parseNetwork s).isSome) : Solid s := by
  intro c hc
  rcases hplain s hs c hc with h | rfl | rfl | rfl
  · exact not_isWhitespace_of_isDigit h
  · rfl
  · rfl
  · rfl

theorem solid_repr (n : ℕ) : Solid n.repr := by
  intro c hc
  rw [Nat.toList_repr] at hc
  exact not_isWhitespace_of_isDigit (isDigit_of_mem_toDigits hc)

theorem solid_toString (b : Bool) : Solid (toString b) := by
  cases b with
  | false => decide +kernel
  | true => decide +kernel

/-- No value has white space in it. -/
theorem SubnetEnv.solid_value [Crates] (hplain : PlainNetworks) {e : SubnetEnv}
    (he : e.Admitted) (k : Key) : Solid (e.value k) := by
  cases k with
  | network => exact solid_network hplain he.network
  | subnet => exact solid_network hplain he.subnet
  | mtu => exact solid_repr e.mtu
  | ipmasq => exact solid_toString e.ipmasq

theorem Key.solid_name (k : Key) : Solid k.name := by
  cases k <;> decide +kernel

theorem Key.not_mem_name (k : Key) : '=' ∉ k.name.toList := by
  cases k <;> decide

/-- A key of the file, read by the plugin. -/
def SubnetEnv.put (e : SubnetEnv) (keys : SubnetKeys) : Key → SubnetKeys
  | .network => { keys with network := some e.network }
  | .subnet => { keys with subnet := some e.subnet }
  | .mtu => { keys with mtu := some ⟨e.mtu, e.mtu_lt⟩ }
  | .ipmasq => { keys with ipmasq := some e.ipmasq }

theorem parseMtu_repr {n : ℕ} (h : n < 2 ^ 32) : parseMtu n.repr = some ⟨n, h⟩ := by
  rw [parseMtu, parseUnsigned_repr h, Option.bind_some, dif_pos h]

theorem assign_name (e : SubnetEnv) (keys : SubnetKeys) (k : Key) :
    assign keys k.name (e.value k) = some (e.put keys k) := by
  cases k with
  | network => rfl
  | subnet => rfl
  | mtu => simp [assign, Key.name, SubnetEnv.value, SubnetEnv.put, parseMtu_repr e.mtu_lt]
  | ipmasq =>
    have htext : toString e.ipmasq = "true" ↔ e.ipmasq = true := by
      cases e.ipmasq with
      | false => decide
      | true => decide
    simp [assign, Key.name, SubnetEnv.value, SubnetEnv.put, htext]

theorem assign_unknown {k v : String} (h : ∀ key : Key, k ≠ key.name) :
    assign keys k v = some keys := by
  unfold assign
  split
  · exact absurd rfl (h .network)
  · exact absurd rfl (h .subnet)
  · exact absurd rfl (h .mtu)
  · exact absurd rfl (h .ipmasq)
  · rfl

/-- Padding around a value goes with the spaces that are dropped. -/
theorem trim_rdropWhile_pad {x v y : String} (hx : Blanks x) (hv : Solid v) (hy : Blanks y) :
    trim (String.ofList ((x ++ v ++ y).toList.rdropWhile isWhitespace)) = v := by
  rw [String.toList_append, rdropWhile_append_blanks hy, String.toList_append]
  rcases List.eq_nil_or_concat v.toList with hnil | ⟨cs, c, hcs⟩
  · have hall : (x.toList ++ v.toList).rdropWhile isWhitespace = [] := by
      rw [hnil, List.append_nil, List.rdropWhile_eq_nil_iff]
      exact hx
    have hv' : v = "" := String.toList_inj.mp (by simpa using hnil)
    rw [hall, hv']
    rfl
  · have hc : isWhitespace c = false := hv c (by simp [hcs])
    rw [hcs, List.concat_eq_append, ← List.append_assoc, rdropWhile_append_cons hc,
      List.rdropWhile_nil]
    have hback : String.ofList (x.toList ++ cs ++ [c]) = x ++ v ++ "" := by
      apply String.toList_inj.mp
      simp [hcs]
    rw [hback]
    exact trim_pad hx hv (by simp [Blanks])

section

variable [Crates] (hplain : PlainNetworks) {e : SubnetEnv} (he : e.Admitted)

include hplain he

theorem line_text (keys : SubnetKeys) (l : Line) :
    keys.line (l.text e) = some (l.key?.elim keys (e.put keys)) := by
  cases l with
  | entry k a b c d =>
    have hkey : '=' ∉ (a.1 ++ k.name ++ b.1).toList := by
      have hblank : ∀ s : Blank, '=' ∉ s.1.toList := fun s hs => by cases s.2.1 _ hs
      simp [hblank, k.not_mem_name]
    have hv := e.solid_value hplain he k
    rw [Line.text, line_pair hkey, trim_pad a.2.1 k.solid_name b.2.1,
      trim_rdropWhile_pad c.2.1 hv d.2.1, assign_name]
    rfl
  | blank b =>
    have htrim : trim (b.1 ++ "") = "" := by
      rw [trim_blanks_append b.2.1]
      rfl
    exact line_blank (by rwa [String.append_empty] at htrim)
  | other o =>
    rw [Line.text, line_pair o.key_clean.1, assign_unknown o.unknown]
    rfl

theorem newline_not_mem_text (l : Line) : '\n' ∉ (l.text e).toList := by
  cases l with
  | entry k a b c d =>
    have hname := k.solid_name.not_mem_newline
    have hv := (e.solid_value hplain he k).not_mem_newline
    simp [Line.text, a.2.2, b.2.2, c.2.2, d.2.2, hname, hv]
  | blank b => exact b.2.2
  | other o => simp [Line.text, o.key_clean.2, o.value_clean]

/-- The lines are read one by one. -/
theorem foldlM_text (ls : List Line) (keys : SubnetKeys) :
    (ls.map (Line.text e)).foldlM SubnetKeys.line keys =
      some ((ls.filterMap Line.key?).foldl e.put keys) := by
  induction ls generalizing keys with
  | nil => rfl
  | cons l ls ih =>
    rw [List.map_cons, List.foldlM_cons, line_text hplain he, List.filterMap_cons]
    cases l.key? with
    | none => exact ih keys
    | some k => exact ih (e.put keys k)

end

theorem foldl_put (e : SubnetEnv) (ks : List Key) (keys : SubnetKeys) : ks.foldl e.put keys =
    ⟨if .network ∈ ks then some e.network else keys.network,
      if .subnet ∈ ks then some e.subnet else keys.subnet,
      if .mtu ∈ ks then some ⟨e.mtu, e.mtu_lt⟩ else keys.mtu,
      if .ipmasq ∈ ks then some e.ipmasq else keys.ipmasq⟩ := by
  induction ks generalizing keys with
  | nil => simp
  | cons k ks ih =>
    rw [List.foldl_cons, ih]
    cases k <;> simp [SubnetEnv.put]

theorem parse_arranged [Crates] (hplain : PlainNetworks) {e : SubnetEnv} (he : e.Admitted)
    {ls : List Line} (hls : Arranged ls) :
    FlannelPlugin.SubnetEnv.parse (unlines (ls.map (Line.text e))) = some e.read := by
  have hnl : ∀ l ∈ ls.map (Line.text e), '\n' ∉ l.toList := by
    intro l hl
    obtain ⟨line, -, rfl⟩ := List.mem_map.mp hl
    exact newline_not_mem_text hplain he line
  have hall : ∀ k : Key, k ∈ ls.filterMap Line.key? := by
    intro k
    rw [hls.mem_iff]
    cases k <;> simp
  have hparse := @parse_unlines _ hnl "" (by simp)
  rw [String.append_empty, foldlM_text hplain he, foldl_put] at hparse
  simpa [hall, finish, SubnetEnv.read] using hparse

theorem parse_render [Crates] (hplain : PlainNetworks) {e : SubnetEnv} (he : e.Admitted) :
    FlannelPlugin.SubnetEnv.parse e.render = some e.read := by
  have harranged : Arranged [plain .network, plain .subnet, plain .mtu, plain .ipmasq] := .refl _
  have h := parse_arranged hplain he harranged
  simpa [text_plain, ← SubnetEnv.render_eq] using h

/-- The file is read back, also when its lines were moved and padded and others stand
between them. -/
theorem subnetEnv_read_back [Crates] (hplain : PlainNetworks) (e : SubnetEnv) (he : e.Admitted) :
    FlannelPlugin.SubnetEnv.parse e.render = some e.read ∧
      ∀ ls : List Line, Arranged ls →
        FlannelPlugin.SubnetEnv.parse (unlines (ls.map (Line.text e))) = some e.read :=
  ⟨parse_render hplain he, fun _ hls => parse_arranged hplain he hls⟩

/-- The example, its lines turned round, one of them padded, with a comment and a blank line. -/
def turnedLines : List Line :=
  let none : Blank := ⟨"", by decide +kernel, by decide +kernel⟩
  let space : Blank := ⟨" \t", by decide +kernel, by decide +kernel⟩
  [.other ⟨"# written by", " flanneld", fun k => by cases k <;> decide, by decide +kernel,
      by decide +kernel⟩, plain .ipmasq, .entry .mtu space none space space, .blank space,
    plain .subnet, plain .network]

theorem turnedLines_read_back :
    FlannelPlugin.SubnetEnv.parse exampleEnv.render = some exampleEnv.read ∧
      FlannelPlugin.SubnetEnv.parse (unlines (turnedLines.map (Line.text exampleEnv))) =
        some exampleEnv.read := by
  have h := @subnetEnv_read_back Crates.compact plainNetworks_compact exampleEnv exampleEnv_admitted
  have harranged : Arranged turnedLines := by
    unfold Arranged
    decide
  exact ⟨h.1, h.2 turnedLines harranged⟩

/-- The text in front of the digits of the MTU. -/
def SubnetEnv.front (e : SubnetEnv) : String :=
  unlines [e.line .network, e.line .subnet] ++ (Key.mtu.name ++ "=")

/-- A length at which the file ends neither within the digits of the MTU nor, if the flag
is set, after them and without the flag. -/
def SubnetEnv.SafeCut (e : SubnetEnv) (n : ℕ) : Prop :=
  n ≤ e.front.length ∨ e.front.length + e.mtu.repr.length ≤ n ∧
    (e.ipmasq = false ∨
      e.front.length + e.mtu.repr.length + 2 ≤ n ∧
        n ≤ e.front.length + e.mtu.repr.length + 15 ∨
      e.front.length + e.mtu.repr.length + 20 ≤ n)

/-- An ADD is told to try again later. -/
def TryAgain [Crates] (t : String) : Prop :=
  FlannelPlugin.SubnetEnv.parse t = none ∧ ∀ files, files subnetEnvPath = some t →
    ∀ stdin conf, FlannelConf.parse stdin = some conf → delegateJson files stdin "ADD" =
      .error (.new 11 "failed to read /run/flannel/subnet.env (flanneld not ready?)")

theorem tryAgain_iff [Crates] {t : String} :
    TryAgain t ↔ FlannelPlugin.SubnetEnv.parse t = none := by
  refine ⟨fun h => h.1, fun h => ⟨h, ?_⟩⟩
  intro files hfiles stdin conf hconf
  simp [delegateJson, hfiles, h, resolveDelegate, hconf, envFor]

theorem solid_of_prefix {s t : String} (h : s.toList <+: t.toList) (ht : Solid t) : Solid s :=
  fun c hc => ht c (h.subset hc)

/-- What is there of a line has no `=` yet, or some of the value. -/
theorem cut_line (e : SubnetEnv) {k : Key} {part : String}
    (h : part.toList <+: (e.line k).toList) :
    part = "" ∨ (0 < part.length ∧ part.length ≤ k.name.length ∧ '=' ∉ part.toList ∧ Solid part) ∨
      ∃ v : String, v.toList <+: (e.value k).toList ∧ part = k.name ++ "=" ++ v := by
  have hline : (e.line k).toList = k.name.toList ++ '=' :: (e.value k).toList := by
    simp [SubnetEnv.line]
  rw [hline] at h
  by_cases hlen : part.toList.length ≤ k.name.toList.length
  · have hname : part.toList <+: k.name.toList :=
      List.prefix_of_prefix_length_le h (List.prefix_append _ _) hlen
    by_cases hempty : part = ""
    · exact .inl hempty
    · right
      left
      refine ⟨?_, hlen, ?_, solid_of_prefix hname k.solid_name⟩
      · exact Nat.pos_of_ne_zero fun h0 => hempty (String.length_eq_zero_iff.mp h0)
      · exact fun hc => k.not_mem_name (hname.subset hc)
  · right
    right
    have hname : k.name.toList ++ ['='] <+: part.toList := by
      apply List.prefix_of_prefix_length_le _ h
      · simp only [List.length_append, List.length_singleton]
        omega
      · exact ⟨(e.value k).toList, by simp⟩
    obtain ⟨v, hv⟩ := hname
    refine ⟨String.ofList v, ?_, ?_⟩
    · rw [← hv, List.append_assoc, List.prefix_append_right_inj] at h
      simpa using h
    · apply String.toList_inj.mp
      simp [← hv]

section

variable [Crates] (hplain : PlainNetworks) {e : SubnetEnv} (he : e.Admitted)

include hplain he

/-- Some whole lines, and one that is cut off. -/
theorem parse_front (ks : List Key) {part : String} {k : Key}
    (hpart : part.toList <+: (e.line k).toList) :
    FlannelPlugin.SubnetEnv.parse (unlines (ks.map e.line) ++ part) =
      (if part = "" then some (ks.foldl e.put noKeys)
        else (ks.foldl e.put noKeys).line part).bind finish := by
  have htext : ks.map e.line = (ks.map plain).map (Line.text e) := by
    rw [List.map_map]
    exact List.map_congr_left fun k _ => (text_plain e k).symm
  have hnl : ∀ l ∈ ks.map e.line, '\n' ∉ l.toList := by
    intro l hl
    obtain ⟨k, -, rfl⟩ := List.mem_map.mp hl
    rw [← text_plain]
    exact newline_not_mem_text hplain he _
  have hlast : '\n' ∉ part.toList := by
    intro hc
    have hmem := hpart.subset hc
    rw [← text_plain] at hmem
    exact newline_not_mem_text hplain he _ hmem
  have hkeys : (ks.map plain).filterMap Line.key? = ks := by
    rw [List.filterMap_map]
    exact List.filterMap_some
  rw [parse_unlines hnl hlast, htext, foldlM_text hplain he, hkeys]
  rfl

/-- The outcomes of the line that is cut off. -/
theorem parse_cut (ks : List Key) {part : String} {k : Key}
    (hpart : part.toList <+: (e.line k).toList) :
    let result := FlannelPlugin.SubnetEnv.parse (unlines (ks.map e.line) ++ part)
    let keys := ks.foldl e.put noKeys
    (part = "" ∧ result = finish keys) ∨
      (0 < part.length ∧ part.length ≤ k.name.length ∧ result = none) ∨
      ∃ v : String, v.toList <+: (e.value k).toList ∧ part = k.name ++ "=" ++ v ∧
        result = (assign keys k.name v).bind finish := by
  intro result keys
  have hresult : result = (if part = "" then some keys else keys.line part).bind finish :=
    parse_front hplain he ks hpart
  rcases cut_line e hpart with h | ⟨hpos, hlen, heq, hsolid⟩ | ⟨v, hv, rfl⟩
  · exact .inl ⟨h, by rw [hresult, if_pos h, Option.bind_some]⟩
  · right
    left
    have hne : part ≠ "" := by
      rintro rfl
      cases hpos
    have hnone : keys.line part = none :=
      line_eq_none heq (by rwa [trim_of_solid hsolid])
    exact ⟨hpos, hlen, by rw [hresult, if_neg hne, hnone, Option.bind_none]⟩
  · right
    right
    have hne : k.name ++ "=" ++ v ≠ "" := by
      intro h
      have h := congrArg String.toList h
      simp at h
    have hsolid := solid_of_prefix hv (e.solid_value hplain he k)
    have hassign : keys.line (k.name ++ "=" ++ v) = assign keys k.name v := by
      rw [line_pair k.not_mem_name, rdropWhile_of_solid hsolid, String.ofList_toList,
        trim_of_solid k.solid_name, trim_of_solid hsolid]
    exact ⟨v, hv, rfl, by rw [hresult, if_neg hne, hassign]⟩

/-- Without a line for the MTU there is no result. -/
theorem parse_cut_early {ks : List Key} {part : String} {k : Key} (hks : .mtu ∉ ks)
    (hk : k = .network ∨ k = .subnet) (hpart : part.toList <+: (e.line k).toList) :
    FlannelPlugin.SubnetEnv.parse (unlines (ks.map e.line) ++ part) = none := by
  have hmtu : (ks.foldl e.put noKeys).mtu = none := by
    rw [foldl_put]
    simp [hks, noKeys]
  have hfinish : ∀ keys : SubnetKeys, keys.mtu = none → finish keys = none := by
    intro keys h
    simp [finish, h]
  rcases parse_cut hplain he ks hpart with ⟨-, h⟩ | ⟨-, -, h⟩ | ⟨v, -, -, h⟩
  · rw [h, hfinish _ hmtu]
  · exact h
  · rw [h]
    rcases hk with rfl | rfl
    · exact hfinish _ hmtu
    · exact hfinish _ hmtu

theorem parse_cut_mtu {part : String} (hpart : part.toList <+: (e.line .mtu).toList) :
    let t := unlines [e.line .network, e.line .subnet] ++ part
    (FlannelPlugin.SubnetEnv.parse t = none ∨ FlannelPlugin.SubnetEnv.parse t = some e.read) ↔
      e.SafeCut t.length := by
  intro t
  have hname : Key.mtu.name.length = 11 := rfl
  have heq : "=".length = 1 := rfl
  have h0 : "".length = 0 := rfl
  have hlen : t.length + 12 = e.front.length + part.length := by
    simp only [t, SubnetEnv.front, String.length_append, hname, heq]
    omega
  rcases parse_cut hplain he [.network, .subnet] hpart with
    ⟨rfl, h⟩ | ⟨hpos, hle, h⟩ | ⟨v, hv, rfl, h⟩
  · have hnone : FlannelPlugin.SubnetEnv.parse t = none := h
    exact iff_of_true (.inl hnone) (.inl (by omega))
  · exact iff_of_true (.inl h) (.inl (by omega))
  · have hpartLen : (Key.mtu.name ++ "=" ++ v).length = 12 + v.length := by
      rw [String.length_append, String.length_append, hname, heq]
    rw [hpartLen] at hlen
    by_cases hempty : v = ""
    · subst hempty
      exact iff_of_true (.inl h) (.inl (by omega))
    · have hvne : v.toList ≠ [] := fun h => hempty (String.toList_inj.mp h)
      have hpos : 0 < v.length := List.length_pos_iff.mpr hvne
      have hvle : v.length ≤ e.mtu.repr.length := hv.length_le
      obtain ⟨m, hm, hparse, hall⟩ := parseUnsigned_cut e.mtu_lt hv hvne
      rw [String.ofList_toList] at hparse
      have hmtu : parseMtu v = some ⟨m, hm⟩ := by
        rw [parseMtu, hparse, Option.bind_some, dif_pos hm]
      have hresult : FlannelPlugin.SubnetEnv.parse t =
          some ⟨e.network, e.subnet, m, false, hm⟩ := by
        refine h.trans ?_
        simp [assign, Key.name, hmtu, finish, SubnetEnv.put, noKeys]
      have hwhole : v.toList = e.mtu.repr.toList ↔ v.length = e.mtu.repr.length :=
        ⟨fun h => congrArg List.length h, hv.eq_of_length⟩
      rw [hresult, SubnetEnv.read, SubnetEnv.SafeCut]
      simp only [reduceCtorEq, false_or, Option.some.injEq, FlannelPlugin.SubnetEnv.mk.injEq,
        true_and, hall, hwhole]
      constructor
      · rintro ⟨hv, hflag⟩
        exact .inr ⟨by omega, .inl hflag.symm⟩
      · rintro (hn | ⟨hn, hflag | ⟨hn', -⟩ | hn'⟩)
        · omega
        · exact ⟨by omega, hflag.symm⟩
        · omega
        · omega

theorem parse_cut_ipmasq {part : String} (hpart : part.toList <+: (e.line .ipmasq).toList) :
    let t := unlines [e.line .network, e.line .subnet, e.line .mtu] ++ part
    (FlannelPlugin.SubnetEnv.parse t = none ∨ FlannelPlugin.SubnetEnv.parse t = some e.read) ↔
      e.SafeCut t.length := by
  intro t
  have hname : Key.ipmasq.name.length = 14 := rfl
  have heq : "=".length = 1 := rfl
  have h0 : "".length = 0 := rfl
  have hlen : t.length = e.front.length + e.mtu.repr.length + 1 + part.length := by
    have hnl : "\n".length = 1 := rfl
    simp only [t, SubnetEnv.front, unlines, SubnetEnv.line, SubnetEnv.value, String.length_append,
      hnl, h0]
    omega
  -- the first three values are there, and a flag may be
  have hfinish : ∀ flag : Option Bool, finish ⟨some e.network, some e.subnet,
      some ⟨e.mtu, e.mtu_lt⟩, flag⟩ =
        some ⟨e.network, e.subnet, e.mtu, flag.getD false, e.mtu_lt⟩ := fun _ => rfl
  rcases parse_cut hplain he [.network, .subnet, .mtu] hpart with
    ⟨rfl, h⟩ | ⟨hpos, hle, h⟩ | ⟨v, hv, rfl, h⟩
  · have hresult : FlannelPlugin.SubnetEnv.parse t =
        some ⟨e.network, e.subnet, e.mtu, false, e.mtu_lt⟩ := h.trans (hfinish none)
    rw [hresult, SubnetEnv.read, SubnetEnv.SafeCut]
    simp only [reduceCtorEq, false_or, Option.some.injEq, FlannelPlugin.SubnetEnv.mk.injEq,
      true_and]
    constructor
    · intro hflag
      exact .inr ⟨by omega, .inl hflag.symm⟩
    · rintro (hn | ⟨-, hflag | ⟨hn, -⟩ | hn⟩)
      · omega
      · exact hflag.symm
      · omega
      · omega
  · exact iff_of_true (.inl h) (.inr ⟨by omega, .inr (.inl ⟨by omega, by omega⟩)⟩)
  · have hpartLen : (Key.ipmasq.name ++ "=" ++ v).length = 15 + v.length := by
      rw [String.length_append, String.length_append, hname, heq]
    rw [hpartLen] at hlen
    have hresult : FlannelPlugin.SubnetEnv.parse t =
        some ⟨e.network, e.subnet, e.mtu, v = "true", e.mtu_lt⟩ :=
      h.trans (hfinish (some (v = "true")))
    rw [hresult, SubnetEnv.read, SubnetEnv.SafeCut]
    simp only [reduceCtorEq, false_or, Option.some.injEq, FlannelPlugin.SubnetEnv.mk.injEq,
      true_and]
    cases hflag : e.ipmasq with
    | false =>
      have hv' : v ≠ "true" := by
        rintro rfl
        rw [SubnetEnv.value, hflag] at hv
        revert hv
        decide
      simp only [hv', decide_false, true_iff, true_or, and_true]
      omega
    | true =>
      rw [SubnetEnv.value, hflag] at hv
      have hvle : v.length ≤ 4 := hv.length_le
      have hall : v = "true" ↔ v.length = 4 := by
        constructor
        · rintro rfl
          rfl
        · exact fun h => String.toList_inj.mp (hv.eq_of_length h)
      simp only [decide_eq_true_iff, hall, reduceCtorEq, false_or]
      omega

/-- A file that is cut off is refused or tells the four values, unless it ends within the
digits of the MTU or before the flag that is set. -/
theorem safe_cut_iff {t : String} (ht : t.toList <+: e.render.toList) :
    (TryAgain t ∨ FlannelPlugin.SubnetEnv.parse t = some e.read) ↔ e.SafeCut t.length := by
  rw [tryAgain_iff]
  rw [SubnetEnv.render_eq] at ht
  have heq : "=".length = 1 := rfl
  have hnl : "\n".length = 1 := rfl
  have h0 : "".length = 0 := rfl
  rcases cut_unlines ht with rfl | ⟨front, l, back, part, hls, rfl, hpart⟩
  · have hparse := parse_render hplain he
    rw [SubnetEnv.render_eq] at hparse
    refine iff_of_true (.inr hparse) (.inr ?_)
    have hname : Key.ipmasq.name.length = 14 := rfl
    have htrue : (toString true).length = 4 := rfl
    simp only [SubnetEnv.front, unlines, SubnetEnv.line, SubnetEnv.value, String.length_append,
      heq, hnl, h0, hname]
    cases hflag : e.ipmasq with
    | false =>
      simp only [true_or, and_true]
      omega
    | true =>
      rw [htrue]
      omega
  · have hlen := hpart.length_le
    rcases front with _ | ⟨k₁, _ | ⟨k₂, _ | ⟨k₃, _ | ⟨k₄, front⟩⟩⟩⟩
    · obtain ⟨rfl, -⟩ := List.cons.inj hls
      have hmtu : Key.mtu ∉ ([] : List Key) := by simp
      have hparse := parse_cut_early hplain he hmtu (.inl rfl) hpart
      refine iff_of_true (.inl hparse) (.inl ?_)
      simp only [SubnetEnv.front, unlines, String.length_append, h0]
      have hle : part.length ≤ (e.line .network).length := hlen
      omega
    · simp only [List.cons_append, List.nil_append, List.cons.injEq] at hls
      obtain ⟨rfl, rfl, -⟩ := hls
      have hmtu : Key.mtu ∉ [Key.network] := by simp
      have hparse := parse_cut_early hplain he hmtu (.inr rfl) hpart
      refine iff_of_true (.inl hparse) (.inl ?_)
      simp only [SubnetEnv.front, unlines, String.length_append, h0]
      have hle : part.length ≤ (e.line .subnet).length := hlen
      omega
    · simp only [List.cons_append, List.nil_append, List.cons.injEq] at hls
      obtain ⟨rfl, rfl, rfl, -⟩ := hls
      exact parse_cut_mtu hplain he hpart
    · simp only [List.cons_append, List.nil_append, List.cons.injEq] at hls
      obtain ⟨rfl, rfl, rfl, rfl, -⟩ := hls
      exact parse_cut_ipmasq hplain he hpart
    · have hlong := congrArg List.length hls
      simp at hlong

end

theorem safe_cut_of_first_line :
    @TryAgain Crates.compact "FLANNEL_NETWORK=10.244.0.0/16\n" ∨
      FlannelPlugin.SubnetEnv.parse "FLANNEL_NETWORK=10.244.0.0/16\n" = some exampleEnv.read :=
  (@safe_cut_iff Crates.compact plainNetworks_compact _ exampleEnv_admitted _
    (by decide +kernel)).mpr (.inl (by decide +kernel))

/-- The example, cut off within its MTU. -/
def tornText : String :=
  "FLANNEL_NETWORK=10.244.0.0/16\nFLANNEL_SUBNET=10.244.1.0/24\nFLANNEL_MTU=145"

/-- The plugin goes on with an MTU of 145 and without the flag. -/
theorem torn_mtu_accepted : @SubnetEnv.Admitted Crates.compact exampleEnv ∧
    tornText.toList <+: exampleEnv.render.toList ∧
    ¬(@TryAgain Crates.compact tornText ∨
      FlannelPlugin.SubnetEnv.parse tornText = some exampleEnv.read) := by
  have hparse : (FlannelPlugin.SubnetEnv.parse tornText).map (·.mtu) = some 145 := by
    decide +kernel
  refine ⟨exampleEnv_admitted, by decide +kernel, ?_⟩
  rintro (h | h)
  · rw [h.1] at hparse
    cases hparse
  · rw [h] at hparse
    cases hparse

end FlannelRs.SubnetEnvFiles
