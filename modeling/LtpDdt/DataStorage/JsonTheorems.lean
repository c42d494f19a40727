/-
DataStorage.JsonTheorems — the output of `data_to_json` is JSON and stands
for the tree that was printed: `DataNode.tree`, without the bytes that
`data_fprintf_esc` drops, and with eight blanks for a tab. The comma behind every
member but the last is the unsigned comparison of the loops (`separator_eq`).
-/
import LtpDdt.DataStorage.Node
import LtpDdt.Json.Tree

namespace LtpDdt.DataStorage

open CTypes Json List

/-! ## What is printed -/

/-- A tab is replaced, and a byte that compares below 0x20 is dropped. -/
def printedByte (signed : Bool) (b : UInt8) : List UInt8 :=
  if b = 0x09 then List.replicate 8 0x20 else if 0x20 ≤ charVal signed b then [b] else []

mutual

def DataNode.tree (signed : Bool) : DataNode → Tree
  | .array elems => .arr (arrayTrees signed elems)
  | .hash elems => .obj (hashTrees signed elems)
  | .string val => .str (val.flatMap (printedByte signed))
  | .int val => .int val
  | .null => .null

def arrayTrees (signed : Bool) : List DataNode → List Tree
  | [] => []
  | node :: elems => node.tree signed :: arrayTrees signed elems

def hashTrees (signed : Bool) : List (List UInt8 × DataNode) → List (List UInt8 × Tree)
  | [] => []
  | (id, node) :: elems => (id, node.tree signed) :: hashTrees signed elems

end

mutual

/-- Every container has a length with `L`, every id satisfies `I`, every
string `S`. -/
def DataNode.Forall (L : Nat → Prop) (I S : List UInt8 → Prop) : DataNode → Prop
  | .array elems => L elems.length ∧ arrayForall L I S elems
  | .hash elems => L elems.length ∧ hashForall L I S elems
  | .string val => S val
  | .int _ => True
  | .null => True

def arrayForall (L : Nat → Prop) (I S : List UInt8 → Prop) : List DataNode → Prop
  | [] => True
  | node :: elems => node.Forall L I S ∧ arrayForall L I S elems

def hashForall (L : Nat → Prop) (I S : List UInt8 → Prop) : List (List UInt8 × DataNode) → Prop
  | [] => True
  | (id, node) :: elems => (I id ∧ node.Forall L I S) ∧ hashForall L I S elems

end

/-- The lengths are of type `unsigned int`, and no id has a quote, a backslash or a control
character. -/
def DataNode.Printable (node : DataNode) : Prop :=
  node.Forall (· < 4294967296) (fun id => ∀ b ∈ id, isPlain b = true) fun _ => True

/-! ## Numbers -/

lemma digitsVal_append (xs ys : List UInt8) (acc : Nat) :
    digitsVal (xs ++ ys) acc = digitsVal ys (digitsVal xs acc) := by
  induction xs generalizing acc with
  | nil => rfl
  | cons x xs ih => exact ih _

lemma digitsVal_decimal (n : Nat) : digitsVal (decimal n) 0 = n := by
  induction n using decimal.induct with
  | case1 n h =>
    rw [decimal, if_pos h, digitsVal, digitsVal, digitVal, (digit_byte h).2]
    omega
  | case2 n h =>
    rw [decimal, if_neg h, digitsVal_append, digitsVal, digitsVal, digitVal,
      (digit_byte (Nat.mod_lt n (by decide : 0 < 10))).2]
    omega

variable (val : Int)

/-- The number that `%li` prints. -/
def intNumber : Number where
  neg := val < 0
  int := ⟨decimal val.natAbs, decimal_ne_nil _, isDigitByte_decimal _⟩
  noLeadingZero := by
    intro h
    rcases Nat.eq_zero_or_pos val.natAbs with h0 | hpos
    · have hzero : decimal 0 = [0x30] := by
        rw [decimal]
        rfl
      simp only [h0, hzero, length_singleton]
    · exact absurd h (decimal_head hpos)
  frac := none
  exp := none

lemma intNumber_text : (intNumber val).text = printInt val := by
  rw [Number.text, Number.tailText, printInt]
  by_cases h : val < 0
  · rw [show (-val).toNat = val.natAbs by omega]
    simp [intNumber, h, fracText, expText]
  · rw [show val.toNat = val.natAbs by omega]
    simp [intNumber, h, fracText, expText]

lemma intNumber_tree : (Scalar.num (intNumber val)).tree = some (.int val) := by
  have hval : (intNumber val).value = val := by
    rw [Number.value]
    simp only [intNumber, digitsVal_decimal, decide_eq_true_eq]
    split <;> omega
  rw [Scalar.tree, hval]
  rfl

/-! ## Strings -/

variable (signed : Bool)

lemma escByte_elems (c : UInt8) : ∃ s,
    strText s = escByte signed c ∧ strDecode s = printedByte signed c ∧ ∀ x ∈ s, x.half = none := by
  unfold escByte printedByte
  by_cases h1 : c = 0x5c
  · subst h1
    refine ⟨[.esc .backslash], rfl, ?_, by simp [StrElem.half]⟩
    cases signed <;> rfl
  by_cases h2 : c = 0x22
  · subst h2
    refine ⟨[.esc .quote], rfl, ?_, by simp [StrElem.half]⟩
    cases signed <;> rfl
  rw [if_neg h1, if_neg h2]
  by_cases h3 : c = 0x09
  · rw [if_pos h3]
    exact ⟨replicate 8 (.plain 0x20 rfl), rfl, rfl, by simp [StrElem.half]⟩
  rw [if_neg h3]
  split_ifs with h4
  · have hle : 0x20 ≤ c.toNat := by
      unfold charVal at h4
      split at h4 <;> omega
    have hplain : isPlain c := by simp [isPlain, h1, h2, UInt8.le_iff_toNat_le, hle]
    exact ⟨[.plain c hplain], rfl, rfl, by simp [StrElem.half]⟩
  · exact ⟨[], rfl, rfl, by simp⟩

lemma esc_elems (str : List UInt8) : ∃ s, strText s = str.flatMap (escByte signed) ∧
      strValue s = some (str.flatMap (printedByte signed)) := by
  have h : ∃ s, strText s = str.flatMap (escByte signed) ∧
      strDecode s = str.flatMap (printedByte signed) ∧ ∀ x ∈ s, x.half = none := by
    induction str with
    | nil => exact ⟨[], rfl, rfl, by simp⟩
    | cons c str ih =>
      obtain ⟨s, ht, hd, hh⟩ := ih
      obtain ⟨s', ht', hd', hh'⟩ := escByte_elems signed c
      refine ⟨s' ++ s, ?_, ?_, fun x hx => (mem_append.1 hx).elim (hh' x) (hh x)⟩
      · rw [strText, flatMap_append, ← strText, ← strText, ht, ht', flatMap_cons]
      · rw [strDecode, flatMap_append, ← strDecode, ← strDecode, hd, hd', flatMap_cons]
  obtain ⟨s, ht, hd, hh⟩ := h
  exact ⟨s, ht, by rw [strValue_of_noHalf hh, hd]⟩

lemma id_elems {id} (h : ∀ b ∈ id, isPlain b) : ∃ s, strText s = id ∧ strValue s = some id := by
  have h' : ∃ s, strText s = id ∧ strDecode s = id ∧ ∀ x ∈ s, x.half = none := by
    induction id with
    | nil => exact ⟨[], rfl, rfl, by simp⟩
    | cons b id ih =>
      obtain ⟨s, ht, hd, hh⟩ := ih (forall_mem_cons.1 h).2
      refine ⟨.plain b (h b mem_cons_self) :: s, ?_, ?_, ?_⟩
      · exact congrArg (b :: ·) ht
      · exact congrArg (b :: ·) hd
      · exact forall_mem_cons.2 ⟨rfl, hh⟩
  obtain ⟨s, ht, hd, hh⟩ := h'
  exact ⟨s, ht, by rw [strValue_of_noHalf hh, hd]⟩

/-! ## Containers -/

variable {i used : UInt32} {n : Nat}

/-- **A comma comes behind every member but the last one.** -/
theorem separator_eq (h : i.toNat + (n + 1) = used.toNat) :
    separator i used = if n = 0 then [0x0a] else [0x2c, 0x0a] := by
  have hsub : (used - 1).toNat = used.toNat - 1 := by
    rw [UInt32.toNat_sub_of_le _ _ (by rw [UInt32.le_iff_toNat_le, UInt32.toNat_one]; omega),
      UInt32.toNat_one]
  unfold separator
  by_cases hn : n = 0
  · rw [if_pos hn, if_neg (by rw [UInt32.lt_iff_toNat_lt]; omega)]
  · rw [if_neg hn, if_pos (by rw [UInt32.lt_iff_toNat_lt]; omega)]

lemma next_index (h : i.toNat + (n + 1) = used.toNat) : (i + 1).toNat + n = used.toNat := by
  have hlt := used.toNat_lt
  rw [UInt32.toNat_add, UInt32.toNat_one]
  omega

def newlineWs (padd : UInt32) : Ws := ⟨0x0a :: padding padd, by
  intro b hb
  rcases mem_cons.1 hb with rfl | hb
  · rfl
  · rw [(mem_replicate.1 hb).2]
    rfl⟩

def blankWs : Ws := ⟨[0x20], all_eq_true.1 rfl⟩

/-- `out` is what the loop writes for the members, behind the opening bracket. -/
structure Lines {k : Kind} (s : Seq k) (padd : UInt32) (out : List UInt8) (n : Nat)
    (trees : List (List UInt8 × Tree)) : Prop where
  first : s.text true = 0x0a :: (out ++ (padding padd ++ [k.closing]))
  next : s.text false = (if n = 0 then [] else [0x2c]) ++ s.text true
  trees : s.trees = some trees

lemma lines_nil (k : Kind) (padd : UInt32) :
    Lines (.nil (newlineWs padd) : Seq k) padd [] 0 [] := ⟨rfl, rfl, rfl⟩

lemma lines_cons {k : Kind} {s : Seq k} {padd : UInt32} {out trees} (h : Lines s padd out n trees)
    (hi : i.toNat + (n + 1) = used.toNat) (key : Key k) {label} (hkey : key.label = some label)
    {v : Value} {tree : Tree} (hv : v.tree = some tree) :
    ∃ s' : Seq k, Lines s' padd
      (padding (padd + 1) ++ (key.text ++ (v.text ++ (separator i used ++ out)))) (n + 1)
      ((label, tree) :: trees) := by
  refine ⟨.cons (newlineWs (padd + 1)) key v s, ?_, ?_, Seq.trees_cons hkey hv h.trees⟩
  · have hsep : s.text false = separator i used ++ (out ++ (padding padd ++ [k.closing])) := by
      rw [h.next, h.first, separator_eq hi]
      split <;> rfl
    rw [Seq.text_cons, hsep]
    simp [newlineWs]
  · rw [Seq.text_cons_false]
    rfl

lemma toNat_count {n : Nat} (h : n < 4294967296) :
    (0 : UInt32).toNat + n = (UInt32.ofNat n).toNat := by
  rw [UInt32.toNat_ofNat_of_lt' h]
  exact Nat.zero_add _

mutual

/-- **A node is printed as its value.** -/
theorem node_value (signed : Bool) : ∀ (node : DataNode), node.Printable →
    ∀ padd doPadd, ∃ v : Value,
      dataToJson_ signed node padd doPadd = padding (if doPadd then padd else 0) ++ v.text ∧
        v.tree = some (node.tree signed)
  | .int val, _, padd, doPadd =>
    ⟨.scalar (.num (intNumber val)), by
      rw [dataToJson_, dataFprintf, Value.text, Scalar.text, intNumber_text],
      intNumber_tree val⟩
  | .string val, _, padd, doPadd => by
    obtain ⟨s, ht, hs⟩ := esc_elems signed val
    refine ⟨.scalar (.str s), ?_, ?_⟩
    · rw [dataToJson_, dataFprintfEsc, Value.text, Scalar.text, ht]
    · rw [Value.tree, Scalar.tree, hs]
      rfl
  | .null, _, padd, doPadd => ⟨.scalar .null, rfl, rfl⟩
  | .hash elems, h, padd, doPadd => by
    obtain ⟨s, hs⟩ := hash_lines signed elems h.2 padd 0 _ (toNat_count h.1)
    refine ⟨.sub .obj s, ?_, ?_⟩
    · rw [dataToJson_, Value.text, hs.first]
      simp [dataFprintf, Kind.opening, Kind.closing]
    · rw [Value.tree, hs.trees]
      rfl
  | .array elems, h, padd, doPadd => by
    obtain ⟨s, hs⟩ := array_lines signed elems h.2 padd 0 _ (toNat_count h.1)
    refine ⟨.sub .arr s, ?_, ?_⟩
    · rw [dataToJson_, Value.text, hs.first]
      simp [dataFprintf, Kind.opening, Kind.closing]
    · rw [Value.tree, hs.trees]
      simp [Tree.container, DataNode.tree, Function.comp_def]

theorem hash_lines (signed : Bool) : ∀ (elems : List (List UInt8 × DataNode)),
    hashForall (· < 4294967296) (fun id => ∀ b ∈ id, isPlain b) (fun _ => True) elems →
    ∀ (padd i used : UInt32), i.toNat + elems.length = used.toNat →
      ∃ s : Seq .obj, Lines s padd (hashLoop signed elems i used padd) elems.length
        (hashTrees signed elems)
  | [], _, padd, _, _, _ => ⟨_, lines_nil .obj padd⟩
  | (id, node) :: elems, h, padd, i, used, hi => by
    obtain ⟨v, hv, htree⟩ := node_value signed node h.1.2 (padd + 1) false
    obtain ⟨ids, hid, hlabel⟩ := id_elems h.1.1
    obtain ⟨s, hs⟩ := hash_lines signed elems h.2 padd (i + 1) used (next_index hi)
    obtain ⟨s', hs'⟩ := lines_cons hs hi (.name ids .empty blankWs) hlabel htree
    refine ⟨s', ?_⟩
    have hout : hashLoop signed ((id, node) :: elems) i used padd = padding (padd + 1) ++
        ((Key.name ids .empty blankWs).text ++
          (v.text ++ (separator i used ++ hashLoop signed elems (i + 1) used padd))) := by
      rw [hashLoop, hv]
      simp [dataFprintf, Key.text, hid, Ws.empty, blankWs, padding]
    rw [hout]
    exact hs'

theorem array_lines (signed : Bool) : ∀ (elems : List DataNode),
    arrayForall (· < 4294967296) (fun id => ∀ b ∈ id, isPlain b) (fun _ => True) elems →
    ∀ (padd i used : UInt32), i.toNat + elems.length = used.toNat →
      ∃ s : Seq .arr, Lines s padd (arrayLoop signed elems i used padd) elems.length
        ((arrayTrees signed elems).map fun t => ([], t))
  | [], _, padd, _, _, _ => ⟨_, lines_nil .arr padd⟩
  | node :: elems, h, padd, i, used, hi => by
    obtain ⟨v, hv, htree⟩ := node_value signed node h.1 (padd + 1) true
    obtain ⟨s, hs⟩ := array_lines signed elems h.2 padd (i + 1) used (next_index hi)
    obtain ⟨s', hs'⟩ := lines_cons hs hi .elem rfl htree
    refine ⟨s', ?_⟩
    have hout : arrayLoop signed (node :: elems) i used padd = padding (padd + 1) ++
        (Key.elem.text ++
          (v.text ++ (separator i used ++ arrayLoop signed elems (i + 1) used padd))) := by
      rw [arrayLoop, hv]
      simp [Key.text]
    rw [hout]
    exact hs'

end

/-! ## The encoding -/

lemma escByte_ascii {b : UInt8} (h : b.toNat ≤ 127) : isAscii (escByte signed b) := by
  unfold escByte
  split
  · rfl
  split
  · rfl
  split
  · rfl
  split
  · simp [isAscii, h]
  · rfl

lemma escByte_high {b : UInt8} (h : 128 ≤ b.toNat) :
    escByte signed b = if signed then [] else [b] := by
  have hne : ∀ c, c.toNat ≤ 127 → b ≠ c := by
    rintro c _ rfl
    omega
  have hlt := b.toNat_lt
  rw [escByte, if_neg (hne _ (by decide)), if_neg (hne _ (by decide)), if_neg (hne _ (by decide))]
  cases signed with
  | false =>
    refine if_pos ?_
    simp only [charVal, Bool.false_and, Bool.false_eq_true, if_false]
    omega
  | true =>
    refine if_neg ?_
    simp only [charVal, h, decide_true, Bool.true_and, if_true]
    omega

lemma isUtf8_esc {str : List UInt8} (h : IsUtf8 str) : IsUtf8 (str.flatMap (escByte signed)) := by
  obtain ⟨cs, rfl⟩ := h
  induction cs with
  | nil => exact isUtf8_nil
  | cons c cs ih =>
    rw [flatMap_cons, flatMap_append]
    refine IsUtf8.append ?_ ih
    rcases utf8EncodeChar_cases c with ⟨b, hb, hle⟩ | hhigh
    · rw [hb, flatMap_singleton]
      exact isUtf8_ascii (escByte_ascii signed hle)
    have hall : (String.utf8EncodeChar c).flatMap (escByte signed) =
        (String.utf8EncodeChar c).flatMap fun b => if signed then [] else [b] :=
      flatMap_congr fun b hb => escByte_high signed (hhigh b hb)
    rw [hall]
    cases signed with
    | true => exact ⟨[], by simp⟩
    | false => exact ⟨[c], by simp⟩

lemma isUtf8_padding (padd : UInt32) : IsUtf8 (padding padd) :=
  isUtf8_ascii (isAscii_iff.2 fun b hb => by
    rw [(mem_replicate.1 hb).2]
    decide)

lemma isUtf8_quote : IsUtf8 [0x22] := isUtf8_ascii rfl

lemma isUtf8_separator (i used : UInt32) : IsUtf8 (separator i used) := by
  unfold separator
  split <;> exact isUtf8_ascii rfl

lemma isUtf8_printInt : IsUtf8 (printInt val) := by
  have hdec : ∀ n, ∀ b ∈ decimal n, b.toNat ≤ 127 := fun n b hb => by
    have := (isDigitByte_iff b).1 (isDigitByte_decimal n b hb)
    omega
  unfold printInt
  split
  · exact isUtf8_ascii (isAscii_iff.2 (forall_mem_cons.2 ⟨by decide, hdec _⟩))
  · exact isUtf8_ascii (isAscii_iff.2 (hdec _))

mutual

/-- What is printed is UTF-8. -/
theorem node_utf8 (signed : Bool) : ∀ (node : DataNode), node.Forall (fun _ => True) IsUtf8 IsUtf8 →
    ∀ padd doPadd, IsUtf8 (dataToJson_ signed node padd doPadd)
  | .int val, _, _, _ => (isUtf8_padding _).append (isUtf8_printInt val)
  | .string _, h, _, _ =>
    (isUtf8_padding _).append ((isUtf8_quote).append
      ((isUtf8_esc signed h).append (isUtf8_ascii rfl)))
  | .null, _, _, _ => (isUtf8_padding _).append (isUtf8_ascii rfl)
  | .hash elems, h, padd, _ =>
    ((isUtf8_padding _).append (isUtf8_ascii rfl)).append
      ((hash_utf8 signed elems h.2 _ _ padd).append ((isUtf8_padding _).append (isUtf8_ascii rfl)))
  | .array elems, h, padd, _ =>
    ((isUtf8_padding _).append (isUtf8_ascii rfl)).append
      ((array_utf8 signed elems h.2 _ _ padd).append ((isUtf8_padding _).append (isUtf8_ascii rfl)))

theorem hash_utf8 (signed : Bool) : ∀ elems, hashForall (fun _ => True) IsUtf8 IsUtf8 elems →
    ∀ i used padd, IsUtf8 (hashLoop signed elems i used padd)
  | [], _, _, _, _ => isUtf8_nil
  | (_, node) :: elems, h, i, used, padd =>
    ((isUtf8_padding _).append ((isUtf8_quote).append (h.1.1.append (isUtf8_ascii rfl)))).append
      ((node_utf8 signed node h.1.2 _ _).append
        ((isUtf8_separator i used).append (hash_utf8 signed elems h.2 _ _ padd)))

theorem array_utf8 (signed : Bool) : ∀ elems, arrayForall (fun _ => True) IsUtf8 IsUtf8 elems →
    ∀ i used padd, IsUtf8 (arrayLoop signed elems i used padd)
  | [], _, _, _, _ => isUtf8_nil
  | node :: elems, h, i, used, padd =>
    (node_utf8 signed node h.1 _ _).append
      ((isUtf8_separator i used).append (array_utf8 signed elems h.2 _ _ padd))

end

/-! ## The print -/

/-- **`data_to_json`** writes a JSON value for the tree, and for no other one; it is UTF-8 if the
ids and the strings are. -/
theorem dataToJson_decodes (signed : Bool) {node : DataNode} (h : node.Printable) (padd : UInt32) :
    (∃ v : Value, v.text = dataToJson signed node padd ∧ v.tree = some (node.tree signed)) ∧
      (∀ v : Value, v.text = dataToJson signed node padd → v.tree = some (node.tree signed)) ∧
      (node.Forall (fun _ => True) IsUtf8 IsUtf8 → IsUtf8 (dataToJson signed node padd)) := by
  obtain ⟨v, hv, htree⟩ := node_value signed node h padd false
  have htext : v.text = dataToJson signed node padd := hv.symm
  refine ⟨⟨v, htext, htree⟩, fun w hw => ?_, fun hu => node_utf8 signed node hu padd false⟩
  rw [Value.tree_unique (hw.trans htext.symm), htree]

/-- A hash with an array, in which a string has a quote and a tab. -/
theorem dataToJson_decodes_hash : ∃ v : Value,
    v.text = dataToJson true (.hash [([0x61], .array [.string [0x22, 0x09], .int (-7)])]) 0 ∧
    v.tree = some (.obj [([0x61], .arr [.str (0x22 :: List.replicate 8 0x20), .int (-7)])]) :=
  (@dataToJson_decodes true (.hash [([0x61], .array [.string [0x22, 0x09], .int (-7)])])
    ⟨by decide, ⟨all_eq_true.1 rfl, by decide, ⟨trivial, trivial, trivial⟩⟩, trivial⟩ 0).1

end LtpDdt.DataStorage
