/-
Ujson.Filter — the rest of `libs/ujson/ujson_reader.c`: the binary search for a key,
skipping, filtered object loops, saved states, the end of parsing; and the loop macros.

* A table is the list of its attributes; `(size_t)-1` is `none`, and so is a `NULL`
  table.
* The loops have bounds as in `Ujson.Reader`: a round of the binary search shrinks the
  interval, a round of a filter or of a loop reads a byte.
* `Flow` is how a loop body ends: with the next round, or with a `return`.

What the binary search finds is the key (`ujsonLookup_some`), and it finds every key of a sorted
table (`ujsonLookup_sorted`): an end of the interval that was compared is not the key.
-/
import LtpDdt.Ujson.Walk

namespace LtpDdt.Ujson

open Json

/-! ## Lookup -/

/-- `strcmp` on the bytes of two C strings. -/
def strcmp : List UInt8 → List UInt8 → Ordering
  | [], [] => .eq
  | [], _ :: _ => .lt
  | _ :: _, [] => .gt
  | a :: as, b :: bs => if a = b then strcmp as bs else if a < b then .lt else .gt

/-- `struct ujson_obj_attr` -/
structure ObjAttr where
  key : List UInt8
  type : UType
  deriving DecidableEq

variable (arr : List ObjAttr)

def listElem (idx : Nat) : List UInt8 := ((arr.map ObjAttr.key).getD idx [])

/-- The two comparisons after the loop of `ujson_lookup`. -/
def lookupEnd (key : List UInt8) (l r : Nat) (mid : Option Nat) : Option Nat :=
  if some r ≠ mid ∧ strcmp (listElem arr r) key = .eq then some r
  else if some l ≠ mid ∧ strcmp (listElem arr l) key = .eq then some l
  else none

def lookupLoop (arr : List ObjAttr) (key : List UInt8) : Nat → Nat → Nat → Option Nat → Option Nat
  | 0, l, r, mid => lookupEnd arr key l r mid
  | n + 1, l, r, mid =>
    if r - l > 1 then
      match strcmp (listElem arr ((l + r) / 2)) key with
      | .eq => some ((l + r) / 2)
      | .lt => lookupLoop arr key n ((l + r) / 2) r (some ((l + r) / 2))
      | .gt => lookupLoop arr key n l ((l + r) / 2) (some ((l + r) / 2))
    else lookupEnd arr key l r mid

def ujsonLookup (key : List UInt8) : Option Nat :=
  if arr.length = 0 then none else lookupLoop arr key arr.length 0 (arr.length - 1) none

/-! ## Skipping -/

/-- `ujson_obj_skip` and `ujson_arr_skip`; `true` is the non-zero return value. -/
def skipLoop : Nat → Kind → Reader × Val → Bool × Reader
  | 0, _, (r, _) => (false, r)
  | n + 1, k, (r, res) =>
    if res.type = .void then (false, r)
    else
      match res.type.kind? with
      | some k' =>
        match skipLoop n k' (firstOf k' r {}).2 with
        | (true, r) => (true, r)
        | (false, r) => skipLoop n k (nextOf k r res).2
      | none => skipLoop n k (nextOf k r res).2

variable (r : Reader)

def ujsonObjSkip : Bool × Reader :=
  skipLoop (r.json.length + 1) .obj (ujsonObjFirst r {}).2

def ujsonArrSkip : Bool × Reader :=
  skipLoop (r.json.length + 1) .arr (ujsonArrFirst r {}).2

/-- `false` is the zero return value, the failure. -/
def skipObjVal : Bool × Reader :=
  match getValue r {} with
  | (false, r, _) => (false, r)
  | (true, r, dummy) =>
    match dummy.type with
    | .obj => let (ret, r) := ujsonObjSkip r; (!ret, r)
    | .arr => let (ret, r) := ujsonArrSkip r; (!ret, r)
    | _ => (true, r)

/-! ## Filters -/

def ObjAttr.accepts (attr : ObjAttr) (type : UType) : Bool :=
  attr.type = .void || attr.type = type || (attr.type = .float && type = .int)

def objNextFilter (obj ign : Option (List ObjAttr)) : Nat → Reader → Val → Bool × Reader × Val
  | 0, r, res => (false, r, res)
  | n + 1, r, res =>
    match copyIdStr r with
    | (none, r) => (false, r, res)
    | (some id, r) =>
      let idx := obj.bind fun attrs => ujsonLookup attrs id
      let res := { res with id := id, idx := idx }
      match idx with
      | some i =>
        match getValue r res with
        | (false, r, res) => (false, r, res)
        | (true, r, res) =>
          let attr := (obj.getD []).getD i ⟨[], .void⟩
          if attr.accepts res.type then (true, r, res)
          else
            match objPreNext (r.warn (.wrongType attr.key attr.type)) res with
            | (true, r, res) => (false, r, res)
            | (false, r, res) => objNextFilter obj ign n r res
      | none =>
        match skipObjVal r with
        | (false, r) => (false, r, res)
        | (true, r) =>
          let unexpected := ign.any fun attrs => (ujsonLookup attrs id).isNone
          let r := if unexpected then r.warn (.unexpectedKey id) else r
          match objPreNext r res with
          | (true, r, res) => (false, r, res)
          | (false, r, res) => objNextFilter obj ign n r res

def ujsonObjFirstFilter (res : Val) (obj ign : Option (List ObjAttr)) : Bool × Reader × Val :=
  if r.err.isSome then (false, r, { res with type := .void })
  else
    match anyFirst r 0x7b with
    | (true, r) => (false, r, res)
    | (false, r) =>
      match checkEnd r res 0x7d with
      | (true, r, res) => (false, r, res)
      | (false, r, res) => objNextFilter obj ign (r.json.length + 1) r res

def ujsonObjNextFilter (res : Val) (obj ign : Option (List ObjAttr)) : Bool × Reader × Val :=
  if r.err.isSome then (false, r, { res with type := .void })
  else
    match objPreNext r res with
    | (true, r, res) => (false, r, res)
    | (false, r, res) => objNextFilter obj ign (r.json.length + 1) r res

/-- `*ujson_empty_obj` -/
def ujsonEmptyObj : Option (List ObjAttr) := some []

/-! ## States -/

/-- `ujson_reader_state` -/
structure ReaderState where
  off : Nat
  depth : Nat

def ujsonReaderStateSave : ReaderState := ⟨r.subOff, r.depth⟩

def ujsonReaderStateLoad (state : ReaderState) : Reader :=
  if r.err.isSome then r
  else { r with off := state.off, subOff := state.off, depth := state.depth }

def ujsonReaderConsumed : Bool := r.off ≥ r.json.length

def ujsonReaderFinish : Reader :=
  if r.err.isNone && !ujsonReaderConsumed r then r.warn .garbage else r

/-! ## Loops with a body -/

/-- A round ends: the loop goes on, or the function returns. -/
inductive Flow (σ : Type) where
  | next (r : Reader) (val : Val) (s : σ)
  | ret (r : Reader) (val : Val) (s : σ)

/-- `for (…; ujson_val_valid(val); next(reader, val)) body` -/
def foreachLoop {σ : Type} (next : Reader → Val → Bool × Reader × Val)
    (body : Reader → Val → σ → Flow σ) : Nat → Reader × Val → σ → Flow σ
  | 0, (r, val), s => .next r val s
  | n + 1, (r, val), s =>
    if val.type = .void then .next r val s
    else
      match body r val s with
      | .ret r val s => .ret r val s
      | .next r val s => foreachLoop next body n (next r val).2 s

/-- `UJSON_ARR_FOREACH` -/
def arrForeach {σ : Type} (body : Reader → Val → σ → Flow σ) (r : Reader) (val : Val) (s : σ) :
    Flow σ :=
  foreachLoop ujsonArrNext body (r.json.length + 1) (ujsonArrFirst r val).2 s

/-- `UJSON_OBJ_FOREACH_FILTER` -/
def objForeachFilter {σ : Type} (obj ign : Option (List ObjAttr))
    (body : Reader → Val → σ → Flow σ) (r : Reader) (val : Val) (s : σ) : Flow σ :=
  foreachLoop (fun r val => ujsonObjNextFilter r val obj ign) body (r.json.length + 1)
    (ujsonObjFirstFilter r val obj ign).2 s

/-! ## The search -/

variable {arr} {i : Nat} {key : List UInt8}

lemma strcmp_eq : ∀ {a b}, strcmp a b = .eq ↔ a = b
  | [], [] => by simp [strcmp]
  | [], _ :: _ => by simp [strcmp]
  | _ :: _, [] => by simp [strcmp]
  | a :: as, b :: bs => by
    by_cases h : a = b
    · simp [strcmp, h, strcmp_eq (a := as) (b := bs)]
    · by_cases hlt : a < b <;> simp [strcmp, h, hlt]

lemma listElem_eq (h : i < arr.length) : listElem arr i = arr[i].key := by simp [listElem, h]

/-! ## What is found is the key -/

lemma lookupEnd_some {l r mid} (h : lookupEnd arr key l r mid = some i) :
    listElem arr i = key ∧ (i = l ∨ i = r) := by
  unfold lookupEnd at h
  split at h
  · rename_i hc
    cases h
    exact ⟨strcmp_eq.mp hc.2, .inr rfl⟩
  split at h
  · rename_i hc
    cases h
    exact ⟨strcmp_eq.mp hc.2, .inl rfl⟩
  · cases h

lemma lookupLoop_some : ∀ {n l r} {mid}, l ≤ r → lookupLoop arr key n l r mid = some i →
      listElem arr i = key ∧ l ≤ i ∧ i ≤ r
  | 0, l, r, mid, hle, h => by
    obtain ⟨hkey, hi⟩ := lookupEnd_some h
    exact ⟨hkey, by omega, by omega⟩
  | n + 1, l, r, mid, hle, h => by
    rw [lookupLoop] at h
    split at h
    · split at h
      · rename_i hc
        cases h
        exact ⟨strcmp_eq.mp hc, by omega, by omega⟩
      · obtain ⟨hkey, hl, hr⟩ := lookupLoop_some (by omega) h
        exact ⟨hkey, by omega, hr⟩
      · obtain ⟨hkey, hl, hr⟩ := lookupLoop_some (by omega) h
        exact ⟨hkey, hl, by omega⟩
    · obtain ⟨hkey, hi⟩ := lookupEnd_some h
      exact ⟨hkey, by omega, by omega⟩

lemma ujsonLookup_some
    (h : ujsonLookup arr key = some i) : ∃ attr, arr[i]? = some attr ∧ attr.key = key := by
  unfold ujsonLookup at h
  split at h
  · cases h
  obtain ⟨hkey, -, _⟩ := lookupLoop_some (Nat.zero_le _) h
  have hlt : i < arr.length := by omega
  exact ⟨arr[i], List.getElem?_eq_getElem hlt, by rw [← listElem_eq hlt, hkey]⟩

/-! ## In a sorted table every key is found -/

/-- The keys are in strictly increasing `strcmp` order. -/
def Sorted (arr : List ObjAttr) : Prop :=
  ∀ i j, i < j → j < arr.length → strcmp (listElem arr i) (listElem arr j) = .lt

lemma strcmp_swap : ∀ a b, strcmp a b = .lt → strcmp b a = .gt
  | [], [] => by simp [strcmp]
  | [], _ :: _ => by simp [strcmp]
  | _ :: _, [] => by simp [strcmp]
  | a :: as, b :: bs => by
    by_cases h : a = b
    · subst h
      simpa [strcmp] using strcmp_swap as bs
    have h' : b ≠ a := fun hb => h hb.symm
    by_cases hlt : a < b
    · simp [strcmp, h', UInt8.lt_asymm hlt]
    · simp [strcmp, h, hlt]

lemma Sorted.cmp (hs : Sorted arr) {m} (hi : i < arr.length) (hm : m < arr.length) :
    (m < i ∧ strcmp (listElem arr m) (listElem arr i) = .lt) ∨
      (m = i ∧ strcmp (listElem arr m) (listElem arr i) = .eq) ∨
      (i < m ∧ strcmp (listElem arr m) (listElem arr i) = .gt) := by
  rcases Nat.lt_trichotomy m i with h | h | h
  · exact .inl ⟨h, hs m i h hi⟩
  · exact .inr (.inl ⟨h, strcmp_eq.mpr (by rw [h])⟩)
  · exact .inr (.inr ⟨h, strcmp_swap _ _ (hs i m h hm)⟩)

/-- The search for the key of element `i`: it is between the ends, and an end that was compared is
not it. -/
lemma lookupLoop_sorted (hs : Sorted arr) : ∀ {n l r} {mid},
    l ≤ i → i ≤ r → r < arr.length → r - l ≤ n + 1 →
      mid ≠ some i → lookupLoop arr (listElem arr i) n l r mid = some i  := by
  have hend : ∀ {l r : Nat} {mid : Option Nat}, l ≤ i → i ≤ r → r < arr.length → r - l ≤ 1 →
      mid ≠ some i → lookupEnd arr (listElem arr i) l r mid = some i := by
    intro l r _ hl hr hlen _ hmid
    unfold lookupEnd
    rcases Nat.lt_or_ge i r with h | h
    · obtain rfl : l = i := by omega
      have hne : strcmp (listElem arr r) (listElem arr l) ≠ .eq := by
        rcases hs.cmp (i := l) (by omega) hlen with ⟨h', -⟩ | ⟨h', -⟩ | ⟨-, h'⟩
        · omega
        · omega
        · simp [h']
      rw [if_neg (fun hc => hne hc.2), if_pos ⟨fun h => hmid h.symm, strcmp_eq.mpr rfl⟩]
    · obtain rfl : r = i := by omega
      rw [if_pos ⟨fun h => hmid h.symm, strcmp_eq.mpr rfl⟩]
  intro n
  induction n with
  | zero => intro l r _ hl hr hlen _ hmid; exact hend hl hr hlen (by omega) hmid
  | succ n ih =>
    intro l r _ hl hr hlen _ hmid
    rw [lookupLoop]
    split
    · rcases hs.cmp (i := i) (m := (l + r) / 2) (by omega) (by omega) with
        ⟨hlt, hc⟩ | ⟨heq, hc⟩ | ⟨hgt, hc⟩
      · rw [hc]
        exact ih (by omega) hr hlen (by omega) (by rw [ne_eq, Option.some.injEq]; omega)
      · rw [hc, heq]
      · rw [hc]
        exact ih hl (by omega) (by omega) (by omega) (by rw [ne_eq, Option.some.injEq]; omega)
    · exact hend hl hr hlen (by omega) hmid

/-- **A sorted table is searched without loss.** -/
theorem ujsonLookup_sorted (hs : Sorted arr) (hi : i < arr.length) :
    ujsonLookup arr (listElem arr i) = some i := by
  unfold ujsonLookup
  rw [if_neg (by omega)]
  exact lookupLoop_sorted hs (Nat.zero_le _) (by omega) (by omega) (by omega) (by simp)

/-! ## Every read is inside of the table -/

variable (arr key)

/-- `i != mid && !strcmp(list_elem(arr, memb_size, i), key)`, `none` outside of the array. -/
def isElem (mid : Option Nat) (i : Nat) : Option Bool :=
  if some i = mid then some false else arr[i]?.map fun attr => strcmp attr.key key = .eq

/-- The loop with its reads checked: `none` if one is outside or the loop has not ended. -/
def checkedLoop : Nat → Nat → Nat → Option Nat → Option (Option Nat)
  | 0, _, _, _ => none
  | n + 1, l, r, mid =>
    if r - l > 1 then do
      match strcmp (← arr[(l + r) / 2]?).key key with
      | .eq => some (some ((l + r) / 2))
      | .lt => checkedLoop n ((l + r) / 2) r (some ((l + r) / 2))
      | .gt => checkedLoop n l ((l + r) / 2) (some ((l + r) / 2))
    else do
      if ← isElem arr key mid r then some (some r)
      else if ← isElem arr key mid l then some (some l) else some none

def checkedLookup : Option (Option Nat) :=
  if arr.length = 0 then some none else checkedLoop arr key (arr.length + 1) 0 (arr.length - 1) none

variable {arr key}

lemma isElem_eq {mid} (h : i < arr.length) :
    isElem arr key mid i = some (some i ≠ mid ∧ strcmp (listElem arr i) key = .eq : Bool) := by
  unfold isElem
  split <;> simp [listElem_eq h, *]

lemma checkedLoop_eq {n l r mid} (hle : l ≤ r) (hr : r < arr.length) (hn : r - l ≤ n + 1) :
    checkedLoop arr key (n + 1) l r mid = some (lookupLoop arr key n l r mid) := by
  have hend {l r mid} (hl : l < arr.length) (hr : r < arr.length) (h : ¬ r - l > 1) (n : Nat) :
      checkedLoop arr key (n + 1) l r mid = some (lookupEnd arr key l r mid) := by
    rw [checkedLoop, if_neg h, isElem_eq hl, isElem_eq hr]
    simp only [Option.bind_eq_bind, Option.bind_some, decide_eq_true_eq, lookupEnd, apply_ite some]
  induction n generalizing l r mid with
  | zero => exact hend (by omega) hr (by omega) 0
  | succ n ih =>
    rw [lookupLoop]
    split
    · next h =>
      have hm : (l + r) / 2 < arr.length := by omega
      rw [checkedLoop, if_pos h, List.getElem?_eq_getElem hm, listElem_eq hm]
      simp only [Option.bind_eq_bind, Option.bind_some]
      cases strcmp arr[(l + r) / 2].key key with
      | eq => rfl
      | lt => exact ih (by omega) hr (by omega)
      | gt => exact ih (by omega) hm (by omega)
    · next h => exact hend (by omega) hr h _

/-- **The search reads the table only and finds its keys.** -/
theorem checkedLookup_spec (hs : Sorted arr) : ∃ res, checkedLookup arr key = some res ∧
    ∀ i, res = some i ↔ ∃ attr, arr[i]? = some attr ∧ attr.key = key := by
  refine ⟨ujsonLookup arr key, ?_, fun i => ⟨ujsonLookup_some, ?_⟩⟩
  · unfold checkedLookup ujsonLookup
    split
    · rfl
    · exact checkedLoop_eq (Nat.zero_le _) (by omega) (by omega)
  rintro ⟨_, hattr, rfl⟩
  obtain ⟨hi, rfl⟩ := List.getElem?_eq_some_iff.mp hattr
  rw [← listElem_eq hi]
  exact ujsonLookup_sorted hs hi

/-- The third of three keys is found in a second round of the search. -/
theorem checkedLookup_spec_three :
    let arr : List ObjAttr := [⟨[97], .int⟩, ⟨[97, 98], .str⟩, ⟨[99], .bool⟩]
    checkedLookup arr [99] = some (some 2) ∧
      ∀ i, some 2 = some i ↔ ∃ attr, arr[i]? = some attr ∧ attr.key = [99] := by
  intro arr
  have hlt : ∀ j < 3, ∀ i < j, strcmp (listElem arr i) (listElem arr j) = .lt := by decide
  have hs : Sorted arr := fun i j hi hj => hlt j hj i hi
  obtain ⟨res, hres, hfound⟩ := @checkedLookup_spec arr [99] hs
  have htwo : checkedLookup arr [99] = some (some 2) := by decide
  rw [htwo] at hres
  cases hres
  exact ⟨htwo, hfound⟩

end LtpDdt.Ujson
