/-
RunShell.RecordTheorems — when the metadata of a shell test arrive in
`struct tst_test`.

Each member of an object sets the field of its attribute. Distinct members set
distinct fields, so at the end every field holds what its own member has put there
(`steps_record`).

For an object that the schema accepts `parse_metadata` stores every value exactly
if there is no `min_kver`, the names have no escapes, the strings can be copied
and the integers fit (`metadata_stored_iff`).
-/
import LtpDdt.RunShell.ArrayTheorems

namespace LtpDdt.RunShell

open CTypes (ascii)
open Json Ujson List

section Records

variable {ι σ : Type} {S : Schema ι σ} {n : Nat} {e : Env} {d : Nat} {w : Ws} {u : List UInt8}
  {r : Reader} {val : Val} {body : Reader → Val → σ → Flow σ}

/-- The body of the loop is a case distinction over the attributes. -/
structure Cases (S : Schema ι σ) (body : Reader → Val → σ → Flow σ) (e : Env) (d : Nat) : Prop where
  member : ∀ {m : Member .obj} {a : ι} {w : Ws} {u : List UInt8} {r : Reader} {val : Val} (s : σ),
    (S.spec a).accepts m → Clean m → (val.idx.bind fun i => S.ids[i]?) = some a →
      Reached e d m w u r val →
      Stores (S.spec a) m (fun x => S.set a x s) e d u (body r val s)
  err : ∀ {r : Reader} (val : Val) (s : σ), r.err ≠ none → Failed (body r val s)

def RecordOk (S : Schema ι σ) (m : Member .obj) : Prop :=
  ∀ a, S.attr? m = some a → (S.spec a).fits m

def RecordStep (S : Schema ι σ) (m : Member .obj) (s s' : σ) : Prop :=
  ∃ a x, S.attr? m = some a ∧ s' = S.set a x s ∧ ((S.spec a).is m x ↔ (S.spec a).fits m)

def RecordMember (S : Schema ι σ) (m : Member .obj) : Prop :=
  (∃ a, S.attr? m = some a ∧ (S.spec a).accepts m) ∧ Clean m

/-! ## One member -/

/-- The cases of a schema handle its members. -/
lemma Cases.handles (hS : S.Lawful n) (h : Cases S body e d) :
    Handles body (RecordMember S) (FilterReads S.attrs (some strBufSize))
      (FilterAnnounces S.attrs (some strBufSize)) (fun m _ => RecordOk S m) (RecordStep S)
      (some strBufSize) e d where
  member {m w u r val} s hm hgood hann hend ht hst := by
    obtain ⟨⟨a, ha, hacc⟩, hclean⟩ := hm
    obtain ⟨i, hi⟩ := Option.isSome_iff_exists.mp hgood.2
    have hidx : (val.idx.bind fun i => S.ids[i]?) = some a := by
      rw [hann.idx, hi]
      exact (hS.found_of_idx ha hi).2.2
    rcases h.member s hacc hclean hidx ⟨hgood.1, hann.base, hend, ht, hst⟩ with
      ⟨r', val', x, w', heq, hx, hbuf, hat⟩ | ⟨hbad, hf⟩
    · exact .inl ⟨r', val', _, w', heq, ⟨a, x, ha, rfl, hx⟩, hbuf, hat⟩
    · exact .inr ⟨fun hok => hbad (hok a ha), hf⟩
  err := h.err

lemma RecordMember.filterClean (hS : S.Lawful n) {m} (hm : RecordMember S m) (hd : d + n ≤ 128) :
    FilterClean S.attrs (some strBufSize) d m := by
  obtain ⟨⟨a, ha, hacc⟩, hclean⟩ := hm
  have hkey := hS.keyClean ha
  refine ⟨?_, ?_, ?_⟩
  · cases m with
    | scalar => exact ⟨hkey, .inr ⟨strBufSize, by decide, rfl⟩⟩
    | sub => exact hkey
  · intro i hi
    have hid := (hS.found_of_idx ha hi).2.2
    have hattr : S.attrs.getD i ⟨[], .void⟩ = ⟨S.key a, (S.entry a).2⟩ := by
      simp [Schema.attrs, hid]
    rw [hattr, (hS.spec a).type hacc]
    simp [ObjAttr.accepts]
  · have hdep := (hS.spec a).depth hacc
    cases m with
    | scalar => exact hclean
    | sub =>
      simp only [Member.depth] at hdep
      exact ⟨seqClean_of_all hclean, by omega⟩

/-! ## All members -/

lemma steps_frame {Good : Member .obj → Prop} {ms s s' a}
    (h : Steps (fun m s s' => Good m ∧ RecordStep S m s s') ms s s')
    (hne : ∀ m ∈ ms, S.attr? m ≠ some a) : S.get a s' = S.get a s := by
  induction h with
  | nil => rfl
  | cons hstep _ ih =>
    obtain ⟨b, x, hb, rfl, -⟩ := hstep.2
    have hab : a ≠ b := by
      rintro rfl
      exact hne _ mem_cons_self hb
    rw [ih (forall_mem_cons.1 hne).2, S.get_set_ne a b x _ hab]

/-- **All members together fill the record.** -/
lemma steps_record {Good : Member .obj → Prop} {ms : List (Member .obj)} {s s'}
    (h : Steps (fun m s s' => Good m ∧ RecordStep S m s s') ms s s')
    (hpair : ms.Pairwise fun m m' => S.attr? m ≠ S.attr? m') :
    ∀ m ∈ ms, ∀ a, S.attr? m = some a → ((S.spec a).is m (S.get a s') ↔ (S.spec a).fits m) := by
  induction h with
  | nil => nofun
  | cons hstep hsteps ih =>
    obtain ⟨hhead, htail⟩ := pairwise_cons.mp hpair
    refine forall_mem_cons.mpr ⟨fun a ha => ?_, ih htail⟩
    obtain ⟨b, x, hb, rfl, hx⟩ := hstep.2
    cases ha.symm.trans hb
    rw [steps_frame hsteps fun m hm => fun h => hhead m hm (ha.trans h.symm), S.get_set]
    exact hx

/-- **A loop over an object.** -/
theorem record_ends (hS : S.Lawful n) (hb : Cases S body e (d + 1)) (hstrict : e.strict)
    (hd : d + 1 + n ≤ 128) {obj : Seq .obj} (hacc : S.Accepts obj)
    (hclean : ∀ m ∈ obj.members, Clean m) (hend : numEnd u) (ht : AfterClose u)
    (hbuf : val.bufSize = some strBufSize) (s : σ) {w' : Ws}
    (h : r.At e d (w'.1 ++ Kind.opening .obj :: (obj.text true ++ (w.1 ++ u)))) :
    (∃ r' val' s', objForeachFilter (some S.attrs) ujsonEmptyObj body r val s = .next r' val' s' ∧
        (S.Holds obj s' ↔ S.Fits obj) ∧ val'.bufSize = some strBufSize ∧ r'.At e d u) ∨
      (¬ S.Fits obj ∧ Failed (objForeachFilter (some S.attrs) ujsonEmptyObj body r val s)) := by
  have hP : ∀ m ∈ obj.members, RecordMember S m := fun m hm => ⟨hacc.members m hm, hclean m hm⟩
  rcases objForeachFilter_seq hstrict (fun m hm => hm.filterClean hS hd) (hb.handles hS) hend ht hP
      (by omega) hbuf s h with ⟨r', val', s', heq, hsteps, hbuf', hat⟩ | ⟨hstops, hf⟩
  · refine .inl ⟨r', val', s', heq, ?_, hbuf', hat⟩
    have hval := steps_record hsteps hacc.pairwise
    have hgood : ∀ m ∈ obj.members, FilterReads S.attrs (some strBufSize) m :=
      hsteps.forall fun m s s' h => h.1
    constructor
    · intro hholds m hm
      obtain ⟨a, ha, -⟩ := hacc.members m hm
      obtain ⟨i, hi⟩ := Option.isSome_iff_exists.mp (hgood m hm).2
      obtain ⟨hp, hfound, -⟩ := hS.found_of_idx ha hi
      refine ⟨hp, fun b hb => ?_⟩
      cases ha.symm.trans hb
      exact ⟨hfound, (hval m hm a ha).mp (hholds m hm a ha)⟩
    · intro hfits m hm a ha
      exact (hval m hm a ha).mpr ((hfits m hm).2 a ha).2
  · refine .inr ⟨fun hfits => ?_, hf⟩
    obtain ⟨m, hm, hbad⟩ := hstops.exists_bad
    obtain ⟨a, ha, hok⟩ := hacc.members m hm
    obtain ⟨hp, hfit⟩ := hfits m hm
    refine hbad ⟨hS.reads_of_found ha hp (hfit a ha).1 ((hS.spec a).reads hok (hfit a ha).2), ?_⟩
    exact fun b hb => (hfit b hb).2

/-! ## Arrays of objects -/

lemma elemSpec_is_iff {key obj s} (h : S.Holds obj s ↔ S.Fits obj) :
    S.elemSpec.is (.sub key .obj obj) s ↔ S.elemSpec.fits (.sub key .obj obj) := by
  constructor
  · rintro ⟨_, hobj, hs⟩ _ hobj''
    cases hobj
    cases hobj''
    exact h.mp hs
  · intro hf
    exact ⟨obj, rfl, h.mpr (hf obj rfl)⟩

/-- An object of an array is filled. -/
lemma objectFill_handles [Inhabited σ] (hS : S.Lawful n) (hb : Cases S body e (d + 1))
    (hstrict : e.strict) (hd : d + 1 + n ≤ 128) :
    ElemHandles S.elemSpec (objectFill S.attrs body) (FillStep S.elemSpec) e d where
  member {m w u r val} s hm hgood hann hend ht hst := by
    obtain ⟨obj, hobj, hacc⟩ := hm.1
    obtain ⟨_, rfl⟩ := object_cases hobj
    have h : Reached e d _ w u r val := ⟨hgood, hann, hend, ht, hst⟩
    have hclean : ∀ m ∈ obj.members, Clean m := fun m hmem =>
      (m.all_iff.mp ((Seq.all_iff_members obj).mp hm.2 m hmem)).2
    rcases record_ends hS hb hstrict hd hacc hclean hend ht hann.buf (s.1.getD s.2 default)
      h.at_sub.1 with ⟨r', val', x, heq, hx, hbuf, hat⟩ | ⟨hbad, hf⟩
    · refine .inl ⟨r', val', _, .empty, ?_, ⟨x, rfl, elemSpec_is_iff hx⟩, hbuf, hat⟩
      simp only [objectFill, heq]
    refine .inr ⟨fun hfit => hbad (hfit obj rfl), ?_⟩
    unfold objectFill
    cases hloop : objForeachFilter (some S.attrs) ujsonEmptyObj body r val
        (s.1.getD s.2 default) with
    | ret r' val' x => rw [hloop] at hf; exact hf
    | next r' val' x => rw [hloop] at hf; exact hf
  err val s h := by
    simp only [objectFill, objForeachFilter_err _ _ _ _ _ h]
    exact h

end Records

section Objects

variable {e : Env} {d : Nat} {w : Ws} {u : List UInt8} {r : Reader} {val : Val} {k : Kind}
  {m : Member k}

lemma text_stores {σ} {put : Option CStr → σ} (hm : textSpec.accepts m)
    (h : Reached e d m w u r val) :
    Stores textSpec m put e d u (.next r val (put (some (strdup (valStr val))))) := by
  obtain ⟨_, hbs, -⟩ := hm
  exact .scalar (scalar_of_text hbs) h (text_is_iff hbs h.reads h.ann)

lemma fsCase_cases (hd : d < 128) : Cases fsSchema fsCase e d where
  member {m a w u r val} fs hacc hclean hidx h := by
    have hcase : (val.idx.bind fun i => fsAttrIds[i]?) = some a := hidx
    unfold fsCase
    rw [hcase]
    cases a with
    | minKver | mkfsSizeOpt | mkfsVer | type => exact text_stores hacc h
    | mkfsOpts => exact (parseStrarr_stores hd hacc hclean h).map
    | mntFlags => exact (parseMntFlags_stores hd hacc h).map
  err {r} val fs h := by
    unfold fsCase
    split
    · exact parseStrarr_err val h
    · exact h
    · exact h
    · exact parseMntFlags_err val h
    · exact h
    · exact h
    · exact h

lemma bit_is_iff {v} (hm : m.int? = some v) {buf} (h : Announces buf m val) :
    bitSpec.is m (valInt val % 2 == 1) ↔ bitSpec.fits m := by
  rw [announced_int hm h]
  show m.int? = some _ ↔ m.int? = some 0 ∨ m.int? = some 1
  simp only [hm, Option.some.injEq]
  constructor
  · intro hv
    split at hv
    · exact .inr hv
    · exact .inl hv
  · rintro (rfl | rfl) <;> decide

lemma cmdCase_cases : Cases cmdSchema cmdCase e d where
  member {m a w u r val} c hacc hclean hidx h := by
    have hcase : (val.idx.bind fun i => cmdAttrIds[i]?) = some a := hidx
    unfold cmdCase
    rw [hcase]
    cases a with
    | cmd => exact text_stores hacc h
    | optional =>
      obtain ⟨v, hv⟩ := hacc
      obtain ⟨key, s, hs, -⟩ := int_scalar hv
      exact .scalar ⟨key, s, hs⟩ h (bit_is_iff hv h.ann)
  err val c h := by
    unfold cmdCase
    split <;> exact h

lemma parseFilesystems_eq (r : Reader) (val : Val) : parseFilesystems r val = filled (twoPasses
      (countBody .obj "Expected object!" fun r => (ujsonObjSkip r).2)
      (fun cnt => replicate (cnt + 1) {}) (objectFill fsAttrs fsCase) r val) := by
  unfold parseFilesystems
  rcases twoPasses _ _ _ r val with ⟨_ | ⟨_, i⟩, _, _⟩ <;> rfl

lemma parseFilesystems_err (val : Val) (h : r.err ≠ none) :
    (parseFilesystems r val).2.1.err ≠ none := by
  rw [parseFilesystems_eq]
  exact twoPasses_err val h

/-- The filesystems are stored. -/
lemma parseFilesystems_stores (hstrict : e.strict) (hd : d + 4 ≤ 128)
    (hm : (arraySpec fsSchema.elemSpec {}).accepts m) (hclean : Clean m)
    (h : Reached e d m w u r val) :
    Stores (arraySpec fsSchema.elemSpec {}) m id e d u (Flow.of (parseFilesystems r val)) := by
  rw [parseFilesystems_eq]
  exact filled_stores fsSchema_lawful.elemSpec_lawful
    (countBody_container .obj fsSchema_lawful.elemSpec_lawful (by omega) "Expected object!")
    (objectFill_handles fsSchema_lawful (fsCase_cases (by omega)) hstrict (by omega))
    (fun c => ⟨replicate c {}, replicate_succ', length_replicate⟩) (by omega) hm
    hclean h

lemma parseCmds_eq (junk : TstCmd) (r : Reader) (val : Val) :
    parseCmds junk r val = filled (twoPasses
      (countBody .obj "Expected object!" fun r => (ujsonObjSkip r).2)
      (fun cnt => replicate cnt junk ++ [({} : TstCmd)]) (objectFill cmdAttrs cmdCase) r val) := by
  unfold parseCmds
  rcases twoPasses _ _ _ r val with ⟨_ | ⟨_, i⟩, _, _⟩ <;> rfl

lemma parseCmds_err (junk : TstCmd) (val : Val) (h : r.err ≠ none) :
    (parseCmds junk r val).2.1.err ≠ none := by
  rw [parseCmds_eq]
  exact twoPasses_err val h

/-- The commands are stored. -/
lemma parseCmds_stores (junk : TstCmd) (hstrict : e.strict) (hd : d + 3 ≤ 128)
    (hm : (arraySpec cmdSchema.elemSpec {}).accepts m) (hclean : Clean m)
    (h : Reached e d m w u r val) :
    Stores (arraySpec cmdSchema.elemSpec {}) m id e d u (Flow.of (parseCmds junk r val)) := by
  rw [parseCmds_eq]
  exact filled_stores cmdSchema_lawful.elemSpec_lawful
    (countBody_container .obj cmdSchema_lawful.elemSpec_lawful (by omega) "Expected object!")
    (objectFill_handles cmdSchema_lawful cmdCase_cases hstrict (by omega))
    (fun c => ⟨replicate c junk, rfl, length_replicate⟩) (by omega) hm hclean h

end Objects

variable {msg : String} {r : Reader}

section Cases

variable {σ : Type} {e : Env} {d : Nat} {w : Ws} {u : List UInt8} {r : Reader} {val : Val}
  {k : Kind} {m : Member k}

/-! ## Booleans and integers -/

lemma bool_stores {put : Bool → σ} (hm : boolSpec.accepts m) (h : Reached e d m w u r val) :
    Stores boolSpec m put e d u (.next r val (put (valBool val))) := by
  obtain ⟨b, hb⟩ := hm
  obtain ⟨key, v, hv, -⟩ := bool_scalar hb
  exact .scalar ⟨key, v, hv⟩ h (iff_of_true (by rw [announced_bool hb h.ann]; exact hb) trivial)

lemma boolInt_stores {put : UInt32 → σ} (hm : boolIntSpec.accepts m) (h : Reached e d m w u r val) :
    Stores boolIntSpec m put e d u (.next r val (put (if valBool val then 1 else 0))) := by
  obtain ⟨b, hb⟩ := hm
  obtain ⟨key, v, hv, -⟩ := bool_scalar hb
  refine .scalar ⟨key, v, hv⟩ h (iff_of_true ⟨b, hb, ?_⟩ trivial)
  rw [announced_bool hb h.ann]

lemma abi_stores {put : Int32 → σ} {s} (hm : abiSpec.accepts m) (h : Reached e d m w u r val) :
    Stores abiSpec m put e d u
      (if valInt val = 32 ∨ valInt val = 64 then .next r val (put (Int32.ofInt (valInt val)))
        else .next (err r msg) val s) := by
  obtain ⟨v, hv, hval⟩ : ∃ v, m.int? = some v ∧ (v = 32 ∨ v = 64) :=
    hm.elim (fun h => ⟨32, h, .inl rfl⟩) fun h => ⟨64, h, .inr rfl⟩
  obtain ⟨key, s', hs, -⟩ := int_scalar hv
  have hint : valInt val = v := by rw [announced_int hv h.ann, wrapLong_of_lt (by omega) (by omega)]
  rw [hint, if_pos hval]
  refine .scalar ⟨key, s', hs⟩ h (iff_of_true ?_ trivial)
  show m.int? = some _
  rw [hv]
  rcases hval with rfl | rfl <;> decide

/-- How a field takes a positive `long`. -/
structure Converts {α : Type} (value : α → Int) (conv : Int → α) (bound : Int) : Prop where
  bound_le : bound ≤ 2 ^ 63
  value_conv : ∀ v, 0 < v → v < bound → value (conv v) = v
  value_lt : ∀ v, 0 < v → v < 2 ^ 63 → value (conv v) < bound

lemma wrapLong_lt (v : Int) : wrapLong v < 2 ^ 63 := by
  have := Int.bmod_lt (x := v) (m := 2 ^ 64) (by decide)
  unfold wrapLong
  omega

/-- A positive number is stored. -/
lemma positive_stores {α} {value : α → Int} {conv : Int → α} {bound}
    (hc : Converts value conv bound) {put : α → TstTest} {test}
    (hm : (positiveSpec value bound).accepts m) (h : Reached e d m w u r val) :
    Stores (positiveSpec value bound) m put e d u
      (positiveCase msg (fun v => put (conv v)) r val test) := by
  obtain ⟨v, hv, hpos⟩ := hm
  obtain ⟨key, s, hs, -⟩ := int_scalar hv
  have hint := announced_int hv h.ann
  have hfits : (positiveSpec value bound).fits m ↔ v < bound := by simp [positiveSpec, hv]
  unfold positiveCase
  rw [hint]
  by_cases hlt : v < bound
  · have := hc.bound_le
    rw [wrapLong_of_lt (by omega) (by omega), if_neg (by omega)]
    refine .scalar ⟨key, s, hs⟩ h (iff_of_true ?_ (hfits.mpr hlt))
    show m.int? = some _
    rw [hv, hc.value_conv v hpos hlt]
  · split
    · exact .refuse fun hf => hlt (hfits.mp hf)
    refine .scalar ⟨key, s, hs⟩ h (iff_of_false ?_ fun hf => hlt (hfits.mp hf))
    intro heq
    have heq : m.int? = some _ := heq
    rw [hv, Option.some.injEq] at heq
    exact hlt (heq ▸ hc.value_lt _ (by omega) (wrapLong_lt v))

lemma toNat_uint32 (v : Int) : ((UInt32.ofInt v).toNat : Int) = v % 2 ^ 32 := by
  show ((UInt32.ofNat (v % 2 ^ 32).toNat).toNat : Int) = _
  rw [UInt32.toNat_ofNat']
  omega

lemma toNat_uint64 (v : Int) : ((UInt64.ofInt v).toNat : Int) = v % 2 ^ 64 := by
  show ((UInt64.ofNat (v % 2 ^ 64).toNat).toNat : Int) = _
  rw [UInt64.toNat_ofNat']
  omega

lemma converts_uint : Converts (fun x : UInt32 => (x.toNat : Int)) UInt32.ofInt (2 ^ 32) where
  bound_le := by decide
  value_conv v hpos hlt := by simp only [toNat_uint32]; omega
  value_lt v hpos hlt := by simp only [toNat_uint32]; omega

lemma converts_ulong : Converts (fun x : UInt64 => (x.toNat : Int)) UInt64.ofInt (2 ^ 63) where
  bound_le := by decide
  value_conv v hpos hlt := by simp only [toNat_uint64]; omega
  value_lt v hpos hlt := by simp only [toNat_uint64]; omega

lemma converts_int : Converts Int32.toInt Int32.ofInt (2 ^ 31) where
  bound_le := by decide
  value_conv v hpos hlt := by
    rw [Int32.toInt_ofInt, Int.bmod_eq_of_le] <;> simp only [Int32.size] <;> omega
  value_lt v hpos hlt := by
    have := Int.bmod_lt (x := v) (m := Int32.size) (by decide)
    rw [Int32.toInt_ofInt]
    simp only [Int32.size] at this ⊢
    omega

/-! ## The switch -/

lemma positiveCase_err {store : Int → TstTest} (val : Val) (test : TstTest) (h : r.err ≠ none) :
    Failed (positiveCase msg store r val test) := by
  unfold positiveCase
  split
  · exact err_ne r msg
  · exact h

lemma attrCase_err (junk : TstCmd) (val : Val) (test : TstTest) (h : r.err ≠ none) :
    Failed (attrCase junk r val test) := by
  unfold attrCase
  split <;> first
    | exact h
    | exact positiveCase_err val test h
    | exact parseStrarr_err val h
    | exact parseFilesystems_err val h
    | exact parseCmds_err junk val h
    | exact parseTags_err val h
    | exact parseSaveRestore_err val h
    | (split; exacts [h, err_ne r _])

/-- **Every attribute is handled.** -/
lemma attrCase_cases (junk : TstCmd) (hstrict : e.strict) (hd : d + 4 ≤ 128) :
    Cases testSchema (attrCase junk) e d where
  member {m a w u r val} test hacc hclean hidx h := by
    have hcase : (val.idx.bind fun i => testAttrIds[i]?) = some a := hidx
    unfold attrCase
    rw [hcase]
    cases a with
    | allFilesystems | formatDevice | mountDevice | needsDevfs | needsDevice | needsHugetlbfs
    | needsRofs | needsRoot | needsTmpdir | restoreWallclock
    | skipInCompat | skipInLockdown | skipInSecureboot => exact bool_stores hacc h
    | devMinSize | tcnt => exact positive_stores converts_uint hacc h
    | filesystems => exact (parseFilesystems_stores hstrict hd hacc hclean h).map
    | minCpus | minMemAvail | minSwapAvail => exact positive_stores converts_ulong hacc h
    | minKver | mntpoint => exact text_stores hacc h
    | minRuntime | runtime => exact positive_stores converts_int hacc h
    | needsAbiBits => exact abi_stores hacc h
    | needsCmds => exact (parseCmds_stores junk hstrict (by omega) hacc hclean h).map
    | needsDrivers | needsKconfigs | skipFilesystems
    | supportedArchs => exact (parseStrarr_stores (by omega) hacc hclean h).map
    | saveRestore => exact (parseSaveRestore_stores (by omega) hacc hclean h).map
    | tags => exact (parseTags_stores (by omega) hacc hclean h).map
    | taintCheck => exact boolInt_stores hacc h
  err val test h := attrCase_err junk val test h

end Cases

/-! ## The metadata -/

/-- The text of the metadata, with white space around the object. -/
def metadataText (lead : Ws) (obj : Seq .obj) (trail : Ws) : List UInt8 :=
  Doc.text ⟨lead, .obj, obj, trail⟩

/-- What is asked of `parse_metadata`. -/
structure MetadataStored (junk : TstCmd) (lead : Ws) (obj : Seq .obj) (trail : Ws) : Prop where
  found : ∀ m ∈ obj.members, ∀ a, testSchema.attr? m = some a →
    ∃ i, ujsonLookup testAttrs (testSchema.key a) = some i ∧ testAttrIds[i]? = some a
  noError : (parseMetadata junk (metadataText lead obj trail)).1 = false
  stored : testSchema.Holds obj (parseMetadata junk (metadataText lead obj trail)).2

lemma finish_at {e d} (h : r.At e d []) : (ujsonReaderFinish r).err.isSome = false := by
  have hoff := h.off
  simp only [length_nil, Nat.add_zero] at hoff
  have hcons : ujsonReaderConsumed r := by simp [ujsonReaderConsumed, hoff]
  unfold ujsonReaderFinish
  rw [hcons]
  simp [h.err]

lemma finish_err (h : r.err ≠ none) : (ujsonReaderFinish r).err.isSome := by
  have hsome := Option.isSome_iff_ne_none.mpr h
  have hnone : r.err.isNone = false := by simpa using hsome
  unfold ujsonReaderFinish
  rw [hnone]
  simpa using hsome

/-- Where the parser ends. -/
lemma parseMetadata_ends (junk : TstCmd) (lead : Ws) {obj : Seq .obj} (trail : Ws)
    (hacc : testSchema.Accepts obj) (hclean : ∀ m ∈ obj.members, Clean m) :
    ((parseMetadata junk (metadataText lead obj trail)).1 = false ∧
        (testSchema.Holds obj (parseMetadata junk (metadataText lead obj trail)).2 ↔
          testSchema.Fits obj)) ∨
      (¬ testSchema.Fits obj ∧ (parseMetadata junk (metadataText lead obj trail)).1) := by
  have hat := Reader.At.init (metadataText lead obj trail) true
  have htext : metadataText lead obj trail =
      lead.1 ++ Kind.opening .obj :: (obj.text true ++ (trail.1 ++ [])) := by
    simp [metadataText, Doc.text]
  rw [htext] at hat
  unfold parseMetadata
  rw [htext]
  have hbuf : Val.bufSize { bufSize := some strBufSize } = some strBufSize := rfl
  rcases record_ends testSchema_lawful (attrCase_cases junk rfl (by decide)) rfl (by decide) hacc
    hclean rfl afterClose_nil hbuf {} hat with
    ⟨r', val', test, heq, hiff, -, hat'⟩ | ⟨hbad, hf⟩
  · have heq : objForeachFilter (some testAttrs) ujsonEmptyObj (attrCase junk) _ _ _ = _ := heq
    simp only [heq]
    exact .inl ⟨finish_at hat', hiff⟩
  refine .inr ⟨hbad, ?_⟩
  have hf : Failed (objForeachFilter (some testAttrs) ujsonEmptyObj (attrCase junk) _ _ _) := hf
  dsimp only
  split <;> rename_i hloop <;> rw [hloop] at hf <;> exact finish_err hf

/-- **The metadata arrive just if they fit.** For every object with distinct names from the table
and accepted values, in any layout. Neither side holds if a string has a zero in it. -/
theorem metadata_stored_iff (junk : TstCmd) (lead : Ws) (obj : Seq .obj) (trail : Ws)
    (hacc : testSchema.Accepts obj) :
    MetadataStored junk lead obj trail ↔ testSchema.Fits obj := by
  constructor
  · intro h
    have hclean := testSchema_lawful.clean_members hacc (.inl ⟨_, h.stored⟩)
    rcases parseMetadata_ends junk lead trail hacc hclean with ⟨-, hiff⟩ | ⟨-, herr⟩
    · exact hiff.mp h.stored
    · rw [h.noError] at herr
      cases herr
  · intro hf
    have hclean := testSchema_lawful.clean_members hacc (.inr hf)
    rcases parseMetadata_ends junk lead trail hacc hclean with ⟨hno, hiff⟩ | ⟨hbad, -⟩
    · refine ⟨fun m hm a ha => ?_, hno, hiff.mpr hf⟩
      exact testSchema_lawful.lookup_found a ((hf m hm).2 a ha).1
    · exact absurd hf hbad

/-! ## Two objects -/

def spell (s : String) : List StrElem :=
  (ascii s).filterMap fun b => if h : isPlain b = true then some (.plain b h) else none

def named (name : String) : Key .obj := .name (spell name) .empty .empty

/-- `{"type":"ext4"}` -/
def ext4Obj : Seq .obj := .scalar .empty .empty (named "type") (.str (spell "ext4")) (.nil .empty)

/-- `{"needs_root":true,"filesystems":[{"type":"ext4"}]}` -/
def rootExt4 : Seq .obj :=
  .scalar .empty .empty (named "needs_root") (.bool true)
    (.sub .empty .empty (named "filesystems") .arr
      (.sub .empty .empty .elem .obj ext4Obj (.nil .empty)) (.nil .empty))

lemma attr_type : fsSchema.attr? (.scalar (named "type") (.str (spell "ext4"))) = some .type := by
  decide +kernel

lemma attr_needsRoot :
    testSchema.attr? (.scalar (named "needs_root") (.bool true)) = some .needsRoot := by
  decide +kernel

lemma attr_filesystems : testSchema.attr? (.sub (named "filesystems") .arr
      (.sub .empty .empty .elem .obj ext4Obj (.nil .empty))) = some .filesystems := by
  decide +kernel

lemma ext4Obj_accepts : fsSchema.Accepts ext4Obj where
  members := by
    simp only [ext4Obj, Seq.members, mem_singleton, forall_eq]
    exact ⟨.type, attr_type, ascii "ext4", by decide, by decide⟩
  distinct := by decide

lemma rootExt4_accepts : testSchema.Accepts rootExt4 where
  members := by
    simp only [rootExt4, Seq.members, mem_cons, not_mem_nil, or_false, forall_eq_or_imp, forall_eq]
    refine ⟨⟨.needsRoot, attr_needsRoot, true, rfl⟩, .filesystems, attr_filesystems, _, rfl, ?_⟩
    simp only [Seq.members, mem_singleton, forall_eq]
    exact ⟨ext4Obj, rfl, ext4Obj_accepts⟩
  distinct := by decide

lemma spell_plain (s : String) : ∀ x ∈ spell s, isPlainElem x := by
  intro x hx
  obtain ⟨b, -, hb⟩ := mem_filterMap.mp hx
  split at hb
  · cases hb
    rfl
  · cases hb

lemma ext4Obj_fits : fsSchema.Fits ext4Obj := by
  simp only [Schema.Fits, ext4Obj, Seq.members, mem_singleton, forall_eq]
  refine ⟨spell_plain _, fun a ha => ⟨trivial, ?_⟩⟩
  cases attr_type.symm.trans ha
  refine ⟨show _ + _ < _ by decide, fun x hx => ?_⟩
  have := spell_plain _ x hx
  cases x with
  | plain | esc => trivial
  | ucode => cases this

lemma rootExt4_fits : testSchema.Fits rootExt4 := by
  simp only [Schema.Fits, rootExt4, Seq.members, mem_cons, not_mem_nil, or_false,
    forall_eq_or_imp, forall_eq]
  refine ⟨⟨spell_plain _, fun a ha => ?_⟩, spell_plain _, fun a ha => ?_⟩
  · cases attr_needsRoot.symm.trans ha
    exact ⟨by rintro ⟨⟩, trivial⟩
  cases attr_filesystems.symm.trans ha
  refine ⟨by rintro ⟨⟩, ?_⟩
  rintro _ ⟨⟩ x hx _ hobj
  obtain rfl := mem_singleton.mp hx
  cases hobj
  exact ext4Obj_fits

theorem metadata_stored_iff_rootExt4 : testSchema.Accepts rootExt4 ∧ testSchema.Fits rootExt4 ∧
      MetadataStored {} .empty rootExt4 .empty :=
  ⟨rootExt4_accepts, rootExt4_fits,
    (metadata_stored_iff {} .empty rootExt4 .empty rootExt4_accepts).mpr rootExt4_fits⟩

/-- `{"min_kver":"3"}` -/
def kverObj : Seq .obj := .scalar .empty .empty (named "min_kver") (.str (spell "3")) (.nil .empty)

/-- The one key that stands out of order is reported as unexpected. -/
theorem min_kver_refused :
    testSchema.Accepts kverObj ∧ ¬ MetadataStored {} .empty kverObj .empty := by
  refine ⟨⟨?_, by decide⟩, fun h => ?_⟩
  · simp only [kverObj, Seq.members, mem_singleton, forall_eq]
    exact ⟨.minKver, by decide, ascii "3", by decide, by decide⟩
  have herr : (parseMetadata {} (metadataText .empty kverObj .empty)).1 = true := by
    decide +kernel
  rw [h.noError] at herr
  cases herr

end LtpDdt.RunShell
