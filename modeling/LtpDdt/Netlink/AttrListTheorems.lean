/-
Netlink.AttrListTheorems — lists of attributes come out of the buffer as
they went in. The bytes appended are the layout of the forest (`addAttrList_laid`,
`Tlv.Laid`), so a reader sees it (`addAttrList_decodes`).

`nlmsg_len` has 32 bits, and the buffer doubles: 2 GiB always fit, more than
4 GiB cannot be read back (`addAttrList_too_long`).

Payloads of up to `USHRT_MAX` bytes are accepted, and the size of the header plus
that of the payload is stored in 16 bits. `lengthsWritten` notes the sizes and
the fields in the buffer (`lengthsWritten_eq`): the four largest sizes wrap
(`lengths_written_iff`).
-/
import LtpDdt.Netlink.SessionTheorems

namespace LtpDdt.Netlink

open Bytes Tlv CTypes List

variable {c : Ctx} {off : Nat} {heap : Heap}

/-! ## The list functions append a layout -/

/-- The content of `c` is still there, but for the length of the message at
`off`. -/
def Kept (c c' : Ctx) (off : Nat) : Prop :=
  ∀ i, i < c.datalen → (i < off ∨ off + 4 ≤ i) → c'.mem i = c.mem i

lemma Kept.trans {c₁ c₂ : Ctx} (h : Kept c c₁ off) (h' : Kept c₁ c₂ off)
    (hle : c.datalen ≤ c₁.datalen) : Kept c c₂ off :=
  fun i hi ho => (h' i (Nat.lt_of_lt_of_le hi hle) ho).trans (h i hi ho)

lemma Kept.agree {c' : Ctx} {hi} (h : Kept c c' off) (lo : Nat) (hlo : off + 4 ≤ lo)
    (hhi : hi ≤ c.datalen) : Mem.Agree c.mem c'.mem lo hi :=
  fun i h1 h2 => (h i (by omega) (by omega)).symm

lemma Ctx.Wf.canGrow (h : c.Wf) {n} (hle : align4 c.datalen + (4 + n) ≤ 2 ^ 31) :
    c.CanGrow (4 + align4 n) := by
  have hmod := align4_mod c.datalen
  have hmult := h.mult
  have hn : align4 n ≤ n + 3 := by unfold align4; omega
  have hn' := align4_mod n
  by_cases hroom : c.Room (4 + align4 n)
  · exact .inl hroom
  · unfold Ctx.Room at hroom
    exact .inr ⟨by omega, by omega⟩

lemma rtnlAddAttrListFrom_eq (heap : Heap) (f : Forest) (i : Nat) (c : Ctx) :
    addAttrListFrom (tstRtnlAddAttr heap) f i c
      = addAttrListFrom (tstNetlinkAddAttr heap) f i c := by
  induction f generalizing i c with
  | nil => simp [addAttrListFrom]
  | leaf type data | nest type data =>
    simp only [addAttrListFrom]
    split_ifs with hlen
    · rfl
    · rw [rtnlAddAttr_eq heap c type (Nat.le_of_not_gt hlen)]
      simp [*]

structure Appended (c c' : Ctx) (off : Nat) (f : Forest) : Prop where
  wf : c'.Wf
  cur : c'.Cur off
  datalen : c'.datalen = f.ends c.datalen
  laid : Laid c'.mem f c.datalen
  kept : Kept c c' off

lemma addAttr_head (halloc : heap.NeverFails) (type : UInt16) (data : List UInt8) (hw : c.Wf)
    (hc : c.Cur off)
    (hfit : 4 + data.length < 2 ^ 16) (hle : align4 c.datalen + (4 + data.length) ≤ 2 ^ 31) :
    ∃ c', tstNetlinkAddAttr heap c type data = .ok (true, c') ∧ c'.Wf ∧ c'.Cur off ∧
      c'.datalen = align4 c.datalen + 4 + data.length ∧
      Header c'.mem (align4 c.datalen) (4 + data.length) type data ∧ Kept c c' off := by
  obtain ⟨_, c', he, hw', hc', hadd, hok⟩ := addAttr_spec heap type hw hc (hw.canGrow hle)
  have hok := hok halloc
  subst hok
  obtain ⟨hd, hh, hk⟩ := hadd rfl
  rw [Nat.mod_eq_of_lt hfit] at hd hh
  exact ⟨c', he, hw', hc', by omega, hh, hk⟩

/-- The length of a nested attribute is patched. -/
lemma patch_length {o n type} {data : List UInt8} (len : Nat) (hw : c.Wf) (hc : c.Cur off)
    (hh : Header c.mem o n type data) (ho : off + 4 ≤ o) (hend : o + 4 + data.length ≤ c.datalen)
    (hlen : len < 2 ^ 16) :
    ∃ c', c.store (c.buffer + o) (leBytes 2 len) = .ok c' ∧ c'.Wf ∧ c'.Cur off ∧
      c'.datalen = c.datalen ∧ Header c'.mem o len type data ∧
      ∀ i, (i < o ∨ o + 4 ≤ i) → c'.mem i = c.mem i := by
  have hfit := hw.fit
  have hout : ∀ i, (i < o ∨ o + 2 ≤ i) → (c.mem.write o (leBytes 2 len)) i = c.mem i :=
    fun i hi => Mem.write_outside (by rw [leBytes_length]; exact hi)
  refine ⟨_, Ctx.store_at _ rfl (by rw [leBytes_length]; omega),
    ⟨hw.block, hw.mult, hw.small, hw.fit⟩, hc.congr hc.ptr rfl ?_, rfl, ⟨?_, ?_, ?_⟩,
    fun i hi => hout i (by omega)⟩
  · exact fun i _ hi => (hout i (by omega)).symm
  · dsimp only
    rw [Mem.readLE_write_self]
    exact Nat.mod_eq_of_lt hlen
  · rw [← hh.type]
    exact Mem.readLE_congr fun i hi _ => hout i (by omega)
  · conv_rhs => rw [← hh.data]
    exact Mem.read_congr fun i hi _ => hout i (by omega)

/-- **The list lies in the buffer as it should.** -/
lemma addAttrList_laid (halloc : heap.NeverFails) : ∀ (f : Forest) i {c : Ctx} {off},
    c.Wf → c.Cur off → f.Fits → f.ends c.datalen ≤ 2 ^ 31 →
      ∃ c', addAttrListFrom (tstNetlinkAddAttr heap) f i c = .ok ((i + f.count : Nat), c') ∧
        Appended c c' off f
  | .nil, i, c, off, hw, hc, _, _ => ⟨c, rfl, hw, hc, rfl, trivial, fun _ _ _ => rfl⟩
  | .leaf type data next, i, c, off, hw, hc, ⟨hlen, hfit⟩, hle => by
    simp only [Forest.ends] at hle
    have hnext := next.le_ends (align4 c.datalen + 4 + data.length)
    have hal := le_align4 c.datalen
    have hoff := hc.header
    have hoff' := hc.len
    obtain ⟨_, he, hw₁, hc₁, hd₁, hh, hk₁⟩ := addAttr_head halloc type data hw hc hlen (by omega)
    obtain ⟨c', he', ha⟩ := addAttrList_laid halloc next (i + 1) hw₁ hc₁ hfit
      (by rw [hd₁]; exact hle)
    refine ⟨c', ?_, ha.wf, ha.cur, ?_, ⟨hh.congr ?_, ?_⟩, hk₁.trans ha.kept (by omega)⟩
    · simp only [addAttrListFrom, he, ok_bind]
      rw [if_neg (by unfold ushrtMax; omega)]
      simp only [Bool.not_true, Bool.false_eq_true, if_false, he', Forest.count]
      congr 2
      omega
    · rw [ha.datalen, hd₁]; rfl
    · exact ha.kept.agree _ (by omega) (by omega)
    · rw [← hd₁]; exact ha.laid
  | .nest type data sub next, i, c, off, hw, hc, ⟨hlen, hsfit, hnfit⟩, hle => by
    simp only [Forest.ends] at hle
    have hsub := sub.le_ends (4 + data.length)
    have hends : sub.ends (align4 c.datalen + 4 + data.length)
        = align4 c.datalen + sub.ends (4 + data.length) := by
      rw [← sub.ends_add (align4_mod c.datalen), Nat.add_assoc]
    have hnext := next.le_ends (sub.ends (align4 c.datalen + 4 + data.length))
    have hal := le_align4 c.datalen
    have hoff := hc.header
    have hoff' := hc.len
    obtain ⟨_, he₁, hw₁, hc₁, hd₁, hh₁, hk₁⟩ :=
      addAttr_head halloc type data hw hc (by omega) (by omega)
    obtain ⟨c₂, he₂, ha₂⟩ := addAttrList_laid halloc sub 0 hw₁ hc₁ hsfit (by rw [hd₁]; omega)
    have hd₂ := ha₂.datalen
    rw [hd₁] at hd₂
    have hh₂ := hh₁.congr (ha₂.kept.agree (align4 c.datalen) (by omega) (by omega))
    obtain ⟨_, he₃, hw₃, hc₃, hd₃, hh₃, hk₃⟩ := patch_length
      (sub.ends (4 + data.length)) ha₂.wf ha₂.cur hh₂ (by omega) (by omega) hlen
    obtain ⟨c', he', ha'⟩ := addAttrList_laid halloc next (i + 1) hw₃ hc₃ hnfit
      (by rw [hd₃, hd₂]; exact hle)
    have hend := le_align4 (align4 c.datalen + 4 + data.length)
    refine ⟨c', ?_, ha'.wf, ha'.cur, ?_, ⟨hh₃.congr ?_, ?_, ?_⟩, ?_⟩
    · have hpatch : subSize c₂.datalen (align4 c.datalen) = sub.ends (4 + data.length) := by
        rw [subSize_eq (by omega) (by omega)]
        omega
      simp only [addAttrListFrom, hw.align_datalen.1, he₁, ok_bind]
      rw [if_neg (by unfold ushrtMax; omega)]
      simp only [Bool.not_true, Bool.false_eq_true, if_false]
      rw [he₂, ok_bind]
      rw [hpatch]
      rw [if_neg (by omega), if_neg (by unfold ushrtMax; omega), he₃]
      simp only [ok_bind, he', Forest.count]
      congr 2
      omega
    · rw [ha'.datalen, hd₃, hd₂]; rfl
    · exact ha'.kept.agree _ (by omega) (by omega)
    · -- the children: untouched by the patch and by what follows
      rw [← hd₁]
      refine ha₂.laid.congr fun j hj hj' => ?_
      rw [← ha₂.datalen] at hj'
      rw [hd₁] at hj
      rw [ha'.kept j (by omega) (by omega), hk₃ j (by omega)]
    · rw [← hd₂, ← hd₃]; exact ha'.laid
    · intro j hj hout
      rw [ha'.kept j (by omega) hout, hk₃ j (by omega), ha₂.kept j (by omega) hout, hk₁ j hj hout]

/-! ## Reading the message -/

/-- The attributes as read with the size of the payload before them and their shape. -/
def Ctx.decodeAttrs (c : Ctx) (payloadSize : Nat) (sh : Shape) : Option Forest :=
  let off := c.curmsg - c.buffer
  decode c.mem sh (off + nlmsgHdrlen + align4 payloadSize) (off + c.mem.readLE off 4)

lemma cur_of_addMessage {s : Session} (h : s.Inv) {header} {payload : List UInt8}
    (hmsg : tstNetlinkAddMessage heap s.ctx header payload = .ok (true, c)) :
    ∃ off, c.Wf ∧ c.Cur off ∧ c.datalen = off + 16 + payload.length ∧
      c.mem.read (off + 16) payload.length = payload := by
  obtain ⟨hp, hg, hst⟩ := addMessage_safe h.wf hmsg
  obtain ⟨_, _, he, hw, hadd, -⟩ := addMessage_spec heap header payload h.wf
    (h.cur.imp And.left And.left) hp hg hst
  rw [hmsg] at he
  cases he
  obtain ⟨hc, hd, hr⟩ := hadd rfl
  exact ⟨_, hw, hc, hd, hr⟩

/-- **Attribute lists are read back as they were added.** In a context with its invariant a message
is added, then a list of attributes, each of which fits 16 bits, within 2 GiB. Both functions report
all entries, the message's own payload is untouched, and the walk over the attributes gives the
list, with every nested attribute's length covering its data and its sublist. -/
theorem addAttrList_decodes (heap : Heap) (halloc : heap.NeverFails) (s : Session) (hs : s.Inv)
    (header : Nlmsghdr) (payload : List UInt8) (c : Ctx)
    (hmsg : tstNetlinkAddMessage heap s.ctx header payload = .ok (true, c))
    (list : Forest) (hfit : list.Fits) (hlen : list.ends c.datalen ≤ 2 ^ 31) :
    ∃ c', tstRtnlAddAttrList heap c list = .ok ((list.count : Nat), c') ∧
      tstNetlinkAddAttrList heap c list = .ok ((list.count : Nat), c') ∧
      c'.curmsg - c'.buffer = c.curmsg - c.buffer ∧
      c'.mem.read (c'.curmsg - c'.buffer + nlmsgHdrlen) payload.length = payload ∧
      Laid c'.mem list (c'.curmsg - c'.buffer + nlmsgHdrlen + payload.length) ∧
      c'.decodeAttrs payload.length list.shape = some list := by
  obtain ⟨off, hw, hc, hd, hread⟩ := cur_of_addMessage hs hmsg
  obtain ⟨c', he, happ⟩ := addAttrList_laid halloc list 0 hw hc hfit hlen
  have hoff : c'.curmsg - c'.buffer = off := by
    rw [happ.cur.ptr, Nat.add_sub_cancel_left]
  have hoff₀ : c.curmsg - c.buffer = off := by
    rw [hc.ptr, Nat.add_sub_cancel_left]
  have hstart : off + nlmsgHdrlen + align4 payload.length = align4 c.datalen := by
    rw [hd, align4_add (o := off + 16) (by have := hc.aligned; omega)]
    rfl
  rw [Nat.zero_add] at he
  have hlaid : Laid c'.mem list (off + nlmsgHdrlen + payload.length) := by
    have := happ.laid
    rw [hd] at this
    exact this
  refine ⟨c', ?_, he, ?_, ?_, ?_, ?_⟩
  · unfold tstRtnlAddAttrList
    rw [rtnlAddAttrListFrom_eq]
    exact he
  · rw [hoff, hoff₀]
  · rw [hoff]
    conv_rhs => rw [← hread]
    exact Mem.read_congr (happ.kept.agree _ (by unfold nlmsgHdrlen; omega)
      (by rw [hd]; exact Nat.le_refl _)).symm
  · rw [hoff]; exact hlaid
  unfold Ctx.decodeAttrs
  dsimp only
  rw [hoff, hstart, happ.cur.len, happ.datalen]
  exact decode_of_laid happ.laid

lemma movingHeap_neverFails : movingHeap.NeverFails := by
  intro k n hn
  simp only [movingHeap, if_pos (Nat.le_of_lt hn), Option.isSome_some]

lemma addMessage_fresh (heap : Heap) {addr} (ha : Legit addr 1024) (header : Nlmsghdr)
    (payload : List UInt8) (hp : payload.length ≤ 1008) :
    ∃ c, tstNetlinkAddMessage heap (tstNetlinkCreateContext addr) header payload = .ok (true, c) ∧
      c.datalen = 16 + payload.length := by
  have hfits : MsgFits payload := by unfold MsgFits nlmsgLength nlmsgHdrlen; omega
  have hroom : (tstNetlinkCreateContext addr).Room (nlmsgSpace payload.length) := by
    rw [hfits.space]
    have h0 : align4 (payload.length + 16) ≤ 1024 := align4_le (by omega) (by omega)
    simpa [Ctx.Room, tstNetlinkCreateContext, align4] using h0
  obtain ⟨_, c, he, -, hadd, -, hok⟩ := addMessage_spec heap header payload
    (Session.Inv.init ha).wf (.inl rfl) hfits (.inl hroom) (fun _ => .inl hroom)
  have hok := hok hroom
  subst hok
  exact ⟨c, he, by simpa [Ctx.nextOff, tstNetlinkCreateContext] using (hadd rfl).2.1⟩

/-- An attribute with one byte of data and a sublist of two, followed by an
empty one. -/
def sampleList : Forest :=
  .nest 3 [1] (.leaf 4 [2, 3] (.leaf 5 [] .nil)) (.leaf 6 [] .nil)

theorem addAttrList_decodes_sample :
    ∃ c c', tstNetlinkAddMessage movingHeap (tstNetlinkCreateContext 4096) {} [7, 7] =
      .ok (true, c) ∧
      tstRtnlAddAttrList movingHeap c sampleList = .ok (2, c') ∧
      c'.decodeAttrs 2 sampleList.shape = some sampleList := by
  obtain ⟨c, hmsg, hd⟩ := addMessage_fresh movingHeap legit_page {} [7, 7] (by decide)
  have hinv : Session.Inv ⟨tstNetlinkCreateContext 4096, false⟩ := Session.Inv.init legit_page
  have hlen : sampleList.ends c.datalen ≤ 2 ^ 31 := by rw [hd]; decide
  have hfit : sampleList.Fits := by simp [sampleList, Forest.Fits, Forest.ends, align4]
  obtain ⟨c', he, -, -, -, -, hdec⟩ := addAttrList_decodes movingHeap movingHeap_neverFails _ hinv
    {} [7, 7] c hmsg sampleList hfit hlen
  exact ⟨c, c', hmsg, he, hdec⟩

/-! ## Beyond 4 GiB -/

/-- `n` attributes of the largest size that is a multiple of four. -/
def longList : Nat → Forest
  | 0 => .nil
  | n + 1 => .leaf 1 (List.replicate 65528 0) (longList n)

lemma longList_fits : ∀ n, (longList n).Fits
  | 0 => trivial
  | n + 1 => ⟨by rw [length_replicate]; omega, longList_fits n⟩

lemma longList_ends : ∀ n pos, pos + n * 65532 ≤ (longList n).ends pos
  | 0, pos => by simp [longList, Forest.ends]
  | n + 1, pos => by
    have h := longList_ends n (align4 pos + 4 + 65528)
    have ha := le_align4 pos
    simp only [longList, Forest.ends, length_replicate]
    omega

/-- `nlmsg_len` has 32 bits: no message contains 70000 such attributes. -/
theorem addAttrList_too_long : ¬ ∀ (heap : Heap), heap.NeverFails → ∀ s : Session, s.Inv →
      ∀ (header : Nlmsghdr) (payload : List UInt8) (c : Ctx),
      tstNetlinkAddMessage heap s.ctx header payload = .ok (true, c) →
      ∀ list : Forest, list.Fits →
        ∃ c', tstRtnlAddAttrList heap c list = .ok ((list.count : Nat), c') ∧
          c'.decodeAttrs payload.length list.shape = some list := by
  intro h
  obtain ⟨c, hmsg, -⟩ := addMessage_fresh movingHeap legit_page {} [] (by decide)
  have hinv : Session.Inv ⟨tstNetlinkCreateContext 4096, false⟩ := Session.Inv.init legit_page
  obtain ⟨c', -, hdec⟩ := h movingHeap movingHeap_neverFails _ hinv {} [] c hmsg
    (longList 70000) (longList_fits 70000)
  -- everything that is decoded lies between the header and the message's end
  have hend := Mem.readLE_lt c'.mem (c'.curmsg - c'.buffer) 4
  unfold Ctx.decodeAttrs nlmsgHdrlen at hdec
  have hsize := longList_ends 70000 (c'.curmsg - c'.buffer)
  rcases ends_le_of_decode (p := c'.curmsg - c'.buffer) hdec
    (by unfold align4; omega) with hnil | hle
  · rw [hnil] at hsize
    simp only [Forest.ends] at hsize
    omega
  · omega

variable {heap : Heap} {c c' : Ctx} {off n : Nat}

/-! ## The lengths that are written -/

/-- The size of the payload and the stored length of each attribute, in the order of writing. -/
def lengthsWritten (add : Ctx → UInt16 → List UInt8 → Except Fault (Bool × Ctx)) :
    Forest → Ctx → List (Nat × Nat)
  | .nil, _ => []
  | .leaf type data next, c =>
    if data.length > ushrtMax then []
    else
      match add c type data with
      | .ok (true, c₁) =>
        (data.length, c₁.mem.readLE (nlmsgAlign c.datalen) 2) :: lengthsWritten add next c₁
      | _ => []
  | .nest type data sub next, c =>
    if data.length > ushrtMax then []
    else
      match add c type data with
      | .ok (true, c₁) =>
        (data.length, c₁.mem.readLE (nlmsgAlign c.datalen) 2) :: (lengthsWritten add sub c₁ ++
            match addAttrListFrom add sub 0 c₁ with
            | .ok (_, c₂) =>
              match c₂.store (c₂.buffer + nlmsgAlign c.datalen)
                (leBytes 2 (subSize c₂.datalen (nlmsgAlign c.datalen))) with
              | .ok c₃ => lengthsWritten add next c₃
              | .error _ => []
            | .error _ => [])
      | _ => []

def payloads : Forest → List (List UInt8)
  | .nil => []
  | .leaf _ data next => data :: payloads next
  | .nest _ data sub next => data :: (payloads sub ++ payloads next)

/-! ## Calls that return, once more -/

variable {type : UInt16} {data : List UInt8}

lemma addAttr_returned {ok} (hw : c.Wf) (hc : c.Cur off) (hl : data.length ≤ ushrtMax)
    (he : tstNetlinkAddAttr heap c type data = .ok (ok, c')) :
    c'.Wf ∧ c'.Cur off ∧ (ok → AttrAdded c c' off type data) := by
  by_cases hg : c.CanGrow (4 + align4 data.length)
  · obtain ⟨_, _, he', hw', hc', hadd, -⟩ := addAttr_spec heap type hw hc hg
    rw [he] at he'
    cases he'
    exact ⟨hw', hc', hadd⟩
  unfold tstNetlinkAddAttr Netlink.addAttr at he
  rw [if_neg (hc.ne_null hw)] at he
  have hsize : 4 + align4 data.length ≤ 2 ^ 32 - 4 := by
    unfold ushrtMax at hl
    unfold align4
    omega
  rcases grow_of_not_canGrow heap hw hsize hg with ⟨e, hgrow⟩ | hgrow
  · simp only [nlaHdrlen, nlaAlign, hgrow] at he
    cases he
  simp only [nlaHdrlen, nlaAlign, hgrow] at he
  cases he
  exact ⟨⟨hw.block, hw.mult, hw.small, hw.fit⟩, ⟨hc.ptr, hc.aligned, hc.header, hc.len⟩, by simp⟩

lemma store_returned {o bs} (hw : c.Wf) (hc : c.Cur off) (ho : off + 4 ≤ o)
    (he : c.store (c.buffer + o) bs = .ok c') : c'.Wf ∧ c'.Cur off := by
  obtain ⟨-, rfl⟩ := Ctx.store_eq_ok he
  refine ⟨⟨hw.block, hw.mult, hw.small, hw.fit⟩, hc.congr hc.ptr rfl ?_⟩
  exact fun i _ hi => (Mem.write_outside (.inl (by omega))).symm

/-! ## Accepted lists -/

lemma head_returned {c₁ : Ctx} {ok : Bool} {rest : Except Fault (Int × Ctx)} (hw : c.Wf)
    (hc : c.Cur off) (hl : data.length ≤ ushrtMax)
    (hadd : tstNetlinkAddAttr heap c type data = .ok (ok, c₁))
    (he : (if (!ok) = true then .ok (-1, c₁) else rest) = .ok ((n : Int), c')) :
    ok ∧ rest = .ok ((n : Int), c') ∧ c₁.Wf ∧ c₁.Cur off ∧
      c₁.mem.readLE (nlmsgAlign c.datalen) 2 = (4 + data.length) % 2 ^ 16 := by
  obtain ⟨hw₁, hc₁, hattr⟩ := addAttr_returned hw hc hl hadd
  cases ok with
  | false =>
    simp only [Bool.not_false, if_true, Except.ok.injEq, Prod.mk.injEq] at he
    omega
  | true =>
    refine ⟨rfl, by simpa using he, hw₁, hc₁, ?_⟩
    rw [hw.align_datalen.1]
    exact (hattr rfl).header.len

lemma header_le {c : Ctx} {off} (hw : c.Wf) (hc : c.Cur off) : off + 16 ≤ nlmsgAlign c.datalen := by
  have := hc.header
  have := hc.len
  have := le_align4 c.datalen
  rw [hw.align_datalen.1]
  omega

/-- The lengths that were written. -/
lemma lengthsWritten_eq : ∀ (f : Forest) {i n : Nat} {c c' : Ctx} {off : Nat},
    c.Wf → c.Cur off → addAttrListFrom (tstNetlinkAddAttr heap) f i c = .ok ((n : Int), c') →
    c'.Wf ∧ c'.Cur off ∧ lengthsWritten (tstNetlinkAddAttr heap) f c =
      (payloads f).map fun data => (data.length, (4 + data.length) % 2 ^ 16)
  | .nil, i, n, c, c', off, hw, hc, he => by
    simp only [addAttrListFrom, Except.ok.injEq, Prod.mk.injEq] at he
    exact he.2 ▸ ⟨hw, hc, rfl⟩
  | .leaf type data next, i, n, c, c', off, hw, hc, he => by
    simp only [addAttrListFrom] at he
    split_ifs at he with hl
    · simp only [Except.ok.injEq, Prod.mk.injEq] at he
      omega
    obtain ⟨⟨ok, _⟩, hadd, he⟩ := bind_eq_ok he
    obtain ⟨rfl, he, hw₁, hc₁, hlen⟩ := head_returned hw hc (Nat.le_of_not_gt hl) hadd he
    obtain ⟨hw', hc', hnext⟩ := lengthsWritten_eq next hw₁ hc₁ he
    refine ⟨hw', hc', ?_⟩
    simp [lengthsWritten, if_neg hl, hadd, hlen, hnext, payloads]
  | .nest type data sub next, i, n, c, c', off, hw, hc, he => by
    simp only [addAttrListFrom] at he
    split_ifs at he with hl
    · simp only [Except.ok.injEq, Prod.mk.injEq] at he
      omega
    obtain ⟨⟨ok, _⟩, hadd, he⟩ := bind_eq_ok he
    obtain ⟨rfl, he, hw₁, hc₁, hlen⟩ := head_returned hw hc (Nat.le_of_not_gt hl) hadd he
    obtain ⟨⟨ret, _⟩, hsub, he⟩ := bind_eq_ok he
    by_cases hret : ret < 0
    · rw [if_pos hret] at he
      simp only [Except.ok.injEq, Prod.mk.injEq] at he
      omega
    rw [if_neg hret] at he
    obtain ⟨k, rfl⟩ := Int.eq_ofNat_of_zero_le (Int.not_lt.mp hret)
    obtain ⟨hw₂, hc₂, hsubs⟩ := lengthsWritten_eq sub hw₁ hc₁ hsub
    split at he
    · simp only [Except.ok.injEq, Prod.mk.injEq] at he
      omega
    obtain ⟨_, hstore, he⟩ := bind_eq_ok he
    -- the length of the parent is patched behind the message's header
    have hbehind := header_le hw hc
    obtain ⟨hw₃, hc₃⟩ := store_returned hw₂ hc₂ (by omega) hstore
    obtain ⟨hw', hc', hnext⟩ := lengthsWritten_eq next hw₃ hc₃ he
    refine ⟨hw', hc', ?_⟩
    simp [lengthsWritten, if_neg hl, hadd, hlen, hsubs, hsub, hstore, hnext, payloads,
      map_append]

lemma rtnlLengthsWritten_eq (heap : Heap) (f : Forest) : ∀ c,
    lengthsWritten (tstRtnlAddAttr heap) f c = lengthsWritten (tstNetlinkAddAttr heap) f c := by
  induction f with
  | nil => simp [lengthsWritten]
  | leaf type data | nest type data =>
    intro c
    simp only [lengthsWritten, rtnlAddAttrListFrom_eq, *]
    split_ifs with hl
    · rfl
    · rw [rtnlAddAttr_eq heap c type (Nat.le_of_not_gt hl)]

lemma addAttr_null (hnull : c.curmsg = 0) (type : UInt16) (data : List UInt8) :
    tstNetlinkAddAttr heap c type data = .ok (false, c) := if_pos hnull

lemma addAttrList_without_message {f i} (hnull : c.curmsg = 0)
    (he : addAttrListFrom (tstNetlinkAddAttr heap) f i c = .ok ((n : Int), c')) : f = .nil := by
  have hne : ∀ {c₁ : Ctx}, (.ok (-1, c₁) : Except Fault (Int × Ctx)) ≠ .ok ((n : Int), c') := by
    intro _ h
    simp only [Except.ok.injEq, Prod.mk.injEq] at h
    omega
  cases f with
  | nil => rfl
  | leaf | nest =>
    simp only [addAttrListFrom, addAttr_null hnull, ok_bind, Bool.not_false, if_true,
      ite_self] at he
    exact absurd he hne

/-! ## The largest payloads -/

/-- The lengths that `add` leaves in the headers are the sizes of header
and payload. -/
def LengthsRight (add : Ctx → UInt16 → List UInt8 → Except Fault (Bool × Ctx)) (list : Forest)
    (c : Ctx) : Prop :=
  ∀ p ∈ lengthsWritten add list c, p.2 = nlaHdrlen + p.1

lemma lengthsWritten_of_session {s : Session} (h : s.Inv) {list}
    (hrun : tstNetlinkAddAttrList heap s.ctx list = .ok ((n : Int), c')) :
    lengthsWritten (tstNetlinkAddAttr heap) list s.ctx =
      (payloads list).map fun data => (data.length, (4 + data.length) % 2 ^ 16) := by
  rcases h.cur with ⟨hnull, -⟩ | ⟨⟨_, hc⟩, -⟩
  · rw [addAttrList_without_message hnull hrun]
    rfl
  · exact (lengthsWritten_eq list h.wf hc hrun).2.2

lemma lengthsRight_iff {fs} {ds : List (List UInt8)}
    (h : fs = ds.map fun data => (data.length, (4 + data.length) % 2 ^ 16)) :
    (∀ p ∈ fs, p.2 = nlaHdrlen + p.1) ↔ ∀ data ∈ ds, data.length < 65532 := by
  subst h
  constructor
  · intro hall data hd
    have := hall _ (mem_map.mpr ⟨data, hd, rfl⟩)
    omega
  intro hall p hp
  obtain ⟨data, hd, rfl⟩ := mem_map.mp hp
  have := hall data hd
  simp only [nlaHdrlen]
  omega

/-- **The stored length is right for payloads below 65532 bytes, and for no others.** In a context
that any calls have built, an accepted list has all attributes written, and the 16-bit lengths are
header plus payload exactly if no payload has one of the four largest accepted sizes. -/
theorem lengths_written_iff (heap : Heap) (addr : Nat) (ha : Legit addr 1024) (calls : List Call)
    (s : Session) (hs : Session.calls heap ⟨tstNetlinkCreateContext addr, false⟩ calls = .ok s)
    (list : Forest) (n : Nat) (c' : Ctx) :
    (tstNetlinkAddAttrList heap s.ctx list = .ok ((n : Int), c') →
      (lengthsWritten (tstNetlinkAddAttr heap) list s.ctx).map Prod.fst
          = (payloads list).map List.length ∧
        (LengthsRight (tstNetlinkAddAttr heap) list s.ctx ↔
          ∀ data ∈ payloads list, data.length < 65532)) ∧
    (tstRtnlAddAttrList heap s.ctx list = .ok ((n : Int), c') →
      (lengthsWritten (tstRtnlAddAttr heap) list s.ctx).map Prod.fst
          = (payloads list).map List.length ∧
        (LengthsRight (tstRtnlAddAttr heap) list s.ctx ↔
          ∀ data ∈ payloads list, data.length < 65532)) := by
  have hinv := (Session.Inv.init ha).of_calls hs
  have hmain : tstNetlinkAddAttrList heap s.ctx list = .ok ((n : Int), c') →
      (lengthsWritten (tstNetlinkAddAttr heap) list s.ctx).map Prod.fst
          = (payloads list).map List.length ∧
        (LengthsRight (tstNetlinkAddAttr heap) list s.ctx ↔
          ∀ data ∈ payloads list, data.length < 65532) := by
    intro hrun
    have heq := lengthsWritten_of_session hinv hrun
    refine ⟨?_, lengthsRight_iff heq⟩
    rw [heq, map_map]
    rfl
  refine ⟨hmain, fun hrun => ?_⟩
  unfold tstRtnlAddAttrList at hrun
  rw [rtnlAddAttrListFrom_eq] at hrun
  have := hmain hrun
  unfold LengthsRight at this ⊢
  rw [rtnlLengthsWritten_eq]
  exact this

lemma one_attribute_accepted (data : List UInt8) (hl : data.length ≤ ushrtMax) :
    ∃ s c', Session.calls movingHeap ⟨tstNetlinkCreateContext 4096, false⟩ [.addMessage {} []] =
      .ok s ∧
      tstNetlinkAddAttrList movingHeap s.ctx (.leaf 1 data .nil) = .ok ((1 : Nat), c') := by
  obtain ⟨c, hmsg, hd⟩ := addMessage_fresh movingHeap legit_page {} [] (by decide)
  obtain ⟨_, hw, hc, -, -⟩ := cur_of_addMessage (s := ⟨tstNetlinkCreateContext 4096, false⟩)
    (Session.Inv.init legit_page) hmsg
  have hg : c.CanGrow (4 + align4 data.length) := by
    refine hw.canGrow ?_
    unfold ushrtMax at hl
    rw [hd]
    simp only [length_nil, align4]
    omega
  obtain ⟨_, c', he, -, -, -, hok⟩ := addAttr_spec movingHeap 1 hw hc hg
  have hok := hok movingHeap_neverFails
  subst hok
  refine ⟨⟨c, true⟩, c', ?_, ?_⟩
  · simp [Session.calls, Session.call, hmsg]
  unfold tstNetlinkAddAttrList
  simp only [addAttrListFrom, he]
  rw [if_neg (by omega)]
  rfl

theorem lengths_written_three :
    ∃ s, Session.calls movingHeap ⟨tstNetlinkCreateContext 4096, false⟩ [.addMessage {} []] =
      .ok s ∧
      LengthsRight (tstNetlinkAddAttr movingHeap) (.leaf 1 [1, 2, 3] .nil) s.ctx := by
  obtain ⟨s, c', hs, hrun⟩ := one_attribute_accepted [1, 2, 3] (by decide)
  refine ⟨s, hs, ?_⟩
  have h := lengths_written_iff movingHeap 4096 ⟨by omega, by omega, by omega⟩ _ s hs
    (.leaf 1 [1, 2, 3] .nil) 1 c'
  exact ((h.1 hrun).2).mpr (by simp [payloads])

/-- A payload of 65532 bytes is accepted, and its attribute has length 0. -/
theorem length_wraps :
    ¬ ∀ (heap : Heap) (addr : Nat), Legit addr 1024 → ∀ (calls : List Call) (s : Session),
      Session.calls heap ⟨tstNetlinkCreateContext addr, false⟩ calls = .ok s →
      ∀ (list : Forest) (n : Nat) (c' : Ctx),
        tstNetlinkAddAttrList heap s.ctx list = .ok ((n : Int), c') →
        LengthsRight (tstNetlinkAddAttr heap) list s.ctx := by
  intro h
  have hlen : (List.replicate 65532 (0 : UInt8)).length = 65532 := length_replicate
  obtain ⟨s, c', hs, hrun⟩ := one_attribute_accepted (List.replicate 65532 0) (by rw [hlen]; decide)
  have hright := h movingHeap 4096 legit_page _ s hs _ 1 c' hrun
  have heq := lengthsWritten_of_session ((Session.Inv.init legit_page).of_calls hs) hrun
  have := hright (65532, 0) (by
    rw [heq]
    simp only [payloads, map_cons, hlen]
    decide)
  simp at this

end LtpDdt.Netlink
