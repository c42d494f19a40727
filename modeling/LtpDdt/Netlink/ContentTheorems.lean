/-
Netlink.ContentTheorems — the messages in the buffer of a context, and what
`tst_netlink_check_acks` says about the responses to them.

The buffer holds a chain of messages up to `datalen`, with consecutive sequence
numbers (`Content`). Attributes lengthen the last message (`Content.of_kept`), a
new one is put behind it (`Content.addMessage`), a send may add the end marker
(`Content.send`). `Session.acks` are the numbers that ask for an acknowledgement.

The outer loop follows the messages in the buffer (`checkAcksFrom_eq`), so the
function is a loop over the numbers of those that ask for an acknowledgement,
with a second cursor in the responses (`checkSeqs`).
-/
import LtpDdt.Netlink.AttrListTheorems
import LtpDdt.Netlink.Recv
import Mathlib.Data.Nat.Bitwise

namespace LtpDdt.Netlink

open Bytes Tlv CTypes List

section Content

open Nlmsghdr Ctx Nat

/-! ## Chains -/

variable {r : Int} {h : Nlmsghdr} {flags : Nat} {s s' : Session} {acks' : List Nat}

namespace Chain

variable {m : Mem} {n p q : Nat} {hs : List Nlmsghdr}

lemma le (h : Chain m n p hs q) : p + 16 * hs.length ≤ q := by
  induction h with
  | nil => exact le_rfl
  | cons hh h16 hin hc ih =>
    rename_i p q h hs
    have := le_align4 h.nlmsgLen
    rw [length_cons]
    omega

lemma mono {n'} (h : Chain m n p hs q) (hn : n ≤ n') : Chain m n' p hs q := by
  induction h with
  | nil => exact .nil
  | cons hh h16 hin hc ih => exact .cons hh h16 (le_trans hin hn) ih

/-- Only the bytes of the chain count. -/
lemma congr {m'} (h : Chain m n p hs q) (ha : Mem.Agree m m' p q) : Chain m' n p hs q := by
  induction h with
  | nil => exact .nil
  | cons hh h16 hin hc ih =>
    rename_i p q h hs
    have hlen := le_align4 h.nlmsgLen
    have hle := hc.le
    exact .cons (hh.congr (ha.mono le_rfl (by omega))) h16 hin (ih (ha.mono (by omega) le_rfl))

lemma append {r hs'} (h : Chain m n p hs q) (h' : Chain m n q hs' r) :
    Chain m n p (hs ++ hs') r := by
  induction h with
  | nil => exact h'
  | cons hh h16 hin hc ih => exact .cons hh h16 hin (ih h')

/-- A message is put behind the chain. -/
lemma snoc {off} (hc : Chain m off 0 hs off) (hh : HeaderAt m off h) (h16 : 16 ≤ h.nlmsgLen)
    (hn : off + h.nlmsgLen = n) (hoff : off % 4 = 0) : Chain m n 0 (hs ++ [h]) (align4 n) := by
  have hend : align4 n = off + align4 h.nlmsgLen := by rw [← hn, align4_add hoff]
  rw [hend]
  exact (hc.mono (by omega)).append (.cons hh h16 (by omega) .nil)

end Chain

/-! ## Consecutive numbers -/

/-- `n` sequence numbers from `base` on. -/
def seqsFrom (base n : Nat) : List Nat := (List.range n).map fun i => (base + i) % 2 ^ 32

lemma seqsFrom_succ (base n : Nat) :
    seqsFrom base (n + 1) = seqsFrom base n ++ [(base + n) % 2 ^ 32] := by
  rw [seqsFrom, range_succ, map_append]
  rfl

/-- Sequence numbers repeat after 2^32 only. -/
lemma seqsFrom_nodup {base n} (hn : n ≤ 2 ^ 32) : (seqsFrom base n).Nodup := by
  refine Nodup.map_on ?_ nodup_range
  intro i hi j hj _
  rw [mem_range] at hi hj
  omega

/-! ## The content of a context -/

/-- The messages in the buffer. The current one, if there is one, is the
last. -/
inductive Layout (c : Ctx) : List Nlmsghdr → Prop
  | closed {hs} : c.curmsg = 0 → Chain c.mem c.datalen 0 hs (align4 c.datalen) → Layout c hs
  | cur {off hs h} : c.Cur off → Chain c.mem off 0 hs off → HeaderAt c.mem off h →
      Layout c (hs ++ [h])

lemma Layout.chain {c : Ctx} {hs} (h : Layout c hs) :
    Chain c.mem c.datalen 0 hs (align4 c.datalen) := by
  cases h with
  | closed _ hc => exact hc
  | cur hcur hc hh =>
    have h16 := hcur.header
    have hlen := hcur.len
    rw [hh.len] at h16 hlen
    exact hc.snoc hh h16 hlen hcur.aligned

/-- `nlmsg_flags & NLM_F_ACK` -/
def Nlmsghdr.asksAck (h : Nlmsghdr) : Bool := h.nlmsgFlags &&& nlmFAck != 0

/-- The numbers of the messages that ask for an acknowledgement. -/
def ackSeqs (hs : List Nlmsghdr) : List Nat := (hs.filter Nlmsghdr.asksAck).map Nlmsghdr.nlmsgSeq

/-- Messages with consecutive numbers, of which `acks` ask for an acknowledgement. -/
structure Content (c : Ctx) (acks : List Nat) : Prop where
  wf : c.Wf
  messages : ∃ hs base, Layout c hs ∧ ackSeqs hs = acks ∧
    hs.map Nlmsghdr.nlmsgSeq = seqsFrom base hs.length ∧ c.seq = (base + hs.length) % 2 ^ 32

lemma ackSeqs_append (hs hs' : List Nlmsghdr) :
    ackSeqs (hs ++ hs') = ackSeqs hs ++ ackSeqs hs' := by
  simp [ackSeqs, map_append]

/-- Two headers that ask for the same acknowledgement. -/
structure SameAck (h h' : Nlmsghdr) : Prop where
  asks : h'.asksAck = h.asksAck
  seq : h'.nlmsgSeq = h.nlmsgSeq

lemma SameAck.ackSeqs {h'} (hs : SameAck h h') : ackSeqs [h'] = ackSeqs [h] := by
  simp only [Netlink.ackSeqs, filter_cons, filter_nil, hs.asks]
  split
  · rw [map_singleton, map_singleton, hs.seq]
  · rfl

lemma Ctx.Cur.unique {c : Ctx} {off off'} (h : c.Cur off) (h' : c.Cur off') : off' = off := by
  have h1 := h.ptr
  have h2 := h'.ptr
  omega

section Calls

variable {heap : Heap} {c c' : Ctx} {acks : List Nat} {off : Nat} {header : Nlmsghdr}
  {payload : List UInt8} {type : UInt16} {data : List UInt8} {ok : Bool}

lemma Content.init {addr} (h : Legit addr 1024) : Content (tstNetlinkCreateContext addr) [] := by
  have hstart : align4 (tstNetlinkCreateContext addr).datalen = 0 := by
    simp [tstNetlinkCreateContext, align4]
  refine ⟨(Session.Inv.init h).wf, [], 0, .closed rfl ?_, rfl, rfl, rfl⟩
  rw [hstart]
  exact .nil

lemma Content.cur (h : Content c acks) : c.curmsg = 0 ∨ ∃ off, c.Cur off := by
  obtain ⟨_, _, hl, -⟩ := h.messages
  cases hl with
  | closed h0 => exact .inl h0
  | cur hc => exact .inr ⟨_, hc⟩

/-- The current message and those before it. -/
lemma Content.last (h : Content c acks) (hc : c.Cur off) :
    ∃ hs last base, Chain c.mem off 0 hs off ∧ HeaderAt c.mem off last ∧
      ackSeqs (hs ++ [last]) = acks ∧
      (hs ++ [last]).map nlmsgSeq = seqsFrom base (hs.length + 1) ∧
      c.seq = (base + (hs.length + 1)) % 2 ^ 32 := by
  obtain ⟨hs, base, hl, hacks, hseqs, hseq⟩ := h.messages
  cases hl with
  | closed h0 => exact absurd h0 (hc.ne_null h.wf)
  | cur hc' hch hh =>
    rename_i off' hs last
    obtain rfl := hc.unique hc'
    rw [length_append] at hseqs hseq
    exact ⟨hs, last, base, hch, hh, hacks, hseqs, hseq⟩

/-- A change of the current message that keeps what it asks for. -/
lemma Content.change (h : Content c acks)
    (hc : c.Cur off) (hw' : c'.Wf) (hc' : c'.Cur off) (hseq : c'.seq = c.seq)
    (hbelow : Mem.Agree c.mem c'.mem 0 off)
    (hlast : ∀ last, HeaderAt c.mem off last → ∃ last', HeaderAt c'.mem off last' ∧
      SameAck last last') :
    Content c' acks := by
  obtain ⟨hs, last, base, hch, hh, hacks, hseqs, hs'⟩ := h.last hc
  obtain ⟨last', hh', hsame⟩ := hlast last hh
  refine ⟨hw', hs ++ [last'], base, .cur hc' (hch.congr hbelow) hh', ?_, ?_, ?_⟩
  · rw [← hacks, ackSeqs_append, ackSeqs_append, hsame.ackSeqs]
  · rw [length_append, length_singleton, ← hseqs, map_append, map_append,
      map_singleton, map_singleton, hsame.seq]
  · rw [length_append, length_singleton, hseq, hs']

lemma Content.out_of_memory (h : Content c acks) :
    Content { c with reallocs := c.reallocs + 1 } acks := by
  obtain ⟨hs, base, hl, hrest⟩ := h.messages
  refine ⟨⟨h.wf.block, h.wf.mult, h.wf.small, h.wf.fit⟩, hs, base, ?_, hrest⟩
  cases hl with
  | closed h0 hch => exact .closed h0 hch
  | cur hc hch hh => exact .cur ⟨hc.ptr, hc.aligned, hc.header, hc.len⟩ hch hh

/-! ## Attributes -/

/-- Everything up to the header of the current message is kept, but for its
length. -/
structure HeadKept (c c' : Ctx) (off : Nat) : Prop where
  mem : ∀ i, i < off + 16 → (i < off ∨ off + 4 ≤ i) → c'.mem i = c.mem i
  seq : c'.seq = c.seq

lemma HeadKept.refl (c : Ctx) (off : Nat) : HeadKept c c off := ⟨fun _ _ _ => rfl, rfl⟩

lemma HeadKept.trans {c₁ c₂} (h : HeadKept c c₁ off) (h' : HeadKept c₁ c₂ off) :
    HeadKept c c₂ off := ⟨fun i hi ho => (h'.mem i hi ho).trans (h.mem i hi ho), h'.seq.trans h.seq⟩

/-- A context that keeps the head keeps the content. -/
lemma Content.of_kept (h : Content c acks)
    (hc : c.Cur off) (hw' : c'.Wf) (hc' : c'.Cur off) (hk : HeadKept c c' off) :
    Content c' acks := by
  refine h.change hc hw' hc' hk.seq (fun i _ hi => (hk.mem i (by omega) (.inl hi)).symm) ?_
  intro last hh
  have hfield : ∀ p n, off + 4 ≤ p → p + n ≤ off + 16 → c'.mem.readLE p n = c.mem.readLE p n :=
    fun p n h1 h2 => Mem.readLE_congr fun i hi hi' => hk.mem i (by omega) (.inr (by omega))
  refine ⟨{ last with nlmsgLen := c'.mem.readLE off 4 }, ⟨rfl, ?_, ?_, ?_, ?_⟩, rfl, rfl⟩
  · rw [hfield _ _ (by omega) (by omega), hh.type]
  · rw [hfield _ _ (by omega) (by omega), hh.flags]
  · rw [hfield _ _ (by omega) (by omega), hh.seq]
  · rw [hfield _ _ (by omega) (by omega), hh.pid]

lemma grow_returned {size} (h : netlinkGrowBuffer heap c size = .ok (ok, c')) :
    c'.seq = c.seq ∧ c'.pid = c.pid := by
  unfold netlinkGrowBuffer at h
  split at h
  · cases h
    exact ⟨rfl, rfl⟩
  dsimp only at h
  split at h
  · cases h
  split at h
  · cases h
    exact ⟨rfl, rfl⟩
  · split at h <;> cases h
    exact ⟨rfl, rfl⟩

lemma putAttr_seq {attrLen} (h : putAttr c attrLen type data = .ok (ok, c')) : c'.seq = c.seq := by
  obtain ⟨_, -, h⟩ := bind_eq_ok h
  obtain ⟨_, h₁, h⟩ := bind_eq_ok h
  obtain ⟨_, h₂, h⟩ := bind_eq_ok h
  obtain ⟨_, h₃, h⟩ := bind_eq_ok h
  obtain ⟨_, -, h⟩ := bind_eq_ok h
  obtain ⟨_, h₄, h⟩ := bind_eq_ok h
  cases h
  rw [(store_eq_ok h₄).2, (store_eq_ok h₃).2, (store_eq_ok h₂).2, (store_eq_ok h₁).2]

/-- A failed call leaves the context as it was. -/
lemma addAttr_eq_false (h : tstNetlinkAddAttr heap c type data = .ok (false, c')) :
    c' = c ∨ c' = { c with reallocs := c.reallocs + 1 } := by
  unfold tstNetlinkAddAttr Netlink.addAttr at h
  split at h
  · cases h
    exact .inl rfl
  obtain ⟨⟨ok, _⟩, hgrow, h⟩ := bind_eq_ok h
  cases ok with
  | false =>
    cases h
    exact .inr (grow_eq_false hgrow)
  | true =>
    iterate 6 obtain ⟨_, -, h⟩ := bind_eq_ok h
    cases h

lemma addAttr_seq (h : tstNetlinkAddAttr heap c type data = .ok (ok, c')) : c'.seq = c.seq := by
  unfold tstNetlinkAddAttr Netlink.addAttr at h
  split at h
  · cases h
    rfl
  obtain ⟨⟨ok, _⟩, hgrow, h⟩ := bind_eq_ok h
  cases ok with
  | false =>
    cases h
    exact (grow_returned hgrow).1
  | true => exact (putAttr_seq h).trans (grow_returned hgrow).1

/-- **An attribute** is added behind the header of the current message. -/
theorem addAttr_kept (hw : c.Wf) (hc : c.Cur off) (hl : data.length ≤ ushrtMax)
    (he : tstNetlinkAddAttr heap c type data = .ok (ok, c')) :
    c'.Wf ∧ c'.Cur off ∧ HeadKept c c' off := by
  obtain ⟨hw', hc', hadd⟩ := addAttr_returned hw hc hl he
  refine ⟨hw', hc', fun i hi ho => ?_, addAttr_seq he⟩
  cases ok with
  | true =>
    have h1 := hc.header
    have h2 := hc.len
    exact (hadd rfl).frame i (by omega) ho
  | false => rcases addAttr_eq_false he with rfl | rfl <;> rfl

/-- **A list of attributes** likewise, even if it was not accepted. -/
theorem addAttrList_kept : ∀ f {i} {r} {c c' : Ctx} {off},
    c.Wf → c.Cur off → addAttrListFrom (tstNetlinkAddAttr heap) f i c = .ok (r, c') →
    c'.Wf ∧ c'.Cur off ∧ HeadKept c c' off
  | .nil, i, r, c, c', off, hw, hc, he => by
    cases he
    exact ⟨hw, hc, .refl c off⟩
  | .leaf type data next, i, r, c, c', off, hw, hc, he => by
    simp only [addAttrListFrom] at he
    split_ifs at he with hl
    · cases he
      exact ⟨hw, hc, .refl c off⟩
    obtain ⟨⟨ok, _⟩, hadd, he⟩ := bind_eq_ok he
    obtain ⟨hw₁, hc₁, hk₁⟩ := addAttr_kept hw hc (le_of_not_gt hl) hadd
    cases ok with
    | false =>
      cases he
      exact ⟨hw₁, hc₁, hk₁⟩
    | true =>
      obtain ⟨hw', hc', hk'⟩ := addAttrList_kept next hw₁ hc₁ he
      exact ⟨hw', hc', hk₁.trans hk'⟩
  | .nest type data sub next, i, r, c, c', off, hw, hc, he => by
    simp only [addAttrListFrom] at he
    split_ifs at he with hl
    · cases he
      exact ⟨hw, hc, .refl c off⟩
    obtain ⟨⟨ok, _⟩, hadd, he⟩ := bind_eq_ok he
    obtain ⟨hw₁, hc₁, hk₁⟩ := addAttr_kept hw hc (le_of_not_gt hl) hadd
    cases ok with
    | false =>
      cases he
      exact ⟨hw₁, hc₁, hk₁⟩
    | true =>
      simp only at he
      obtain ⟨⟨_, c₂⟩, hsub, he⟩ := bind_eq_ok he
      obtain ⟨hw₂, hc₂, hk₂⟩ := addAttrList_kept sub hw₁ hc₁ hsub
      have hk₂ := hk₁.trans hk₂
      split at he
      · cases he
        exact ⟨hw₂, hc₂, hk₂⟩
      split at he
      · cases he
        exact ⟨hw₂, hc₂, hk₂⟩
      obtain ⟨c₃, hstore, he⟩ := bind_eq_ok he
      -- the length of the parent is patched behind the message's header
      have hbehind := header_le hw hc
      obtain ⟨hw₃, hc₃⟩ := store_returned hw₂ hc₂ (by omega) hstore
      obtain ⟨hw', hc', hk'⟩ := addAttrList_kept next hw₃ hc₃ he
      have hk₃ : HeadKept c₂ c₃ off := by
        obtain ⟨-, rfl⟩ := store_eq_ok hstore
        refine ⟨fun i hi _ => ?_, rfl⟩
        exact Mem.write_outside (.inl (by omega))
      exact ⟨hw', hc', (hk₂.trans hk₃).trans hk'⟩

/-! ## Messages -/

def newHeader (c : Ctx) (header : Nlmsghdr) (payload : List UInt8) : Nlmsghdr where
  nlmsgLen := nlmsgLength payload.length
  nlmsgType := header.nlmsgType
  nlmsgFlags := header.nlmsgFlags ||| if c.curmsg = 0 then 0 else nlmFMulti
  nlmsgSeq := c.seq
  nlmsgPid := c.pid

/-- A second message sets `NLM_F_MULTI`. -/
lemma nextMessage_returned (hw : c.Wf) (hc : c.Cur off) (h : nextMessage c = .ok (flags, c')) :
    flags = nlmFMulti ∧ c'.seq = c.seq ∧ c'.pid = c.pid ∧
      c'.mem = c.mem.write (off + 6) (leBytes 2 (c.mem.readLE (off + 6) 2 ||| nlmFMulti)) := by
  have hptr := hc.ptr
  have h1 := hc.header
  have h2 := hc.len
  have h3 := hw.fit
  unfold nextMessage at h
  rw [if_neg (hc.ne_null hw), load_at off hptr (by omega), ok_bind,
    load_at (off + 6) (by omega) (by omega), ok_bind,
    store_at (off + 6) (by omega) (by rw [leBytes_length]; omega)] at h
  cases h
  exact ⟨rfl, rfl, rfl, rfl⟩

/-- The header is written and the sequence goes up. -/
lemma putMessage_returned (hptr : c.curmsg = c.buffer + off)
    (h : putMessage c header flags payload = .ok (ok, c')) :
    c'.seq = (c.seq + 1) % 2 ^ 32 ∧ c'.mem = (c.mem.write off
        (⟨nlmsgLength payload.length, header.nlmsgType, header.nlmsgFlags ||| flags, c.seq,
          c.pid⟩ : Nlmsghdr).bytes).write (off + 16) payload := by
  obtain ⟨_, h₁, h⟩ := bind_eq_ok h
  obtain ⟨-, rfl⟩ := store_eq_ok h₁
  obtain ⟨_, h₂, h⟩ := bind_eq_ok h
  obtain ⟨_, -, h⟩ := bind_eq_ok h
  cases h
  unfold copyPayload at h₂
  simp only [hptr, Nat.add_sub_cancel_left] at h₂ ⊢
  split at h₂
  · obtain ⟨-, rfl⟩ := store_eq_ok h₂
    rw [add_assoc, Nat.add_sub_cancel_left]
    exact ⟨rfl, rfl⟩
  cases h₂
  have hnil : payload = [] := by simpa using ‹¬ payload.length ≠ 0›
  rw [hnil, Mem.write_nil]
  exact ⟨rfl, rfl⟩

structure MessageAdded (c c' : Ctx) (header : Nlmsghdr) (payload : List UInt8) : Prop where
  wf : c'.Wf
  cur : c'.Cur c.nextOff
  seq : c'.seq = (c.seq + 1) % 2 ^ 32
  header : HeaderAt c'.mem c.nextOff (newHeader c header payload).stored
  /-- the message before is now part of a multipart message -/
  before : ∀ off, c.Cur off → Mem.Agree
    (c.mem.write (off + 6) (leBytes 2 (c.mem.readLE (off + 6) 2 ||| nlmFMulti))) c'.mem 0 c.datalen

/-- **What a message adds.** -/
lemma addMessage_returned (hw : c.Wf) (hcur : c.curmsg = 0 ∨ ∃ off, c.Cur off)
    (h : tstNetlinkAddMessage heap c header payload = .ok (true, c')) :
    MessageAdded c c' header payload := by
  obtain ⟨hp, hg, hst⟩ := addMessage_safe hw h
  obtain ⟨_, _, he₀, hw', hadd, -⟩ := addMessage_spec heap header payload hw hcur hp hg hst
  rw [h] at he₀
  cases he₀
  obtain ⟨ok, c₁, he, hgr, hnull, hc₁, hroom, -⟩ := grow_spec heap hw hcur hg hst
  obtain ⟨hseq₁, hpid₁⟩ := grow_returned he
  unfold tstNetlinkAddMessage at h
  rw [he, ok_bind] at h
  cases ok with
  | false => cases h
  | true =>
    obtain ⟨⟨flags, c₂⟩, hnext, hput⟩ := bind_eq_ok h
    have hcur₁ : c₁.curmsg = 0 ∨ ∃ off, c₁.Cur off :=
      hcur.imp hnull.mpr fun ⟨off, hc⟩ => ⟨off, hc₁ off hc⟩
    have hoff : c₁.nextOff = c.nextOff := by simp [nextOff, hnull, hgr.datalen]
    have hspace := le_align4 (payload.length + 16)
    have hroom := hroom rfl
    rw [hp.space] at hroom
    unfold Ctx.Room at hroom
    obtain ⟨_, _, hnext', -, -, hd₂, hp₂⟩ :=
      nextMessage_spec hgr.wf hcur₁ (by unfold Ctx.Room; omega)
    rw [hnext] at hnext'
    cases hnext'
    rw [hd₂, hoff] at hp₂
    obtain ⟨hseq', hmem'⟩ := putMessage_returned hp₂ hput
    have hkeep : ∀ lo hi, hi ≤ c.nextOff → Mem.Agree c₂.mem c'.mem lo hi := fun lo hi hle => by
      rw [hmem']
      exact ((Mem.write_agree _ _ _ (.inl (by omega))).trans
        (Mem.write_agree _ _ _ (.inl hle))).symm
    have hnew : HeaderAt c'.mem c.nextOff
        (⟨nlmsgLength payload.length, header.nlmsgType, header.nlmsgFlags ||| flags, c₂.seq,
          c₂.pid⟩ : Nlmsghdr).stored := by
      rw [hmem']
      exact (headerAt_write _ _ _).congr (Mem.write_agree _ _ _ (.inl (le_refl _))).symm
    rcases hcur with h0 | ⟨off, hc⟩
    · have hfresh : flags = 0 ∧ c₂.seq = c₁.seq ∧ c₂.pid = c₁.pid := by
        unfold nextMessage at hnext
        rw [if_pos (hnull.mpr h0)] at hnext
        cases hnext
        exact ⟨rfl, rfl, rfl⟩
      obtain ⟨rfl, hseq₂, hpid₂⟩ := hfresh
      refine ⟨hw', (hadd rfl).1, by rw [hseq', hseq₂, hseq₁], ?_,
        fun off hc => absurd h0 (hc.ne_null hw)⟩
      rw [hseq₂, hpid₂, hseq₁, hpid₁] at hnew
      simpa only [newHeader, if_pos h0] using hnew
    · obtain ⟨rfl, hseq₂, hpid₂, hmem₂⟩ := nextMessage_returned hgr.wf (hc₁ off hc) hnext
      refine ⟨hw', (hadd rfl).1, by rw [hseq', hseq₂, hseq₁], ?_, fun off' hc' => ?_⟩
      · rw [hseq₂, hpid₂, hseq₁, hpid₁] at hnew
        simpa only [newHeader, if_neg (hc.ne_null hw)] using hnew
      obtain rfl := hc.unique hc'
      have h1 := hc.header
      have h2 := hc.len
      have h3 := hw.fit
      have hle : c.datalen ≤ c.nextOff := by
        rw [nextOff, if_neg (hc.ne_null hw)]
        exact le_align4 _
      have hread : c₁.mem.readLE (off' + 6) 2 = c.mem.readLE (off' + 6) 2 :=
        (Mem.readLE_congr (hgr.content.mono (zero_le _) (by omega))).symm
      rw [hread] at hmem₂
      have hold := (hgr.content.mono (zero_le 0) h3).write (off' + 6)
        (leBytes 2 (c.mem.readLE (off' + 6) 2 ||| nlmFMulti))
      rw [← hmem₂] at hold
      exact hold.trans (hkeep 0 c.datalen hle)

lemma asksAck_eq (h : Nlmsghdr) : h.asksAck = h.nlmsgFlags.testBit 2 := by
  rw [asksAck, show nlmFAck = 2 ^ 2 from rfl, and_two_pow]
  cases h.nlmsgFlags.testBit 2 <;> rfl

lemma asksAck_multi (h h' : Nlmsghdr) (multi : Nat)
    (hf : h'.nlmsgFlags = (h.nlmsgFlags ||| multi) % 2 ^ 16) (hm : multi.testBit 2 = false) :
    h'.asksAck = h.asksAck := by
  rw [asksAck_eq, asksAck_eq, hf, testBit_mod_two_pow, testBit_or, hm, Bool.or_false]
  rfl

/-- The flag `NLM_F_ACK` is the caller's. -/
lemma newHeader_asksAck (c : Ctx) (header : Nlmsghdr) (payload : List UInt8) :
    (newHeader c header payload).stored.asksAck = header.asksAck := by
  refine asksAck_multi header _ (if c.curmsg = 0 then 0 else nlmFMulti) rfl ?_
  split <;> decide

/-- The acks a new message asks for. -/
lemma ackSeqs_newHeader (c : Ctx) (header : Nlmsghdr) (payload : List UInt8)
    (hseq : c.seq < 2 ^ 32) : ackSeqs [(newHeader c header payload).stored] =
      if header.asksAck then [c.seq] else [] := by
  have hs : (newHeader c header payload).stored.nlmsgSeq = c.seq := mod_eq_of_lt hseq
  simp only [ackSeqs, filter_cons, filter_nil, newHeader_asksAck]
  split
  · rw [map_singleton, hs]
  · rfl

/-- **A new message** is the last one, or the only one. -/
theorem Content.addMessage (h : Content c acks)
    (he : tstNetlinkAddMessage heap c header payload = .ok (true, c')) :
    Content c' ((if c.curmsg = 0 then [] else acks) ++ if header.asksAck then [c.seq] else []) := by
  obtain ⟨hw', hcur', hseq', hhdr, hbefore⟩ := addMessage_returned h.wf h.cur he
  have hsmall : c.seq < 2 ^ 32 := by
    obtain ⟨_, _, -, -, -, hseq⟩ := h.messages
    rw [hseq]
    exact mod_lt _ (by decide)
  have hnew : (newHeader c header payload).stored.nlmsgSeq = c.seq := mod_eq_of_lt hsmall
  have hack := ackSeqs_newHeader c header payload hsmall
  rcases h.cur with h0 | ⟨off, hc⟩
  · rw [nextOff, if_pos h0] at hcur' hhdr
    refine ⟨hw', [] ++ [(newHeader c header payload).stored], c.seq, .cur hcur' .nil hhdr, ?_, ?_,
      hseq'⟩
    · rw [nil_append, hack, if_pos h0, nil_append]
    · rw [nil_append, map_singleton, hnew]
      exact congrArg (fun v => [v]) (mod_eq_of_lt hsmall).symm
  obtain ⟨_, last, base, hch, hh, hacks, hseqs, hseq⟩ := h.last hc
  have h16 := hc.header
  have hlen := hc.len
  rw [hh.len] at h16 hlen
  have hbefore := hbefore off hc
  rw [hh.flags] at hbefore
  -- the chain so far, with the new flag in its last message
  have hlast := (hh.setFlags (last.nlmsgFlags ||| nlmFMulti)).congr
    (hbefore.mono (zero_le _) (by omega))
  have hchain := (hch.congr ((Mem.write_agree _ _ _ (.inl (by omega))).symm.trans
    (hbefore.mono (le_refl _) (by omega)))).snoc hlast h16 hlen hc.aligned
  have hnext : c.nextOff = align4 c.datalen := by rw [nextOff, if_neg (hc.ne_null h.wf)]
  rw [hnext] at hcur' hhdr
  have hsame : SameAck last { last with nlmsgFlags := (last.nlmsgFlags ||| nlmFMulti) % 2 ^ 16 } :=
    ⟨asksAck_multi _ _ nlmFMulti rfl (by decide), rfl⟩
  refine ⟨hw', _, base, .cur hcur' (hchain.mono (le_align4 _)) hhdr, ?_, ?_, ?_⟩
  · rw [if_neg (hc.ne_null h.wf), ← hacks, ackSeqs_append, ackSeqs_append, ackSeqs_append, hack,
      hsame.ackSeqs]
  · rw [map_append, map_append, map_singleton, map_singleton, hnew,
      length_append, length_append, length_singleton, length_singleton,
      seqsFrom_succ, ← hseqs, hseq, map_append, map_singleton]
  · rw [hseq', length_append, length_append, length_singleton, length_singleton]
    omega

/-! ## Sending -/

/-- Sending keeps the content. -/
lemma Content.sendBuffer {ret} (h : Content c acks) (he : sendBuffer c ret = .ok (r, c')) :
    Content c' acks := by
  rw [sendBuffer_eq h.wf] at he
  cases he
  split
  · obtain ⟨hs, base, hl, hrest⟩ := h.messages
    exact ⟨⟨h.wf.block, h.wf.mult, h.wf.small, h.wf.fit⟩, hs, base, .closed rfl hl.chain, hrest⟩
  · exact h

/-- **A send** adds the end marker to a multipart message, which asks for
nothing. -/
theorem Content.send {ret} (h : Content c acks) (he : tstNetlinkSend heap c ret = .ok (r, c')) :
    Content c' acks := by
  unfold tstNetlinkSend at he
  split at he
  · cases he
    exact h
  rename_i hne
  obtain ⟨flags, -, he⟩ := bind_eq_ok he
  split at he
  · obtain ⟨⟨ok, c₁⟩, hadd, he⟩ := bind_eq_ok he
    cases ok with
    | false =>
      cases he
      rw [addMessage_eq_false hadd]
      exact h.out_of_memory
    | true =>
      obtain ⟨_, hstore, he⟩ := bind_eq_ok he
      have h₁ := h.addMessage hadd
      rw [if_neg hne, show asksAck { nlmsgType := nlmsgDone } = false from rfl] at h₁
      simp only [Bool.false_eq_true, if_false, append_nil] at h₁
      have hnew := addMessage_returned h.wf h.cur hadd
      have hptr := hnew.cur.ptr
      obtain ⟨-, rfl⟩ := store_eq_ok hstore
      have hpos : c₁.curmsg + 6 - c₁.buffer = c.nextOff + 6 := by omega
      rw [hpos] at he
      refine Content.sendBuffer (h₁.change hnew.cur ?_ (hnew.cur.setFlags 0) rfl ?_ ?_) he
      · exact ⟨hnew.wf.block, hnew.wf.mult, hnew.wf.small, hnew.wf.fit⟩
      · exact (Mem.write_agree _ _ _ (.inl (by omega))).symm
      intro last hh
      refine ⟨_, hh.setFlags 0, ?_, rfl⟩
      have hflags : last.nlmsgFlags =
          (newHeader c { nlmsgType := nlmsgDone } []).stored.nlmsgFlags := by
        rw [← hh.flags, hnew.header.flags]
      have hasks := newHeader_asksAck c { nlmsgType := nlmsgDone } []
      rw [asksAck, ← hflags] at hasks
      rw [asksAck, asksAck, hasks]
      rfl
  · exact h.sendBuffer he

end Calls

/-! ## Every way to fill the buffer -/

/-- A call on a context, the list functions included. -/
inductive Build where
  | call (call : Call)
  | addAttrList (list : Forest)
  | rtnlAddAttrList (list : Forest)

def Session.build (heap : Heap) (s : Session) : Build → Except Fault Session
  | .call call => s.call heap call
  | .addAttrList list => do
      let (_, c) ← tstNetlinkAddAttrList heap s.ctx list
      .ok ⟨c, s.pending⟩
  | .rtnlAddAttrList list => do
      let (_, c) ← tstRtnlAddAttrList heap s.ctx list
      .ok ⟨c, s.pending⟩

/-- The user's messages that ask for an acknowledgement. One added after a successful send is the
first of a new buffer. -/
def Session.acks (heap : Heap) (s : Session) (acks : List Nat) : Build → Except Fault (List Nat)
  | .call (.addMessage header payload) => do
      let (ok, _) ← tstNetlinkAddMessage heap s.ctx header payload
      .ok (if ok then
          (if s.ctx.curmsg = 0 then [] else acks) ++ if header.asksAck then [s.ctx.seq] else []
        else acks)
  | _ => .ok acks

def Session.builds (heap : Heap) : Session → List Nat → List Build →
    Except Fault (Session × List Nat)
  | s, acks, [] => .ok (s, acks)
  | s, acks, b :: bs => do
      let acks ← s.acks heap acks b
      let s ← s.build heap b
      Session.builds heap s acks bs

variable {heap : Heap} {c c' : Ctx} {acks : List Nat}

/-- **An attribute keeps the content.** -/
lemma Content.addAttr {type} {data : List UInt8} {ok} (h : Content c acks)
    (hl : data.length ≤ ushrtMax) (he : tstNetlinkAddAttr heap c type data = .ok (ok, c')) :
    Content c' acks := by
  rcases h.cur with h0 | ⟨_, hc⟩
  · rw [addAttr_null h0] at he
    cases he
    exact h
  · obtain ⟨hw', hc', hk⟩ := addAttr_kept h.wf hc hl he
    exact h.of_kept hc hw' hc' hk

lemma addAttrList_null {f i} (h0 : c.curmsg = 0)
    (he : addAttrListFrom (tstNetlinkAddAttr heap) f i c = .ok (r, c')) : c' = c := by
  cases f with
  | nil =>
    cases he
    rfl
  | leaf | nest =>
    simp only [addAttrListFrom, addAttr_null h0, ok_bind, Bool.not_false, if_true, ite_self] at he
    cases he
    rfl

/-- **A list of attributes keeps the content.** -/
lemma Content.addAttrList {list} (h : Content c acks)
    (he : tstNetlinkAddAttrList heap c list = .ok (r, c')) : Content c' acks := by
  rcases h.cur with h0 | ⟨_, hc⟩
  · rw [addAttrList_null h0 he]
    exact h
  · obtain ⟨hw', hc', hk⟩ := addAttrList_kept list h.wf hc he
    exact h.of_kept hc hw' hc' hk

/-- **One call.** -/
theorem Content.build {b} (h : Content s.ctx acks) (hb : s.build heap b = .ok s')
    (ha : s.acks heap acks b = .ok acks') : Content s'.ctx acks' := by
  cases b with
  | call call =>
    cases call with
    | addMessage =>
      obtain ⟨⟨ok, c⟩, hadd, hb⟩ := bind_eq_ok hb
      simp only [Session.acks, hadd] at ha
      cases hb
      cases ha
      cases ok with
      | false =>
        rw [addMessage_eq_false hadd]
        exact h.out_of_memory
      | true => exact h.addMessage hadd
    | addAttr type data hl =>
      obtain ⟨⟨_, c⟩, hadd, hb⟩ := bind_eq_ok hb
      cases hb
      cases ha
      exact h.addAttr hl hadd
    | rtnlAddAttr type data hl =>
      obtain ⟨⟨_, c⟩, hadd, hb⟩ := bind_eq_ok hb
      cases hb
      cases ha
      rw [rtnlAddAttr_eq heap _ _ hl] at hadd
      exact h.addAttr hl hadd
    | send =>
      obtain ⟨⟨r, c⟩, hsend, hb⟩ := bind_eq_ok hb
      cases hb
      cases ha
      exact h.send hsend
  | addAttrList =>
    obtain ⟨⟨r, c⟩, hadd, hb⟩ := bind_eq_ok hb
    cases hb
    cases ha
    exact h.addAttrList hadd
  | rtnlAddAttrList =>
    obtain ⟨⟨r, c⟩, hadd, hb⟩ := bind_eq_ok hb
    cases hb
    cases ha
    unfold tstRtnlAddAttrList at hadd
    rw [rtnlAddAttrListFrom_eq] at hadd
    exact h.addAttrList hadd

/-- **Every sequence of calls.** -/
theorem Content.builds {bs} (h : Content s.ctx acks)
    (hb : Session.builds heap s acks bs = .ok (s', acks')) : Content s'.ctx acks' := by
  induction bs generalizing s acks with
  | nil =>
    cases hb
    exact h
  | cons b bs ih =>
    obtain ⟨_, ha, hb⟩ := bind_eq_ok hb
    obtain ⟨_, hs, hb⟩ := bind_eq_ok hb
    exact ih (h.build hs ha) hb

end Content

open Response

variable {seq : Nat} {c : Ctx} {acks : List Nat}

/-! ## The responses -/

def beforeError (res : List Response) : List Response := res.takeWhile fun r => !r.failed

def firstError : List Response → Option Int
  | [] => none
  | r :: res => if r.failed then r.err else firstError res

variable {pre res : List Response} {r : Response} {seqs : List Nat} {size : Nat}

lemma beforeError_append (h : ∀ r ∈ pre, r.failed = false) (res : List Response) :
    beforeError (pre ++ res) = pre ++ beforeError res :=
  takeWhile_append_of_pos fun r hr => by rw [h r hr]; rfl

lemma firstError_append (h : ∀ r ∈ pre, r.failed = false) (res : List Response) :
    firstError (pre ++ res) = firstError res := by
  induction pre with
  | nil => rfl
  | cons r pre ih =>
    rw [cons_append, firstError, h r mem_cons_self]
    exact ih (forall_mem_cons.1 h).2

lemma beforeError_subset (pre : List Response) (h : r.failed) (post : List Response) :
    ∀ x ∈ beforeError (pre ++ r :: post), x ∈ pre := by
  induction pre with intro x hx
  | nil =>
    rw [nil_append, beforeError, takeWhile_cons_of_neg (by rw [h]; decide)] at hx
    exact hx
  | cons r' pre ih =>
    rw [cons_append, beforeError, takeWhile_cons] at hx
    split at hx
    · rcases mem_cons.1 hx with rfl | hx
      · exact mem_cons_self
      · exact mem_cons_of_mem _ (ih x hx)
    · cases hx

lemma firstError_isSome (pre : List Response) (h : r.failed) (post : List Response) :
    ∃ error, firstError (pre ++ r :: post) = some error := by
  have hsome : ∀ r : Response, r.failed → ∃ error, r.err = some error := by
    intro r hr
    unfold failed at hr
    cases herr : r.err with
    | none => rw [herr] at hr; cases hr
    | some error => exact ⟨error, rfl⟩
  induction pre with
  | nil =>
    obtain ⟨error, herr⟩ := hsome r h
    exact ⟨error, by rw [nil_append, firstError, if_pos h, herr]⟩
  | cons r' pre ih =>
    rw [cons_append, firstError]
    split_ifs with hr'
    · exact hsome r' hr'
    · exact ih

/-! ## The loop over the numbers -/

/-- The loop over the messages that ask for an acknowledgement. -/
def checkSeqs : List Nat → List Response → AckResult
  | [], _ => .acked
  | seq :: seqs, res =>
    match checkAck seq res with
    | .inl result => result
    | .inr res => checkSeqs seqs res

inductive Searched (seq : Nat) : List Response → AckResult ⊕ List Response → Prop
  | missing : Searched seq [] (.inl (.missing seq))
  | failed {r post error} : r.failed = true → r.err = some error →
      Searched seq (r :: post) (.inl (.error (-error)))
  | found {r post} : r.failed = false → r.nlmsgSeq = seq →
      Searched seq (r :: post) (.inr (r :: post))

lemma checkAck_skip (hr : r.failed = false) (hs : r.nlmsgSeq ≠ seq) (res : List Response) :
    checkAck seq (r :: res) = checkAck seq res := by
  have hskip : skipResponses seq (r :: res) = skipResponses seq res :=
    dropWhile_cons_of_pos (by simp [hr, hs])
  unfold checkAck
  rw [hskip]

lemma checkAck_stop (h : r.failed ∨ r.nlmsgSeq = seq) (res : List Response) :
    Searched seq (r :: res) (checkAck seq (r :: res)) := by
  have hstop : skipResponses seq (r :: res) = r :: res :=
    dropWhile_cons_of_neg (by rcases h with h | h <;> simp [h])
  unfold checkAck
  simp only [hstop]
  cases herr : r.err with
  | none =>
    have hok : r.failed = false := by rw [failed, herr]
    have hseq := h.resolve_left (by rw [hok]; decide)
    rw [if_neg (not_not_intro hseq)]
    exact .found hok hseq
  | some error =>
    dsimp only
    split
    · rename_i hne
      exact .failed (by rw [failed, herr]; exact decide_eq_true hne) herr
    rename_i hzero
    have hok : r.failed = false := by rw [failed, herr]; exact decide_eq_false hzero
    have hseq := h.resolve_left (by rw [hok]; decide)
    rw [if_neg (not_not_intro hseq)]
    exact .found hok hseq

/-- The search stops at an error or at its number. -/
lemma checkAck_searched (seq : Nat) (res : List Response) :
    ∃ pre rest, res = pre ++ rest ∧ (∀ r ∈ pre, r.failed = false) ∧
      Searched seq rest (checkAck seq res) := by
  induction res with
  | nil => exact ⟨[], [], rfl, by simp, .missing⟩
  | cons r res ih =>
    by_cases hstop : r.failed ∨ r.nlmsgSeq = seq
    · exact ⟨[], r :: res, rfl, by simp, checkAck_stop hstop res⟩
    obtain ⟨hr, hs⟩ := not_or.1 hstop
    rw [Bool.not_eq_true] at hr
    obtain ⟨pre, rest, rfl, hpre, hres⟩ := ih
    refine ⟨r :: pre, rest, rfl, ?_, by rw [checkAck_skip hr hs]; exact hres⟩
    intro r' hr'
    rcases mem_cons.1 hr' with rfl | hr'
    · exact hr
    · exact hpre r' hr'

/-- **Acknowledged** messages have responses of their own, in order and
before any error. -/
theorem acked_sublist (hnd : seqs.Nodup) (h : checkSeqs seqs res = .acked) :
    seqs.Sublist ((beforeError res).map nlmsgSeq) := by
  induction seqs generalizing res with
  | nil => exact nil_sublist _
  | cons seq seqs ih =>
    obtain ⟨hnot, hnd⟩ := nodup_cons.1 hnd
    obtain ⟨pre, rest, rfl, hpre, hres⟩ := checkAck_searched seq res
    rw [checkSeqs] at h
    cases hc : checkAck seq (pre ++ rest) with rw [hc] at h hres
    | inl =>
      cases h
      cases hres
    | inr rest' =>
      cases hres with
      | found hok hseq =>
        rename_i r post
        have hhead : (beforeError (r :: post)).map nlmsgSeq =
            seq :: (beforeError post).map nlmsgSeq := by
          rw [beforeError, takeWhile_cons_of_pos (by rw [hok]; rfl), map_cons, hseq]
          rfl
        -- the response stays, but the next message has another number
        have htail : seqs.Sublist ((beforeError post).map nlmsgSeq) := by
          have hsub := ih hnd h
          rw [hhead] at hsub
          rcases sublist_cons_iff.1 hsub with hsub | ⟨rest, rfl, -⟩
          · exact hsub
          · exact absurd mem_cons_self hnot
        rw [beforeError_append hpre, map_append, hhead]
        exact (htail.cons_cons seq).trans (sublist_append_right _ _)

/-- **An error** that comes before one of the acknowledgements is
reported. -/
theorem error_of_unanswered {error} (hseq : seq ∈ seqs)
    (hun : seq ∉ (beforeError res).map nlmsgSeq) (herr : firstError res = some error) :
    checkSeqs seqs res = .error (-error) := by
  induction seqs generalizing res with
  | nil => cases hseq
  | cons seq' seqs ih =>
    obtain ⟨pre, rest, rfl, hpre, hres⟩ := checkAck_searched seq' res
    rw [firstError_append hpre] at herr
    rw [beforeError_append hpre, map_append, mem_append, not_or] at hun
    rw [checkSeqs]
    generalize checkAck seq' (pre ++ rest) = result at hres ⊢
    cases hres with
    | missing => cases herr
    | failed hr herr' =>
      rw [firstError, if_pos hr, herr'] at herr
      cases herr
      rfl
    | found hok hs =>
      rename_i r post
      refine ih ?_ hun.2 herr
      rcases mem_cons.1 hseq with rfl | hmem
      · refine absurd ?_ hun.2
        rw [beforeError, takeWhile_cons_of_pos (by rw [hok]; rfl), map_cons, hs]
        exact mem_cons_self
      · exact hmem

/-! ## The walk over the buffer -/

/-- A message that asks for no ack is passed over. -/
lemma checkMessage_eq {m p} {h : Nlmsghdr} (hh : HeaderAt m p h) (hin : p + 16 ≤ size)
    (res : List Response) : checkMessage m size p res =
      .ok (if h.asksAck then checkAck h.nlmsgSeq res else .inr res) := by
  unfold checkMessage loadAt
  rw [if_pos (by omega), if_pos (by omega), hh.flags, hh.seq]
  by_cases hack : h.nlmsgFlags &&& nlmFAck = 0
  · simp [Nlmsghdr.asksAck, hack]
  · simp [Nlmsghdr.asksAck, hack]

/-- **The walk over the buffer checks the acks of the chain.** -/
lemma checkAcksFrom_eq {m n} (hn : n < 2 ^ 31) (hs : n ≤ size) {q} (hq : n ≤ q) {heads p fuel} (res)
    (h : Chain m n p heads q) (hpos : 0 < fuel) (hf : n < p + fuel) :
    checkAcksFrom m size fuel p ((n : Int) - p) res = .ok (checkSeqs (ackSeqs heads) res) := by
  obtain ⟨fuel, rfl⟩ := Nat.exists_add_one_eq.2 hpos
  induction h generalizing fuel res with
  | nil =>
    simp only [checkAcksFrom, more_at_end m hq]
    rfl
  | @cons p _ h heads hh h16 hin _ ih =>
    have hal := le_align4 h.nlmsgLen
    have hrest res := ih hq res (fuel - 1) (by omega) (by omega)
    rw [Nat.sub_add_cancel (by omega)] at hrest
    simp only [checkAcksFrom, more_of_header hh h16 hin hn hs,
      checkMessage_eq hh (by omega : p + 16 ≤ size), next_of_header hh h16 hin hn hs]
    cases hack : h.asksAck with
    | false =>
      have hseqs : ackSeqs (h :: heads) = ackSeqs heads := by simp [ackSeqs, hack]
      rw [hseqs, ← hrest]
      rfl
    | true =>
      have hseqs : ackSeqs (h :: heads) = h.nlmsgSeq :: ackSeqs heads := by
        simp [ackSeqs, hack, map_cons]
      rw [hseqs, checkSeqs]
      cases checkAck h.nlmsgSeq res with
      | inl => rfl
      | inr res' => exact hrest res'

/-- No two messages ask for one number. -/
lemma Content.nodup (h : Content c acks) : acks.Nodup := by
  obtain ⟨hs, _, hl, rfl, hseqs, -⟩ := h.messages
  have hle := hl.chain.le
  have hend := h.wf.align_datalen.2
  have hsmall := h.wf.small
  have hnd : (hs.map Nlmsghdr.nlmsgSeq).Nodup := by
    rw [hseqs]
    exact seqsFrom_nodup (by omega)
  exact hnd.sublist (filter_sublist.map Nlmsghdr.nlmsgSeq)

/-- The check is one over the numbers. -/
lemma Content.checkAcks (h : Content c acks) (hsmall : c.datalen < 2 ^ 31) (res : List Response) :
    tstNetlinkCheckAcks c res = .ok (checkSeqs acks res) := by
  obtain ⟨_, _, hl, rfl, -, -⟩ := h.messages
  have heq := checkAcksFrom_eq hsmall h.wf.fit (le_align4 _) res hl.chain
    (Nat.succ_pos c.datalen) (by omega)
  rw [tstNetlinkCheckAcks, int32_of_range (by omega) (by omega)]
  exact heq

/-- Over 2^31 bytes the check looks at nothing. -/
lemma checkAcks_of_large (hw : c.Wf) (hlarge : 2 ^ 31 ≤ c.datalen)
    (res : List Response) : tstNetlinkCheckAcks c res = .ok .acked := by
  have hfit := hw.fit
  have hsmall := hw.small
  have hneg : ¬ int32 c.datalen > 0 := by
    unfold int32
    omega
  rw [tstNetlinkCheckAcks, checkAcksFrom, moreMessages, if_neg hneg]
  rfl

/-! ## The result -/

/-- Success only if each message has a response of its own, in their order, and no error up to the
last of them; the error code whenever an error comes before all responses to one of them. -/
structure AcksRight (acks : List Nat) (res : List Response) (result : AckResult) : Prop where
  acked : result = .acked → acks.Sublist ((beforeError res).map Response.nlmsgSeq)
  failed : ∀ pre r post, res = pre ++ r :: post → r.failed = true →
    (∃ seq ∈ acks, seq ∉ pre.map Response.nlmsgSeq) →
    ∃ error, firstError res = some error ∧ result = .error (-error)

/-- **What the check over the numbers says.** -/
lemma checkSeqs_right (hnd : acks.Nodup) (res : List Response) :
    AcksRight acks res (checkSeqs acks res) where
  acked := acked_sublist hnd
  failed := by
    rintro pre r post rfl hr ⟨_, hseq, hun⟩
    obtain ⟨error, herr⟩ := firstError_isSome pre hr post
    refine ⟨error, herr, error_of_unanswered hseq (fun hmem => hun ?_) herr⟩
    obtain ⟨x, hx, rfl⟩ := mem_map.1 hmem
    exact mem_map_of_mem (beforeError_subset pre hr post x hx)

/-- **Acknowledgements.** For every context that calls have built, the result is right for all
responses exactly if the content is smaller than 2 GiB or asks for none. -/
theorem checkAcks_right_iff (heap : Heap) (addr : Nat) (ha : Legit addr 1024) (calls : List Build)
    (s : Session) (acks : List Nat)
    (hs : Session.builds heap ⟨tstNetlinkCreateContext addr, false⟩ [] calls = .ok (s, acks)) :
    (∀ res, ∃ result, tstNetlinkCheckAcks s.ctx res = .ok result ∧ AcksRight acks res result) ↔
      s.ctx.datalen < 2 ^ 31 ∨ acks = [] := by
  have hc := (Content.init ha).builds hs
  constructor
  · intro hright
    by_contra hneither
    obtain ⟨-, hne⟩ := not_or.1 hneither
    obtain ⟨_, heq, hr⟩ := hright []
    rw [checkAcks_of_large hc.wf (by omega)] at heq
    cases heq
    exact hne (sublist_nil.1 (hr.acked rfl))
  · rintro hcond res
    by_cases hsmall : s.ctx.datalen < 2 ^ 31
    · exact ⟨_, hc.checkAcks hsmall res, checkSeqs_right hc.nodup res⟩
    obtain rfl := hcond.resolve_left hsmall
    refine ⟨.acked, checkAcks_of_large hc.wf (by omega) res, fun _ => nil_sublist _, ?_⟩
    rintro _ r _ - - ⟨_, hseq, -⟩
    cases hseq

/-- A request, and the kernel's acknowledgement. -/
theorem checkAcks_right_small :
    ∃ s, Session.builds movingHeap ⟨tstNetlinkCreateContext 4096, false⟩ []
        [.call (.addMessage { nlmsgType := 16, nlmsgFlags := 5 } [1, 2, 3])] = .ok (s, [0]) ∧
      tstNetlinkCheckAcks s.ctx [⟨0, some 0⟩] = .ok .acked ∧
      ∀ res, ∃ result, tstNetlinkCheckAcks s.ctx res = .ok result ∧ AcksRight [0] res result := by
  obtain ⟨c, he, hd⟩ := addMessage_fresh movingHeap legit_page
    { nlmsgType := 16, nlmsgFlags := 5 } [1, 2, 3]
    (by decide)
  have hsmall : c.datalen < 2 ^ 31 := by rw [hd]; decide
  have hs : Session.builds movingHeap ⟨tstNetlinkCreateContext 4096, false⟩ []
      [.call (.addMessage { nlmsgType := 16, nlmsgFlags := 5 } [1, 2, 3])] =
        .ok (⟨c, true⟩, [0]) := by
    simp only [Session.builds, Session.acks, Session.build, Session.call, he]
    rfl
  exact ⟨⟨c, true⟩, hs, ((Content.init legit_page).builds hs).checkAcks hsmall _,
    (checkAcks_right_iff movingHeap 4096 legit_page _ _ [0] hs).2 (.inl hsmall)⟩

/-- A heap that enlarges the block at address 4096 in place. -/
def stayingHeap : Heap where
  realloc := fun _ size => if size ≤ 2 ^ 32 then some 4096 else none
  legit := by
    intro k _ _ h
    split at h
    · cases h
      exact ⟨by omega, by omega, by omega⟩
    · cases h

lemma addMessage_staying (header : Nlmsghdr) (payload : List UInt8)
    (hp : nlmsgSpace payload.length ≤ 2 ^ 32 - 4) (hm : MsgFits payload) :
    ∃ c, tstNetlinkAddMessage stayingHeap (tstNetlinkCreateContext 4096) header payload =
        .ok (true, c) ∧ c.Wf ∧ c.datalen = 16 + payload.length := by
  have hw : (tstNetlinkCreateContext 4096).Wf := (Session.Inv.init legit_page).wf
  have hzero : align4 (tstNetlinkCreateContext 4096).datalen = 0 := by
    simp [tstNetlinkCreateContext, align4]
  have hg : (tstNetlinkCreateContext 4096).CanGrow (nlmsgSpace payload.length) :=
    .inr ⟨by decide, by rw [hzero]; omega⟩
  have hreal : ∀ k n, n < 2 ^ 32 → stayingHeap.realloc k n = some 4096 := fun k n hn =>
    if_pos (le_of_lt hn)
  have hst : (tstNetlinkCreateContext 4096).Stays stayingHeap (nlmsgSpace payload.length) :=
    .inr (.inr (hreal _ _ (nlmsgAlign_lt _)))
  obtain ⟨ok, c, he, hw', hadd, -, -⟩ :=
    addMessage_spec stayingHeap header payload hw (.inl rfl) hm hg (fun _ => hst)
  obtain ⟨c₁, hgrow⟩ : ∃ c₁, netlinkGrowBuffer stayingHeap (tstNetlinkCreateContext 4096)
      (nlmsgSpace payload.length) = .ok (true, c₁) := by
    rcases grow_cases stayingHeap hw hg with ⟨-, h⟩ | ⟨-, hr, -⟩ | ⟨-, _, _, -, -, -, -, -, -, h⟩
    · exact ⟨_, h⟩
    · have hsome := hreal (tstNetlinkCreateContext 4096).reallocs
        (growSize (tstNetlinkCreateContext 4096) (nlmsgSpace payload.length)) (nlmsgAlign_lt _)
      rw [hsome] at hr
      cases hr
    · exact ⟨_, h⟩
  have hok : ok := by
    have hput := he
    unfold tstNetlinkAddMessage at hput
    rw [hgrow, ok_bind] at hput
    obtain ⟨_, -, hput⟩ := bind_eq_ok hput
    exact (putMessage_fits hput).1
  subst hok
  refine ⟨c, he, hw', ?_⟩
  rw [(hadd rfl).2.1]
  rfl

/-- A message of 2 GiB counts as acknowledged without any response. -/
theorem no_answer_acked : ∃ s, Session.builds stayingHeap ⟨tstNetlinkCreateContext 4096, false⟩ []
        [.call (.addMessage { nlmsgFlags := 5 } (List.replicate (2 ^ 31) 0))] = .ok (s, [0]) ∧
      tstNetlinkCheckAcks s.ctx [] = .ok .acked ∧ ¬ AcksRight [0] [] .acked := by
  have hlen : (List.replicate (2 ^ 31) (0 : UInt8)).length = 2 ^ 31 := length_replicate
  obtain ⟨c, he, hw, _⟩ := addMessage_staying { nlmsgFlags := 5 }
    (List.replicate (2 ^ 31) 0) (by rw [hlen]; decide)
    (by unfold MsgFits; rw [hlen]; decide)
  refine ⟨⟨c, true⟩, ?_, checkAcks_of_large hw (by omega) [], fun h => ?_⟩
  · simp only [Session.builds, Session.acks, Session.build, Session.call, he]
    rfl
  · exact absurd (sublist_nil.1 (h.acked rfl)) (by decide)

end LtpDdt.Netlink
