/-
Netlink.SessionTheorems — sequences of calls on one netlink context.

`Session` adds to the context whether a message was added since the last
successful send, `Session.Safe` says that a call cannot hit the limits of
`netlink_grow_buffer`. A call that is not safe faults or reports its failure
(`Inv.of_call`).
-/
import LtpDdt.Netlink.ContextTheorems
import LtpDdt.Lts.Run

namespace LtpDdt.Netlink

open Bytes Tlv CTypes

variable {heap : Heap} {c c' : Ctx} {header : Nlmsghdr} {payload : List UInt8}

/-! ## Every sequence of calls -/

/-- A send has the kernel's answer to `sendmsg`; `len` is an `unsigned short`. -/
inductive Call where
  | addMessage (header : Nlmsghdr) (payload : List UInt8)
  | addAttr (type : UInt16) (data : List UInt8) (len : data.length ≤ ushrtMax)
  | rtnlAddAttr (type : UInt16) (data : List UInt8) (len : data.length ≤ ushrtMax)
  | send (ret : Int)

/-- Whether a message was added since the creation or the last successful send. -/
structure Session where
  ctx : Ctx
  pending : Bool

variable {s : Session}

def Session.call (heap : Heap) (s : Session) : Call → Except Fault Session
  | .addMessage header payload => do
      let (ok, c) ← tstNetlinkAddMessage heap s.ctx header payload
      .ok ⟨c, s.pending || ok⟩
  | .addAttr type data _ => do
      let (_, c) ← tstNetlinkAddAttr heap s.ctx type data
      .ok ⟨c, s.pending⟩
  | .rtnlAddAttr type data _ => do
      let (_, c) ← tstRtnlAddAttr heap s.ctx type data
      .ok ⟨c, s.pending⟩
  | .send ret => do
      let (r, c) ← tstNetlinkSend heap s.ctx ret
      .ok ⟨c, s.pending && r ≤ 0⟩

/-- The calls that cannot hit the limits of `netlink_grow_buffer`. -/
def Session.Safe (heap : Heap) (s : Session) : Call → Prop
  | .addMessage _ payload =>
    MsgFits payload ∧ s.ctx.CanGrow (nlmsgSpace payload.length) ∧
      (s.ctx.curmsg = 0 → s.ctx.Stays heap (nlmsgSpace payload.length))
  | .addAttr _ data _ | .rtnlAddAttr _ data _ =>
    s.ctx.curmsg ≠ 0 → s.ctx.CanGrow (4 + align4 data.length)
  | .send _ => s.ctx.curmsg ≠ 0 → s.ctx.multi → s.ctx.CanGrow 16

instance (heap : Heap) (s : Session) : (call : Call) → Decidable (s.Safe heap call)
  | .addMessage _ payload =>
    inferInstanceAs (Decidable (MsgFits payload ∧ s.ctx.CanGrow (nlmsgSpace payload.length) ∧
      (s.ctx.curmsg = 0 → s.ctx.Stays heap (nlmsgSpace payload.length))))
  | .addAttr _ data _ | .rtnlAddAttr _ data _ =>
    inferInstanceAs (Decidable (s.ctx.curmsg ≠ 0 → s.ctx.CanGrow (4 + align4 data.length)))
  | .send _ =>
    inferInstanceAs (Decidable (s.ctx.curmsg ≠ 0 → s.ctx.multi → s.ctx.CanGrow 16))

structure SessionInv (s : Session) : Prop where
  null : s.ctx.curmsg = 0 ↔ s.pending = false
  inside : s.ctx.curmsg ≠ 0 → s.ctx.buffer ≤ s.ctx.curmsg ∧ s.ctx.curmsg % 4 = 0 ∧
    s.ctx.curmsg - s.ctx.buffer + 16 ≤ s.ctx.datalen ∧
    s.ctx.curmsg - s.ctx.buffer + s.ctx.mem.readLE (s.ctx.curmsg - s.ctx.buffer) 4 = s.ctx.datalen
  fit : s.ctx.datalen ≤ s.ctx.bufsize
  mult : s.ctx.bufsize % 4 = 0

/-- The form the proofs use, with what else is needed to keep it. -/
structure Session.Inv (s : Session) : Prop where
  wf : s.ctx.Wf
  cur : s.ctx.curmsg = 0 ∧ s.pending = false ∨ (∃ off, s.ctx.Cur off) ∧ s.pending = true

lemma Session.Inv.sessionInv (h : s.Inv) : SessionInv s := by
  refine ⟨?_, fun hne => ?_, h.wf.fit, h.wf.mult⟩
  · rcases h.cur with ⟨h0, hp⟩ | ⟨⟨_, hc⟩, hp⟩
    · simp [h0, hp]
    · simp [hc.ne_null h.wf, hp]
  rcases h.cur with ⟨h0, -⟩ | ⟨⟨_, hc⟩, -⟩
  · exact absurd h0 hne
  have h1 := hc.ptr
  have h2 := hc.len
  have h3 := hc.header
  have h4 := h.wf.block.aligned
  have h5 := hc.aligned
  rw [h1, Nat.add_sub_cancel_left]
  exact ⟨Nat.le_add_right _ _, by omega, by omega, h2⟩

variable {addr size flags : Nat} {data : List UInt8}

lemma Session.Inv.init (h : Legit addr 1024) : Session.Inv ⟨tstNetlinkCreateContext addr, false⟩ :=
  ⟨⟨h, by simp [tstNetlinkCreateContext], by simp [tstNetlinkCreateContext], Nat.zero_le _⟩,
    .inl ⟨rfl, rfl⟩⟩

lemma Session.Inv.addAttr (h : s.Inv) (heap : Heap) (type : UInt16)
    (hg : s.ctx.curmsg ≠ 0 → s.ctx.CanGrow (4 + align4 data.length)) :
    ∃ ok c, tstNetlinkAddAttr heap s.ctx type data = .ok (ok, c) ∧ Session.Inv ⟨c, s.pending⟩ := by
  rcases h.cur with ⟨h0, hp⟩ | ⟨⟨off, hc⟩, hp⟩
  · refine ⟨false, s.ctx, ?_, h.wf, .inl ⟨h0, hp⟩⟩
    unfold tstNetlinkAddAttr Netlink.addAttr
    rw [if_pos h0]
  · obtain ⟨ok, c, he, hw, hc', -, -⟩ := addAttr_spec heap type h.wf hc (hg (hc.ne_null h.wf))
    exact ⟨ok, c, he, hw, .inr ⟨⟨off, hc'⟩, hp⟩⟩

/-- **One call**: it stays inside of the buffer and keeps the invariant. -/
theorem Session.Inv.call {call} (h : s.Inv) (hs : s.Safe heap call) :
    ∃ s', s.call heap call = .ok s' ∧ s'.Inv := by
  cases call with
  | addMessage header payload =>
    obtain ⟨hp, hg, hst⟩ := hs
    have hcur : s.ctx.curmsg = 0 ∨ ∃ off, s.ctx.Cur off := h.cur.imp And.left And.left
    obtain ⟨ok, c, he, hw, hadd, hkeep, -⟩ :=
      addMessage_spec heap header payload h.wf hcur hp hg hst
    refine ⟨⟨c, s.pending || ok⟩, by simp [Session.call, he], hw, ?_⟩
    cases ok with
    | true => exact .inr ⟨⟨_, (hadd rfl).1⟩, Bool.or_true _⟩
    | false =>
      obtain ⟨hnull, hc⟩ := hkeep rfl
      rw [Bool.or_false]
      rcases h.cur with ⟨h0, hp⟩ | ⟨⟨off, hc'⟩, hp⟩
      · exact .inl ⟨hnull.mpr h0, hp⟩
      · exact .inr ⟨⟨off, hc off hc'⟩, hp⟩
  | addAttr type =>
    obtain ⟨_, c, he, hi⟩ := h.addAttr heap type hs
    exact ⟨_, by simp [Session.call, he], hi⟩
  | rtnlAddAttr type data hl =>
    obtain ⟨_, c, he, hi⟩ := h.addAttr heap type hs
    exact ⟨_, by simp [Session.call, rtnlAddAttr_eq heap _ _ hl, he], hi⟩
  | send ret =>
    rcases h.cur with ⟨h0, hp⟩ | ⟨⟨_, hc⟩, hp⟩
    · refine ⟨⟨s.ctx, s.pending && (0 : Int) ≤ 0⟩, ?_, h.wf, .inl ⟨h0, by simp [hp]⟩⟩
      simp [Session.call, tstNetlinkSend, h0, ok_bind]
    obtain ⟨r, c, he, hw, hsent⟩ := send_spec heap h.wf hc ret (hs (hc.ne_null h.wf))
    refine ⟨⟨c, s.pending && r ≤ 0⟩, by simp [Session.call, he], hw, ?_⟩
    split at hsent
    · exact .inl ⟨hsent, by simp; omega⟩
    · exact .inr ⟨hsent, by simp [hp]; omega⟩

def Session.step (heap : Heap) (s : Session) (call : Call) : Option Session :=
  if s.Safe heap call then (s.call heap call).toOption else none

lemma Session.Inv.step (s : Session) (call : Call) (s' : Session) (h : s.Inv)
    (hs : s.step heap call = some s') : s'.Inv := by
  unfold Session.step at hs
  split at hs
  · rename_i hsafe
    obtain ⟨_, he, hi⟩ := h.call hsafe
    rw [he] at hs
    simp only [Except.toOption, Option.some.injEq] at hs
    exact hs ▸ hi
  · cases hs

/-- **The context invariant** holds after each of any safe calls on a fresh context, and no safe
next call makes an access outside of the buffer. -/
theorem context_invariant (heap : Heap) (addr : Nat) (ha : Legit addr 1024) (s : Session)
    (hs : Lts.Reachable (Session.step heap) ⟨tstNetlinkCreateContext addr, false⟩ s) :
    SessionInv s ∧ ∀ call, s.Safe heap call → ∃ s', s.call heap call = .ok s' ∧ SessionInv s' := by
  have h : s.Inv := Lts.invariant (Session.step heap) (Session.Inv.init ha) Session.Inv.step hs
  refine ⟨h.sessionInv, fun call hc => ?_⟩
  obtain ⟨s', he, hi⟩ := h.call hc
  exact ⟨s', he, hi.sessionInv⟩

lemma legit_page : Legit 4096 1024 := ⟨by decide, by decide, by decide⟩

/-- A heap that moves every block to address 8192. -/
def movingHeap : Heap where
  realloc := fun _ size => if size ≤ 2 ^ 32 then some 8192 else none
  legit := by
    intro k _ _ h
    split at h
    · simp only [Option.some.injEq] at h
      subst h
      exact ⟨by omega, by omega, by omega⟩
    · cases h

/-- A message and an attribute in a context at address 4096, with room for
both. -/
theorem context_invariant_small :
    ∃ s, Lts.run (Session.step movingHeap) ⟨tstNetlinkCreateContext 4096, false⟩
        [.addMessage { nlmsgType := 16 } [1, 2, 3], .addAttr 7 [9] (by decide)] = some s ∧
      s.ctx.curmsg = 4096 ∧ s.ctx.datalen = 25 ∧ SessionInv s := by
  obtain ⟨s, hs, hcur, hlen⟩ : ∃ s, Lts.run (Session.step movingHeap)
      ⟨tstNetlinkCreateContext 4096, false⟩
      [.addMessage { nlmsgType := 16 } [1, 2, 3], .addAttr 7 [9] (by decide)] = some s ∧
        s.ctx.curmsg = 4096 ∧ s.ctx.datalen = 25 := ⟨_, rfl, rfl, rfl⟩
  exact ⟨s, hs, hcur, hlen, (context_invariant movingHeap 4096 legit_page s ⟨_, hs⟩).1⟩

/-! ## Calls that return -/

lemma Ctx.store_eq_ok {bs : List UInt8} (h : c.store addr bs = .ok c') :
    (c.buffer ≤ addr ∧ addr + bs.length ≤ c.buffer + c.bufsize) ∧
      c' = { c with mem := c.mem.write (addr - c.buffer) bs } := by
  unfold Ctx.store at h
  split at h
  · rename_i hin
    exact ⟨hin, (Except.ok.inj h).symm⟩
  · cases h

lemma grow_eq_false (h : netlinkGrowBuffer heap c size = .ok (false, c')) :
    c' = { c with reallocs := c.reallocs + 1 } := by
  unfold netlinkGrowBuffer at h
  split at h
  · cases h
  dsimp only at h
  split at h
  · cases h
  split at h
  · exact ((Prod.mk.inj (Except.ok.inj h)).2).symm
  · split at h <;> cases h

lemma grow_eq_true (hw : c.Wf) (hs : size ≤ 2 ^ 32 - 4)
    (h : netlinkGrowBuffer heap c size = .ok (true, c')) : c.CanGrow size := by
  by_contra hg
  rcases grow_of_not_canGrow heap hw hs hg with ⟨e, he⟩ | he <;> rw [he] at h <;> cases h

lemma nextMessage_bufsize (h : nextMessage c = .ok (flags, c')) : c'.bufsize = c.bufsize := by
  unfold nextMessage at h
  split at h
  · cases h; rfl
  obtain ⟨_, -, h⟩ := bind_eq_ok h
  obtain ⟨_, -, h⟩ := bind_eq_ok h
  obtain ⟨_, hst, h⟩ := bind_eq_ok h
  cases h
  rw [(Ctx.store_eq_ok hst).2]

lemma putMessage_fits {r : Bool × Ctx} (h : putMessage c header flags payload = .ok r) :
    r.1 ∧ payload.length + 16 ≤ c.bufsize := by
  obtain ⟨_, hst, h⟩ := bind_eq_ok h
  obtain ⟨hin, rfl⟩ := Ctx.store_eq_ok hst
  obtain ⟨_, hcopy, h⟩ := bind_eq_ok h
  obtain ⟨_, -, h⟩ := bind_eq_ok h
  cases h
  rw [Nlmsghdr.bytes_length] at hin
  refine ⟨rfl, ?_⟩
  unfold copyPayload at hcopy
  split at hcopy
  · obtain ⟨hin', -⟩ := Ctx.store_eq_ok hcopy
    simp only [nlmsgHdrlen] at hin'
    omega
  · omega

lemma nextMessage_moved_null {buf n} (hw : c.Wf) (hnull : c.curmsg = 0) (hb : Legit buf n)
    (hne : buf ≠ c.buffer) : nextMessage (c.moved buf n) = .error .access := by
  have h1 := hw.block.pos
  have h2 := hw.block.inSpace
  have h3 := hb.inSpace
  have hcur : (c.moved buf n).curmsg = (buf + subSize 0 c.buffer) % 2 ^ 64 := by
    simp [Ctx.moved, hnull]
  have hfar : (buf + subSize 0 c.buffer) % 2 ^ 64 ≠ 0 ∧
      ¬ (buf ≤ (buf + subSize 0 c.buffer) % 2 ^ 64 ∧
        (buf + subSize 0 c.buffer) % 2 ^ 64 + 4 ≤ buf + n) := by
    unfold subSize
    omega
  unfold nextMessage
  rw [hcur, if_neg hfar.1]
  have hload : (c.moved buf n).load ((buf + subSize 0 c.buffer) % 2 ^ 64) 4 = .error .access := by
    exact if_neg hfar.2
  rw [hload]
  rfl

/-- **A message is only added by a safe call.** -/
theorem addMessage_safe
    (hw : c.Wf) (h : tstNetlinkAddMessage heap c header payload = .ok (true, c')) :
    MsgFits payload ∧ c.CanGrow (nlmsgSpace payload.length) ∧
      (c.curmsg = 0 → c.Stays heap (nlmsgSpace payload.length)) := by
  have hspace : nlmsgSpace payload.length ≤ 2 ^ 32 - 4 := by
    unfold nlmsgSpace nlmsgAlign
    omega
  obtain ⟨⟨ok, _⟩, hgrow, h⟩ := bind_eq_ok h
  cases ok with
  | false => cases h
  | true =>
    have hg := grow_eq_true hw hspace hgrow
    obtain ⟨⟨_, _⟩, hnext, h⟩ := bind_eq_ok h
    have hfits := (putMessage_fits h).2
    rw [nextMessage_bufsize hnext] at hfits
    rcases grow_cases heap hw hg with ⟨hroom, he⟩ | ⟨-, -, he⟩ |
      ⟨hroom, n, buf, hn, hmod, hlt, -, -, hr, he⟩
    · rw [hgrow] at he
      cases he
      have hs := hw.small
      have hm := hw.mult
      exact ⟨by unfold MsgFits nlmsgLength nlmsgHdrlen; omega, hg, fun _ => .inl hroom⟩
    · rw [hgrow] at he
      cases he
    rw [hgrow] at he
    cases he
    refine ⟨?_, hg, fun hnull => .inr (.inr ?_)⟩
    · unfold MsgFits nlmsgLength nlmsgHdrlen
      simp only [Ctx.moved] at hfits
      omega
    rw [← hn, hr]
    by_contra hne
    rw [nextMessage_moved_null hw hnull (heap.legit _ _ _ hr) (fun h => hne (by rw [h]))]
      at hnext
    cases hnext

lemma addMessage_eq_false (h : tstNetlinkAddMessage heap c header payload = .ok (false, c')) :
    c' = { c with reallocs := c.reallocs + 1 } := by
  obtain ⟨⟨ok, _⟩, hgrow, h⟩ := bind_eq_ok h
  cases ok with
  | false =>
    cases h
    exact grow_eq_false hgrow
  | true =>
    obtain ⟨⟨_, _⟩, -, h⟩ := bind_eq_ok h
    cases (putMessage_fits h).1

lemma Session.Inv.out_of_memory (h : s.Inv) :
    Session.Inv ⟨{ s.ctx with reallocs := s.ctx.reallocs + 1 }, s.pending⟩ := by
  refine ⟨⟨h.wf.block, h.wf.mult, h.wf.small, h.wf.fit⟩, ?_⟩
  rcases h.cur with hn | ⟨⟨off, hc⟩, hp⟩
  · exact .inl hn
  · exact .inr ⟨⟨off, hc.ptr, hc.aligned, hc.header, hc.len⟩, hp⟩

lemma Session.Inv.of_addAttr (h : s.Inv) {type ok} (hl : data.length ≤ ushrtMax)
    (he : tstNetlinkAddAttr heap s.ctx type data = .ok (ok, c)) : Session.Inv ⟨c, s.pending⟩ := by
  by_cases hg : s.ctx.curmsg ≠ 0 → s.ctx.CanGrow (4 + align4 data.length)
  · obtain ⟨_, _, he', hi⟩ := h.addAttr heap type hg
    rw [he] at he'
    cases he'
    exact hi
  obtain ⟨hne, hg⟩ : s.ctx.curmsg ≠ 0 ∧ ¬ s.ctx.CanGrow (4 + align4 data.length) := by
    simpa using hg
  unfold tstNetlinkAddAttr Netlink.addAttr at he
  rw [if_neg hne] at he
  have hsize : 4 + align4 data.length ≤ 2 ^ 32 - 4 := by
    unfold ushrtMax at hl
    unfold align4
    omega
  rcases grow_of_not_canGrow heap h.wf hsize hg with ⟨e, hgrow⟩ | hgrow
  · simp only [nlaHdrlen, nlaAlign, hgrow] at he
    cases he
  simp only [nlaHdrlen, nlaAlign, hgrow] at he
  cases he
  exact h.out_of_memory

/-- **Whatever is called**: a call that returns keeps the invariant. -/
theorem Session.Inv.of_call {s' : Session} {call} (h : s.Inv) (he : s.call heap call = .ok s') :
    s'.Inv := by
  by_cases hsafe : s.Safe heap call
  · obtain ⟨_, he₁, hi⟩ := h.call hsafe
    rw [he] at he₁
    cases he₁
    exact hi
  cases call with
  | addMessage =>
    obtain ⟨⟨ok, c⟩, hadd, he⟩ := bind_eq_ok he
    cases he
    cases ok with
    | true => exact absurd (addMessage_safe h.wf hadd) hsafe
    | false =>
      rw [addMessage_eq_false hadd, Bool.or_false]
      exact h.out_of_memory
  | addAttr type data hl =>
    obtain ⟨⟨ok, c⟩, hadd, he⟩ := bind_eq_ok he
    cases he
    exact h.of_addAttr hl hadd
  | rtnlAddAttr type data hl =>
    obtain ⟨⟨ok, c⟩, hadd, he⟩ := bind_eq_ok he
    cases he
    rw [rtnlAddAttr_eq heap _ _ hl] at hadd
    exact h.of_addAttr hl hadd
  | send =>
    obtain ⟨hne, hm, hg⟩ : s.ctx.curmsg ≠ 0 ∧ s.ctx.multi ∧ ¬ s.ctx.CanGrow 16 := by
      simpa [Session.Safe] using hsafe
    obtain ⟨⟨off, hc⟩, -⟩ := h.cur.resolve_left (fun hn => hne hn.1)
    have hlen := hc.len
    have hhdr := hc.header
    have hfit := h.wf.fit
    have hptr := hc.ptr
    unfold Ctx.multi at hm
    rw [hptr, Nat.add_sub_cancel_left] at hm
    obtain ⟨⟨r, c⟩, hsend, he⟩ := bind_eq_ok he
    cases he
    unfold tstNetlinkSend at hsend
    rw [if_neg hne, Ctx.load_at (off + 6) (by omega) (by omega)] at hsend
    simp only [ok_bind] at hsend
    rw [if_pos hm] at hsend
    obtain ⟨⟨ok, _⟩, hadd, hsend⟩ := bind_eq_ok hsend
    cases ok with
    | true => exact absurd (addMessage_safe h.wf hadd).2.1 hg
    | false =>
      cases hsend
      rw [addMessage_eq_false hadd]
      simpa using h.out_of_memory

def Session.calls (heap : Heap) : Session → List Call → Except Fault Session
  | s, [] => .ok s
  | s, call :: calls => do
      let s ← s.call heap call
      Session.calls heap s calls

lemma Session.Inv.of_calls : ∀ {cs} {s s' : Session}, s.Inv → s.calls heap cs = .ok s' → s'.Inv
  | [], s, s', h, he => by
    simp only [Session.calls, Except.ok.injEq] at he
    exact he ▸ h
  | call :: cs, s, s', h, he => by
    obtain ⟨_, h₁, he⟩ := bind_eq_ok he
    exact (h.of_call h₁).of_calls he

/-! ## What goes wrong without the conditions -/

/-- `curmsg` of a fresh context after its buffer has moved: the difference of the addresses. -/
lemma grow_moves_null :
    netlinkGrowBuffer movingHeap (tstNetlinkCreateContext 4096) (nlmsgSpace 2000) =
        .ok (true, (tstNetlinkCreateContext 4096).moved 8192 2048) ∧
      ((tstNetlinkCreateContext 4096).moved 8192 2048).curmsg = 4096 := by
  have hsize : growSize (tstNetlinkCreateContext 4096) (nlmsgSpace 2000) = 2048 := by decide
  have hcur : (8192 + subSize (tstNetlinkCreateContext 4096).curmsg
      (tstNetlinkCreateContext 4096).buffer) % 2 ^ 64 = 4096 := by decide
  have haddr : movingHeap.realloc (tstNetlinkCreateContext 4096).reallocs 2048 = some 8192 := by
    decide
  refine ⟨?_, hcur⟩
  unfold netlinkGrowBuffer
  dsimp only
  rw [hsize, haddr, if_neg (by decide)]
  dsimp only
  rfl

/-- **A moving buffer makes a pointer of `NULL`.** The first message does not fit 1024 bytes, and
`realloc` moves the buffer: `curmsg` is no longer `NULL`, and the next message is looked for behind
one that does not exist. -/
theorem first_message_faults :
    ¬ ∀ (heap : Heap) (addr : Nat), Legit addr 1024 → ∀ calls : List Call,
      ∃ s, Session.calls heap ⟨tstNetlinkCreateContext addr, false⟩ calls = .ok s ∧
        SessionInv s := by
  intro h
  obtain ⟨s, hs, -⟩ := h movingHeap 4096 ⟨by omega, by omega, by omega⟩
    [.addMessage { nlmsgType := 16 } (List.replicate 2000 0)]
  simp only [Session.calls, Session.call, tstNetlinkAddMessage, List.length_replicate] at hs
  rw [grow_moves_null.1] at hs
  cases hs

end LtpDdt.Netlink
