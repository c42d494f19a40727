/-
Netlink.ContextTheorems — the invariant of a netlink context: `Ctx.Wf` of the
buffer, `Ctx.Cur off` of the current message. Each function gets one lemma: it
does not fault, and the facts hold again (`grow_spec`, `addMessage_spec`,
`addAttr_spec`, `send_spec`).
-/
import LtpDdt.Netlink.Context
import LtpDdt.CTypes.Result

namespace LtpDdt.Netlink

open Bytes Tlv CTypes Mem

variable {n : Nat} {c : Ctx} {off size : Nat} {payload data : List UInt8}

/-! ## Sizes and accesses -/

lemma nlmsgAlign_eq (h : n ≤ 2 ^ 32 - 4) : nlmsgAlign n = align4 n := by
  unfold nlmsgAlign align4
  omega

lemma nlmsgAlign_lt (n : Nat) : nlmsgAlign n < 2 ^ 32 := by
  unfold nlmsgAlign
  omega

lemma subSize_eq {a b} (h : b ≤ a) (ha : a < 2 ^ 64) : subSize a b = a - b := by
  unfold subSize
  omega

lemma subSize_zero_add {b} (h0 : 0 < b) (h : b ≤ 2 ^ 64) : (b + subSize 0 b) % 2 ^ 64 = 0 := by
  have h1 : 0 + 2 ^ 64 - b < 2 ^ 64 := by omega
  have h2 : b + (0 + 2 ^ 64 - b) = 2 ^ 64 := by omega
  unfold subSize
  rw [Nat.mod_eq_of_lt h1, h2, Nat.mod_self]

open Ctx

lemma Ctx.load_at {addr} (off : Nat) (ha : addr = c.buffer + off) (h : off + n ≤ c.bufsize) :
    c.load addr n = .ok (c.mem.readLE off n) := by
  unfold load
  rw [if_pos (by omega), ha, Nat.add_sub_cancel_left]

lemma Ctx.store_at {addr} {bs : List UInt8} (off : Nat) (ha : addr = c.buffer + off)
    (h : off + bs.length ≤ c.bufsize) :
    c.store addr bs = .ok { c with mem := c.mem.write off bs } := by
  unfold store
  rw [if_pos (by omega), ha, Nat.add_sub_cancel_left]

/-! ## The invariant -/

structure Ctx.Wf (c : Ctx) : Prop where
  block : Legit c.buffer c.bufsize
  mult : c.bufsize % 4 = 0
  small : c.bufsize < 2 ^ 32
  fit : c.datalen ≤ c.bufsize

/-- The current message, at offset `off`. -/
structure Ctx.Cur (c : Ctx) (off : Nat) : Prop where
  ptr : c.curmsg = c.buffer + off
  aligned : off % 4 = 0
  header : 16 ≤ c.mem.readLE off 4
  len : off + c.mem.readLE off 4 = c.datalen

lemma Ctx.Cur.ne_null (h : c.Cur off) (hw : c.Wf) : c.curmsg ≠ 0 := by
  have := hw.block.pos
  have := h.ptr
  omega

lemma Ctx.Wf.align_datalen (h : c.Wf) :
    nlmsgAlign c.datalen = align4 c.datalen ∧ align4 c.datalen ≤ c.bufsize := by
  have h1 := h.mult
  have h2 := h.small
  have h3 := h.fit
  exact ⟨nlmsgAlign_eq (by omega), align4_le h3 h1⟩

lemma Ctx.Cur.align_len (h : c.Cur off) (hw : c.Wf) :
    off + nlmsgAlign (c.mem.readLE off 4) = align4 c.datalen := by
  have h1 := hw.mult
  have h2 := hw.small
  have h3 := hw.fit
  have h4 := h.len
  rw [nlmsgAlign_eq (by omega), ← align4_add h.aligned, h.len]

lemma Ctx.Cur.congr {c' : Ctx} (h : c.Cur off)
    (hp : c'.curmsg = c'.buffer + off) (hd : c'.datalen = c.datalen)
    (ha : Mem.Agree c.mem c'.mem off (off + 4)) : c'.Cur off where
  ptr := hp
  aligned := h.aligned
  header := by rw [← readLE_congr ha]; exact h.header
  len := by rw [← readLE_congr ha, hd]; exact h.len

/-! ## Growing the buffer -/

/-- `size` more bytes are free behind the content. -/
def Ctx.Room (c : Ctx) (size : Nat) : Prop := align4 c.datalen + size ≤ c.bufsize

/-- There is room for `size` more bytes, or the size the buffer grows to fits 32 bits after rounding
up. -/
def Ctx.CanGrow (c : Ctx) (size : Nat) : Prop :=
  c.Room size ∨ (2 * c.bufsize ≤ 2 ^ 32 - 4 ∧ align4 c.datalen + size ≤ 2 ^ 32 - 4)

instance (c : Ctx) (size : Nat) : Decidable (c.Room size) :=
  inferInstanceAs (Decidable (align4 c.datalen + size ≤ c.bufsize))

instance (c : Ctx) (size : Nat) : Decidable (c.CanGrow size) :=
  inferInstanceAs (Decidable
    (c.Room size ∨ (2 * c.bufsize ≤ 2 ^ 32 - 4 ∧ align4 c.datalen + size ≤ 2 ^ 32 - 4)))

/-- The context after the buffer was enlarged to `size` bytes at `buf`. -/
def Ctx.moved (c : Ctx) (buf size : Nat) : Ctx :=
  { c with
    mem := fun i => if i < c.bufsize then c.mem i else 0
    buffer := buf
    curmsg := (buf + subSize c.curmsg c.buffer) % 2 ^ 64
    bufsize := size
    reallocs := c.reallocs + 1 }

lemma Ctx.moved_room {buf} (h : align4 c.datalen + size ≤ n) : (c.moved buf n).Room size := h

lemma Ctx.Wf.free (h : c.Wf) :
    subSize c.bufsize (nlmsgAlign c.datalen) = c.bufsize - align4 c.datalen := by
  obtain ⟨hal, hle⟩ := h.align_datalen
  have hsmall := h.small
  rw [hal]
  exact subSize_eq hle (by omega)

lemma Ctx.Wf.growNeeded (h : c.Wf) (hs : size ≤ 2 ^ 32 - 4)
    (hroom : ¬ c.Room size) : growNeeded c size = size - (c.bufsize - align4 c.datalen) := by
  unfold Ctx.Room at hroom
  unfold Netlink.growNeeded
  rw [h.free]
  exact subSize_eq (by omega) (by omega)

variable (heap : Heap)

/-- **`netlink_grow_buffer`** does nothing when there is room; else it fails and leaves the context
alone, or the block is replaced by one that has the room. -/
theorem grow_cases (hw : c.Wf) (hg : c.CanGrow size) :
    (c.Room size ∧ netlinkGrowBuffer heap c size = .ok (true, c)) ∨
    (¬ c.Room size ∧ heap.realloc c.reallocs (growSize c size) = none ∧
      netlinkGrowBuffer heap c size = .ok (false, { c with reallocs := c.reallocs + 1 })) ∨
    (¬ c.Room size ∧ ∃ n buf, n = growSize c size ∧ n % 4 = 0 ∧ n < 2 ^ 32 ∧
      c.bufsize ≤ n ∧ align4 c.datalen + size ≤ n ∧ heap.realloc c.reallocs n = some buf ∧
      netlinkGrowBuffer heap c size = .ok (true, c.moved buf n)) := by
  have hle := hw.align_datalen.2
  unfold netlinkGrowBuffer
  rw [hw.free]
  by_cases hroom : c.Room size
  · refine .inl ⟨hroom, ?_⟩
    unfold Ctx.Room at hroom
    rw [if_pos (by omega)]
  have hlimits := hg.resolve_left hroom
  have hneeded := hw.growNeeded (by omega) hroom
  unfold Ctx.Room at hroom
  have hgs : growSize c size % 4 = 0 ∧ growSize c size < 2 ^ 32 ∧
      c.bufsize ≤ growSize c size ∧ align4 c.datalen + size ≤ growSize c size := by
    have htotal : c.bufsize ≤ c.bufsize + (if c.bufsize > growNeeded c size then c.bufsize
          else growNeeded c size) ∧
        align4 c.datalen + size ≤ c.bufsize + (if c.bufsize > growNeeded c size then c.bufsize
          else growNeeded c size) ∧
        c.bufsize + (if c.bufsize > growNeeded c size then c.bufsize
          else growNeeded c size) ≤ 2 ^ 32 - 4 := by
      split <;> omega
    obtain ⟨ht1, ht2, ht3⟩ := htotal
    unfold growSize
    refine ⟨?_, nlmsgAlign_lt _, ?_, ?_⟩ <;> rw [nlmsgAlign_eq ht3]
    · exact align4_mod _
    · exact Nat.le_trans ht1 (le_align4 _)
    · exact Nat.le_trans ht2 (le_align4 _)
  obtain ⟨hg1, hg2, hg3, hg4⟩ := hgs
  rw [if_neg (by omega)]
  rw [if_neg (by omega)]
  cases hr : heap.realloc c.reallocs (growSize c size) with
  | none => exact .inr (.inl ⟨hroom, rfl, rfl⟩)
  | some buf =>
    refine .inr (.inr ⟨hroom, growSize c size, buf, rfl, hg1, hg2, hg3, hg4, hr, ?_⟩)
    dsimp only
    rw [if_neg (by omega)]
    rfl

/-- Where the enlarged size does not fit 32 bits, the cut off size is too small: nothing is
added. -/
lemma grow_of_not_canGrow (hw : c.Wf) (hsize : size ≤ 2 ^ 32 - 4) (hg : ¬ c.CanGrow size) :
    (∃ e, netlinkGrowBuffer heap c size = .error e) ∨
      netlinkGrowBuffer heap c size = .ok (false, { c with reallocs := c.reallocs + 1 }) := by
  have hle := hw.align_datalen.2
  have hneeded := hw.growNeeded hsize (fun h => hg (.inl h))
  unfold Ctx.CanGrow Ctx.Room at hg
  have hcut : growSize c size < c.bufsize := by
    unfold growSize nlmsgAlign
    split <;> omega
  unfold netlinkGrowBuffer
  rw [hw.free, if_neg (by omega)]
  dsimp only
  split
  · exact .inl ⟨_, rfl⟩
  split
  · exact .inr rfl
  · exact .inl ⟨_, rfl⟩

/-- The buffer after a growth, with the old content in it. -/
structure Grown (c c' : Ctx) : Prop where
  wf : c'.Wf
  datalen : c'.datalen = c.datalen
  content : Mem.Agree c.mem c'.mem 0 c.bufsize

lemma Grown.refl (h : c.Wf) : Grown c c := ⟨h, rfl, fun _ _ _ => rfl⟩

lemma Grown.moved (hw : c.Wf) {heap : Heap} {k buf} (hr : heap.realloc k n = some buf)
    (hm : n % 4 = 0) (hs : n < 2 ^ 32) (hle : c.bufsize ≤ n) :
    Grown c (c.moved buf n) where
  wf := ⟨heap.legit _ _ _ hr, hm, hs, Nat.le_trans hw.fit hle⟩
  datalen := rfl
  content := fun i _ hi => by simp [Ctx.moved, hi]

/-- There is memory for every request the library can make. -/
def Heap.NeverFails : Prop := ∀ k n, n < 2 ^ 32 → (heap.realloc k n).isSome = true

lemma grow_cur (hw : c.Wf) (hc : c.Cur off) (hg : c.CanGrow size) :
    ∃ ok c', netlinkGrowBuffer heap c size = .ok (ok, c') ∧ Grown c c' ∧ c'.Cur off ∧
      (ok → c'.Room size) ∧ (c.Room size ∨ heap.NeverFails → ok) := by
  rcases grow_cases heap hw hg with ⟨hroom, he⟩ | ⟨hroom, hr, he⟩ |
    ⟨-, n, buf, -, hm, hs, hle, hn, hr, he⟩
  · exact ⟨true, c, he, Grown.refl hw, hc, fun _ => hroom, fun _ => rfl⟩
  · refine ⟨false, _, he, ⟨⟨hw.block, hw.mult, hw.small, hw.fit⟩, rfl, fun _ _ _ => rfl⟩,
      ⟨hc.ptr, hc.aligned, hc.header, hc.len⟩, by simp, fun h => ?_⟩
    have := h.resolve_left hroom c.reallocs (growSize c size) (nlmsgAlign_lt _)
    simp [hr] at this
  have hgrown := Grown.moved hw hr hm hs hle
  refine ⟨true, _, he, hgrown, ?_, fun _ => moved_room hn, fun _ => rfl⟩
  have h1 := hc.len
  have h2 := hc.header
  have h3 := hw.fit
  have h4 := hw.block.inSpace
  have h5 := (heap.legit _ _ _ hr).inSpace
  refine hc.congr ?_ rfl (hgrown.content.mono (Nat.zero_le _) (by omega))
  have hoff : subSize c.curmsg c.buffer = off := by
    rw [hc.ptr, subSize_eq (by omega) (by omega)]
    omega
  simp only [moved, hoff]
  exact Nat.mod_eq_of_lt (by omega)

/-- `realloc` is not called, or fails, or leaves the block where it is. -/
def Ctx.Stays (c : Ctx) (size : Nat) : Prop :=
  c.Room size ∨ heap.realloc c.reallocs (growSize c size) = none ∨
    heap.realloc c.reallocs (growSize c size) = some c.buffer

instance (heap : Heap) (c : Ctx) (size : Nat) : Decidable (c.Stays heap size) :=
  inferInstanceAs (Decidable (c.Room size ∨ heap.realloc c.reallocs (growSize c size) = none ∨
    heap.realloc c.reallocs (growSize c size) = some c.buffer))

lemma grow_null (hw : c.Wf) (hnull : c.curmsg = 0) (hg : c.CanGrow size) (hst : c.Stays heap size) :
    ∃ ok c', netlinkGrowBuffer heap c size = .ok (ok, c') ∧ Grown c c' ∧ c'.curmsg = 0 ∧
      (ok → c'.Room size) ∧ (c.Room size → ok) := by
  rcases grow_cases heap hw hg with ⟨hroom, he⟩ | ⟨hroom, hr, he⟩ |
    ⟨hroom, n, buf, hsize, hm, hs, hle, hn, hr, he⟩
  · exact ⟨true, c, he, Grown.refl hw, hnull, fun _ => hroom, fun _ => rfl⟩
  · exact ⟨false, _, he, ⟨⟨hw.block, hw.mult, hw.small, hw.fit⟩, rfl, fun _ _ _ => rfl⟩, hnull,
      by simp, fun h => absurd h hroom⟩
  refine ⟨true, _, he, Grown.moved hw hr hm hs hle, ?_, fun _ => moved_room hn, fun _ => rfl⟩
  have hsame : buf = c.buffer := by
    rcases hst.resolve_left hroom with h | h
    · rw [← hsize, hr] at h; cases h
    · rw [← hsize, hr] at h; exact Option.some.inj h
  simp only [moved, hsame, hnull]
  exact subSize_zero_add hw.block.pos (by have := hw.block.inSpace; omega)

/-- **What growing the buffer does.** -/
lemma grow_spec (hw : c.Wf) (hcur : c.curmsg = 0 ∨ ∃ off, c.Cur off) (hg : c.CanGrow size)
    (hst : c.curmsg = 0 → c.Stays heap size) :
    ∃ ok c', netlinkGrowBuffer heap c size = .ok (ok, c') ∧ Grown c c' ∧
      (c'.curmsg = 0 ↔ c.curmsg = 0) ∧ (∀ off, c.Cur off → c'.Cur off) ∧
      (ok → c'.Room size) ∧ (c.Room size → ok) := by
  by_cases hnull : c.curmsg = 0
  · obtain ⟨ok, c', he, hgr, hn, hroom⟩ := grow_null heap hw hnull hg (hst hnull)
    exact ⟨ok, c', he, hgr, by simp [hn, hnull], fun off hc => absurd hnull (hc.ne_null hw), hroom⟩
  obtain ⟨off, hc⟩ := hcur.resolve_left hnull
  obtain ⟨ok, c', he, hgr, hc', hroom, hok⟩ := grow_cur heap hw hc hg
  have hne := hc'.ne_null hgr.wf
  refine ⟨ok, c', he, hgr, by simp [hne, hnull], fun off' h => ?_, hroom, fun h => hok (.inl h)⟩
  have hoff : off' = off := by
    have h1 := h.ptr
    have h2 := hc.ptr
    omega
  exact hoff ▸ hc'

/-! ## Messages -/

def Ctx.nextOff (c : Ctx) : Nat := if c.curmsg = 0 then 0 else align4 c.datalen

lemma Ctx.nextOff_le (c : Ctx) : c.nextOff ≤ align4 c.datalen := by
  unfold nextOff
  split
  · exact Nat.zero_le _
  · exact Nat.le_refl _

lemma Ctx.nextOff_mod (c : Ctx) : c.nextOff % 4 = 0 := by
  unfold nextOff
  split
  · rfl
  · exact align4_mod _

/-- Where the next message goes. -/
lemma nextMessage_spec (hw : c.Wf) (hcur : c.curmsg = 0 ∨ ∃ off, c.Cur off) (hroom : c.Room 16) :
    ∃ flags c', nextMessage c = .ok (flags, c') ∧ c'.buffer = c.buffer ∧
      c'.bufsize = c.bufsize ∧ c'.datalen = c.nextOff ∧ c'.curmsg = c'.buffer + c'.datalen := by
  unfold nextMessage
  by_cases hnull : c.curmsg = 0
  · rw [if_pos hnull]
    exact ⟨0, _, rfl, rfl, rfl, by simp [nextOff, hnull], rfl⟩
  obtain ⟨off, hc⟩ := hcur.resolve_left hnull
  have h4 := hc.align_len hw
  have h5 := hw.block.inSpace
  have h6 := hc.ptr
  unfold Ctx.Room at hroom
  rw [if_neg hnull, load_at _ hc.ptr (by omega)]
  rw [load_at (off + 6) (by omega) (by omega)]
  simp only [ok_bind]
  rw [store_at (off + 6) (by omega) (by rw [leBytes_length]; omega)]
  refine ⟨_, _, rfl, rfl, rfl, ?_, ?_⟩
  · simp [nextOff, hnull, hw.align_datalen.1]
  show (c.curmsg + _) % 2 ^ 64 = c.buffer + nlmsgAlign c.datalen
  rw [hw.align_datalen.1]
  omega

@[simp] lemma Nlmsghdr.bytes_length (h : Nlmsghdr) : h.bytes.length = 16 := by simp [Nlmsghdr.bytes]

lemma readLE_header (m : Mem) (d : Nat) (h : Nlmsghdr) :
    (m.write d h.bytes).readLE d 4 = h.nlmsgLen % 2 ^ 32 := by
  have hp : 256 ^ 4 = 2 ^ 32 := by decide
  unfold Nlmsghdr.bytes
  rw [write_append, leBytes_length, readLE_congr (write_agree _ _ _ (.inl (Nat.le_refl (d + 4)))),
    readLE_write_self, hp]

def MsgFits (payload : List UInt8) : Prop := nlmsgLength payload.length ≤ 2 ^ 32 - 4

instance (payload : List UInt8) : Decidable (MsgFits payload) :=
  inferInstanceAs (Decidable (nlmsgLength payload.length ≤ 2 ^ 32 - 4))

lemma MsgFits.space (h : MsgFits payload) :
    nlmsgSpace payload.length = align4 (payload.length + 16) := nlmsgAlign_eq h

lemma copyPayload_at (off : Nat)
    (hcur : c.curmsg = c.buffer + off) (h : off + 16 + payload.length ≤ c.bufsize) :
    copyPayload c payload = .ok { c with mem := c.mem.write (off + 16) payload } := by
  unfold copyPayload
  split
  · exact c.store_at _ (by rw [hcur]; rfl) h
  · have : payload = [] := by simpa using ‹¬ payload.length ≠ 0›
    simp [this]

/-- A message that is put in its place. -/
lemma putMessage_spec (header : Nlmsghdr) (extraFlags : Nat)
    (hcur : c.curmsg = c.buffer + c.datalen) (hd : c.datalen % 4 = 0) (hp : MsgFits payload)
    (hroom : c.datalen + 16 + payload.length ≤ c.bufsize) :
    ∃ c', putMessage c header extraFlags payload = .ok (true, c') ∧ c'.buffer = c.buffer ∧
      c'.bufsize = c.bufsize ∧ c'.datalen = c.datalen + 16 + payload.length ∧
      c'.Cur c.datalen ∧ c'.mem.read (c.datalen + 16) payload.length = payload ∧
      Mem.Agree c.mem c'.mem 0 c.datalen := by
  unfold MsgFits nlmsgLength nlmsgHdrlen at hp
  unfold putMessage
  dsimp only
  rw [store_at _ hcur (by rw [Nlmsghdr.bytes_length]; omega)]
  simp only [ok_bind]
  rw [copyPayload_at c.datalen (by exact hcur) (by exact hroom)]
  simp only [ok_bind]
  rw [load_at c.datalen (by exact hcur) (by show c.datalen + 4 ≤ c.bufsize; omega)]
  have hlen : ∀ h : Nlmsghdr, h.nlmsgLen = payload.length + 16 →
      ((c.mem.write c.datalen h.bytes).write (c.datalen + 16) payload).readLE c.datalen 4
        = 16 + payload.length := by
    intro h _
    rw [readLE_congr (write_agree _ _ _ (.inl (by omega))), readLE_header]
    omega
  refine ⟨_, rfl, rfl, rfl, ?_, ⟨hcur, hd, ?_, ?_⟩, read_write_self _ _ _, ?_⟩
  · dsimp only
    rw [hlen _ rfl]
    omega
  · dsimp only
    rw [hlen _ rfl]
    omega
  · rfl
  dsimp only
  exact ((write_agree _ _ _ (.inl (by omega))).trans
    (write_agree _ _ _ (.inl (Nat.le_refl _)))).symm

/-- **`tst_netlink_add_message`**: the message is the current one, or nothing has changed. -/
theorem addMessage_spec (header : Nlmsghdr) (payload : List UInt8)
    (hw : c.Wf) (hcur : c.curmsg = 0 ∨ ∃ off, c.Cur off) (hp : MsgFits payload)
    (hg : c.CanGrow (nlmsgSpace payload.length))
    (hst : c.curmsg = 0 → c.Stays heap (nlmsgSpace payload.length)) :
    ∃ ok c', tstNetlinkAddMessage heap c header payload = .ok (ok, c') ∧ c'.Wf ∧
      (ok → c'.Cur c.nextOff ∧ c'.datalen = c.nextOff + 16 + payload.length ∧
        c'.mem.read (c.nextOff + 16) payload.length = payload) ∧
      (ok = false → (c'.curmsg = 0 ↔ c.curmsg = 0) ∧ ∀ off, c.Cur off → c'.Cur off) ∧
      (c.Room (nlmsgSpace payload.length) → ok) := by
  obtain ⟨ok, c₁, he, hgr, hnull, hc₁, hroom, hok⟩ := grow_spec heap hw hcur hg hst
  unfold tstNetlinkAddMessage
  rw [he]
  simp only [ok_bind]
  cases ok with
  | false => exact ⟨false, c₁, rfl, hgr.wf, by simp, fun _ => ⟨hnull, hc₁⟩, hok⟩
  | true =>
    have hroom := hroom rfl
    unfold Ctx.Room at hroom
    have hspace := le_align4 (payload.length + 16)
    rw [hp.space] at hroom
    have hoff : c₁.nextOff = c.nextOff := by simp [nextOff, hnull, hgr.datalen]
    have hle := c₁.nextOff_le
    have hcur₁ : c₁.curmsg = 0 ∨ ∃ off, c₁.Cur off := by
      rcases hcur with h | ⟨off, h⟩
      · exact .inl (hnull.mpr h)
      · exact .inr ⟨off, hc₁ off h⟩
    obtain ⟨flags, _, hn, hb₂, hs₂, hd₂, hp₂⟩ :=
      nextMessage_spec hgr.wf hcur₁ (by unfold Ctx.Room; omega)
    obtain ⟨c₃, hput, hb₃, hs₃, hd₃, hcur₃, hread, -⟩ :=
      putMessage_spec header flags hp₂ (by rw [hd₂]; exact c₁.nextOff_mod) hp (by rw [hs₂]; omega)
    rw [hd₂, hoff] at hd₃ hcur₃ hread
    refine ⟨true, c₃, ?_, ?_, fun _ => ⟨hcur₃, hd₃, hread⟩, by simp, fun _ => rfl⟩
    · simp only [Bool.not_true]
      rw [hn]
      exact hput
    refine ⟨?_, ?_, ?_, ?_⟩
    · rw [hb₃, hs₃, hb₂, hs₂]; exact hgr.wf.block
    · rw [hs₃, hs₂]; exact hgr.wf.mult
    · rw [hs₃, hs₂]; exact hgr.wf.small
    · rw [hs₃]; omega

/-! ## Attributes -/

lemma rtnlAddAttr_eq (c : Ctx) (type : UInt16) (hl : data.length ≤ ushrtMax) :
    tstRtnlAddAttr heap c type data = tstNetlinkAddAttr heap c type data := by
  have hspace : rtaSpace data.length = nlaHdrlen + nlaAlign data.length := by
    unfold ushrtMax at hl
    simp only [rtaSpace, rtaLength, nlaHdrlen, nlaAlign]
    rw [nlmsgAlign_eq (by omega), align4_add rfl]
  unfold tstRtnlAddAttr tstNetlinkAddAttr
  rw [hspace]
  rfl

/-- The bytes of an attribute at `o`, in the order they are written. -/
def attrMem (m : Mem) (o attrLen : Nat) (type : UInt16) (data : List UInt8) : Mem :=
  ((m.write (o + 2) (leBytes 2 type.toNat)).write o (leBytes 2 attrLen)).write (o + 4) data

lemma attrMem_header (m : Mem) (o attrLen : Nat) (type : UInt16) (data : List UInt8) :
    Header (attrMem m o attrLen type data) o (attrLen % 2 ^ 16) type data where
  len := by
    have hp : 256 ^ 2 = 2 ^ 16 := by decide
    unfold attrMem
    rw [readLE_congr (write_agree _ _ _ (.inl (by omega))), readLE_write_self, hp]
  type := by
    have hlt : type.toNat < 256 ^ 2 := type.toNat_lt
    unfold attrMem
    rw [readLE_congr (write_agree _ _ _ (.inl (by omega))),
      readLE_congr (write_agree _ _ _ (.inr (by simp only [leBytes_length, Nat.le_refl]))),
      readLE_write_self, Nat.mod_eq_of_lt hlt]
  data := read_write_self _ _ _

lemma attrMem_agree (m : Mem) (o attrLen : Nat) (type : UInt16) (data : List UInt8) :
    Mem.Agree (attrMem m o attrLen type data) m 0 o :=
  (write_agree _ _ _ (.inl (by omega))).trans ((write_agree _ _ _ (.inl (Nat.le_refl _))).trans
      (write_agree _ _ _ (.inl (by omega))))

/-- What a new attribute leaves in the buffer. Its length is cut off to 16
bits. -/
structure AttrAdded (c c' : Ctx) (off : Nat) (type : UInt16) (data : List UInt8) : Prop where
  datalen : c'.datalen = align4 c.datalen + (4 + data.length) % 2 ^ 16
  header : Header c'.mem (align4 c.datalen) ((4 + data.length) % 2 ^ 16) type data
  /-- the content is kept, up to the length of the current message -/
  frame : ∀ i, i < c.datalen → (i < off ∨ off + 4 ≤ i) → c'.mem i = c.mem i

/-- An attribute that is put in its place. -/
lemma putAttr_spec (type : UInt16)
    (hw : c.Wf) (hc : c.Cur off) (hroom : c.Room (4 + align4 data.length)) :
    ∃ c', putAttr c (4 + data.length) type data = .ok (true, c') ∧ c'.Wf ∧ c'.Cur off ∧
      AttrAdded c c' off type data := by
  have hlen := hc.len
  have hhdr := hc.header
  have hnext := hc.align_len hw
  have hspace := hw.block.inSpace
  have hsmall := hw.small
  have hptr := hc.ptr
  have hdata := le_align4 data.length
  have hdl := le_align4 c.datalen
  unfold Ctx.Room at hroom
  have hattr : (c.curmsg + nlmsgAlign (c.mem.readLE off 4)) % 2 ^ 64
      = c.buffer + align4 c.datalen := by
    omega
  unfold putAttr
  rw [load_at _ hc.ptr (by omega)]
  simp only [ok_bind, hattr]
  rw [store_at (align4 c.datalen + 2) (by omega) (by rw [leBytes_length]; omega)]
  simp only [ok_bind]
  rw [store_at (align4 c.datalen) rfl
    (by rw [leBytes_length]; show align4 c.datalen + 2 ≤ c.bufsize; omega)]
  simp only [ok_bind]
  rw [store_at (align4 c.datalen + 4) (Nat.add_assoc _ _ _)
    (by show align4 c.datalen + 4 + data.length ≤ c.bufsize; omega)]
  simp only [ok_bind]
  rw [load_at (align4 c.datalen) rfl (by show align4 c.datalen + 2 ≤ c.bufsize; omega)]
  simp only [ok_bind]
  -- from here on the bytes are those of `attrMem`
  have hheader := attrMem_header c.mem (align4 c.datalen) (4 + data.length) type data
  have hagree := attrMem_agree c.mem (align4 c.datalen) (4 + data.length) type data
  unfold attrMem at hheader hagree
  rw [hheader.len, store_at off (by exact hptr)
    (by rw [leBytes_length]; show off + 4 ≤ c.bufsize; omega)]
  have hnlen : ∀ m : Mem, (m.write off (leBytes 4 (nlmsgAlign (c.mem.readLE off 4) +
      (4 + data.length) % 2 ^ 16))).readLE off 4 =
        nlmsgAlign (c.mem.readLE off 4) + (4 + data.length) % 2 ^ 16 := by
    intro m
    rw [readLE_write_self]
    exact Nat.mod_eq_of_lt (by omega)
  have halign := hw.align_datalen.1
  refine ⟨_, rfl, ⟨hw.block, hw.mult, hw.small, ?_⟩, ⟨hptr, hc.aligned, ?_, ?_⟩, ⟨?_, ?_, ?_⟩⟩
  · dsimp only; omega
  · dsimp only; rw [hnlen]; omega
  · dsimp only; rw [hnlen]; omega
  · dsimp only; omega
  · refine hheader.congr (write_agree _ _ _ (.inr ?_)).symm
    rw [leBytes_length]; omega
  intro i _ _
  dsimp only
  rw [write_outside (by rw [leBytes_length]; omega)]
  exact hagree i (Nat.zero_le _) (by omega)

/-- **What adding an attribute does.** -/
lemma addAttr_spec (type : UInt16)
    (hw : c.Wf) (hc : c.Cur off) (hg : c.CanGrow (4 + align4 data.length)) :
    ∃ ok c', tstNetlinkAddAttr heap c type data = .ok (ok, c') ∧ c'.Wf ∧ c'.Cur off ∧
      (ok → AttrAdded c c' off type data) ∧
      (heap.NeverFails → ok) := by
  obtain ⟨ok, c₁, he, hgr, hc₁, hroom, halloc⟩ := grow_cur heap hw hc hg
  unfold tstNetlinkAddAttr addAttr
  rw [if_neg (hc.ne_null hw)]
  simp only [nlaHdrlen, nlaAlign, he]
  cases ok with
  | false => exact ⟨false, c₁, rfl, hgr.wf, hc₁, by simp, fun h => halloc (.inr h)⟩
  | true =>
    obtain ⟨c₂, hput, hw₂, hc₂, hadd⟩ := putAttr_spec type hgr.wf hc₁ (hroom rfl)
    refine ⟨true, c₂, hput, hw₂, hc₂, fun _ => ⟨?_, ?_, fun i hi hout => ?_⟩, fun _ => rfl⟩
    · rw [← hgr.datalen]; exact hadd.datalen
    · rw [← hgr.datalen]; exact hadd.header
    · rw [hadd.frame i (by rw [hgr.datalen]; exact hi) hout]
      exact (hgr.content i (Nat.zero_le _) (Nat.lt_of_lt_of_le hi hw.fit)).symm

/-! ## Sending -/

lemma sendBuffer_eq (hw : c.Wf) (ret : Int) :
    sendBuffer c ret = .ok (ret, if ret > 0 then { c with curmsg := 0 } else c) := by
  unfold sendBuffer
  rw [if_pos hw.fit]

lemma Ctx.Cur.setFlags (h : c.Cur off) (flags : Nat) :
    Ctx.Cur { c with mem := c.mem.write (off + 6) (leBytes 2 flags) } off :=
  h.congr h.ptr rfl (write_agree _ _ _ (.inl (by omega))).symm

/-- After `tst_netlink_send` with a current message: what was to be sent is still there, unless it
was sent. -/
def Sent (ret : Int) (c : Ctx) : Prop :=
  c.Wf ∧ if ret > 0 then c.curmsg = 0 else ∃ off, c.Cur off

lemma Sent.of_sendBuffer (hw : c.Wf) (hc : c.Cur off) (ret : Int) :
    Sent ret (if ret > 0 then { c with curmsg := 0 } else c) := by
  unfold Sent
  split
  · exact ⟨⟨hw.block, hw.mult, hw.small, hw.fit⟩, rfl⟩
  · exact ⟨hw, off, hc⟩

/-- The current message is part of a multipart message. -/
def Ctx.multi (c : Ctx) : Prop :=
  c.mem.readLE (c.curmsg - c.buffer + 6) 2 &&& nlmFMulti ≠ 0

instance (c : Ctx) : Decidable c.multi :=
  inferInstanceAs (Decidable (c.mem.readLE (c.curmsg - c.buffer + 6) 2 &&& nlmFMulti ≠ 0))

/-- **What sending does.** -/
lemma send_spec (hw : c.Wf) (hc : c.Cur off) (ret : Int) (hg : c.multi → c.CanGrow 16) :
    ∃ r c', tstNetlinkSend heap c ret = .ok (r, c') ∧ Sent r c' := by
  have hlen := hc.len
  have hhdr := hc.header
  have hfit := hw.fit
  have hptr := hc.ptr
  unfold tstNetlinkSend
  rw [if_neg (hc.ne_null hw), load_at (off + 6) (by omega) (by omega)]
  simp only [ok_bind]
  have hmulti : c.multi ↔ c.mem.readLE (off + 6) 2 &&& nlmFMulti ≠ 0 := by
    unfold multi
    rw [hptr, Nat.add_sub_cancel_left]
  split
  · rename_i hm
    -- a multipart message gets its end marker first
    obtain ⟨ok, c₁, he, hw₁, hadd, hkeep, -⟩ :=
      addMessage_spec heap { nlmsgType := nlmsgDone } [] hw
        (.inr ⟨off, hc⟩) (by decide) (hg (hmulti.mpr hm)) (fun h => absurd h (hc.ne_null hw))
    rw [he]
    simp only [ok_bind]
    cases ok with
    | false => exact ⟨0, c₁, rfl, hw₁, off, (hkeep rfl).2 off hc⟩
    | true =>
      obtain ⟨hc₁, -, -⟩ := hadd rfl
      have hlen₁ := hc₁.len
      have hhdr₁ := hc₁.header
      have hfit₁ := hw₁.fit
      have hptr₁ := hc₁.ptr
      rw [store_at (c.nextOff + 6) (by omega) (by rw [leBytes_length]; omega)]
      have hw₂ : Ctx.Wf { c₁ with mem := c₁.mem.write (c.nextOff + 6) (leBytes 2 0) } :=
        ⟨hw₁.block, hw₁.mult, hw₁.small, hw₁.fit⟩
      exact ⟨ret, _, sendBuffer_eq hw₂ ret, Sent.of_sendBuffer hw₂ (hc₁.setFlags 0) ret⟩
  · exact ⟨ret, _, sendBuffer_eq hw ret, Sent.of_sendBuffer hw hc ret⟩

end LtpDdt.Netlink
