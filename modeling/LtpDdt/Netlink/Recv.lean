/-
Netlink.Recv — `tst_netlink_recv` and `tst_netlink_check_acks` of `lib/tst_netlink.c`.

* Both walk over a buffer with `NLMSG_OK` and `NLMSG_NEXT` on an `int` initialised from
  a `size_t`: `int32` is the conversion. Pointers into the buffer are offsets; reading
  outside of it is a fault.
* There is memory, and `recv` returns the datagrams that its peeks have announced.
* A walk takes as fuel the size of its buffer; a step uses at least sixteen bytes.
* Error codes are negated `errno` values; that of `INT_MIN`, which cannot be negated
  back, is not among them.

A walk with `NLMSG_OK` and `NLMSG_NEXT` follows the lengths in the headers
(`Chain`); well-formed datagrams are such a chain (`chain_of_messages`).
-/
import LtpDdt.CTypes.Ints
import LtpDdt.Netlink.ContextTheorems

namespace LtpDdt.Netlink

open Bytes CTypes

def nlmsgError : Nat := 2

def nlmFAck : Nat := 4

variable (m : Mem)

def loadAt (size pos n : Nat) : Except Fault Nat :=
  if pos + n ≤ size then .ok (m.readLE pos n) else .error .access

/-- `NLMSG_OK(nlh, len)` -/
def nlmsgOk (size nlh : Nat) (len : Int) : Except Fault Bool :=
  if len < nlmsgHdrlen then .ok false
  else do
    let nlmsgLen ← loadAt m size nlh 4
    .ok (decide (nlmsgHdrlen ≤ nlmsgLen ∧ (nlmsgLen : Int) ≤ uint32 len))

/-- `NLMSG_NEXT(nlh, len)`: the next message and the size left for it. -/
def nlmsgNext (size nlh : Nat) (len : Int) : Except Fault (Nat × Int) := do
  let nlmsgLen ← loadAt m size nlh 4
  .ok (nlh + nlmsgAlign nlmsgLen, int32 (len - nlmsgAlign nlmsgLen))

/-- `size_left > 0 && NLMSG_OK(ptr, size_left)` -/
def moreMessages (size ptr : Nat) (sizeLeft : Int) : Except Fault Bool :=
  if sizeLeft > 0 then nlmsgOk m size ptr sizeLeft else .ok false

/-! ## Receiving -/

/-- `struct tst_netlink_message`; `none` is `NULL`. -/
structure Message where
  header : Option Nat := none
  err : Option Nat := none
  payload : Option Nat := none
  payloadSize : Nat := 0
  deriving DecidableEq

def blockMem (bytes : List UInt8) : Mem := fun i => bytes.getD i 0

/-- The first loop: one datagram at a time is appended, until there is none left. The buffer is
`none` for `NULL`: `realloc` of a buffer to size 0 frees it,
and `safe_realloc` ends with `TBROK`. -/
def recvAll : List (List UInt8) → Option (List UInt8) → Except Fault (List UInt8)
  | [], buffer => .ok (buffer.getD [])
  | datagram :: rest, none => recvAll rest (some datagram)
  | datagram :: rest, some buffer =>
    if buffer.length + datagram.length = 0 then .error .freed
    else recvAll rest (some (buffer ++ datagram))

def countMessages (m : Mem) (size : Nat) : Nat → Nat → Int → Nat → Except Fault Nat
  | 0, _, _, _ => .error .access
  | fuel + 1, ptr, sizeLeft, msgcount => do
      if ← moreMessages m size ptr sizeLeft then
        let (ptr, sizeLeft) ← nlmsgNext m size ptr sizeLeft
        countMessages m size fuel ptr sizeLeft (msgcount + 1)
      else .ok msgcount

def fillMessages (m : Mem) (size : Nat) : Nat → Nat → Except Fault (List Message)
  | 0, _ => .ok []
  | left + 1, ptr => do
      let nlmsgLen ← loadAt m size ptr 4
      let nlmsgType ← loadAt m size (ptr + 4) 2
      let rest ← fillMessages m size left (ptr + nlmsgAlign nlmsgLen)
      .ok ({ header := some ptr
             payload := some (ptr + nlmsgHdrlen)
             payloadSize := (nlmsgLen + 2 ^ 32 - nlmsgHdrlen) % 2 ^ 32
             err := if nlmsgType = nlmsgError then some (ptr + nlmsgHdrlen) else none } :: rest)

/-- The buffer with the array, or `NULL`; the array ends with the zeroed
entry. -/
def tstNetlinkRecv (datagrams : List (List UInt8)) :
    Except Fault (Option (List UInt8 × List Message)) := do
  let buffer ← recvAll datagrams none
  let bufsize := buffer.length
  if bufsize = 0 then .ok none
  else
    let m := blockMem buffer
    let msgcount ← countMessages m bufsize (bufsize + 1) 0 (int32 bufsize) 0
    let ret ← fillMessages m bufsize msgcount 0
    .ok (some (buffer, ret ++ [({} : Message)]))

/-! ## Acknowledgements -/

/-- The sequence number, and the code of an `NLMSG_ERROR`. -/
structure Response where
  nlmsgSeq : Nat
  err : Option Int
  deriving DecidableEq

/-- `res->err && res->err->error` -/
def Response.failed (r : Response) : Bool :=
  match r.err with
  | none => false
  | some error => error ≠ 0

inductive AckResult where
  /-- returns 1 -/
  | acked
  /-- returns 0 after setting `tst_netlink_errno` -/
  | error (tstNetlinkErrno : Int)
  /-- returns 0 after `tst_brk_`: "No ACK found for Netlink message %u" -/
  | missing (nlmsgSeq : Nat)
  deriving DecidableEq

/-- The inner loop: on to a failure, to the answer, or to the end. -/
def skipResponses (seq : Nat) (res : List Response) : List Response :=
  res.dropWhile fun r => !r.failed && r.nlmsgSeq != seq

/-- A sent message that asks for an answer: where the loop goes on. -/
def checkAck (seq : Nat) (res : List Response) : AckResult ⊕ List Response :=
  let res := skipResponses seq res
  match res with
  | [] => .inl (.missing seq)
  | r :: _ =>
    match r.err with
    | some error =>
      if error ≠ 0 then .inl (.error (-error))
      else if r.nlmsgSeq ≠ seq then .inl (.missing seq) else .inr res
    | none => if r.nlmsgSeq ≠ seq then .inl (.missing seq) else .inr res

def checkMessage (size msg : Nat) (res : List Response) :
    Except Fault (AckResult ⊕ List Response) := do
  let nlmsgFlags ← loadAt m size (msg + 6) 2
  if nlmsgFlags &&& nlmFAck = 0 then .ok (.inr res)
  else
    let nlmsgSeq ← loadAt m size (msg + 8) 4
    .ok (checkAck nlmsgSeq res)

def checkAcksFrom (m : Mem) (size : Nat) : Nat → Nat → Int → List Response → Except Fault AckResult
  | 0, _, _, _ => .error .access
  | fuel + 1, msg, sizeLeft, res => do
      if ← moreMessages m size msg sizeLeft then
        match ← checkMessage m size msg res with
        | .inl result => .ok result
        | .inr res =>
          let (msg, sizeLeft) ← nlmsgNext m size msg sizeLeft
          checkAcksFrom m size fuel msg sizeLeft res
      else .ok .acked

def tstNetlinkCheckAcks (c : Ctx) (res : List Response) : Except Fault AckResult :=
  checkAcksFrom c.mem c.bufsize (c.datalen + 1) 0 (int32 c.datalen) res

open Tlv List Mem

variable {m : Mem} {n size : Nat}

/-! ## Headers in a buffer -/

/-- The header at `p`. -/
structure HeaderAt (m : Mem) (p : Nat) (h : Nlmsghdr) : Prop where
  len : m.readLE p 4 = h.nlmsgLen
  type : m.readLE (p + 4) 2 = h.nlmsgType
  flags : m.readLE (p + 6) 2 = h.nlmsgFlags
  seq : m.readLE (p + 8) 4 = h.nlmsgSeq
  pid : m.readLE (p + 12) 4 = h.nlmsgPid

lemma HeaderAt.congr {m' p h} (hh : HeaderAt m p h) (ha : Mem.Agree m m' p (p + 16)) :
    HeaderAt m' p h where
  len := by rw [← readLE_congr (ha.mono (by omega) (by omega)), hh.len]
  type := by rw [← readLE_congr (ha.mono (by omega) (by omega)), hh.type]
  flags := by rw [← readLE_congr (ha.mono (by omega) (by omega)), hh.flags]
  seq := by rw [← readLE_congr (ha.mono (by omega) (by omega)), hh.seq]
  pid := by rw [← readLE_congr (ha.mono (by omega) (by omega)), hh.pid]

def Nlmsghdr.stored (h : Nlmsghdr) : Nlmsghdr :=
  ⟨h.nlmsgLen % 2 ^ 32, h.nlmsgType % 2 ^ 16, h.nlmsgFlags % 2 ^ 16, h.nlmsgSeq % 2 ^ 32,
    h.nlmsgPid % 2 ^ 32⟩

structure Nlmsghdr.Fits (h : Nlmsghdr) : Prop where
  len : h.nlmsgLen < 2 ^ 32
  type : h.nlmsgType < 2 ^ 16
  flags : h.nlmsgFlags < 2 ^ 16
  seq : h.nlmsgSeq < 2 ^ 32
  pid : h.nlmsgPid < 2 ^ 32

lemma Nlmsghdr.Fits.stored {h : Nlmsghdr} (hf : h.Fits) : h.stored = h := by
  rw [Nlmsghdr.stored, Nat.mod_eq_of_lt hf.len, Nat.mod_eq_of_lt hf.type,
    Nat.mod_eq_of_lt hf.flags, Nat.mod_eq_of_lt hf.seq, Nat.mod_eq_of_lt hf.pid]

lemma headerAt_write (m : Mem) (p : Nat) (h : Nlmsghdr) :
    HeaderAt (m.write p h.bytes) p h.stored := by
  have hfield : ∀ (xs ys : List UInt8) (n v : Nat), h.bytes = xs ++ (leBytes n v ++ ys) →
      (m.write p h.bytes).readLE (p + xs.length) n = v % 256 ^ n := by
    intro xs ys n v heq
    rw [heq]
    exact readLE_write_field m p xs ys n v
  refine ⟨?_, ?_, ?_, ?_, ?_⟩
  · exact hfield [] _ 4 h.nlmsgLen rfl
  · have := hfield (leBytes 4 h.nlmsgLen) _ 2 h.nlmsgType rfl
    rwa [leBytes_length] at this
  · have := hfield (leBytes 4 h.nlmsgLen ++ leBytes 2 h.nlmsgType) _ 2 h.nlmsgFlags
      (by rw [Nlmsghdr.bytes, append_assoc])
    rwa [length_append, leBytes_length] at this
  · have := hfield (leBytes 4 h.nlmsgLen ++ leBytes 2 h.nlmsgType ++ leBytes 2 h.nlmsgFlags) _ 4
      h.nlmsgSeq (by rw [Nlmsghdr.bytes, append_assoc, append_assoc])
    rwa [length_append, length_append, leBytes_length] at this
  have := hfield (leBytes 4 h.nlmsgLen ++ leBytes 2 h.nlmsgType ++ leBytes 2 h.nlmsgFlags ++
    leBytes 4 h.nlmsgSeq) [] 4 h.nlmsgPid
    (by simp [Nlmsghdr.bytes, append_nil])
  rwa [length_append, length_append, length_append, leBytes_length] at this

lemma HeaderAt.setFlags {p h} (hh : HeaderAt m p h) (flags : Nat) :
    HeaderAt (m.write (p + 6) (leBytes 2 flags)) p { h with nlmsgFlags := flags % 2 ^ 16 } where
  len := by rw [readLE_congr (write_agree _ _ _ (.inl (by omega))), hh.len]
  type := by rw [readLE_congr (write_agree _ _ _ (.inl (by omega))), hh.type]
  flags := readLE_write_self _ _ _ _
  seq := by
    have hlen := leBytes_length 2 flags
    rw [readLE_congr (write_agree _ _ _ (.inr (by omega))), hh.seq]
  pid := by
    have hlen := leBytes_length 2 flags
    rw [readLE_congr (write_agree _ _ _ (.inr (by omega))), hh.pid]

/-! ## Chains of messages -/

/-- Messages with these headers from `p` to `q`, each inside of the first `n`
bytes. -/
inductive Chain (m : Mem) (n : Nat) : Nat → List Nlmsghdr → Nat → Prop
  | nil {p} : Chain m n p [] p
  | cons {p q h hs} : HeaderAt m p h → 16 ≤ h.nlmsgLen → p + h.nlmsgLen ≤ n →
      Chain m n (p + align4 h.nlmsgLen) hs q → Chain m n p (h :: hs) q

lemma more_of_header {p} {h : Nlmsghdr} (hh : HeaderAt m p h) (h16 : 16 ≤ h.nlmsgLen)
    (hin : p + h.nlmsgLen ≤ n) (hn : n < 2 ^ 31) (hs : n ≤ size) :
    moreMessages m size p ((n : Int) - p) = .ok true := by
  unfold moreMessages nlmsgOk loadAt nlmsgHdrlen
  rw [if_pos (by omega), if_neg (by omega), if_pos (by omega), hh.len,
    uint32_of_range (by omega) (by omega)]
  simp only [ok_bind, Except.ok.injEq, decide_eq_true_eq]
  omega

lemma next_of_header {p} {h : Nlmsghdr} (hh : HeaderAt m p h) (h16 : 16 ≤ h.nlmsgLen)
    (hin : p + h.nlmsgLen ≤ n) (hn : n < 2 ^ 31) (hs : n ≤ size) :
    nlmsgNext m size p ((n : Int) - p) =
      .ok (p + align4 h.nlmsgLen, (n : Int) - ((p + align4 h.nlmsgLen : Nat) : Int)) := by
  have hal : align4 h.nlmsgLen ≤ h.nlmsgLen + 3 := by unfold align4; omega
  unfold nlmsgNext loadAt
  rw [if_pos (by omega), hh.len]
  simp only [ok_bind]
  rw [nlmsgAlign_eq (by omega), int32_of_range (by omega) (by omega)]
  congr 2
  omega

lemma more_at_end (m : Mem) {p} (h : n ≤ p) :
    moreMessages m size p ((n : Int) - p) = .ok false := by
  unfold moreMessages
  rw [if_neg (by omega)]

lemma countMessages_eq (hn : n < 2 ^ 31) (hs : n ≤ size) {q} (hq : n ≤ q) :
    ∀ {hs : List Nlmsghdr} {p fuel} count, Chain m n p hs q → 0 < fuel → n < p + fuel →
      countMessages m size fuel p ((n : Int) - p) count = .ok (count + hs.length)
  | [], _, fuel + 1, count, .nil, _, hf => by
    simp [countMessages, more_at_end m hq]
  | h :: hs, p, fuel + 1, count, .cons hh h16 hin hc, _, hf => by
    have hal := le_align4 h.nlmsgLen
    simp only [countMessages, more_of_header hh h16 hin hn ‹n ≤ size›,
      next_of_header hh h16 hin hn ‹n ≤ size›, ok_bind, if_true]
    rw [countMessages_eq hn ‹n ≤ size› hq _ hc (by omega) (by omega), length_cons]
    congr 1
    omega

/-- The entry for a message at `p`. -/
def entryAt (p : Nat) (h : Nlmsghdr) : Message where
  header := some p
  payload := some (p + 16)
  payloadSize := h.nlmsgLen - 16
  err := if h.nlmsgType = nlmsgError then some (p + 16) else none

/-- The entries for the messages from `p` on. -/
def entriesFrom : Nat → List Nlmsghdr → List Message
  | _, [] => []
  | p, h :: hs => entryAt p h :: entriesFrom (p + align4 h.nlmsgLen) hs

lemma fillMessages_eq {q} (hn : n < 2 ^ 31) (hs : n ≤ size) : ∀ {hs : List Nlmsghdr} {p},
    Chain m n p hs q → fillMessages m size hs.length p = .ok (entriesFrom p hs)
  | [], _, _ => rfl
  | h :: hs, p, .cons hh h16 hin hc => by
    simp only [length_cons, fillMessages, loadAt, nlmsgHdrlen]
    rw [if_pos (by omega), if_pos (by omega), hh.len, hh.type]
    simp only [ok_bind]
    rw [nlmsgAlign_eq (by omega), fillMessages_eq hn ‹n ≤ size› hc]
    have hsize : (h.nlmsgLen + 2 ^ 32 - 16) % 2 ^ 32 = h.nlmsgLen - 16 := by omega
    simp only [ok_bind, entriesFrom, entryAt, hsize]

/-! ## Messages on the wire -/

/-- Header, payload, and the padding to a multiple of four. -/
structure WireMessage where
  type : Nat
  flags : Nat
  seq : Nat
  pid : Nat
  payload : List UInt8
  padding : List UInt8

variable {ws : List WireMessage}

namespace WireMessage

def header (w : WireMessage) : Nlmsghdr :=
  ⟨16 + w.payload.length, w.type, w.flags, w.seq, w.pid⟩

def bytes (w : WireMessage) : List UInt8 := w.header.bytes ++ (w.payload ++ w.padding)

structure WellFormed (w : WireMessage) : Prop where
  fits : w.header.Fits
  padded : 16 + w.payload.length + w.padding.length = align4 (16 + w.payload.length)

lemma WellFormed.bytes_length {w : WireMessage} (hw : w.WellFormed) :
    w.bytes.length = align4 w.header.nlmsgLen := by
  rw [bytes, length_append, length_append, Nlmsghdr.bytes_length, ← Nat.add_assoc, hw.padded]
  rfl

end WireMessage

def wire (ws : List WireMessage) : List UInt8 := ws.flatMap WireMessage.bytes

lemma wire_cons (w : WireMessage) (ws : List WireMessage) : wire (w :: ws) = w.bytes ++ wire ws :=
  rfl

lemma wire_flatten (wss : List (List WireMessage)) : wire wss.flatten = (wss.map wire).flatten := by
  induction wss with
  | nil => rfl
  | cons ws wss ih => rw [flatten_cons, wire, flatMap_append, map_cons, flatten_cons, ← ih]; rfl

/-- Once something was received, the datagrams are appended. -/
lemma recvAll_some {buffer : List UInt8} (hne : buffer ≠ []) (datagrams : List (List UInt8)) :
    recvAll datagrams (some buffer) = .ok (buffer ++ datagrams.flatten) := by
  induction datagrams generalizing buffer with
  | nil => rw [recvAll, flatten_nil, append_nil, Option.getD_some]
  | cons d ds ih =>
    have hpos := length_pos_iff.mpr hne
    rw [recvAll, if_neg (by omega), ih (by simp [hne]), flatten_cons, append_assoc]

/-- **The datagrams are joined** unless the first two are empty. -/
lemma recvAll_eq {datagrams : List (List UInt8)} (h : ∀ rest, datagrams ≠ [] :: [] :: rest) :
    recvAll datagrams none = .ok datagrams.flatten := by
  match datagrams with
  | [] => rfl
  | [d] => simp [recvAll]
  | (b :: bs) :: ds => exact recvAll_some (by simp) ds
  | [] :: (b :: bs) :: ds =>
    rw [recvAll, recvAll, if_neg (by simp)]
    exact recvAll_some (by simp) ds
  | [] :: [] :: ds => exact absurd rfl (h ds)

lemma blockMem_agree (as bs cs : List UInt8) :
    Mem.Agree ((blockMem (as ++ (bs ++ cs))).write as.length bs) (blockMem (as ++ (bs ++ cs)))
      as.length (as.length + bs.length) := by
  intro i _ _
  obtain ⟨k, rfl⟩ : ∃ k, i = as.length + k := ⟨i - as.length, by omega⟩
  rw [write_inside (by omega) 0, blockMem, getD_eq_getElem?_getD,
    getD_eq_getElem?_getD, getElem?_append_right (by omega), Nat.add_sub_cancel_left,
    getElem?_append_left (by omega)]

open WireMessage

lemma chain_of_messages (hw : ∀ w ∈ ws, w.WellFormed) (as : List UInt8) :
    Chain (blockMem (as ++ wire ws)) (as ++ wire ws).length as.length
      (ws.map header) (as ++ wire ws).length := by
  induction ws generalizing as with
  | nil =>
    rw [show as ++ wire [] = as from append_nil as]
    exact .nil
  | cons w ws ih =>
    have hlen := (hw w mem_cons_self).bytes_length
    have hpos := le_align4 w.header.nlmsgLen
    have hsize : (as ++ wire (w :: ws)).length =
      as.length + (w.bytes.length + (wire ws).length) := by
      rw [wire_cons, length_append, length_append]
    have hjoin : (as ++ w.bytes).length = as.length + align4 w.header.nlmsgLen := by
      rw [length_append, hlen]
    refine .cons ?_ (Nat.le_add_right 16 _) (by omega) ?_
    · have hsplit : as ++ wire (w :: ws) =
          as ++ (w.header.bytes ++ (w.payload ++ w.padding ++ wire ws)) := by
        rw [wire_cons, bytes, append_assoc]
      have ha := blockMem_agree as w.header.bytes (w.payload ++ w.padding ++ wire ws)
      have hh := headerAt_write (blockMem (as ++ wire (w :: ws))) as.length w.header
      rw [(hw w mem_cons_self).fits.stored] at hh
      exact hh.congr ha
    · have hrest := ih (forall_mem_cons.1 hw).2 (as ++ w.bytes)
      rwa [append_assoc, hjoin] at hrest

structure Delivered (buffer : List UInt8) (e : Message) (w : WireMessage) : Prop where
  header : ∃ p, e.header = some p ∧ (buffer.drop p).take 16 = w.header.bytes
  payload : ∃ p, e.payload = some p ∧ (buffer.drop p).take e.payloadSize = w.payload
  payloadSize : e.payloadSize = w.payload.length
  err : e.err = if w.type = nlmsgError then e.payload else none

lemma payloadSize_entryAt (p : Nat) (w : WireMessage) :
    (entryAt p w.header).payloadSize = w.payload.length :=
  Nat.add_sub_cancel_left 16 w.payload.length

lemma entries_delivered (hw : ∀ w ∈ ws, w.WellFormed) (as : List UInt8) :
    Forall₂ (Delivered (as ++ wire ws)) (entriesFrom as.length (ws.map header)) ws := by
  induction ws generalizing as with
  | nil => exact .nil
  | cons w ws ih =>
    have hlen := (hw w mem_cons_self).bytes_length
    refine .cons ⟨⟨as.length, rfl, ?_⟩, ⟨as.length + 16, rfl, ?_⟩, ?_, ?_⟩ ?_
    · rw [drop_left, wire_cons, bytes, append_assoc, take_left' (Nlmsghdr.bytes_length _)]
    · rw [← drop_drop, drop_left, wire_cons, bytes, append_assoc,
        drop_left' (Nlmsghdr.bytes_length _), append_assoc,
        take_left' (payloadSize_entryAt _ _).symm]
    · exact payloadSize_entryAt _ _
    · rfl
    · have hrest := ih (forall_mem_cons.1 hw).2 (as ++ w.bytes)
      rwa [append_assoc, length_append, hlen] at hrest

/-! ## The whole of it -/

lemma wire_eq_nil (hw : ∀ w ∈ ws, w.WellFormed) (h : (wire ws).length = 0) : ws = [] := by
  cases ws with
  | nil => rfl
  | cons w =>
    have hlen := (hw w mem_cons_self).bytes_length
    have hle := le_align4 w.header.nlmsgLen
    have h16 : w.header.nlmsgLen = 16 + w.payload.length := rfl
    rw [wire_cons, length_append] at h
    omega

lemma recvAll_wire (datagrams : List (List WireMessage))
    (hw : ∀ w ∈ datagrams.flatten, w.WellFormed) (h : ∀ rest, datagrams ≠ [] :: [] :: rest) :
    recvAll (datagrams.map wire) none = .ok (wire datagrams.flatten) := by
  rw [wire_flatten]
  refine recvAll_eq fun rest hrest => ?_
  obtain ⟨ws, tail, rfl, hws, htail⟩ := map_eq_cons_iff.mp hrest
  obtain ⟨ws', tail, rfl, hws', -⟩ := map_eq_cons_iff.mp htail
  simp only [flatten_cons, mem_append] at hw
  have hnil := wire_eq_nil (fun w hmem => hw w (.inl hmem)) (congrArg length hws)
  have hnil' := wire_eq_nil (fun w hmem => hw w (.inr (.inl hmem))) (congrArg length hws')
  exact h tail (by rw [hnil, hnil'])

/-- Every message of every datagram gets its entry, in order, while all of them are smaller than 2
GiB; without any there is no array. Two empty datagrams in front of the others end with `TBROK`. -/
theorem recv_delivers (datagrams : List (List WireMessage))
    (hw : ∀ w ∈ datagrams.flatten, w.WellFormed)
    (hsize : (wire datagrams.flatten).length < 2 ^ 31) :
    (∀ rest, datagrams = [] :: [] :: rest →
      tstNetlinkRecv (datagrams.map wire) = .error .freed) ∧
    ((∀ rest, datagrams ≠ [] :: [] :: rest) →
      (datagrams.flatten = [] → tstNetlinkRecv (datagrams.map wire) = .ok none) ∧
      (datagrams.flatten ≠ [] → let buffer := wire datagrams.flatten
        let entries := entriesFrom 0 (datagrams.flatten.map WireMessage.header)
        countMessages (blockMem buffer) buffer.length (buffer.length + 1) 0
            (int32 buffer.length) 0 = .ok datagrams.flatten.length ∧
          tstNetlinkRecv (datagrams.map wire) = .ok (some (buffer, entries ++ [({} : Message)])) ∧
          List.Forall₂ (Delivered buffer) entries datagrams.flatten)) := by
  refine ⟨by rintro rest rfl; rfl, fun hfirst => ?_⟩
  have hrecv := recvAll_wire datagrams hw hfirst
  refine ⟨fun hnil => ?_, fun hne => ?_⟩
  · rw [tstNetlinkRecv, hrecv, hnil]
    rfl
  have hc := chain_of_messages hw []
  rw [nil_append, length_nil] at hc
  have hcount := countMessages_eq hsize (Nat.le_refl _) (Nat.le_refl _) 0 hc
    (Nat.succ_pos (wire datagrams.flatten).length) (by omega)
  have hfill := fillMessages_eq hsize (Nat.le_refl _) hc
  rw [length_map, Nat.zero_add, Int.ofNat_zero, Int.sub_zero] at hcount
  rw [length_map] at hfill
  have hint : int32 (wire datagrams.flatten).length = (wire datagrams.flatten).length :=
    int32_of_range (by omega) (by omega)
  have hne' : ¬ (wire datagrams.flatten).length = 0 := fun h0 => hne (wire_eq_nil hw h0)
  intro _ _
  refine ⟨by rw [hint]; exact hcount, ?_, entries_delivered hw []⟩
  simp only [tstNetlinkRecv, hrecv, ok_bind, if_neg hne', hint]
  rw [hcount, ok_bind, hfill, ok_bind]

def emptyMessage : WireMessage := ⟨3, 0, 1, 0, [], []⟩

lemma emptyMessage_wellFormed : emptyMessage.WellFormed :=
  ⟨⟨by decide, by decide, by decide, by decide, by decide⟩, by decide⟩

lemma length_wire_replicate (n : Nat) : (wire (replicate n emptyMessage)).length = n * 16 := by
  rw [wire, length_flatMap, map_replicate, sum_replicate_nat]
  rfl

/-- An error message and a short answer, the latter with padding. -/
theorem recv_delivers_two : tstNetlinkRecv
        ([[⟨2, 0, 7, 0, [0, 0, 0, 0], []⟩], [⟨16, 2, 8, 0, [1], [0, 0, 0]⟩]].map wire) =
      .ok (some (wire [⟨2, 0, 7, 0, [0, 0, 0, 0], []⟩, ⟨16, 2, 8, 0, [1], [0, 0, 0]⟩],
        [⟨some 0, some 16, some 16, 4⟩, ⟨some 20, none, some 36, 1⟩, {}])) :=
  (((recv_delivers [[⟨2, 0, 7, 0, [0, 0, 0, 0], []⟩], [⟨16, 2, 8, 0, [1], [0, 0, 0]⟩]] (by
      intro w hw
      rcases mem_cons.1 hw with rfl | hw
      · exact ⟨⟨by decide, by decide, by decide, by decide, by decide⟩, by decide⟩
      · rw [mem_singleton.1 hw]
        exact ⟨⟨by decide, by decide, by decide, by decide, by decide⟩, by decide⟩)
    (by decide)).2 (by simp)).2 (by simp)).2.1

lemma recv_of_negative (datagram : List UInt8) (hne : 0 < datagram.length)
    (hneg : int32 datagram.length ≤ 0) :
    tstNetlinkRecv [datagram] = .ok (some (datagram, [{}])) := by
  have hcount : ∀ m size fuel, countMessages m size (fuel + 1) 0
      (int32 datagram.length) 0 = .ok 0 := by
    intro m _ _
    rw [countMessages, moreMessages, if_neg (by omega)]
    rfl
  simp only [tstNetlinkRecv, recvAll, Option.getD_some, ok_bind]
  rw [if_neg (by omega), hcount]
  rfl

lemma recv_two_gib : tstNetlinkRecv [wire (replicate (2 ^ 27) emptyMessage)] =
      .ok (some (wire (replicate (2 ^ 27) emptyMessage), [{}])) := by
  have hlen : (wire (replicate (2 ^ 27) emptyMessage)).length = 2 ^ 31 :=
    (length_wire_replicate (2 ^ 27)).trans (by decide)
  have h := recv_of_negative (wire (replicate (2 ^ 27) emptyMessage))
  rw [hlen] at h
  exact h (by decide) (by decide)

/-- Neither without a message nor behind two empty datagrams nor with 2 GiB of messages there is an
array that holds them all. -/
theorem recv_not_always : tstNetlinkRecv [] = .ok none ∧
      tstNetlinkRecv [[], [], wire [emptyMessage]] = .error .freed ∧
      (∀ w ∈ List.replicate (2 ^ 27) emptyMessage, w.WellFormed) ∧
      tstNetlinkRecv [wire (List.replicate (2 ^ 27) emptyMessage)] =
        .ok (some (wire (List.replicate (2 ^ 27) emptyMessage), [{}])) :=
  ⟨rfl, rfl, fun _ hw => eq_of_mem_replicate hw ▸ emptyMessage_wellFormed, recv_two_gib⟩

end LtpDdt.Netlink
