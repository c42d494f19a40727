/-
Netlink.Context — the message buffer of `lib/tst_netlink.c`: a context owns one
growing buffer with messages back to back; `curmsg` points to the last of them while
there is something to send.

* Pointers are 64-bit addresses, 0 is `NULL`. `curmsg` is an address, not an offset:
  `netlink_grow_buffer` moves it by a pointer difference. `Ctx.load` and `Ctx.store`
  fault outside of the buffer.
* `NLMSG_ALIGNTO` is `4U`, so `NLMSG_ALIGN` of a `size_t` drops everything above 32
  bits; `nlmsg_len` is a `__u32`, `nla_len` and `rta_len` have 16 bits. Fields are
  little-endian.
* `realloc` is the `Heap`: what its k-th call returns for a size, an address with the
  properties `realloc` documents, or `NULL`. The answer to `sendmsg` is an argument.
* After a failure the functions call `tst_brk_`, which returns during a cleanup; the
  model goes on with the value they return then. Sizes of data are list lengths.
-/
import LtpDdt.Tlv.Tlv

namespace LtpDdt.Netlink

open Bytes Tlv

/-! ## The macros of `linux/netlink.h` and `linux/rtnetlink.h` -/

variable (len : Nat)

/-- `NLMSG_ALIGN`: round up to four, keep 32 bits. -/
def nlmsgAlign : Nat := (len + 3) % 2 ^ 32 / 4 * 4

def nlmsgHdrlen : Nat := 16

def nlmsgLength : Nat := len + nlmsgHdrlen

def nlmsgSpace : Nat := nlmsgAlign (nlmsgLength len)

def nlaHdrlen : Nat := 4

/-- `NLA_ALIGN` of an `unsigned short`; `NLA_ALIGNTO` is a signed 4. -/
def nlaAlign : Nat := align4 len

def rtaLength : Nat := 4 + len

def rtaSpace : Nat := nlmsgAlign (rtaLength len)

def nlmFMulti : Nat := 2

def nlmsgDone : Nat := 3

def ushrtMax : Nat := 65535

/-- `size_t` subtraction. -/
def subSize (a b : Nat) : Nat := (a + 2 ^ 64 - b) % 2 ^ 64

/-- `struct nlmsghdr`: `__u32`, `__u16`, `__u16`, `__u32`, `__u32`. -/
structure Nlmsghdr where
  nlmsgLen : Nat := 0
  nlmsgType : Nat := 0
  nlmsgFlags : Nat := 0
  nlmsgSeq : Nat := 0
  nlmsgPid : Nat := 0
  deriving DecidableEq

def Nlmsghdr.bytes (h : Nlmsghdr) : List UInt8 :=
  leBytes 4 h.nlmsgLen ++ (leBytes 2 h.nlmsgType ++ (leBytes 2 h.nlmsgFlags ++
    (leBytes 4 h.nlmsgSeq ++ leBytes 4 h.nlmsgPid)))

/-! ## The context -/

/-- `struct tst_netlink_context`, and how many `realloc` calls it has made. -/
structure Ctx where
  seq : Nat
  pid : Nat
  bufsize : Nat
  datalen : Nat
  /-- the address of the buffer -/
  buffer : Nat
  /-- the bytes of the buffer, by offset -/
  mem : Mem
  curmsg : Nat
  reallocs : Nat

/-- A block that may be returned for `size` bytes, in the lower half of the address space. -/
structure Legit (addr size : Nat) : Prop where
  pos : 0 < addr
  aligned : addr % 16 = 0
  inSpace : addr + size ≤ 2 ^ 63

/-- What the k-th call of `realloc` returns for a size; `none` is `NULL`. -/
structure Heap where
  realloc : Nat → Nat → Option Nat
  legit : ∀ k size addr, realloc k size = some addr → Legit addr size

inductive Fault where
  /-- an access outside of the buffer -/
  | access
  /-- `memset` with a length below zero -/
  | memset
  /-- `realloc` to size 0, which frees the buffer -/
  | freed
  deriving DecidableEq

/-- `tst_netlink_create_context`, the buffer being allocated at `addr`. -/
def tstNetlinkCreateContext (addr : Nat) : Ctx where
  seq := 0
  pid := 0
  bufsize := 1024
  datalen := 0
  buffer := addr
  mem := fun _ => 0
  curmsg := 0
  reallocs := 0

variable (c : Ctx)

def Ctx.load (addr n : Nat) : Except Fault Nat :=
  if c.buffer ≤ addr ∧ addr + n ≤ c.buffer + c.bufsize then
    .ok (c.mem.readLE (addr - c.buffer) n)
  else .error .access

def Ctx.store (addr : Nat) (bs : List UInt8) : Except Fault Ctx :=
  if c.buffer ≤ addr ∧ addr + bs.length ≤ c.buffer + c.bufsize then
    .ok { c with mem := c.mem.write (addr - c.buffer) bs }
  else .error .access

/-- What is missing, and what `netlink_grow_buffer` asks `realloc` for. -/
def growNeeded (size : Nat) : Nat :=
  subSize size (subSize c.bufsize (nlmsgAlign c.datalen))

def growSize (size : Nat) : Nat :=
  nlmsgAlign (c.bufsize + (if c.bufsize > growNeeded c size then c.bufsize else growNeeded c size))

variable (heap : Heap)

def netlinkGrowBuffer (c : Ctx) (size : Nat) : Except Fault (Bool × Ctx) :=
  if subSize c.bufsize (nlmsgAlign c.datalen) ≥ size then .ok (true, c)
  else
    let newSize := growSize c size
    if newSize = 0 then .error .freed
    else
      match heap.realloc c.reallocs newSize with
      | none => .ok (false, { c with reallocs := c.reallocs + 1 })
      | some buf =>
        -- memset(buf + ctx->bufsize, 0, size - ctx->bufsize)
        if newSize < c.bufsize then .error .memset
        else
          let offset := subSize c.curmsg c.buffer
          .ok (true, { c with
            mem := fun i => if i < c.bufsize then c.mem i else 0
            buffer := buf
            curmsg := (buf + offset) % 2 ^ 64
            bufsize := newSize
            reallocs := c.reallocs + 1 })

/-! ## Messages -/

/-- The next message and its flag: at the start, or behind the current one, which becomes part of a
multipart message. -/
def nextMessage : Except Fault (Nat × Ctx) :=
  if c.curmsg = 0 then .ok (0, { c with datalen := 0, curmsg := c.buffer })
  else do
    let len ← c.load c.curmsg 4
    let flags ← c.load (c.curmsg + 6) 2
    let c ← c.store (c.curmsg + 6) (leBytes 2 (flags ||| nlmFMulti))
    .ok (nlmFMulti, { c with
      curmsg := (c.curmsg + nlmsgAlign len) % 2 ^ 64
      datalen := nlmsgAlign c.datalen })

/-- `if (payload_size) memcpy(NLMSG_DATA(ctx->curmsg), payload, payload_size)`. -/
def copyPayload (payload : List UInt8) : Except Fault Ctx :=
  if payload.length ≠ 0 then c.store (c.curmsg + nlmsgHdrlen) payload else .ok c

/-- The second half of `tst_netlink_add_message`. The header is stored once, as it is after the
assignments to its fields. -/
def putMessage (header : Nlmsghdr) (extraFlags : Nat) (payload : List UInt8) :
    Except Fault (Bool × Ctx) := do
  let header : Nlmsghdr :=
    { nlmsgLen := nlmsgLength payload.length
      nlmsgType := header.nlmsgType
      nlmsgFlags := header.nlmsgFlags ||| extraFlags
      nlmsgSeq := c.seq
      nlmsgPid := c.pid }
  let c ← c.store c.curmsg header.bytes
  let c := { c with seq := (c.seq + 1) % 2 ^ 32 }
  let c ← copyPayload c payload
  let len ← c.load c.curmsg 4
  .ok (true, { c with datalen := c.datalen + len })

def tstNetlinkAddMessage (c : Ctx) (header : Nlmsghdr) (payload : List UInt8) :
    Except Fault (Bool × Ctx) := do
  let (ok, c) ← netlinkGrowBuffer heap c (nlmsgSpace payload.length)
  if !ok then .ok (false, c)
  else
    let (extraFlags, c) ← nextMessage c
    putMessage c header extraFlags payload

/-- The rest of `tst_netlink_send`: the content is handed to `sendmsg`, which answers `ret`. -/
def sendBuffer (ret : Int) : Except Fault (Int × Ctx) :=
  if c.datalen ≤ c.bufsize then
    .ok (ret, if ret > 0 then { c with curmsg := 0 } else c)
  else .error .access

def tstNetlinkSend (c : Ctx) (ret : Int) : Except Fault (Int × Ctx) :=
  if c.curmsg = 0 then .ok (0, c) -- tst_brk_: "No message to send"
  else do
    let flags ← c.load (c.curmsg + 6) 2
    if flags &&& nlmFMulti ≠ 0 then
      let eom : Nlmsghdr := { nlmsgType := nlmsgDone }
      let (ok, c) ← tstNetlinkAddMessage heap c eom []
      if !ok then .ok (0, c)
      else
        let c ← c.store (c.curmsg + 6) (leBytes 2 0)
        sendBuffer c ret
    else sendBuffer c ret

/-! ## Attributes -/

/-- The second half of `tst_netlink_add_attr` and `tst_rtnl_add_attr`, whose structures have one
layout: the attribute is written behind the message, whose length then covers it. -/
def putAttr (attrLen : Nat) (type : UInt16) (data : List UInt8) :
    Except Fault (Bool × Ctx) := do
  let len ← c.load c.curmsg 4
  let size := nlmsgAlign len
  let attr := (c.curmsg + size) % 2 ^ 64
  let c ← c.store (attr + 2) (leBytes 2 type.toNat)
  let c ← c.store attr (leBytes 2 attrLen)
  let c ← c.store (attr + 4) data
  let stored ← c.load attr 2
  let c ← c.store c.curmsg (leBytes 4 (size + stored))
  .ok (true, { c with datalen := nlmsgAlign c.datalen + stored })

/-- Both functions, with the space they ask for and the length in the header. -/
def addAttr (c : Ctx) (space attrLen : Nat) (type : UInt16)
    (data : List UInt8) : Except Fault (Bool × Ctx) :=
  if c.curmsg = 0 then .ok (false, c) -- tst_brk_: "No message to add attributes to"
  else do
    let (ok, c) ← netlinkGrowBuffer heap c space
    if !ok then .ok (false, c) else putAttr c attrLen type data

def tstNetlinkAddAttr (c : Ctx) (type : UInt16) (data : List UInt8) : Except Fault (Bool × Ctx) :=
  addAttr heap c (nlaHdrlen + nlaAlign data.length) (nlaHdrlen + data.length) type data

def tstRtnlAddAttr (c : Ctx) (type : UInt16) (data : List UInt8) : Except Fault (Bool × Ctx) :=
  addAttr heap c (rtaSpace data.length) (rtaLength data.length) type data

/-- The loop of both list functions. The array with its terminating entry is a `Forest`: `nest` is
an entry with a sublist. The result is the number of entries or -1. -/
def addAttrListFrom (add : Ctx → UInt16 → List UInt8 → Except Fault (Bool × Ctx)) :
    Forest → Nat → Ctx → Except Fault (Int × Ctx)
  | .nil, i, c => .ok (i, c)
  | .leaf type data next, i, c =>
    if data.length > ushrtMax then .ok (-1, c) -- tst_brk_: "Attribute value too long"
    else do
      let (ok, c) ← add c type data
      if !ok then .ok (-1, c) else addAttrListFrom add next (i + 1) c
  | .nest type data sub next, i, c =>
    if data.length > ushrtMax then .ok (-1, c)
    else do
      let offset := nlmsgAlign c.datalen
      let (ok, c) ← add c type data
      if !ok then .ok (-1, c)
      else
        let (ret, c) ← addAttrListFrom add sub 0 c
        if ret < 0 then .ok (ret, c)
        else if subSize c.datalen offset > ushrtMax then
          .ok (-1, c) -- tst_brk_: "Sublist too long"
        else
          let c ← c.store (c.buffer + offset) (leBytes 2 (subSize c.datalen offset))
          addAttrListFrom add next (i + 1) c

def tstNetlinkAddAttrList (c : Ctx) (list : Forest) : Except Fault (Int × Ctx) :=
  addAttrListFrom (tstNetlinkAddAttr heap) list 0 c

def tstRtnlAddAttrList (c : Ctx) (list : Forest) : Except Fault (Int × Ctx) :=
  addAttrListFrom (tstRtnlAddAttr heap) list 0 c

end LtpDdt.Netlink
