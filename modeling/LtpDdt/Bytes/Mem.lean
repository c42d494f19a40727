/-
Bytes.Mem — a block of bytes, with writes and little-endian fields.

A block is a function from offsets to bytes; its size is kept by whoever uses it. Two
facts are needed: a read of what was just written (`read_write_self`,
`readLE_write_self`), and that a read depends on its range only (`read_congr`,
`readLE_congr`), which with `write_outside` frames every other access.
-/
import Mathlib.Data.BitVec

namespace LtpDdt.Bytes

open List

variable {lo hi : Nat}

def Mem : Type := Nat → UInt8

variable {m m' : Mem}

namespace Mem

/-- `memcpy` of `bs` to offset `pos`. -/
def write (m : Mem) (pos : Nat) (bs : List UInt8) : Mem :=
  fun i => if pos ≤ i then bs.getD (i - pos) (m i) else m i

def read (m : Mem) (pos : Nat) : Nat → List UInt8
  | 0 => []
  | n + 1 => m pos :: read m (pos + 1) n

/-- The little-endian number in the `n` bytes at `pos`. -/
def readLE (m : Mem) (pos : Nat) : Nat → Nat
  | 0 => 0
  | n + 1 => (m pos).toNat + 256 * readLE m (pos + 1) n

/-- The blocks hold the same bytes in `[lo, hi)`. -/
def Agree (m m' : Mem) (lo hi : Nat) : Prop := ∀ i, lo ≤ i → i < hi → m i = m' i

end Mem

/-- The `n` low bytes of `v`, lowest first. -/
def leBytes : Nat → Nat → List UInt8
  | 0, _ => []
  | n + 1, v => UInt8.ofNat v :: leBytes n (v / 256)

@[simp] lemma leBytes_length : ∀ n v, (leBytes n v).length = n
  | 0, _ => rfl
  | n + 1, v => by simp [leBytes, leBytes_length n]

namespace Mem

@[simp] lemma read_length (m : Mem) : ∀ pos n, (m.read pos n).length = n
  | _, 0 => rfl
  | pos, n + 1 => by simp [read, read_length m (pos + 1) n]

/-! ## A read depends on its range only -/

lemma Agree.mono {lo' hi'} (h : Agree m m' lo hi) (hlo : lo ≤ lo') (hhi : hi' ≤ hi) :
    Agree m m' lo' hi' := fun i h1 h2 => h i (Nat.le_trans hlo h1) (Nat.lt_of_lt_of_le h2 hhi)

lemma Agree.symm (h : Agree m m' lo hi) : Agree m' m lo hi := fun i h1 h2 => (h i h1 h2).symm

lemma Agree.trans {m''} (h : Agree m m' lo hi) (h' : Agree m' m'' lo hi) : Agree m m'' lo hi :=
  fun i h1 h2 => (h i h1 h2).trans (h' i h1 h2)

/-- A read depends on its bytes only. -/
lemma read_congr : ∀ {pos n}, Agree m m' pos (pos + n) → m.read pos n = m'.read pos n
  | _, 0, _ => rfl
  | pos, n + 1, h => by
    simp only [read]
    rw [h pos (Nat.le_refl _) (by omega), read_congr (h.mono (by omega) (by omega))]

lemma readLE_congr : ∀ {pos n}, Agree m m' pos (pos + n) → m.readLE pos n = m'.readLE pos n
  | _, 0, _ => rfl
  | pos, n + 1, h => by
    simp only [readLE]
    rw [h pos (Nat.le_refl _) (by omega), readLE_congr (h.mono (by omega) (by omega))]

lemma readLE_lt (m : Mem) : ∀ pos n, m.readLE pos n < 256 ^ n
  | _, 0 => by simp [readLE]
  | pos, n + 1 => by
    have h := readLE_lt m (pos + 1) n
    have h0 := (m pos).toNat_lt
    simp only [readLE]
    omega

lemma read_add (m : Mem) : ∀ pos n k, m.read pos (n + k) = m.read pos n ++ m.read (pos + n) k
  | pos, 0, k => by simp [read]
  | pos, n + 1, k => by
    have h := read_add m (pos + 1) n k
    rw [show pos + 1 + n = pos + (n + 1) by omega] at h
    rw [show n + 1 + k = n + k + 1 by omega]
    simp [read, h]

lemma getD_read (m : Mem) (d : UInt8) : ∀ pos {n k}, k < n → (m.read pos n).getD k d = m (pos + k)
  | _, _ + 1, 0, _ => rfl
  | pos, n + 1, k + 1, h => by
    have ih := getD_read m d (pos + 1) (Nat.lt_of_succ_lt_succ h)
    rw [show pos + 1 + k = pos + (k + 1) by omega] at ih
    simpa [read] using ih

lemma read_eq (m : Mem) : ∀ pos (bs : List UInt8),
    (∀ k, k < bs.length → m (pos + k) = bs.getD k 0) → m.read pos bs.length = bs
  | _, [], _ => rfl
  | pos, b :: bs, h => by
    have h0 := h 0 (by simp)
    have ih := read_eq m (pos + 1) bs fun k hk => by
      have := h (k + 1) (by simpa using hk)
      rwa [show pos + (k + 1) = pos + 1 + k by omega] at this
    simp only [length_cons, read, ih]
    rw [show m pos = b from h0]

/-! ## Reads after writes -/

/-- A write leaves the other bytes. -/
lemma write_outside {pos i} {bs : List UInt8} (h : i < pos ∨ pos + bs.length ≤ i) :
    m.write pos bs i = m i := by
  unfold write
  split
  · rw [getD_eq_getElem?_getD, getElem?_eq_none (by omega)]
    rfl
  · rfl

lemma write_agree (m : Mem) (pos : Nat) (bs : List UInt8)
    (h : hi ≤ pos ∨ pos + bs.length ≤ lo) : Agree (m.write pos bs) m lo hi :=
  fun _ h1 h2 => write_outside (by omega)

lemma Agree.write (h : Agree m m' lo hi) (pos : Nat)
    (bs : List UInt8) : Agree (m.write pos bs) (m'.write pos bs) lo hi := by
  intro i h1 h2
  unfold Mem.write
  rw [h i h1 h2]

@[simp] lemma write_nil (m : Mem) (pos : Nat) : m.write pos [] = m :=
  funext fun _ => write_outside (by simp; omega)

lemma write_cons (m : Mem) (pos : Nat) (b : UInt8) (bs : List UInt8) :
    m.write pos (b :: bs) = (m.write pos [b]).write (pos + 1) bs := by
  funext i
  unfold write
  by_cases h : pos ≤ i
  · by_cases h1 : pos + 1 ≤ i
    · obtain ⟨k, rfl⟩ : ∃ k, i = pos + 1 + k := ⟨i - (pos + 1), by omega⟩
      have e1 : pos + 1 + k - pos = k + 1 := by omega
      simp [h, e1]
    have e : i = pos := by omega
    subst e
    have : ¬ i + 1 ≤ i := by omega
    simp [this]
  · have h1 : ¬ pos + 1 ≤ i := by omega
    simp [h, h1]

lemma write_append : ∀ (m : Mem) pos (xs ys : List UInt8),
    m.write pos (xs ++ ys) = (m.write pos xs).write (pos + xs.length) ys
  | m, pos, [], ys => by simp
  | m, pos, x :: xs, ys => by
    rw [cons_append, write_cons, write_append, ← write_cons, length_cons]
    congr 1
    omega

/-- What was written is read. -/
lemma read_write_self : ∀ (m : Mem) pos (bs : List UInt8), (m.write pos bs).read pos bs.length = bs
  | _, _, [] => rfl
  | m, pos, b :: bs => by
    rw [write_cons]
    simp only [length_cons, read]
    rw [read_write_self, write_outside (by omega)]
    simp [write]

lemma write_inside {pos k} {bs : List UInt8} (h : k < bs.length) (d : UInt8) :
    m.write pos bs (pos + k) = bs.getD k d := by simp [write, h]

lemma write_read_add (m src : Mem) (pos from_ : Nat) {n k} (h : k < n) :
    m.write pos (src.read from_ n) (pos + k) = src (from_ + k) := by
  rw [write_inside (by simpa using h) 0, getD_read src 0 from_ h]

/-- A number that was written is read, modulo its size. -/
lemma readLE_write_self : ∀ (m : Mem) pos n v,
    (m.write pos (leBytes n v)).readLE pos n = v % 256 ^ n
  | _, _, 0, v => by simp [readLE, Nat.mod_one]
  | m, pos, n + 1, v => by
    simp only [leBytes]
    rw [write_cons]
    simp only [readLE]
    rw [readLE_write_self, write_outside (by omega)]
    have hb : (m.write pos [UInt8.ofNat v]) pos = UInt8.ofNat v := by simp [write]
    rw [hb, Nat.pow_succ, Nat.mul_comm (256 ^ n) 256, Nat.mod_mul]
    simp

lemma readLE_write_field (m : Mem) (pos : Nat) (xs ys : List UInt8) (n v : Nat) :
    (m.write pos (xs ++ (leBytes n v ++ ys))).readLE (pos + xs.length) n = v % 256 ^ n := by
  rw [write_append, write_append, readLE_congr (write_agree _ _ _ (.inl (Nat.le_of_eq (by
    rw [leBytes_length])))), readLE_write_self]

/-! ## Accesses to a block that has a size

An access outside of the block fails, with an error that the user of the
block chooses. Positions and lengths are integers, as they come out of the
arithmetic of a program. -/

variable {ε : Type} (err : ε) (size : Int) (m : Mem)

/-- The `len` bytes from `pos` on. -/
def readIn (pos len : Int) : Except ε (List UInt8) :=
  if 0 ≤ pos ∧ 0 ≤ len ∧ pos + len ≤ size then .ok (m.read pos.toNat len.toNat) else .error err

/-- `memcpy` of `bs` to `pos`. -/
def writeIn (pos : Int) (bs : List UInt8) : Except ε Mem :=
  if 0 ≤ pos ∧ pos + bs.length ≤ size then .ok (m.write pos.toNat bs) else .error err

variable {err size}

lemma readIn_ok (pos len : Nat) (h : (pos : Int) + len ≤ size) :
    m.readIn err size pos len = .ok (m.read pos len) := if_pos ⟨by omega, by omega, h⟩

lemma readIn_neg (pos : Int) {len} (h : len < 0) : m.readIn err size pos len = .error err :=
  if_neg fun h' => by omega

lemma writeIn_ok (pos : Nat) {bs : List UInt8} (h : (pos : Int) + bs.length ≤ size) :
    m.writeIn err size pos bs = .ok (m.write pos bs) := if_pos ⟨by omega, h⟩

end Mem

end LtpDdt.Bytes
