/-
Tlv.Tlv — forests of type-length-value attributes in a block of bytes.

An attribute is a two-byte length, a two-byte type and its data; it starts at a
multiple of four, its length counts the header and is not rounded up. A nested one has
further attributes after its own data, and its length covers them.

`Laid m pos f` says that the block holds the forest `f`, laid out after a content that
ends at `pos`; `Forest.ends` is where the layout ends. Nesting is not marked in the
bytes: the decoder is told by a `Shape` which attributes are nested and how much data
of their own those have; the rest it reads from the block.
-/
import LtpDdt.Bytes.Mem

namespace LtpDdt.Tlv

open Bytes

/-! ## Forests -/

inductive Forest where
  | nil
  | leaf (type : UInt16) (data : List UInt8) (next : Forest)
  | nest (type : UInt16) (data : List UInt8) (sub next : Forest)
  deriving DecidableEq

inductive Shape where
  | nil
  | leaf (next : Shape)
  | nest (own : Nat) (sub next : Shape)
  deriving DecidableEq

def Forest.shape : Forest → Shape
  | .nil => .nil
  | .leaf _ _ next => .leaf next.shape
  | .nest _ data sub next => .nest data.length sub.shape next.shape

def Forest.count : Forest → Nat
  | .nil => 0
  | .leaf _ _ next => next.count + 1
  | .nest _ _ _ next => next.count + 1

def align4 (n : Nat) : Nat := (n + 3) / 4 * 4

lemma le_align4 (n : Nat) : n ≤ align4 n := by unfold align4; omega

lemma align4_mod (n : Nat) : align4 n % 4 = 0 := by unfold align4; omega

variable {o : Nat} {m : Mem} {type : UInt16} {data : List UInt8}

lemma align4_add (h : o % 4 = 0) (n : Nat) : align4 (o + n) = o + align4 n := by
  unfold align4; omega

lemma align4_mono {n k} (h : n ≤ k) : align4 n ≤ align4 k := by unfold align4; omega

lemma align4_le {n k} (h : n ≤ k) (hk : k % 4 = 0) : align4 n ≤ k := by unfold align4; omega

/-- Where the forest ends when it is laid out after a content that ends at
`pos`. -/
def Forest.ends : Forest → Nat → Nat
  | .nil, pos => pos
  | .leaf _ data next, pos => next.ends (align4 pos + 4 + data.length)
  | .nest _ data sub next, pos => next.ends (sub.ends (align4 pos + 4 + data.length))

/-- The encoded length of every attribute is a two-byte number. -/
def Forest.Fits : Forest → Prop
  | .nil => True
  | .leaf _ data next => 4 + data.length < 2 ^ 16 ∧ next.Fits
  | .nest _ data sub next => sub.ends (4 + data.length) < 2 ^ 16 ∧ sub.Fits ∧ next.Fits

lemma Forest.le_ends : ∀ (f : Forest) pos, pos ≤ f.ends pos
  | .nil, pos => Nat.le_refl pos
  | .leaf _ data next, pos => by
    have h := next.le_ends (align4 pos + 4 + data.length)
    have ha := le_align4 pos
    simp only [ends]
    omega
  | .nest _ data sub next, pos => by
    have h := sub.le_ends (align4 pos + 4 + data.length)
    have h' := next.le_ends (sub.ends (align4 pos + 4 + data.length))
    have ha := le_align4 pos
    simp only [ends]
    omega

lemma Forest.ends_mono : ∀ (f : Forest) {p q}, p ≤ q → f.ends p ≤ f.ends q
  | .nil, _, _, h => h
  | .leaf _ _ next, p, q, h => by
    simp only [ends]
    have := align4_mono h
    exact next.ends_mono (by omega)
  | .nest _ _ sub next, p, q, h => by
    simp only [ends]
    have := align4_mono h
    exact next.ends_mono (sub.ends_mono (by omega))

lemma Forest.ends_add (ho : o % 4 = 0) : ∀ (f : Forest) pos, f.ends (o + pos) = o + f.ends pos
  | .nil, _ => rfl
  | .leaf _ data next, pos => by
    simp only [ends]
    rw [align4_add ho, ← ends_add ho next]
    congr 1
    omega
  | .nest _ data sub next, pos => by
    simp only [ends]
    rw [align4_add ho, ← ends_add ho next, ← ends_add ho sub]
    congr 2
    omega

/-! ## Layout -/

/-- The header of length `len` at `o`, followed by `data`. -/
structure Header (m : Mem) (o : Nat) (len : Nat) (type : UInt16) (data : List UInt8) : Prop where
  len : m.readLE o 2 = len
  type : m.readLE (o + 2) 2 = type.toNat
  data : m.read (o + 4) data.length = data

def Laid (m : Mem) : Forest → Nat → Prop
  | .nil, _ => True
  | .leaf type data next, pos =>
    Header m (align4 pos) (4 + data.length) type data ∧ Laid m next (align4 pos + 4 + data.length)
  | .nest type data sub next, pos =>
    Header m (align4 pos) (sub.ends (4 + data.length)) type data ∧
      Laid m sub (align4 pos + 4 + data.length) ∧
      Laid m next (sub.ends (align4 pos + 4 + data.length))

lemma Header.congr {m' len} (h : Header m o len type data)
    (ha : Mem.Agree m m' o (o + 4 + data.length)) :
    Header m' o len type data where
  len := by rw [← h.len]; exact (Mem.readLE_congr (ha.mono (by omega) (by omega))).symm
  type := by rw [← h.type]; exact (Mem.readLE_congr (ha.mono (by omega) (by omega))).symm
  data := by
    have hd := Mem.read_congr (ha.mono (show o ≤ o + 4 by omega) (Nat.le_refl _))
    rw [← hd]
    exact h.data

open Forest

lemma Laid.congr {m'} : ∀ {f : Forest} {pos}, Laid m f pos →
    Mem.Agree m m' (align4 pos) (f.ends pos) → Laid m' f pos
  | .nil, _, _, _ => trivial
  | .leaf type data next, pos, ⟨hh, hn⟩, ha => by
    have hle := next.le_ends (align4 pos + 4 + data.length)
    have hal := le_align4 (align4 pos + 4 + data.length)
    exact ⟨hh.congr (ha.mono (Nat.le_refl _) hle), hn.congr (ha.mono (by omega) (Nat.le_refl _))⟩
  | .nest type data sub next, pos, ⟨hh, hs, hn⟩, ha => by
    have hle := sub.le_ends (align4 pos + 4 + data.length)
    have hle' := next.le_ends (sub.ends (align4 pos + 4 + data.length))
    have hal := le_align4 (align4 pos + 4 + data.length)
    have hal' := le_align4 (sub.ends (align4 pos + 4 + data.length))
    simp only [ends] at ha
    exact ⟨hh.congr (ha.mono (Nat.le_refl _) (by omega)),
      hs.congr (ha.mono (by omega) hle'), hn.congr (ha.mono (by omega) (Nat.le_refl _))⟩

/-! ## The decoder -/

/-- There is an attribute at `pos`: header and value lie before `lim`. -/
def attrOk (m : Mem) (pos lim : Nat) : Bool :=
  pos + 4 ≤ lim && 4 ≤ m.readLE pos 2 && pos + m.readLE pos 2 ≤ lim

/-- The walk over `[pos, lim)`. A list ends where there is no further attribute; a range that goes
on or ends too early has another shape. -/
def decode (m : Mem) : Shape → Nat → Nat → Option Forest
  | .nil, pos, lim => if attrOk m pos lim then none else some .nil
  | .leaf next, pos, lim =>
    let len := m.readLE pos 2
    if attrOk m pos lim then
      match decode m next (align4 (pos + len)) lim with
      | none => none
      | some fn =>
        some (.leaf (UInt16.ofNat (m.readLE (pos + 2) 2)) (m.read (pos + 4) (len - 4)) fn)
    else none
  | .nest own sub next, pos, lim =>
    let len := m.readLE pos 2
    if attrOk m pos lim && 4 + own ≤ len then
      match decode m sub (align4 (pos + 4 + own)) (pos + len),
          decode m next (align4 (pos + len)) lim with
      | some fs, some fn =>
        some (.nest (UInt16.ofNat (m.readLE (pos + 2) 2)) (m.read (pos + 4) own) fs fn)
      | _, _ => none
    else none

lemma Header.attrOk {len} (h : Header m o len type data) (lim : Nat) (h4 : 4 ≤ len)
    (hlim : o + len ≤ lim) : attrOk m o lim := by
  simp only [Tlv.attrOk, h.len, Bool.and_eq_true, decide_eq_true_eq]
  omega

/-- **The round trip.** A walk over a layout, from the first multiple of four after `pos` to its
end, reads back the forest. -/
theorem decode_of_laid : ∀ {f : Forest} {pos}, Laid m f pos →
    decode m f.shape (align4 pos) (f.ends pos) = some f
  | .nil, pos, _ => by
    have ha := le_align4 pos
    have : attrOk m (align4 pos) pos = false := by
      simp only [attrOk, Bool.and_eq_false_iff, decide_eq_false_iff_not]
      omega
    simp [shape, ends, decode, this]
  | .leaf type data next, pos, ⟨hh, hn⟩ => by
    have hle := next.le_ends (align4 pos + 4 + data.length)
    have hok := hh.attrOk (next.ends (align4 pos + 4 + data.length)) (by omega) (by omega)
    have hd : 4 + data.length - 4 = data.length := by omega
    simp only [shape, ends, decode, hok, hh.len, hh.type, hd, hh.data]
    rw [← Nat.add_assoc, decode_of_laid hn]
    simp
  | .nest type data sub next, pos, ⟨hh, hs, hn⟩ => by
    have hsub := sub.le_ends (4 + data.length)
    have heq : align4 pos + sub.ends (4 + data.length)
        = sub.ends (align4 pos + 4 + data.length) := by
      rw [← sub.ends_add (align4_mod pos), Nat.add_assoc]
    have hle := next.le_ends (sub.ends (align4 pos + 4 + data.length))
    have hok := hh.attrOk (next.ends (sub.ends (align4 pos + 4 + data.length)))
      (by omega) (by omega)
    simp only [shape, ends, decode, hok, hh.len, hh.type, hh.data, heq, decide_eq_true hsub]
    rw [decode_of_laid hs, decode_of_laid hn]
    simp

lemma ends_le_of_decode : ∀ {sh} {p pos lim} {f : Forest},
    decode m sh pos lim = some f → align4 p ≤ pos → f = .nil ∨ f.ends p ≤ lim
  | .nil, p, pos, lim, f, h, _ => by
    simp only [decode] at h
    split at h
    · cases h
    · simp only [Option.some.injEq] at h
      exact .inl h.symm
  | .leaf next, p, pos, lim, f, h, hp => by
    simp only [decode] at h
    split at h
    swap
    · cases h
    rename_i hok
    simp only [attrOk, Bool.and_eq_true, decide_eq_true_eq] at hok
    split at h
    · cases h
    rename_i fn hfn
    simp only [Option.some.injEq] at h
    subst h
    refine .inr ?_
    have hlen : align4 p + 4 + (m.readLE pos 2 - 4) ≤ pos + m.readLE pos 2 := by omega
    simp only [ends, Mem.read_length]
    have hmono := fn.ends_mono hlen
    rcases ends_le_of_decode hfn (Nat.le_refl _) with rfl | hle
    · simp only [ends] at hmono ⊢; omega
    · exact Nat.le_trans hmono hle
  | .nest own sub next, p, pos, lim, f, h, hp => by
    simp only [decode] at h
    split at h
    swap
    · cases h
    rename_i hok
    simp only [attrOk, Bool.and_eq_true, decide_eq_true_eq] at hok
    split at h
    swap
    · cases h
    rename_i fs fn hfs hfn
    simp only [Option.some.injEq] at h
    subst h
    refine .inr ?_
    simp only [ends, Mem.read_length]
    -- the sublist stays inside its parent, so the next sibling is behind it
    have hsub : fs.ends (align4 p + 4 + own) ≤ pos + m.readLE pos 2 := by
      refine Nat.le_trans (fs.ends_mono (q := pos + 4 + own) (by omega)) ?_
      rcases ends_le_of_decode hfs (Nat.le_refl _) with rfl | hle
      · simp only [ends]; omega
      · exact hle
    have hnext := fn.ends_mono hsub
    rcases ends_le_of_decode hfn (Nat.le_refl _) with rfl | hle
    · simp only [ends] at hsub ⊢; omega
    · exact Nat.le_trans hnext hle

end LtpDdt.Tlv
