/-
Bytes.BitField — bit-fields in little-endian words of four bytes.

A field is some bits of a word. Storing to a field replaces its bits with the
low bits of the value and keeps the others; a value that has more bits than
the field is cut off (`Field.get_set_self`). Fields that share no bits do not
disturb each other (`Field.get_set_other`).
-/
import LtpDdt.Bytes.Mem

namespace LtpDdt.Bytes

open List

/-! ## Bits of a number -/

/-- The `w` bits from bit `lo` on. -/
def getBits (lo w x : Nat) : Nat := x / 2 ^ lo % 2 ^ w

variable (lo w v x : Nat)

/-- The same bits replaced by the low bits of `v`. -/
def putBits : Nat :=
  x / 2 ^ (lo + w) * 2 ^ (lo + w) + (v % 2 ^ w * 2 ^ lo + x % 2 ^ lo)

lemma getBits_mod {lo w n} (h : lo + w ≤ n) (x : Nat) :
    getBits lo w (x % 2 ^ n) = getBits lo w x := by
  unfold getBits
  rw [← Nat.mod_mul_right_div_self, ← Nat.mod_mul_right_div_self, ← Nat.pow_add,
    Nat.mod_mod_of_dvd _ (Nat.pow_dvd_pow 2 h)]

lemma getBits_div {lo w n} (h : n ≤ lo) (x : Nat) :
    getBits lo w x = getBits (lo - n) w (x / 2 ^ n) := by
  unfold getBits
  rw [Nat.div_div_eq_div_mul, ← Nat.pow_add, show n + (lo - n) = lo by omega]

lemma putBits_low_lt : v % 2 ^ w * 2 ^ lo + x % 2 ^ lo < 2 ^ (lo + w) := by
  have hv : v % 2 ^ w < 2 ^ w := Nat.mod_lt _ (Nat.two_pow_pos w)
  calc v % 2 ^ w * 2 ^ lo + x % 2 ^ lo
      < v % 2 ^ w * 2 ^ lo + 2 ^ lo := by omega
    _ = (v % 2 ^ w + 1) * 2 ^ lo := by rw [Nat.add_mul, Nat.one_mul]
    _ ≤ 2 ^ w * 2 ^ lo := Nat.mul_le_mul_right _ hv
    _ = 2 ^ (lo + w) := by rw [Nat.pow_add, Nat.mul_comm]

lemma putBits_div : putBits lo w v x / 2 ^ (lo + w) = x / 2 ^ (lo + w) := by
  unfold putBits
  rw [Nat.add_comm, Nat.add_mul_div_right _ _ (Nat.two_pow_pos _),
    Nat.div_eq_of_lt (putBits_low_lt lo w v x), Nat.zero_add]

lemma putBits_mod_hi : putBits lo w v x % 2 ^ (lo + w) = v % 2 ^ w * 2 ^ lo + x % 2 ^ lo := by
  unfold putBits
  rw [Nat.add_comm, Nat.add_mul_mod_self_right, Nat.mod_eq_of_lt (putBits_low_lt lo w v x)]

lemma putBits_mod_lo : putBits lo w v x % 2 ^ lo = x % 2 ^ lo := by
  rw [← Nat.mod_mod_of_dvd _ (Nat.pow_dvd_pow 2 (Nat.le_add_right lo w)), putBits_mod_hi,
    Nat.add_comm, Nat.add_mul_mod_self_right, Nat.mod_mod]

lemma getBits_putBits_self : getBits lo w (putBits lo w v x) = v % 2 ^ w := by
  rw [← getBits_mod (Nat.le_refl (lo + w)), putBits_mod_hi, getBits, Nat.add_comm,
    Nat.add_mul_div_right _ _ (Nat.two_pow_pos lo),
    Nat.div_eq_of_lt (Nat.mod_lt _ (Nat.two_pow_pos lo)), Nat.zero_add, Nat.mod_mod]

lemma getBits_putBits_other {lo w lo' w'} (h : lo' + w' ≤ lo ∨ lo + w ≤ lo') (v x : Nat) :
    getBits lo' w' (putBits lo w v x) = getBits lo' w' x := by
  rcases h with h | h
  · rw [← getBits_mod h, putBits_mod_lo, getBits_mod h]
  · rw [getBits_div h, putBits_div, ← getBits_div h]

/-! ## Fields of a block -/

/-- The bits `lo` to `lo + width` of the word at `pos`. -/
structure Field where
  pos : Nat
  lo : Nat
  width : Nat
  fits : lo + width ≤ 32

def Field.get (f : Field) (m : Mem) : Nat := getBits f.lo f.width (m.readLE f.pos 4)

def Field.set (f : Field) (v : Nat) (m : Mem) : Mem :=
  m.write f.pos (leBytes 4 (putBits f.lo f.width v (m.readLE f.pos 4)))

def Field.Disjoint (f g : Field) : Prop :=
  (f.pos + 4 ≤ g.pos ∨ g.pos + 4 ≤ f.pos) ∨
    (f.pos = g.pos ∧ (g.lo + g.width ≤ f.lo ∨ f.lo + f.width ≤ g.lo))

instance (f g : Field) : Decidable (f.Disjoint g) :=
  inferInstanceAs (Decidable ((_ ∨ _) ∨ _ ∧ (_ ∨ _)))

lemma Field.Disjoint.symm {f g : Field} (h : f.Disjoint g) : g.Disjoint f := by
  unfold Field.Disjoint at h ⊢
  omega

open Field

lemma Field.get_set_self (f : Field) (v : Nat) (m : Mem) : f.get (f.set v m) = v % 2 ^ f.width := by
  have h32 : 256 ^ 4 = 2 ^ 32 := by decide
  rw [get, set, Mem.readLE_write_self, h32, getBits_mod f.fits, getBits_putBits_self]

lemma Field.get_set_other {f g : Field} (h : f.Disjoint g) (v : Nat) (m : Mem) :
    g.get (f.set v m) = g.get m := by
  rcases h with h | ⟨hpos, h⟩
  · rw [get, set, Mem.readLE_congr, get]
    exact Mem.write_agree _ _ _ (by rw [leBytes_length]; omega)
  have h32 : 256 ^ 4 = 2 ^ 32 := by decide
  rw [get, set, ← hpos, Mem.readLE_write_self, h32, getBits_mod g.fits,
    getBits_putBits_other h, get, hpos]

lemma Field.get_foldl_set {as : List (Field × Nat)} (hd : (as.map Prod.fst).Pairwise Disjoint)
    {f : Field} {v} (h : (f, v) ∈ as) (m : Mem) :
    f.get (as.foldl (fun m a => a.1.set a.2 m) m) = v % 2 ^ f.width := by
  -- once set, a field keeps its value
  have hkeep : ∀ (bs : List (Field × Nat)) (m : Mem), (∀ b ∈ bs, f.Disjoint b.1) →
      f.get (bs.foldl (fun m a => a.1.set a.2 m) m) = f.get m := by
    intro bs
    induction bs with
    | nil => intro m _; rfl
    | cons b bs ih =>
      intro m hb
      rw [foldl_cons, ih _ (forall_mem_cons.1 hb).2, get_set_other (hb b mem_cons_self).symm]
  induction as generalizing m with
  | nil => cases h
  | cons a as ih =>
    rw [map_cons, pairwise_cons] at hd
    rcases mem_cons.mp h with rfl | h
    · rw [foldl_cons, hkeep as _ fun b hb => hd.1 b.1 (mem_map_of_mem hb), get_set_self]
    · rw [foldl_cons, ih hd.2 h]

lemma Field.get_congr {f : Field} {m m'} (h : Mem.Agree m m' f.pos (f.pos + 4)) :
    f.get m = f.get m' := by rw [get, get, Mem.readLE_congr h]

end LtpDdt.Bytes
