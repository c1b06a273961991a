import Mathlib.Data.List.Basic
import Mathlib.Tactic.Ring

/-!
# Bytes

Numbers as bytes, most significant first, byte strings as words of `k` bytes, and writing
into a buffer. `toBytes` and `ofBytes` are inverse on numbers that fit and on strings of the
right length, `toWords` and `ofWords` on strings of whole words.
-/

namespace PersonalCloud.Lib

/-! ## Numbers -/

/-- The last `n` bytes of `v`. -/
def toBytes : Nat → Nat → List UInt8
  | 0, _ => []
  | n + 1, v => UInt8.ofNat (v / 256 ^ n) :: toBytes n v

def ofBytes : List UInt8 → Nat
  | [] => 0
  | b :: bs => b.toNat * 256 ^ bs.length + ofBytes bs

@[simp] theorem length_toBytes (n v : Nat) : (toBytes n v).length = n := by
  induction n with
  | zero => rfl
  | succ n ih => simp [toBytes, ih]

theorem ofBytes_lt (bs : List UInt8) : ofBytes bs < 256 ^ bs.length := by
  induction bs with
  | nil => simp [ofBytes]
  | cons b bs ih =>
    have hb : b.toNat + 1 ≤ 256 := b.toNat_lt
    have := Nat.mul_le_mul_right (256 ^ bs.length) hb
    simp only [ofBytes, List.length_cons, Nat.pow_succ]
    rw [Nat.add_mul] at this
    omega

theorem ofBytes_toBytes_mod (n v : Nat) : ofBytes (toBytes n v) = v % 256 ^ n := by
  induction n with
  | zero => simp [toBytes, ofBytes, Nat.mod_one]
  | succ n ih =>
    have hb : (UInt8.ofNat (v / 256 ^ n)).toNat = v / 256 ^ n % 256 := by simp
    rw [toBytes, ofBytes, length_toBytes, ih, hb, Nat.pow_succ, Nat.mod_mul]
    ring

theorem ofBytes_toBytes {n v : Nat} (h : v < 256 ^ n) : ofBytes (toBytes n v) = v := by
  rw [ofBytes_toBytes_mod, Nat.mod_eq_of_lt h]

theorem toBytes_add_mul (n v c : Nat) : toBytes n (c * 256 ^ n + v) = toBytes n v := by
  induction n generalizing c with
  | zero => rfl
  | succ n ih =>
    have hpos : 0 < 256 ^ n := Nat.pow_pos (by decide)
    have hdiv : (c * 256 ^ (n + 1) + v) / 256 ^ n = v / 256 ^ n + 256 * c := by
      rw [Nat.pow_succ, show c * (256 ^ n * 256) + v = v + 256 ^ n * (256 * c) by ring,
        Nat.add_mul_div_left _ _ hpos]
    have hbyte : UInt8.ofNat (v / 256 ^ n + 256 * c) = UInt8.ofNat (v / 256 ^ n) := by
      apply UInt8.toNat_inj.1
      simp
    rw [toBytes, toBytes, hdiv, hbyte]
    congr 1
    rw [Nat.pow_succ, show c * (256 ^ n * 256) = c * 256 * 256 ^ n by ring]
    exact ih (c * 256)

theorem toBytes_ofBytes (bs : List UInt8) : toBytes bs.length (ofBytes bs) = bs := by
  induction bs with
  | nil => rfl
  | cons b bs ih =>
    have hpos : 0 < 256 ^ bs.length := Nat.pow_pos (by decide)
    have hdiv : (b.toNat * 256 ^ bs.length + ofBytes bs) / 256 ^ bs.length = b.toNat := by
      rw [Nat.add_comm, Nat.add_mul_div_right _ _ hpos, Nat.div_eq_of_lt (ofBytes_lt bs)]
      simp
    simp only [ofBytes, List.length_cons, toBytes, hdiv, toBytes_add_mul, ih]
    simp

/-! ## Words -/

/-- A word of `w` bits as `k` bytes. -/
def ofWord {w : Nat} (k : Nat) (v : BitVec w) : List UInt8 :=
  toBytes k v.toNat

/-- The word of the first `k` bytes. -/
def toWord (w k : Nat) (bs : List UInt8) : BitVec w :=
  BitVec.ofNat w (ofBytes (bs.take k))

def ofWords {w : Nat} (k : Nat) (vs : List (BitVec w)) : List UInt8 :=
  vs.flatMap (ofWord k)

/-- The first `n` words. -/
def toWords (w k : Nat) : Nat → List UInt8 → List (BitVec w)
  | 0, _ => []
  | n + 1, bs => toWord w k bs :: toWords w k n (bs.drop k)

section Words

variable {w k : Nat}

@[simp] theorem length_ofWord (v : BitVec w) : (ofWord k v).length = k :=
  length_toBytes _ _

@[simp] theorem ofWords_nil : ofWords k ([] : List (BitVec w)) = [] :=
  rfl

@[simp] theorem ofWords_cons (v : BitVec w) (vs : List (BitVec w)) :
    ofWords k (v :: vs) = ofWord k v ++ ofWords k vs :=
  rfl

@[simp] theorem ofWords_append (vs us : List (BitVec w)) :
    ofWords k (vs ++ us) = ofWords k vs ++ ofWords k us := by
  simp [ofWords]

@[simp] theorem length_ofWords (vs : List (BitVec w)) :
    (ofWords k vs).length = k * vs.length := by
  induction vs with
  | nil => simp
  | cons v vs ih =>
    simp only [ofWords_cons, List.length_append, length_ofWord, ih, List.length_cons]
    ring

@[simp] theorem length_toWords (n : Nat) (bs : List UInt8) : (toWords w k n bs).length = n := by
  induction n generalizing bs with
  | zero => rfl
  | succ n ih => simp [toWords, ih]

theorem toWords_append {n : Nat} {bs : List UInt8} (h : k * n ≤ bs.length) (cs : List UInt8) :
    toWords w k n (bs ++ cs) = toWords w k n bs := by
  induction n generalizing bs with
  | zero => rfl
  | succ n ih =>
    rw [Nat.mul_succ] at h
    have hrest : k * n ≤ (bs.drop k).length := by
      rw [List.length_drop]
      omega
    rw [toWords, toWords, List.drop_append_of_le_length (by omega), ih hrest, toWord, toWord,
      List.take_append_of_le_length (by omega)]

theorem toWords_add (m n : Nat) (bs : List UInt8) :
    toWords w k (m + n) bs = toWords w k m bs ++ toWords w k n (bs.drop (k * m)) := by
  induction m generalizing bs with
  | zero => simp [toWords]
  | succ m ih =>
    rw [Nat.succ_add, toWords, toWords, ih, List.drop_drop, Nat.mul_succ, Nat.add_comm k]
    rfl

/-! From here on a word has as many bits as its bytes. -/

variable (hw : w = 8 * k)
include hw

theorem two_pow_eq : 2 ^ w = 256 ^ k := by
  rw [hw, Nat.pow_mul]

theorem toWord_ofWord (v : BitVec w) (bs : List UInt8) : toWord w k (ofWord k v ++ bs) = v := by
  have htake : (ofWord k v ++ bs).take k = ofWord k v := List.take_left' (length_ofWord v)
  have hlt : v.toNat < 256 ^ k := two_pow_eq hw ▸ v.isLt
  rw [toWord, htake, ofWord, ofBytes_toBytes hlt, BitVec.ofNat_toNat, BitVec.setWidth_eq]

theorem ofWord_injective : Function.Injective (ofWord k : BitVec w → List UInt8) := by
  intro u v h
  rw [← toWord_ofWord hw u [], h, toWord_ofWord hw]

theorem ofWord_toWord {bs : List UInt8} (h : k ≤ bs.length) :
    ofWord k (toWord w k bs) = bs.take k := by
  have hlen : (bs.take k).length = k := by simp [h]
  have hlt : ofBytes (bs.take k) < 2 ^ w := by
    rw [two_pow_eq hw]
    simpa only [hlen] using ofBytes_lt (bs.take k)
  rw [ofWord, toWord, BitVec.toNat_ofNat, Nat.mod_eq_of_lt hlt]
  simpa only [hlen] using toBytes_ofBytes (bs.take k)

theorem toWords_ofWords (vs : List (BitVec w)) (bs : List UInt8) :
    toWords w k vs.length (ofWords k vs ++ bs) = vs := by
  induction vs with
  | nil => rfl
  | cons v vs ih =>
    rw [List.length_cons, toWords, ofWords_cons, List.append_assoc, toWord_ofWord hw,
      List.drop_left' (length_ofWord v), ih]

theorem ofWords_toWords {n : Nat} {bs : List UInt8} (h : k * n ≤ bs.length) :
    ofWords k (toWords w k n bs) = bs.take (k * n) := by
  induction n generalizing bs with
  | zero => simp [toWords]
  | succ n ih =>
    rw [Nat.mul_succ] at h
    have hrest : k * n ≤ (bs.drop k).length := by
      rw [List.length_drop]
      omega
    rw [toWords, ofWords_cons, ofWord_toWord hw (by omega), ih hrest, Nat.mul_succ, Nat.add_comm,
      List.take_add]

/-- The last word, read back from where it was written. -/
theorem toWord_drop_ofWords {vs : List (BitVec w)} (h : vs ≠ []) (u : BitVec w)
    (bs : List UInt8) :
    toWord w k ((ofWords k vs ++ bs).drop (k * vs.length - k)) = vs.getLastD u := by
  obtain ⟨us, v, rfl⟩ := List.eq_nil_or_concat' vs |>.resolve_left h
  have hlen : (ofWords k us).length = k * (us ++ [v]).length - k := by
    simp [Nat.mul_add]
  rw [ofWords_append, List.append_assoc, List.drop_left' hlen, ofWords_cons, List.append_assoc,
    toWord_ofWord hw]
  simp

end Words

/-! ## Writing -/

/-- The buffer after `bs` was written at `off`. -/
def writeAt (buf : List UInt8) (off : Nat) (bs : List UInt8) : List UInt8 :=
  buf.take off ++ bs ++ buf.drop (off + bs.length)

section WriteAt

variable {buf front back bs cs : List UInt8} {off : Nat}

theorem length_writeAt (h : off + bs.length ≤ buf.length) :
    (writeAt buf off bs).length = buf.length := by
  simp only [writeAt, List.length_append, List.length_take, List.length_drop]
  omega

@[simp] theorem writeAt_nil : writeAt buf off [] = buf := by
  simp [writeAt]

theorem writeAt_append_right (h : front.length ≤ off) :
    writeAt (front ++ back) off bs = front ++ writeAt back (off - front.length) bs := by
  have hoff : off + bs.length - front.length = off - front.length + bs.length := by omega
  rw [writeAt, writeAt, List.take_append, List.take_of_length_le h, List.drop_append,
    List.drop_eq_nil_of_le (by omega), hoff]
  simp only [List.append_assoc, List.nil_append]

theorem writeAt_append_left (h : off + bs.length ≤ front.length) :
    writeAt (front ++ back) off bs = writeAt front off bs ++ back := by
  rw [writeAt, writeAt, List.take_append_of_le_length (by omega),
    List.drop_append_of_le_length h]
  simp only [List.append_assoc]

theorem writeAt_eq (h : bs.length = buf.length) : writeAt buf 0 bs = bs := by
  simp [writeAt, h]

theorem writeAt_front (h : bs.length = front.length) :
    writeAt (front ++ back) 0 bs = bs ++ back := by
  rw [writeAt_append_left (by omega), writeAt_eq h]

theorem writeAt_middle (h : cs.length = bs.length) :
    writeAt (front ++ (bs ++ back)) front.length cs = front ++ (cs ++ back) := by
  rw [writeAt_append_right (Nat.le_refl _), Nat.sub_self, writeAt_front h]

theorem getElem?_writeAt_lt {i : Nat} (h : i < off) (hb : off ≤ buf.length) :
    (writeAt buf off bs)[i]? = buf[i]? := by
  rw [writeAt, List.append_assoc, List.getElem?_append_left (by simp; omega),
    List.getElem?_take_of_lt h]

theorem getElem?_writeAt_ge {i : Nat} (h : off + bs.length ≤ i) (hb : off ≤ buf.length) :
    (writeAt buf off bs)[i]? = buf[i]? := by
  rw [writeAt, List.getElem?_append_right (by simp; omega), List.getElem?_drop]
  congr 1
  simp only [List.length_append, List.length_take]
  omega

theorem drop_writeAt {n : Nat} (h : off + bs.length ≤ n) (hoff : off ≤ buf.length) :
    (writeAt buf off bs).drop n = buf.drop n := by
  apply List.ext_getElem?
  intro i
  rw [List.getElem?_drop, List.getElem?_drop, getElem?_writeAt_ge (by omega) hoff]

end WriteAt

end PersonalCloud.Lib
