import Mathlib.Data.Nat.Basic
import Mathlib.Tactic.Ring

/-!
# Fixed-width numbers in memory

How a machine lays a number out in `w` bytes, least significant byte first or last. The two
directions are inverse to each other on numbers below `256 ^ w` and on lists of `w` bytes.

## Main definitions

* `ByteOrder.encode`, `decode` — a number as `w` bytes, and back

## Main results

* `ByteOrder.decode_encode`, `encode_decode` — the inverse pair
-/

/-- The byte order of a machine. -/
inductive ByteOrder where
  | little
  | big
  deriving DecidableEq, Repr

namespace ByteOrder

/-- The `w` low bytes of `n`, least significant first. -/
def littleBytes : ℕ → ℕ → List UInt8
  | 0, _ => []
  | w + 1, n => UInt8.ofNat n :: littleBytes w (n / 256)

/-- The number whose bytes these are, least significant first. -/
def ofLittleBytes : List UInt8 → ℕ
  | [] => 0
  | b :: bs => b.toNat + 256 * ofLittleBytes bs

/-- A number as `w` bytes in memory order. -/
def encode : ByteOrder → ℕ → ℕ → List UInt8
  | .little, w, n => littleBytes w n
  | .big, w, n => (littleBytes w n).reverse

/-- The number that bytes in memory order stand for. -/
def decode : ByteOrder → List UInt8 → ℕ
  | .little, bs => ofLittleBytes bs
  | .big, bs => ofLittleBytes bs.reverse

@[simp] theorem length_littleBytes : ∀ w n : ℕ, (littleBytes w n).length = w
  | 0, _ => rfl
  | w + 1, n => by rw [littleBytes, List.length_cons, length_littleBytes w]

@[simp] theorem length_encode (bo : ByteOrder) (w n : ℕ) : (bo.encode w n).length = w := by
  cases bo <;> simp [encode]

theorem ofLittleBytes_littleBytes : ∀ w n : ℕ, ofLittleBytes (littleBytes w n) = n % 256 ^ w
  | 0, n => by simp [littleBytes, ofLittleBytes, Nat.mod_one]
  | w + 1, n => by
    rw [littleBytes, ofLittleBytes, ofLittleBytes_littleBytes w, UInt8.toNat_ofNat',
      show 256 ^ (w + 1) = 256 * 256 ^ w by ring, Nat.mod_mul]

theorem littleBytes_ofLittleBytes : ∀ bs : List UInt8, littleBytes bs.length (ofLittleBytes bs) = bs
  | [] => rfl
  | b :: bs => by
    have hb : b.toNat < 256 := b.toNat_lt
    have hhead : UInt8.ofNat (b.toNat + 256 * ofLittleBytes bs) = b := by
      apply UInt8.toNat_inj.mp
      rw [UInt8.toNat_ofNat']
      omega
    rw [List.length_cons, ofLittleBytes, littleBytes, hhead,
      show (b.toNat + 256 * ofLittleBytes bs) / 256 = ofLittleBytes bs by omega,
      littleBytes_ofLittleBytes bs]

theorem ofLittleBytes_lt : ∀ bs : List UInt8, ofLittleBytes bs < 256 ^ bs.length
  | [] => by simp [ofLittleBytes]
  | b :: bs => by
    have hb : b.toNat < 256 := b.toNat_lt
    have hbs := ofLittleBytes_lt bs
    rw [ofLittleBytes, List.length_cons, show 256 ^ (bs.length + 1) = 256 * 256 ^ bs.length by ring]
    omega

theorem decode_encode {w n : ℕ} (bo : ByteOrder) (h : n < 256 ^ w) :
    bo.decode (bo.encode w n) = n := by
  cases bo <;> simp [encode, decode, ofLittleBytes_littleBytes, Nat.mod_eq_of_lt h]

theorem encode_decode {w : ℕ} (bo : ByteOrder) {bs : List UInt8} (hw : bs.length = w) :
    bo.encode w (bo.decode bs) = bs := by
  subst hw
  cases bo with
  | little => exact littleBytes_ofLittleBytes bs
  | big =>
    have h := littleBytes_ofLittleBytes bs.reverse
    rw [List.length_reverse] at h
    rw [encode, decode, h, List.reverse_reverse]

theorem decode_lt (bo : ByteOrder) (bs : List UInt8) : bo.decode bs < 256 ^ bs.length := by
  cases bo with
  | little => exact ofLittleBytes_lt bs
  | big => simpa [decode] using ofLittleBytes_lt bs.reverse

end ByteOrder
