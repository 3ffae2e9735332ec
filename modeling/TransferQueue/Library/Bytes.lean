import Mathlib.Data.List.Forall2
import Mathlib.Data.Nat.Digits.Defs

/-! Fixed-width little-endian numbers, and readers that consume the bytes of a
writer exactly. -/

namespace Bytes

section LittleEndian

def toLE : ℕ → ℕ → List UInt8
  | 0, _ => []
  | w + 1, n => UInt8.ofNat (n % 256) :: toLE w (n / 256)

def ofLE (bytes : List UInt8) : ℕ := Nat.ofDigits 256 (bytes.map UInt8.toNat)

@[simp] theorem length_toLE (w n : ℕ) : (toLE w n).length = w := by
  induction w generalizing n with
  | zero => rfl
  | succ w ih => rw [toLE, List.length_cons, ih]

theorem ofLE_cons (b : UInt8) (bytes : List UInt8) :
    ofLE (b :: bytes) = b.toNat + 256 * ofLE bytes := by
  rw [ofLE, List.map_cons, Nat.ofDigits_cons]
  rfl

theorem ofLE_toLE (w n : ℕ) : ofLE (toLE w n) = n % 256 ^ w := by
  induction w generalizing n with
  | zero => rw [pow_zero, Nat.mod_one]; rfl
  | succ w ih =>
    have hbyte : (UInt8.ofNat (n % 256)).toNat = n % 256 := by
      rw [UInt8.toNat_ofNat']
      exact Nat.mod_mod_of_dvd n (dvd_refl 256)
    rw [toLE, ofLE_cons, ih, hbyte, pow_succ', Nat.mod_mul]

theorem ofLE_toLE_of_lt {w n : ℕ} (h : n < 256 ^ w) : ofLE (toLE w n) = n := by
  rw [ofLE_toLE, Nat.mod_eq_of_lt h]

end LittleEndian

section Readers
variable {ε α β : Type}

/-- What is left of the input is the state. -/
abbrev Reader (ε α : Type) : Type := StateT (List UInt8) (Except ε) α

def Reader.take (underflow : ε) (n : ℕ) : Reader ε (List UInt8) := fun input =>
  if n ≤ input.length then .ok (input.take n, input.drop n) else .error underflow

def Reader.fail (e : ε) : Reader ε α := fun _ => .error e

def Reader.times (r : Reader ε α) : ℕ → Reader ε (List α)
  | 0 => pure []
  | n + 1 => do
    let a ← r
    let as ← times r n
    pure (a :: as)

/-- On these bytes, whatever follows them, the reader returns `a` and leaves what
follows. -/
def Reads (r : Reader ε α) (bytes : List UInt8) (a : α) : Prop :=
  ∀ rest, r.run (bytes ++ rest) = .ok (a, rest)

namespace Reads

theorem pure (a : α) : Reads (Pure.pure a : Reader ε α) [] a := fun _ => rfl

theorem bind {r : Reader ε α} {f : α → Reader ε β} {bytes bytes' : List UInt8} {a : α} {b : β}
    (ha : Reads r bytes a) (hb : Reads (f a) bytes' b) : Reads (r >>= f) (bytes ++ bytes') b := by
  intro rest
  rw [StateT.run_bind, List.append_assoc, ha]
  exact hb rest

theorem map {r : Reader ε α} {bytes : List UInt8} {a : α} (f : α → β) (h : Reads r bytes a) :
    Reads (f <$> r) bytes (f a) := by
  intro rest
  rw [StateT.run_map, h]
  rfl

theorem bind_pure {r : Reader ε α} {f : α → Reader ε β} {bytes : List UInt8} {a : α} {b : β}
    (ha : Reads r bytes a) (hb : Reads (f a) [] b) : Reads (r >>= f) bytes b := by
  have h := ha.bind hb
  rwa [List.append_nil] at h

theorem take (underflow : ε) {n : ℕ} {bytes : List UInt8} (h : bytes.length = n) :
    Reads (Reader.take underflow n) bytes bytes := by
  intro rest
  subst h
  change (if _ then _ else _) = _
  rw [if_pos (by rw [List.length_append]; exact Nat.le_add_right _ _), List.take_left,
    List.drop_left]

theorem times {r : Reader ε α} {chunks : List (List UInt8)} {as : List α}
    (h : List.Forall₂ (Reads r) chunks as) :
    Reads (r.times as.length) chunks.flatten as := by
  induction h with
  | nil => exact pure []
  | cons hhead _ ih => exact hhead.bind (ih.bind_pure (pure _))

/-- A reader returns one value on one input, so what it reads back is written
differently. -/
theorem unique {r : Reader ε α} {bytes : List UInt8} {a a' : α} (h : Reads r bytes a)
    (h' : Reads r bytes a') : a = a' := by
  have heq := (h []).symm.trans (h' [])
  injection heq with heq
  exact congrArg Prod.fst heq

end Reads

end Readers
end Bytes
