/-
Fixed-width numbers in memory, least significant byte first.

- `store`, `load`: a number as a given count of bytes, and back;
- `load_store`: what was stored is loaded, and `load_inj`: equal words are equal bytes.
-/
import Mathlib.Tactic

namespace Core.LittleEndian

/-- the low `width` bytes of a number -/
def store : ℕ → ℕ → List UInt8
  | 0, _ => []
  | width + 1, n => UInt8.ofNat n :: store width (n / 256)

/-- the number that some bytes hold -/
def load (bytes : List UInt8) : ℕ := Nat.ofDigits 256 (bytes.map UInt8.toNat)

variable {bytes a b : List UInt8}

@[simp] theorem length_store (width n : ℕ) : (store width n).length = width := by
  induction width generalizing n with
  | zero => rfl
  | succ width ih => rw [store, List.length_cons, ih]

@[simp] theorem load_nil : load [] = 0 := rfl

@[simp] theorem load_cons (x : UInt8) (bytes : List UInt8) : load (x :: bytes) = x.toNat + 256 * load bytes := by
  simp [load, Nat.ofDigits_cons]

/-- what was stored, in as many bytes as there are -/
theorem load_store (width n : ℕ) : load (store width n) = n % 256 ^ width := by
  induction width generalizing n with
  | zero => simp [store, Nat.mod_one]
  | succ width ih =>
    calc load (store (width + 1) n)
        = n % 256 + 256 * (n / 256 % 256 ^ width) := by rw [store, load_cons, ih, UInt8.toNat_ofNat']
      _ = n % 256 ^ (width + 1) := by rw [pow_succ', Nat.mod_mul]

theorem load_store_of_lt {width n : ℕ} (h : n < 256 ^ width) : load (store width n) = n := by
  rw [load_store, Nat.mod_eq_of_lt h]

theorem toNat_lt_of_mem {d : ℕ} (h : d ∈ bytes.map UInt8.toNat) : d < 256 := by
  obtain ⟨x, -, rfl⟩ := List.mem_map.1 h
  exact x.toNat_lt

theorem load_lt (bytes : List UInt8) : load bytes < 256 ^ bytes.length := by
  rw [← List.length_map (f := UInt8.toNat)]
  exact Nat.ofDigits_lt_base_pow_length (by norm_num) fun d hd => toNat_lt_of_mem hd

theorem load_inj (hlength : a.length = b.length) : load a = load b ↔ a = b := by
  refine ⟨fun h => ?_, congrArg load⟩
  have hmap : a.map UInt8.toNat = b.map UInt8.toNat :=
    Nat.ofDigits_inj_of_len_eq (by norm_num) (by simp [hlength]) (fun _ => toNat_lt_of_mem) (fun _ => toNat_lt_of_mem) h
  exact List.map_injective_iff.2 (fun _ _ => UInt8.toNat_inj.1) hmap

end Core.LittleEndian
