/-
Lean model of `Random` (`bboy/base/random.h`): `Reset`, `Next`, `Uniform` and `ReservoirSample`.

Words are fixed-width, as in the source. `ReservoirSample` is written over any source of numbers; `Random` is one, and a
stream of numbers is another.

- `fold_eq`: the first reduction keeps the residue and stays below twice the modulus.
- `lehmer`: in every run of `Reset` and `Next` the state stays between 1 and 2^31-2, and `Next` is one exact step of the
  multiplicative congruential generator.
- `reservoirSample_eq`: what the loop computes, from the elements that may be sampled and the slots they draw.
- `runs_sampled`: size, origin and distinctness of a sample, for every source of numbers.
- `order_exact`: the sample is in the order of the collection exactly when the draws settle; `order_broken` is a sample
  that is not.
-/
import Mathlib.Tactic

namespace Bboy

/-- `Random`, by its state -/
structure Random where
  seed : UInt32
  deriving DecidableEq, Repr

namespace Random

/-! ## `Reset` and `Next` -/

/-- `random_internal::M`, which is 2^31-1 -/
def M : UInt32 := 2147483647

def reset (s : UInt32) : Random :=
  let seed := s &&& 0x7fffffff
  ⟨if seed = 0 ∨ seed = M then 1 else seed⟩

/-- `seed_ * A`, in 64 bits -/
def product (g : Random) : UInt64 := g.seed.toUInt64 * 16807

/-- the first reduction of the product: `(x << 31) % M == x` -/
def fold (g : Random) : UInt32 := ((g.product >>> 31) + (g.product &&& M.toUInt64)).toUInt32

/-- `Next`: the number and the state after it -/
def next (g : Random) : UInt32 × Random :=
  let seed := if g.fold > M then g.fold - M else g.fold
  (seed, ⟨seed⟩)

inductive Op where
  | reset (s : UInt32)
  | next
  deriving DecidableEq, Repr

def step (g : Random) : Op → Random
  | .reset s => reset s
  | .next => g.next.2

def run (s : UInt32) (ops : List Op) : Random := ops.foldl step (reset s)

/-! ## The modulus -/

variable {g : Random}

/-- a state from which the generator goes on: neither 0 nor the modulus -/
def Good (g : Random) : Prop := 1 ≤ g.seed.toNat ∧ g.seed.toNat ≤ 2 ^ 31 - 2

theorem toNat_M : M.toNat = 2 ^ 31 - 1 := rfl

theorem good_reset (s : UInt32) : (reset s).Good := by
  have hmask : (s &&& 0x7fffffff).toNat = s.toNat % 2 ^ 31 := by
    rw [UInt32.toNat_and]
    exact Nat.and_two_pow_sub_one_eq_mod s.toNat 31
  have hlt : s.toNat % 2 ^ 31 < 2 ^ 31 := Nat.mod_lt _ (by norm_num)
  unfold reset Good
  by_cases hbad : s &&& 0x7fffffff = 0 ∨ s &&& 0x7fffffff = M
  · simp [hbad]
  · obtain ⟨hzero, hM⟩ := not_or.1 hbad
    rw [← UInt32.toNat_inj] at hzero hM
    simp only [if_neg hbad, hmask, UInt32.toNat_zero, toNat_M] at hzero hM ⊢
    omega

/-- the product of two words fits -/
theorem toNat_product (g : Random) : g.product.toNat = g.seed.toNat * 16807 := by
  have hlt := g.seed.toNat_lt
  rw [product, UInt64.toNat_mul]
  simp only [UInt32.toNat_toUInt64, UInt64.reduceToNat]
  exact Nat.mod_eq_of_lt (by omega)

/-- **The first reduction**: it splits the product at bit 31 and adds the parts, which does not overflow -/
theorem fold_eq (g : Random) :
    g.fold.toNat = g.seed.toNat * 16807 / 2 ^ 31 + g.seed.toNat * 16807 % 2 ^ 31 := by
  have hlt := g.seed.toNat_lt
  have hhigh : (g.product >>> 31).toNat = g.seed.toNat * 16807 / 2 ^ 31 := by
    rw [UInt64.toNat_shiftRight, toNat_product]
    simp [Nat.shiftRight_eq_div_pow]
  have hlow : (g.product &&& M.toUInt64).toNat = g.seed.toNat * 16807 % 2 ^ 31 := by
    rw [UInt64.toNat_and, toNat_product]
    exact Nat.and_two_pow_sub_one_eq_mod _ 31
  rw [fold, UInt64.toNat_toUInt32, UInt64.toNat_add, hhigh, hlow]
  omega

/-- the multiplier and the modulus are coprime, so that no state leads to 0 -/
theorem mul_mod_ne_zero {n : ℕ} (hpos : 1 ≤ n) (hle : n ≤ 2 ^ 31 - 2) : 16807 * n % (2 ^ 31 - 1) ≠ 0 := by
  have hlt : n < 2 ^ 31 - 1 := by omega
  intro h
  have hcoprime : Nat.Coprime (2 ^ 31 - 1) 16807 := by norm_num
  have hdvd := hcoprime.dvd_of_dvd_mul_left (Nat.dvd_of_mod_eq_zero h)
  exact absurd (Nat.le_of_dvd hpos hdvd) (not_le.2 hlt)

/-- the sum is the product, modulo 2^31-1 -/
theorem fold_mod (g : Random) : g.fold.toNat % (2 ^ 31 - 1) = 16807 * g.seed.toNat % (2 ^ 31 - 1) := by
  rw [fold_eq, Nat.mul_comm 16807]
  generalize g.seed.toNat * 16807 = p
  omega

/-- the sum is never the modulus, and it is below twice the modulus -/
theorem fold_range (h : g.Good) : g.fold.toNat ≠ 2 ^ 31 - 1 ∧ g.fold.toNat < 2 * (2 ^ 31 - 1) := by
  obtain ⟨hpos, hle⟩ := h
  constructor
  · intro hfold
    have hzero := fold_mod g
    rw [hfold, Nat.mod_self] at hzero
    exact mul_mod_ne_zero hpos hle hzero.symm
  · have hhigh : g.seed.toNat * 16807 / 2 ^ 31 < 16807 := Nat.div_lt_of_lt_mul (by omega)
    have hlow : g.seed.toNat * 16807 % 2 ^ 31 < 2 ^ 31 := Nat.mod_lt _ (by norm_num)
    rw [fold_eq]
    omega

/-- `Next` multiplies modulo 2^31-1 -/
theorem toNat_next (h : g.Good) : g.next.1.toNat = 16807 * g.seed.toNat % (2 ^ 31 - 1) := by
  obtain ⟨hne, hlt⟩ := fold_range h
  rw [← fold_mod]
  unfold next
  by_cases hbig : g.fold > M
  · have hgt : 2 ^ 31 - 1 < g.fold.toNat := hbig
    have hsmall : g.fold.toNat - (2 ^ 31 - 1) < 2 ^ 31 - 1 := by omega
    simp only [if_pos hbig]
    calc (g.fold - M).toNat
        = g.fold.toNat - (2 ^ 31 - 1) := by rw [UInt32.toNat_sub_of_le _ _ (UInt32.le_of_lt hbig), toNat_M]
      _ = (g.fold.toNat - (2 ^ 31 - 1)) % (2 ^ 31 - 1) := (Nat.mod_eq_of_lt hsmall).symm
      _ = g.fold.toNat % (2 ^ 31 - 1) := (Nat.mod_eq_sub_mod hgt.le).symm
  · have hle : g.fold.toNat ≤ 2 ^ 31 - 1 := not_lt.1 hbig
    simp only [if_neg hbig]
    exact (Nat.mod_eq_of_lt (lt_of_le_of_ne hle hne)).symm

theorem good_next (h : g.Good) : g.next.2.Good := by
  have hnext : g.next.2.seed.toNat = 16807 * g.seed.toNat % (2 ^ 31 - 1) := toNat_next h
  have hne := mul_mod_ne_zero h.1 h.2
  have hlt := Nat.mod_lt (16807 * g.seed.toNat) (show 2 ^ 31 - 1 > 0 by norm_num)
  rw [Good, hnext]
  generalize 16807 * g.seed.toNat % (2 ^ 31 - 1) = r at hne hlt ⊢
  omega

theorem good_step (h : g.Good) (op : Op) : (g.step op).Good :=
  match op with
  | .reset s => good_reset s
  | .next => good_next h

theorem good_run (s : UInt32) (ops : List Op) : (run s ops).Good := by
  induction ops using List.reverseRecOn with
  | nil => exact good_reset s
  | append_singleton ops op ih =>
    rw [run, List.foldl_append]
    exact good_step ih op

/-- **The generator.** After any resets and numbers, the state is neither 0 nor the modulus; the next number is the state
multiplied modulo 2^31-1, it is not 0, and it is the state from then on; no operation of `Next` overflows, and the first
reduction leaves at most one subtraction. -/
theorem lehmer (s : UInt32) (ops : List Op) :
    let g := run s ops
    (1 ≤ g.seed.toNat ∧ g.seed.toNat ≤ 2 ^ 31 - 2) ∧
    g.next.1.toNat = 16807 * g.seed.toNat % (2 ^ 31 - 1) ∧ g.next.1.toNat ≠ 0 ∧ g.next.2.seed = g.next.1 ∧
    g.product.toNat = g.seed.toNat * 16807 ∧
    g.fold.toNat = g.product.toNat / 2 ^ 31 + g.product.toNat % 2 ^ 31 ∧
    g.fold.toNat ≠ 2 ^ 31 - 1 ∧ g.fold.toNat < 2 * (2 ^ 31 - 1) := by
  intro g
  have hgood : g.Good := good_run s ops
  refine ⟨hgood, toNat_next hgood, ?_, rfl, toNat_product g, ?_, fold_range hgood⟩
  · rw [toNat_next hgood]
    exact mul_mod_ne_zero hgood.1 hgood.2
  · rw [fold_eq, toNat_product]

/-! ## `ReservoirSample` -/

section Sampling

variable {σ T U : Type*} (next : σ → UInt32 × σ)

/-- `Uniform(n)` -/
def uniform (n : ℕ) (g : σ) : ℕ × σ := ((next g).1.toNat % n, (next g).2)

/-- the loop over the collection; it is undefined once the counter `i`, an `int`, overflows -/
def sampleFrom (k : ℕ) (avoid : T → Bool) : List T → ℕ → σ → List T → Option (List T × σ)
  | [], _, g, result => some (result, g)
  | elem :: c, i, g, result =>
    if avoid elem then sampleFrom k avoid c i g result
    else if i + 1 = 2 ^ 31 then none
    else if result.length < k then sampleFrom k avoid c (i + 1) g (result ++ [elem])
    else
      let (j, g) := uniform next (i + 1) g
      sampleFrom k avoid c (i + 1) g (if j < k then result.set j elem else result)

/-- `ReservoirSample`, from a generator in state `g`: the result, and the state after it -/
def reservoirSample (c : List T) (k : ℕ) (avoid : T → Bool) (g : σ) : Option (List T × σ) :=
  sampleFrom next k avoid c 0 g []

/-- the slots that the elements after the first `i` draw -/
def draws : ℕ → ℕ → σ → List ℕ
  | _, 0, _ => []
  | i, n + 1, g =>
    let (j, g) := uniform next (i + 1) g
    j :: draws (i + 1) n g

/-- elements put into the slots they draw -/
def replace (k : ℕ) : List T → List ℕ → List T → List T
  | elem :: c, j :: js, result => replace k c js (if j < k then result.set j elem else result)
  | _, _, result => result

/-- the elements that may be sampled -/
def eligible (avoid : T → Bool) (c : List T) : List T := c.filter fun elem => !avoid elem

variable {next} {k i : ℕ} {avoid : T → Bool} {c : List T} {g : σ} {result : List T}

/-- elements to avoid change nothing -/
theorem sampleFrom_eligible (k : ℕ) (avoid : T → Bool) (c : List T) (i : ℕ) (g : σ) (result : List T) :
    sampleFrom next k avoid c i g result = sampleFrom next k (fun _ => false) (eligible avoid c) i g result := by
  induction c generalizing i g result with
  | nil => rfl
  | cons elem c ih =>
    by_cases h : avoid elem
    · rw [eligible, List.filter_cons_of_neg (by simp [h]), sampleFrom, if_pos h]
      exact ih i g result
    · rw [eligible, List.filter_cons_of_pos (by simp [h])]
      simp only [sampleFrom, if_neg h, Bool.false_eq_true, if_false, ih]
      rfl

/-- the loop looks at the elements only through `avoid` -/
theorem sampleFrom_map (next : σ → UInt32 × σ) (k : ℕ) (f : T → U) (avoid : U → Bool) (c : List T) (i : ℕ) (g : σ) (result : List T) :
    sampleFrom next k avoid (c.map f) i g (result.map f) =
      (sampleFrom next k (fun elem => avoid (f elem)) c i g result).map (Prod.map (List.map f) id) := by
  induction c generalizing i g result with
  | nil => rfl
  | cons elem c ih =>
    have hslot : ∀ j, (if j < k then (result.map f).set j (f elem) else result.map f) =
        (if j < k then result.set j elem else result).map f := by
      intro j
      split_ifs <;> simp
    have happend : result.map f ++ [f elem] = (result ++ [elem]).map f := by simp
    simp only [List.map_cons, sampleFrom, List.length_map, hslot, happend, ih]
    split_ifs <;> rfl

/-- the counter overflows when too many elements may be sampled -/
theorem sampleFrom_overflow (hi : i < 2 ^ 31) (h : 2 ^ 31 ≤ i + c.length) :
    sampleFrom next k (fun _ => false) c i g result = none := by
  induction c generalizing i g result with
  | nil => exact absurd hi (not_lt.2 h)
  | cons elem c ih =>
    rw [sampleFrom, if_neg Bool.false_ne_true]
    by_cases hlast : i + 1 = 2 ^ 31
    · rw [if_pos hlast]
    · have hnext : i + 1 < 2 ^ 31 := by omega
      have hrest : 2 ^ 31 ≤ i + 1 + c.length := by
        rw [List.length_cons] at h
        omega
      simp only [if_neg hlast, ih hnext hrest, ite_self]

/-- the reservoir is filled -/
theorem sampleFrom_append (hroom : result.length + c.length ≤ k) (hi : i + c.length < 2 ^ 31) (rest : List T) :
    sampleFrom next k (fun _ => false) (c ++ rest) i g result =
      sampleFrom next k (fun _ => false) rest (i + c.length) g (result ++ c) := by
  induction c generalizing i result with
  | nil => simp
  | cons elem c ih =>
    rw [List.length_cons] at hroom hi
    rw [List.cons_append, sampleFrom, if_neg Bool.false_ne_true, if_neg (by omega), if_pos (by omega),
      ih (by simp; omega) (by omega), List.append_assoc, List.length_cons]
    rw [Nat.add_right_comm, Nat.add_assoc, List.singleton_append]

/-- in a full reservoir every further element is put into the slot it draws -/
theorem sampleFrom_full (hfull : result.length = k) (hi : i + c.length < 2 ^ 31) :
    ∃ g', sampleFrom next k (fun _ => false) c i g result =
      some (replace k c (draws next i c.length g) result, g') := by
  induction c generalizing i g result with
  | nil => exact ⟨g, rfl⟩
  | cons elem c ih =>
    rw [List.length_cons] at hi
    rw [sampleFrom, if_neg Bool.false_ne_true, if_neg (by omega), if_neg (by omega)]
    exact ih (by split_ifs <;> simp [hfull]) (by omega)

/-- **What the loop computes**: the first `k` elements that may be sampled, then each other one in the slot it draws -/
theorem reservoirSample_eq (next : σ → UInt32 × σ) (k : ℕ) (g : σ) (h : (eligible avoid c).length < 2 ^ 31) :
    ∃ g', reservoirSample next c k avoid g =
      some (replace k ((eligible avoid c).drop k) (draws next k ((eligible avoid c).length - k) g)
        ((eligible avoid c).take k), g') := by
  rw [reservoirSample, sampleFrom_eligible]
  generalize eligible avoid c = e at h
  have hfill : sampleFrom next k (fun _ => false) (e.take k ++ e.drop k) 0 g [] =
      sampleFrom next k (fun _ => false) (e.drop k) (0 + (e.take k).length) g ([] ++ e.take k) :=
    sampleFrom_append (by simp) (by simp; omega) (e.drop k)
  rw [List.take_append_drop, List.nil_append, Nat.zero_add] at hfill
  rw [hfill]
  by_cases hk : k ≤ e.length
  · have hlength : (e.take k).length = k := by simp [hk]
    have hi : k + (e.drop k).length < 2 ^ 31 := by
      rw [List.length_drop]
      omega
    rw [hlength, ← List.length_drop]
    exact sampleFrom_full hlength hi
  · rw [List.drop_eq_nil_of_le (by omega)]
    exact ⟨g, by simp [sampleFrom, replace]⟩

theorem reservoirSample_isSome : (reservoirSample next c k avoid g).isSome ↔ (eligible avoid c).length < 2 ^ 31 := by
  by_cases h : (eligible avoid c).length < 2 ^ 31
  · obtain ⟨g', hg'⟩ := reservoirSample_eq next k g h
    exact iff_of_true (by simp [hg']) h
  · rw [reservoirSample, sampleFrom_eligible, sampleFrom_overflow (by norm_num) (by omega)]
    exact iff_of_false (by simp) h

/-! ## Order and distinctness -/

/-- a slot that is drawn has every slot behind it drawn again afterwards -/
def Settled (k : ℕ) : List ℕ → Prop
  | [] => True
  | j :: js => (∀ b < k, j < b → b ∈ js) ∧ Settled k js

/-- a replacement in a slot leaves a part of what was there, and the element -/
theorem set_subperm (result : List T) (j : ℕ) (elem : T) : List.Subperm (result.set j elem) (elem :: result) := by
  by_cases hj : j < result.length
  · rw [List.set_eq_take_append_cons_drop, if_pos hj]
    have hperm : (result.take j ++ elem :: result.drop (j + 1)).Perm (elem :: result.eraseIdx j) := by
      rw [List.eraseIdx_eq_take_drop_succ]
      exact List.perm_middle
    exact hperm.subperm.trans ((List.eraseIdx_sublist _ _).cons_cons elem).subperm
  · rw [List.set_eq_of_length_le (by omega)]
    exact (List.sublist_cons_self elem result).subperm

/-- the reservoir holds different elements of those it was given -/
theorem replace_subperm (c : List T) (js : List ℕ) (result : List T) :
    List.Subperm (replace k c js result) (result ++ c) := by
  induction c generalizing js result with
  | nil => exact (List.sublist_append_left _ _).subperm
  | cons elem c ih =>
    cases js with
    | nil => exact (List.sublist_append_left _ _).subperm
    | cons j js =>
      have hslot : List.Subperm (if j < k then result.set j elem else result) (elem :: result) := by
        split_ifs
        · exact set_subperm result j elem
        · exact (List.sublist_cons_self elem result).subperm
      refine (ih js _).trans (((List.subperm_append_right c).2 hslot).trans ?_)
      exact List.perm_middle.symm.subperm

theorem length_replace (c : List T) (js : List ℕ) (result : List T) :
    (replace k c js result).length = result.length := by
  induction c generalizing js result with
  | nil => simp [replace]
  | cons elem c ih =>
    cases js with
    | nil => rfl
    | cons j js =>
      rw [replace, ih]
      split_ifs <;> simp

/-- a slot that gets a later element is in order with the slots before it, and out of order with those behind it -/
theorem set_increasing (pos : T → ℕ) {elem : T} {j : ℕ} (js : List ℕ) (hfull : result.length = k)
    (hnew : ∀ a ∈ result, pos a < pos elem) :
    (∀ a b (_ : a < b) (_ : b < (result.set j elem).length),
        pos (result.set j elem)[a] < pos (result.set j elem)[b] ∨ b ∈ js) ↔
      (∀ a b (_ : a < b) (_ : b < result.length), pos result[a] < pos result[b] ∨ b ∈ j :: js) ∧
        ∀ b < k, j < b → b ∈ js := by
  subst hfull
  simp only [List.length_set, List.getElem_set]
  constructor
  · intro h
    refine ⟨fun a b hab hb => ?_, fun b hb hjb => ?_⟩
    · by_cases hjb : j = b
      · exact Or.inr (by simp [hjb])
      · rcases h a b hab hb with hlt | hmem
        · rw [if_neg hjb] at hlt
          by_cases hja : j = a
          · rw [if_pos hja] at hlt
            exact absurd hlt (hnew _ (List.getElem_mem hb)).not_gt
          · rw [if_neg hja] at hlt
            exact Or.inl hlt
        · exact Or.inr (List.mem_cons_of_mem _ hmem)
    · refine (h j b hjb hb).resolve_left fun hlt => ?_
      rw [if_pos rfl, if_neg hjb.ne] at hlt
      exact absurd hlt (hnew _ (List.getElem_mem hb)).not_gt
  · intro ⟨hold, hdrawn⟩ a b hab hb
    by_cases hja : j = a
    · exact Or.inr (hdrawn b hb (by omega))
    · rw [if_neg hja]
      by_cases hjb : j = b
      · rw [if_pos hjb]
        exact Or.inl (hnew _ (List.getElem_mem _))
      · rw [if_neg hjb]
        refine (hold a b hab hb).imp_right fun hmem => ?_
        exact (List.mem_cons.1 hmem).resolve_left (Ne.symm hjb)

/-- the order of the reservoir, for elements that come from increasing positions -/
theorem pairwise_replace (pos : T → ℕ) {js : List ℕ} (hlength : js.length = c.length) (hfull : result.length = k)
    (hbehind : ∀ a ∈ result, ∀ b ∈ c, pos a < pos b) (hc : c.Pairwise fun a b => pos a < pos b) :
    (replace k c js result).Pairwise (fun a b => pos a < pos b) ↔
      (∀ a b (_ : a < b) (_ : b < result.length), pos result[a] < pos result[b] ∨ b ∈ js) ∧ Settled k js := by
  induction c generalizing js result with
  | nil =>
    rw [List.eq_nil_of_length_eq_zero hlength, replace, List.pairwise_iff_getElem]
    · simp only [List.not_mem_nil, or_false, Settled, and_true]
      exact ⟨fun h a b hab hb => h a b (by omega) hb hab, fun h a b _ hb hab => h a b hab hb⟩
    · simp
  | cons elem c ih =>
    match js, hlength with
    | j :: js, hlength =>
      obtain ⟨helem, hrest⟩ := List.pairwise_cons.1 hc
      have hnew : ∀ a ∈ result, pos a < pos elem := fun a ha => hbehind a ha elem List.mem_cons_self
      by_cases hj : j < k
      · have hmem : ∀ a ∈ result.set j elem, ∀ b ∈ c, pos a < pos b := by
          intro a ha b hb
          rcases List.mem_or_eq_of_mem_set ha with ha | rfl
          · exact hbehind a ha b (List.mem_cons_of_mem _ hb)
          · exact helem b hb
        rw [replace, if_pos hj, ih (by simpa using hlength) (by simpa using hfull) hmem hrest, Settled, ← and_assoc,
          set_increasing pos js hfull hnew]
      · have hmem : ∀ a ∈ result, ∀ b ∈ c, pos a < pos b := fun a ha b hb => hbehind a ha b (List.mem_cons_of_mem _ hb)
        have hslot : ∀ b < result.length, (b ∈ j :: js ↔ b ∈ js) := by
          intro b hb
          rw [List.mem_cons]
          exact or_iff_right (by omega)
        have hvacuous : ∀ b < k, j < b → b ∈ js := fun b hb hjb => absurd (hjb.trans hb) hj
        rw [replace, if_neg hj, ih (by simpa using hlength) hfull hmem hrest, Settled, and_iff_right hvacuous]
        refine and_congr_left fun _ => forall₂_congr fun a b => forall₂_congr fun _ hb => ?_
        rw [hslot b hb]

theorem length_draws (i n : ℕ) (g : σ) : (draws next i n g).length = n := by
  induction n generalizing i g with
  | zero => rfl
  | succ n ih => rw [draws, List.length_cons, ih]

/-- the elements that may be sampled, with their positions -/
theorem eligible_zipIdx (avoid : T → Bool) (c : List T) :
    (eligible (fun e : T × ℕ => avoid e.1) c.zipIdx).map Prod.fst = eligible avoid c := by
  have hfst : c.zipIdx.map Prod.fst = c := List.zipIdx_map_fst 0 c
  conv_rhs => rw [eligible, ← hfst, List.filter_map]
  rfl

theorem eligible_increasing (avoid : T → Bool) (c : List T) :
    (eligible (fun e : T × ℕ => avoid e.1) c.zipIdx).Pairwise fun a b => a.2 < b.2 := by
  refine List.Pairwise.filter _ (List.pairwise_map.1 ?_)
  rw [List.zipIdx_map_snd]
  exact List.pairwise_lt_range'

/-- what a sample is: `sample` has each element of the result with the position it was copied from -/
structure Sampled (elements : List T) (k : ℕ) (avoid : T → Bool) (sample : List (T × ℕ)) : Prop where
  length : sample.length = min k (eligible avoid elements).length
  source : ∀ e ∈ sample, elements[e.2]? = some e.1 ∧ avoid e.1 = false
  distinct : (sample.map Prod.snd).Nodup

/-- the run over the elements with their positions, and the run itself -/
def Runs (next : σ → UInt32 × σ) (c : List T) (k : ℕ) (avoid : T → Bool) (g : σ) (sample : List (T × ℕ)) : Prop :=
  ∃ g', reservoirSample next c.zipIdx k (fun e => avoid e.1) g = some (sample, g') ∧
    reservoirSample next c k avoid g = some (sample.map Prod.fst, g')

theorem Runs.unique {s t : List (T × ℕ)} (hs : Runs next c k avoid g s) (ht : Runs next c k avoid g t) : s = t := by
  obtain ⟨_, hs, _⟩ := hs
  obtain ⟨_, ht, _⟩ := ht
  rw [ht, Option.some.injEq, Prod.mk.injEq] at hs
  exact hs.1.symm

theorem runs_of_lt (h : (eligible avoid c).length < 2 ^ 31) :
    let e := eligible (fun e : T × ℕ => avoid e.1) c.zipIdx
    Runs next c k avoid g (replace k (e.drop k) (draws next k (e.length - k) g) (e.take k)) := by
  intro e
  have hlength : e.length = (eligible avoid c).length := by rw [← eligible_zipIdx, List.length_map]
  obtain ⟨g', hg'⟩ := reservoirSample_eq next k g (hlength ▸ h : e.length < 2 ^ 31)
  refine ⟨g', hg', ?_⟩
  have hmap := sampleFrom_map next k Prod.fst avoid c.zipIdx 0 g []
  rw [List.zipIdx_map_fst, List.map_nil] at hmap
  rw [reservoirSample, hmap]
  exact congrArg _ hg'

/-- **The sample**: it has the right size, and no position twice; nothing in it is to be avoided -/
theorem runs_sampled (next : σ → UInt32 × σ) (k : ℕ) (g : σ) (h : (eligible avoid c).length < 2 ^ 31) :
    ∃ sample, Runs next c k avoid g sample ∧ Sampled c k avoid sample := by
  refine ⟨_, runs_of_lt h, ?_, ?_, ?_⟩
  · rw [length_replace, List.length_take, ← eligible_zipIdx avoid c, List.length_map]
  · intro e he
    have hmem := (replace_subperm _ _ _).subset he
    rw [List.take_append_drop, eligible, List.mem_filter] at hmem
    exact ⟨List.mk_mem_zipIdx_iff_getElem?.1 hmem.1, by simpa using hmem.2⟩
  · obtain ⟨l, hperm, hsub⟩ := replace_subperm (k := k) ((eligible (fun e : T × ℕ => avoid e.1) c.zipIdx).drop k)
      (draws next k _ g) ((eligible (fun e : T × ℕ => avoid e.1) c.zipIdx).take k)
    rw [List.take_append_drop] at hsub
    refine (hperm.map Prod.snd).nodup_iff.1 ((hsub.map Prod.snd).nodup ?_)
    exact (List.pairwise_map.2 (eligible_increasing avoid c)).imp ne_of_lt

/-- the reservoir is in order exactly when the draws settle -/
theorem pairwise_reservoir (next : σ → UInt32 × σ) (k : ℕ) {e : List (T × ℕ)} (he : e.Pairwise fun a b => a.2 < b.2) (g : σ) :
    (replace k (e.drop k) (draws next k (e.length - k) g) (e.take k)).Pairwise (fun a b => a.2 < b.2) ↔
      Settled k (draws next k (e.length - k) g) := by
  by_cases hk : k ≤ e.length
  · have hfull : (e.take k).length = k := by simp [hk]
    have hbehind : ∀ a ∈ e.take k, ∀ b ∈ e.drop k, a.2 < b.2 := by
      rw [← List.take_append_drop k e] at he
      exact (List.pairwise_append.1 he).2.2
    have hfirst : ∀ a b (_ : a < b) (_ : b < (e.take k).length),
        (e.take k)[a].2 < (e.take k)[b].2 ∨ b ∈ draws next k (e.length - k) g := fun a b hab hb =>
      Or.inl (List.pairwise_iff_getElem.1 (he.sublist (List.take_sublist k e)) a b (hab.trans hb) hb hab)
    rw [pairwise_replace Prod.snd (by rw [length_draws, List.length_drop]) hfull hbehind
      (he.sublist (List.drop_sublist k e)), and_iff_right hfirst]
  · rw [List.drop_eq_nil_of_le (by omega), List.take_of_length_le (by omega), Nat.sub_eq_zero_of_le (by omega)]
    exact iff_of_true he trivial

/-- **The order of a sample.** The run is defined, and yields a sample in the order of the collection, exactly when fewer
than 2^31 elements may be sampled and every draw that replaces a slot is followed by a draw of each slot behind it. -/
theorem order_exact (next : σ → UInt32 × σ) (c : List T) (k : ℕ) (avoid : T → Bool) (g : σ) :
    (∃ sample, Runs next c k avoid g sample ∧ Sampled c k avoid sample ∧ (sample.map Prod.snd).Pairwise (· < ·)) ↔
      (eligible avoid c).length < 2 ^ 31 ∧ Settled k (draws next k ((eligible avoid c).length - k) g) := by
  have horder := pairwise_reservoir next k (eligible_increasing avoid c) g
  have hlength := congrArg List.length (eligible_zipIdx avoid c)
  rw [List.length_map] at hlength
  constructor
  · intro ⟨sample, hruns, _, hpairwise⟩
    obtain ⟨g', _, hrun⟩ := id hruns
    have hlt : (eligible avoid c).length < 2 ^ 31 := reservoirSample_isSome.1 (by rw [hrun]; rfl)
    rw [hruns.unique (runs_of_lt hlt), List.pairwise_map, horder, hlength] at hpairwise
    exact ⟨hlt, hpairwise⟩
  · intro ⟨hlt, hsettled⟩
    obtain ⟨sample, hruns, hsampled⟩ := runs_sampled next k g hlt
    refine ⟨sample, hruns, hsampled, ?_⟩
    rw [hruns.unique (runs_of_lt hlt), List.pairwise_map, horder, hlength]
    exact hsettled

/-- **A sample out of order**: of three elements two are sampled, and the third one takes the place of the first -/
theorem order_broken : ¬ ∃ sample, Runs Random.next [10, 20, 30] 2 (fun _ => false) (reset 3) sample ∧
    Sampled [10, 20, 30] 2 (fun _ => false) sample ∧ (sample.map Prod.snd).Pairwise (· < ·) := by
  have hsample : Runs Random.next [10, 20, 30] 2 (fun _ => false) (reset 3) [(30, 2), (20, 1)] :=
    ⟨⟨50421⟩, by decide, by decide⟩
  intro ⟨sample, hruns, _, hpairwise⟩
  rw [hruns.unique hsample] at hpairwise
  exact absurd hpairwise (by decide)

end Sampling

end Random
end Bboy
