import Mathlib.Data.List.Nodup
import Mathlib.Data.List.Perm.Basic
import Mathlib.Data.Nat.Bitwise

/-! Hash tables with open addressing: a search goes from the home of a key around the table until
it meets a free slot or the entry it looks for. -/
namespace OneBrc.Lib.OpenAddressing
variable {ε κ : Type*}

/-- The first index from `i` on at which a search stops. -/
def probe (stop : ℕ → Bool) (mask : ℕ) : ℕ → ℕ → Option ℕ
  | 0, _ => none
  | fuel + 1, i => if stop i then some i else probe stop mask fuel ((i + 1) &&& mask)

section Probe
variable {stop stop' : ℕ → Bool} {mask fuel i j : ℕ}

theorem stop_of_probe (h : probe stop mask fuel i = some j) : stop j = true := by
  induction fuel generalizing i with
  | zero => simp [probe] at h
  | succ fuel ih =>
    rw [probe] at h
    split at h
    · next hi =>
      obtain rfl := Option.some.inj h
      exact hi
    · exact ih h

/-- A search that stops nowhere earlier takes the same way. -/
theorem probe_mono (h : probe stop mask fuel i = some j) (hj : stop' j = true)
    (hle : ∀ k, k ≠ j → stop' k = true → stop k = true) : probe stop' mask fuel i = some j := by
  induction fuel generalizing i with
  | zero => simp [probe] at h
  | succ fuel ih =>
    rw [probe] at h ⊢
    split at h
    · obtain rfl := Option.some.inj h
      rw [if_pos hj]
    · next hi =>
      have hij : i ≠ j := by
        rintro rfl
        exact hi (stop_of_probe h)
      rw [if_neg fun hi' => hi (hle i hij hi')]
      exact ih h

theorem probe_congr (h : ∀ k, stop k = stop' k) :
    probe stop mask fuel i = probe stop' mask fuel i := by
  rw [funext h]

theorem probe_le (h : probe stop mask fuel i = some j) (hi : i ≤ mask) : j ≤ mask := by
  induction fuel generalizing i with
  | zero => simp [probe] at h
  | succ fuel ih =>
    rw [probe] at h
    split at h
    · obtain rfl := Option.some.inj h
      exact hi
    · exact ih h Nat.and_le_right

/-- Every index the fuel reaches has been passed by a search that found nothing. -/
theorem stop_of_probe_eq_none {k : ℕ} (h : probe stop (2 ^ k - 1) fuel i = none) (hi : i < 2 ^ k)
    {d : ℕ} (hd : d < fuel) : stop ((i + d) % 2 ^ k) = false := by
  induction fuel generalizing i d with
  | zero => omega
  | succ fuel ih =>
    rw [probe] at h
    split at h
    · cases h
    · next hstop =>
      cases d with
      | zero =>
        rw [Nat.add_zero, Nat.mod_eq_of_lt hi]
        simpa using hstop
      | succ d =>
        rw [Nat.and_two_pow_sub_one_eq_mod] at h
        have hstep := ih h (Nat.mod_lt _ (Nat.two_pow_pos k)) (Nat.lt_of_succ_lt_succ hd)
        rwa [Nat.mod_add_mod, show i + 1 + d = i + (d + 1) by omega] at hstep

theorem exists_probe {k : ℕ} (hi : i < 2 ^ k) (hj : j < 2 ^ k) (hstop : stop j = true) :
    ∃ l, probe stop (2 ^ k - 1) (2 ^ k) i = some l := by
  by_contra hnone
  have h : probe stop (2 ^ k - 1) (2 ^ k) i = none := by
    cases hp : probe stop (2 ^ k - 1) (2 ^ k) i with
    | none => rfl
    | some l => exact absurd ⟨l, hp⟩ hnone
  -- the distance from `i` to `j` around the table
  have hfalse := stop_of_probe_eq_none h hi (Nat.mod_lt (j + (2 ^ k - i)) (Nat.two_pow_pos k))
  rw [Nat.add_mod_mod, show i + (j + (2 ^ k - i)) = j + 2 ^ k by omega, Nat.add_mod_right,
    Nat.mod_eq_of_lt hj, hstop] at hfalse
  cases hfalse

/-- The way to the index at which a search stops. -/
theorem exists_distance_of_probe {k : ℕ} (h : probe stop (2 ^ k - 1) fuel i = some j)
    (hi : i < 2 ^ k) :
    ∃ d < fuel, j = (i + d) % 2 ^ k ∧ ∀ d' < d, stop ((i + d') % 2 ^ k) = false := by
  induction fuel generalizing i with
  | zero => simp [probe] at h
  | succ fuel ih =>
    rw [probe] at h
    split at h
    · obtain rfl := Option.some.inj h
      exact ⟨0, Nat.succ_pos _, by rw [Nat.add_zero, Nat.mod_eq_of_lt hi], by simp⟩
    · next hstop =>
      rw [Nat.and_two_pow_sub_one_eq_mod] at h
      obtain ⟨d, hd, hj, hbefore⟩ := ih h (Nat.mod_lt _ (Nat.two_pow_pos k))
      refine ⟨d + 1, Nat.succ_lt_succ hd, ?_, ?_⟩
      · rw [hj, Nat.mod_add_mod, show i + 1 + d = i + (d + 1) by omega]
      · intro d' hd'
        cases d' with
        | zero =>
          rw [Nat.add_zero, Nat.mod_eq_of_lt hi]
          simpa using hstop
        | succ d' =>
          have hpassed := hbefore d' (Nat.lt_of_succ_lt_succ hd')
          rwa [Nat.mod_add_mod, show i + 1 + d' = i + (d' + 1) by omega] at hpassed

end Probe

/-- A search ends at a free slot and at an entry it looks for. -/
def stops (free same : ε → Bool) (slots : List ε) (i : ℕ) : Bool :=
  match slots[i]? with
  | some e => free e || same e
  | none => true

/-- The slot at which the search for an entry ends. -/
def locate (free same : ε → Bool) (slots : List ε) (hash : ℕ) : Option ℕ :=
  probe (stops free same slots) (slots.length - 1) slots.length (hash &&& (slots.length - 1))

/-- The entries of the slots that are not free. -/
def live (free : ε → Bool) (slots : List ε) : List ε := slots.filter fun e => !free e

/-- A table whose length is a power of two and in which a search finds every entry. -/
structure Sound [DecidableEq κ] (free : ε → Bool) (keyOf : ε → κ) (hash : κ → ℕ)
    (slots : List ε) : Prop where
  length_eq : ∃ k, slots.length = 2 ^ k
  reach : ∀ i e, slots[i]? = some e → free e = false →
    locate free (fun f => decide (keyOf f = keyOf e)) slots (hash (keyOf e)) = some i

section Locate
variable {free same same' : ε → Bool} {slots : List ε} {hash i : ℕ}

theorem mem_live {e : ε} : e ∈ live free slots ↔ e ∈ slots ∧ free e = false := by
  simp [live]

theorem stops_congr (h : ∀ e ∈ live free slots, same e = same' e) (i : ℕ) :
    stops free same slots i = stops free same' slots i := by
  unfold stops
  split
  · next e he =>
    cases hfree : free e with
    | true => rfl
    | false => rw [h e (mem_live.mpr ⟨List.mem_of_getElem? he, hfree⟩)]
  · rfl

/-- Only what the search says of the entries in the table counts. -/
theorem locate_congr (h : ∀ e ∈ live free slots, same e = same' e) :
    locate free same slots hash = locate free same' slots hash :=
  probe_congr (stops_congr h)

/-- A search in the image of a table. -/
theorem locate_map {ε' : Type*} {f : ε' → ε} {free' same' : ε' → Bool} {slots : List ε'}
    (hfree : ∀ e ∈ slots, free (f e) = free' e) (hsame : ∀ e ∈ slots, same (f e) = same' e) :
    locate free same (slots.map f) hash = locate free' same' slots hash := by
  unfold locate
  rw [List.length_map]
  apply probe_congr
  intro i
  unfold stops
  rw [List.getElem?_map]
  cases he : slots[i]? with
  | none => rfl
  | some e =>
    have hmem := List.mem_of_getElem? he
    simp only [Option.map_some, hfree e hmem, hsame e hmem]

theorem stops_of_locate (h : locate free same slots hash = some i) :
    stops free same slots i = true := stop_of_probe h

theorem locate_lt (hpow : ∃ k, slots.length = 2 ^ k) (h : locate free same slots hash = some i) :
    i < slots.length := by
  obtain ⟨k, hk⟩ := hpow
  have hle := probe_le h Nat.and_le_right
  have hpos := Nat.two_pow_pos k
  omega

/-- A search ends when there is a free slot. -/
theorem exists_locate (hpow : ∃ k, slots.length = 2 ^ k)
    (hfree : (live free slots).length < slots.length) :
    ∃ i, locate free same slots hash = some i := by
  obtain ⟨k, hk⟩ := hpow
  obtain ⟨e, he, hfe⟩ : ∃ e ∈ slots, free e = true := by
    by_contra hall
    have hlive : live free slots = slots := by
      apply List.filter_eq_self.mpr
      intro e he
      cases hfe : free e with
      | true => exact absurd ⟨e, he, hfe⟩ hall
      | false => rfl
    rw [hlive] at hfree
    exact Nat.lt_irrefl _ hfree
  obtain ⟨j, hj, hje⟩ := List.mem_iff_getElem.mp he
  have hstop : stops free same slots j = true := by
    simp [stops, List.getElem?_eq_getElem hj, hje, hfe]
  unfold locate
  rw [hk, Nat.and_two_pow_sub_one_eq_mod]
  rw [hk] at hj
  exact exists_probe (Nat.mod_lt _ (Nat.two_pow_pos k)) hj hstop

/-- Filling a free slot adds one entry. -/
theorem live_set_perm {e f : ε} (hi : slots[i]? = some f) (hf : free f = true)
    (he : free e = false) : (live free (slots.set i e)).Perm (e :: live free slots) := by
  induction slots generalizing i with
  | nil => simp at hi
  | cons g slots ih =>
    cases i with
    | zero =>
      obtain rfl : g = f := by simpa using hi
      simp [live, hf, he]
    | succ i =>
      have hperm := ih (by simpa using hi)
      rw [List.set_cons_succ]
      unfold live at hperm ⊢
      rw [List.filter_cons, List.filter_cons]
      split
      · exact (hperm.cons g).trans (List.Perm.swap e g _)
      · exact hperm

end Locate

namespace Sound
variable [DecidableEq κ] {free : ε → Bool} {keyOf : ε → κ} {hash : κ → ℕ} {slots : List ε}

theorem replicate {e : ε} (he : free e = true) (k : ℕ) :
    Sound free keyOf hash (List.replicate (2 ^ k) e) where
  length_eq := ⟨k, List.length_replicate⟩
  reach i f hf hfree := by
    obtain rfl := List.eq_of_mem_replicate (List.mem_of_getElem? hf)
    rw [he] at hfree
    cases hfree

section Found
variable {k : κ} {i : ℕ} {f : ε}

/-- A search that ends at a free slot is for a key no entry has. -/
theorem ne_of_locate_free (h : Sound free keyOf hash slots)
    (hloc : locate free (fun e => decide (keyOf e = k)) slots (hash k) = some i)
    (hi : slots[i]? = some f) (hf : free f = true) : ∀ e ∈ live free slots, keyOf e ≠ k := by
  rintro e he rfl
  obtain ⟨hmem, hfree⟩ := mem_live.mp he
  obtain ⟨j, hj⟩ := List.mem_iff_getElem?.mp hmem
  have hreach := h.reach j e hj hfree
  rw [hloc] at hreach
  obtain rfl := Option.some.inj hreach
  rw [hi] at hj
  obtain rfl := Option.some.inj hj
  rw [hf] at hfree
  cases hfree

/-- A search that ends at an entry ends at the one with the key. -/
theorem key_of_locate {n : ℕ}
    (hloc : locate free (fun e => decide (keyOf e = k)) slots n = some i)
    (hi : slots[i]? = some f) (hf : free f = false) : keyOf f = k := by
  have hstop := stops_of_locate hloc
  simpa [stops, hi, hf] using hstop

/-- A new key goes to the free slot at which its search ends. -/
theorem set (h : Sound free keyOf hash slots) {e : ε}
    (hloc : locate free (fun g => decide (keyOf g = keyOf e)) slots (hash (keyOf e)) = some i)
    (he : free e = false) : Sound free keyOf hash (slots.set i e) where
  length_eq := by
    rw [List.length_set]
    exact h.length_eq
  reach j e' hj he' := by
    have hlt : i < slots.length := locate_lt h.length_eq hloc
    by_cases hij : i = j
    · subst hij
      obtain rfl : e = e' := by simpa [List.getElem?_set_self hlt] using hj
      unfold locate at hloc ⊢
      rw [List.length_set]
      apply probe_mono hloc
      · simp [stops, List.getElem?_set_self hlt]
      · intro k hk hstop
        rwa [stops, List.getElem?_set_ne (Ne.symm hk)] at hstop
    · rw [List.getElem?_set_ne hij] at hj
      have hreach := h.reach j e' hj he'
      have hne : keyOf e ≠ keyOf e' := by
        intro heq
        rw [heq, hreach] at hloc
        exact hij (Option.some.inj hloc).symm
      unfold locate at hreach ⊢
      rw [List.length_set]
      apply probe_mono hreach
      · simp [stops, List.getElem?_set_ne hij, hj]
      · intro k _ hstop
        by_cases hik : i = k
        · subst hik
          simp [stops, List.getElem?_set_self hlt, he, hne] at hstop
        · rwa [stops, List.getElem?_set_ne hik] at hstop

end Found

/-- From the home of a key no free slot is crossed before its entry. -/
theorem exists_distance (h : Sound free keyOf hash slots) {i : ℕ} {e : ε}
    (hi : slots[i]? = some e) (he : free e = false) :
    ∃ d, i = (hash (keyOf e) + d) % slots.length ∧
      ∀ d' < d, ∃ f, slots[(hash (keyOf e) + d') % slots.length]? = some f ∧ free f = false := by
  obtain ⟨k, hk⟩ := h.length_eq
  have hreach := h.reach i e hi he
  rw [locate, hk, Nat.and_two_pow_sub_one_eq_mod] at hreach
  obtain ⟨d, -, hd, hbefore⟩ :=
    exists_distance_of_probe hreach (Nat.mod_lt _ (Nat.two_pow_pos k))
  rw [Nat.mod_add_mod] at hd
  refine ⟨d, by rw [hk, hd], ?_⟩
  intro d' hd'
  have hpassed := hbefore d' hd'
  rw [Nat.mod_add_mod] at hpassed
  have hlt : (hash (keyOf e) + d') % slots.length < slots.length := by
    rw [hk]
    exact Nat.mod_lt _ (Nat.two_pow_pos k)
  refine ⟨_, List.getElem?_eq_getElem hlt, ?_⟩
  rw [hk] at hlt
  rw [stops, ← hk, List.getElem?_eq_getElem (by rwa [hk])] at hpassed
  exact (Bool.or_eq_false_iff.mp hpassed).1

theorem index_inj (h : Sound free keyOf hash slots) {i j : ℕ} {e f : ε}
    (hi : slots[i]? = some e) (he : free e = false) (hj : slots[j]? = some f)
    (hf : free f = false) (hkey : keyOf e = keyOf f) : i = j := by
  have hei := h.reach i e hi he
  rw [hkey, h.reach j f hj hf] at hei
  exact (Option.some.inj hei).symm

/-- No two entries have the same key. -/
theorem nodup (h : Sound free keyOf hash slots) : ((live free slots).map keyOf).Nodup := by
  rw [List.Nodup, List.pairwise_map, live, List.pairwise_filter, List.pairwise_iff_getElem]
  intro i j hi hj hij he hf hkey
  have heq := h.index_inj (List.getElem?_eq_getElem hi) (by simpa using he)
    (List.getElem?_eq_getElem hj) (by simpa using hf) hkey
  omega

end Sound
end OneBrc.Lib.OpenAddressing
