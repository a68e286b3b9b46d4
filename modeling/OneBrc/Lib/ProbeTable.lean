import OneBrc.Lib.OpenAddressing

/-! Hash tables with open addressing whose searches go on by remainders, and their growth. -/
namespace OneBrc.Lib.ProbeTable
open OpenAddressing
variable {ε κ : Type}

/-- The first index from `i` on, around the table, at which a search stops. -/
def search (stop : ℕ → Bool) (capacity : ℕ) : ℕ → ℕ → Option ℕ
  | 0, _ => none
  | fuel + 1, i => if stop i then some i else search stop capacity fuel ((i + 1) % capacity)

/-- The slot at which the search for a hash ends. -/
def find (free same : ε → Bool) (slots : List ε) (hash : ℕ) : Option ℕ :=
  search (stops free same slots) slots.length slots.length (hash % slots.length)

/-- An entry put into the first free slot of its search. -/
def place (free : ε → Bool) (hash : ε → ℕ) (slots : List ε) (e : ε) : Option (List ε) := do
  let i ← find free (fun _ => false) slots (hash e)
  some (slots.set i e)

section
variable {stop : ℕ → Bool} {free same : ε → Bool} {slots : List ε} {fuel i n : ℕ}

theorem search_eq_probe (k : ℕ) : search stop (2 ^ k) fuel i = probe stop (2 ^ k - 1) fuel i := by
  induction fuel generalizing i with
  | zero => rfl
  | succ fuel ih => rw [search, probe, ih, Nat.and_two_pow_sub_one_eq_mod]

theorem find_eq_locate (hpow : ∃ k, slots.length = 2 ^ k) :
    find free same slots n = locate free same slots n := by
  obtain ⟨k, hk⟩ := hpow
  unfold find locate
  rw [hk, search_eq_probe, Nat.and_two_pow_sub_one_eq_mod]

end

section Growth
variable [DecidableEq κ] {free : ε → Bool} {keyOf : ε → κ} {hash : κ → ℕ} {slots : List ε}

/-- A new key finds a free slot when there is one. -/
theorem exists_place (h : Sound free keyOf hash slots) {e : ε} (he : free e = false)
    (hroom : (live free slots).length < slots.length)
    (hnew : ∀ f ∈ live free slots, keyOf f ≠ keyOf e) :
    ∃ slots', place free (fun e => hash (keyOf e)) slots e = some slots' ∧
      Sound free keyOf hash slots' ∧ (live free slots').Perm (e :: live free slots) ∧
      slots'.length = slots.length := by
  obtain ⟨i, hi⟩ : ∃ i, locate free (fun _ => false) slots (hash (keyOf e)) = some i :=
    exists_locate h.length_eq hroom
  have hkey : locate free (fun f => decide (keyOf f = keyOf e)) slots (hash (keyOf e)) =
      some i := by
    rw [← hi]
    exact locate_congr fun f hf => decide_eq_false (hnew f hf)
  have hlt := locate_lt h.length_eq hi
  have hfree : free slots[i] = true := by
    have hstop := stops_of_locate hi
    rw [stops, List.getElem?_eq_getElem hlt] at hstop
    simpa using hstop
  refine ⟨slots.set i e, ?_, h.set hkey he, ?_, List.length_set⟩
  · rw [place, find_eq_locate h.length_eq, hi]
    rfl
  · exact live_set_perm (List.getElem?_eq_getElem hlt) hfree he

/-- All entries of a table put into an empty one with more room. -/
theorem exists_refill (entries : List ε) (h : Sound free keyOf hash slots)
    (hfree : ∀ e ∈ entries, free e = false)
    (hnodup : ((live free slots ++ entries).map keyOf).Nodup)
    (hroom : (live free slots).length + entries.length < slots.length) :
    ∃ slots', entries.foldlM (place free fun e => hash (keyOf e)) slots = some slots' ∧
      Sound free keyOf hash slots' ∧ (live free slots').Perm (live free slots ++ entries) ∧
      slots'.length = slots.length := by
  induction entries generalizing slots with
  | nil => exact ⟨slots, rfl, h, by rw [List.append_nil], rfl⟩
  | cons e entries ih =>
    obtain ⟨he, hentries⟩ := List.forall_mem_cons.mp hfree
    have hnew : ∀ f ∈ live free slots, keyOf f ≠ keyOf e := by
      rw [List.map_append] at hnodup
      intro f hf
      exact (List.nodup_append.mp hnodup).2.2 _ (List.mem_map_of_mem hf) _ List.mem_cons_self
    rw [List.length_cons] at hroom
    obtain ⟨slots₁, hplace, h₁, hperm₁, hlength₁⟩ := exists_place h he (by omega) hnew
    have hall : (live free slots₁ ++ entries).Perm (live free slots ++ e :: entries) :=
      (hperm₁.append_right entries).trans List.perm_middle.symm
    obtain ⟨slots₂, hfold, h₂, hperm₂, hlength₂⟩ := ih h₁ hentries
      ((hall.map keyOf).nodup_iff.mpr hnodup) (by rw [hperm₁.length_eq, List.length_cons]; omega)
    refine ⟨slots₂, ?_, h₂, hperm₂.trans hall, hlength₂.trans hlength₁⟩
    rw [List.foldlM_cons, hplace]
    exact hfold

end Growth
end OneBrc.Lib.ProbeTable
