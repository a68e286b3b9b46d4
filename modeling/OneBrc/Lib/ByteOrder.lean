import Mathlib.Data.List.Lex
import OneBrc.Lib.Decimal
import OneBrc.Lib.StableSort

/-! The lexicographic order of strings of bytes. -/
namespace OneBrc.Lib.ByteOrder
open StableSort

def less : Bytes → Bytes → Bool
  | _, [] => false
  | [], _ :: _ => true
  | a :: as, b :: bs => a < b || a == b && less as bs

/-- The order as an order of lists of numbers. -/
def rank (bs : Bytes) : List ℕ := bs.map UInt8.toNat

theorem less_iff {as bs : Bytes} : less as bs = true ↔ rank as < rank bs := by
  induction as generalizing bs with
  | nil =>
    cases bs with
    | nil => simp [less]
    | cons b bs => simp [less, rank]
  | cons a as ih =>
    cases bs with
    | nil => simp [less, rank]
    | cons b bs =>
      have htail : less as bs = true ↔ as.map UInt8.toNat < bs.map UInt8.toNat := ih
      rw [rank, rank, List.map_cons, List.map_cons, List.cons_lt_cons_iff, less, Bool.or_eq_true,
        decide_eq_true_eq, Bool.and_eq_true, htail, beq_iff_eq, UInt8.lt_iff_toNat_lt,
        UInt8.toNat_inj]

theorem rank_injective : Function.Injective rank :=
  List.map_injective_iff.mpr fun _ _ => UInt8.toNat_inj.mp

/-- Different strings are sorted strictly. -/
theorem sort_strict {l : List Bytes} (hn : l.Nodup) :
    (sliceStable less l).Pairwise fun a b => less a b = true := by
  have hsorted := sliceStable_sorted (l := l) (f := rank) fun a b => less_iff
  have hnodup : (sliceStable less l).Nodup := (sliceStable_perm less l).nodup_iff.mpr hn
  apply (hsorted.and hnodup).imp
  rintro a b ⟨hle, hne⟩
  exact less_iff.mpr (lt_of_le_of_ne hle fun heq => hne (rank_injective heq))

/-- The strings in strict order are what the sort returns. -/
theorem sort_eq {l l' : List Bytes} (hperm : l'.Perm l)
    (hsorted : l'.Pairwise fun a b => less a b = true) : sliceStable less l = l' :=
  sliceStable_eq (f := rank) (fun _ _ => less_iff) hperm (hsorted.imp less_iff.mp)

theorem less_append_left (as : Bytes) {bs cs : Bytes} (h : less bs cs = true) :
    less (as ++ bs) (as ++ cs) = true := by
  induction as with
  | nil => exact h
  | cons a as ih => simp [less, ih]

/-- Strings keep their order before a byte that is below all of theirs. -/
theorem less_append_cons {stop : UInt8} {as bs : Bytes} (has : ∀ a ∈ as, stop < a)
    (hbs : ∀ b ∈ bs, stop < b) (h : less as bs = true) (cs ds : Bytes) :
    less (as ++ stop :: cs) (bs ++ stop :: ds) = true := by
  induction as generalizing bs with
  | nil =>
    cases bs with
    | nil => cases h
    | cons b bs =>
      have hb := hbs b List.mem_cons_self
      simp [less, hb]
  | cons a as ih =>
    cases bs with
    | nil => cases h
    | cons b bs =>
      rw [less, Bool.or_eq_true, Bool.and_eq_true, decide_eq_true_eq] at h
      rw [List.cons_append, List.cons_append, less, Bool.or_eq_true, Bool.and_eq_true,
        decide_eq_true_eq]
      rcases h with hlt | ⟨heq, hless⟩
      · exact .inl hlt
      · exact .inr ⟨heq, ih (fun x hx => has x (List.mem_cons_of_mem _ hx))
          (fun x hx => hbs x (List.mem_cons_of_mem _ hx)) hless⟩

end OneBrc.Lib.ByteOrder
