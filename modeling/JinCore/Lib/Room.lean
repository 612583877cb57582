import Mathlib.Data.Finset.Card

/-!
# Room for those that wait

A process looks whether there is room for one more, and takes it later.  The bound holds where those
that wait are counted with what is taken.

* `Fits P n bound`   `n` places are taken, and all that meet `P` would find one besides;
* `Fits.mono`        fewer places, or fewer that wait;
* `Fits.join`        one more waits, where there is room beside the others;
* `Fits.take`        one of those that wait takes its place.
-/

namespace Room
variable {ι : Type*} {P P' : ι → Prop} {n n' bound : Nat} {c : ι}

def Fits (P : ι → Prop) (n bound : Nat) : Prop :=
  ∀ cs : Finset ι, (∀ k ∈ cs, P k) → n + cs.card ≤ bound

theorem Fits.le (h : Fits P n bound) : n ≤ bound :=
  h ∅ fun k hk => absurd hk (Finset.notMem_empty k)

theorem Fits.mono (h : Fits P n bound) (hP : ∀ k, P' k → P k) (hn : n' ≤ n) : Fits P' n' bound := by
  intro cs hcs
  have hle := h cs fun k hk => hP k (hcs k hk)
  omega

/-- nobody waits -/
theorem fits_of_none (hP : ∀ k, ¬ P k) (hn : n ≤ bound) : Fits P n bound := by
  intro cs hcs
  have hnone : cs = ∅ := Finset.eq_empty_iff_forall_notMem.mpr fun k hk => hP k (hcs k hk)
  rw [hnone, Finset.card_empty]
  exact hn

theorem Fits.join [DecidableEq ι] (h : Fits P (n + 1) bound) (hP : ∀ k, P' k → k = c ∨ P k) :
    Fits P' n bound := by
  intro cs hcs
  have hothers : ∀ k ∈ cs.erase c, P k := by
    intro k hk
    obtain ⟨hkc, hk⟩ := Finset.mem_erase.mp hk
    exact (hP k (hcs k hk)).resolve_left hkc
  have hle := h _ hothers
  have hcard := Finset.pred_card_le_card_erase (s := cs) (a := c)
  omega

theorem Fits.take [DecidableEq ι] (h : Fits P n bound) (hc : P c) (hP : ∀ k, P' k → k ≠ c ∧ P k) :
    Fits P' (n + 1) bound := by
  intro cs hcs
  have hnot : c ∉ cs := fun hmem => (hP c (hcs c hmem)).1 rfl
  have hwith : ∀ k ∈ insert c cs, P k := by
    intro k hk
    rcases Finset.mem_insert.mp hk with rfl | hk
    · exact hc
    · exact (hP k (hcs k hk)).2
  have hle := h _ hwith
  rw [Finset.card_insert_of_notMem hnot] at hle
  omega

end Room
