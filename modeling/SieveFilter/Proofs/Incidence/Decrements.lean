import SieveFilter.Proofs.Incidence.Trimming

/-!
# Decrements

The deletion of a row is the only place where counts go down.  While a table is consistent no decrement goes
below zero, because every reference of the row was counted.  Sweeps, trimmings and prunings delete rows one
after the other; each of these deletions finds a consistent table and a row in use.
-/

namespace SieveFilter.Incidence

/-- The table in which a row is out of use and some of its references are dropped. -/
def dropping (table : Incidence) (row : ℕ) (slots : List ℕ) : Incidence :=
  slots.foldl dropReference
    { table with
      used := table.used.setIfInBounds row false
      lists := table.lists.setIfInBounds row none
      liveRows := table.liveRows - 1 }

theorem dropping_list (table : Incidence) (row : ℕ) :
    table.dropping row (table.list row) = table.delete row := rfl

/-- No decrement that the deletion of a row makes goes below zero: the row counts as used, each slot of its
list still has a reference when one is dropped, and the slot of the last reference counts as live. -/
structure Droppable (table : Incidence) (row : ℕ) : Prop where
  liveRows_pos : 0 < table.liveRows
  count_pos : ∀ before slot after, table.list row = before ++ slot :: after →
    0 < (table.dropping row before).count slot
  liveIdeals_pos : ∀ before slot after, table.list row = before ++ slot :: after →
    (table.dropping row before).count slot = 1 → 0 < (table.dropping row before).liveIdeals

theorem Consistent.droppable {table : Incidence} (h : table.Consistent) {row : ℕ}
    (hrow : row ∈ table.usedSet) : Droppable table row := by
  have hpos : ∀ before slot after, table.list row = before ++ slot :: after →
      0 < (table.dropping row before).count slot ∧
        (table.dropping row before).liveIdeals =
          (table.dropping row before).roster.liveSlots.card := by
    intro before slot after hlist
    have hle (other : ℕ) : ((table.list row).count other : ℤ) ≤ table.count other := by
      rw [h.count_eq]
      exact_mod_cast Rows.count_le_references table.list other hrow
    have hdropped : Dropped
        { table with
          used := table.used.setIfInBounds row false
          lists := table.lists.setIfInBounds row none
          liveRows := table.liveRows - 1 }
        before (table.dropping row before) := by
      refine dropped_foldl before h.liveIdeals_eq ?_
      intro other
      have hother := hle other
      rw [hlist, List.count_append] at hother
      simp only [count] at hother ⊢
      omega
    refine ⟨?_, hdropped.liveIdeals_eq⟩
    have hcount := hdropped.count_eq slot
    have hslot := hle slot
    rw [hlist, List.count_append, List.count_cons_self] at hslot
    simp only [count, dropping] at hcount hslot ⊢
    omega
  refine ⟨?_, fun before slot after hlist => (hpos before slot after hlist).1, ?_⟩
  · rw [h.liveRows_eq]
    exact Finset.card_pos.mpr ⟨row, hrow⟩
  · intro before slot after hlist _
    obtain ⟨hslot, hlive⟩ := hpos before slot after hlist
    rw [hlive]
    exact Finset.card_pos.mpr ⟨slot, Roster.mem_liveSlots.mpr hslot⟩

/-! ## Deletions on the way -/

/-- A sweep over `rows` from `table` deletes `row` from `mid`. -/
inductive DropsInSweep : Incidence → List ℕ → Incidence → ℕ → Prop
  | here {table : Incidence} {row : ℕ} {rest : List ℕ} (hused : table.isUsed row = true)
      (hsingleton : table.hasSingleton row = true) : DropsInSweep table (row :: rest) table row
  | later {table mid : Incidence} {head row : ℕ} {rest : List ℕ}
      (hrest : DropsInSweep (Sweep.step ⟨table, 0⟩ head).table rest mid row) :
      DropsInSweep table (head :: rest) mid row

/-- The removal of singletons from `table` deletes `row` from `mid`. -/
inductive DropsSingleton : Incidence → Incidence → ℕ → Prop
  | sweep {table mid : Incidence} {row : ℕ}
      (hsweep : DropsInSweep table (List.range table.size) mid row) : DropsSingleton table mid row
  | again {table mid : Incidence} {row : ℕ} (hsome : table.sweep.deleted ≠ 0)
      (hrest : DropsSingleton table.sweep.table mid row) : DropsSingleton table mid row

/-- Deleting `rows` from `table` in order down to a target deletes `row` from `mid`. -/
inductive DropsUntil (target : ℤ) : Incidence → List ℕ → Incidence → ℕ → Prop
  | here {table : Incidence} {row : ℕ} {rest : List ℕ} (habove : target < table.excess) :
      DropsUntil target table (row :: rest) table row
  | later {table mid : Incidence} {head row : ℕ} {rest : List ℕ} (habove : target < table.excess)
      (hrest : DropsUntil target (table.delete head) rest mid row) :
      DropsUntil target table (head :: rest) mid row

/-- A trimming of `table` deletes `row` from `mid`. -/
def DropsInTrim (keep : ℕ) (cost : Cost) (table mid : Incidence) (row : ℕ) : Prop :=
  signed keep < table.excess ∧
    DropsUntil (table.target keep) table (ranked cost table.extent table.clusters) mid row

/-- The pruning of `table` deletes `row` from `mid`. -/
inductive DropsInPrune (keep : ℕ) (final : Bool) (cost : Cost) :
    Incidence → Incidence → ℕ → Prop
  | trim {table mid : Incidence} {row : ℕ} (hfinal : final = true)
      (htrim : DropsInTrim keep cost table mid row) : DropsInPrune keep final cost table mid row
  | singleton {table mid : Incidence} {row : ℕ}
      (hsingleton : DropsSingleton
        (if final then table.trim keep cost else ⟨table, 0, []⟩).table mid row) :
      DropsInPrune keep final cost table mid row
  | again {table mid : Incidence} {row : ℕ}
      (hfewer : (table.pruneRound keep final cost).table.liveRows ≠ table.liveRows)
      (hrest : DropsInPrune keep final cost (table.pruneRound keep final cost).table mid row) :
      DropsInPrune keep final cost table mid row

variable {table mid : Incidence} {row : ℕ}

/-! ### What is deleted is in use -/

/-- A sweep deletes rows with a singleton, after it has peeled off others. -/
theorem DropsInSweep.peels {rows : List ℕ} (h : DropsInSweep table rows mid row) :
    Peels table mid ∧ row ∈ mid.usedSet ∧ mid.hasSingleton row = true := by
  induction h with
  | here hused hsingleton => exact ⟨.refl, mem_usedSet.mpr hused, hsingleton⟩
  | @later table _ head _ _ _ ih => exact ⟨(Sweep.peels_step ⟨table, 0⟩ head).trans ih.1, ih.2⟩

theorem DropsSingleton.peels (h : DropsSingleton table mid row) :
    Peels table mid ∧ row ∈ mid.usedSet ∧ mid.hasSingleton row = true := by
  induction h with
  | sweep hsweep => exact hsweep.peels
  | @again table _ _ _ _ ih => exact ⟨(peels_sweep table).trans ih.1, ih.2⟩

theorem DropsUntil.reached {target : ℤ} {rows : List ℕ} (h : DropsUntil target table rows mid row)
    (hnodup : rows.Nodup) (hused : ∀ other ∈ rows, other ∈ table.usedSet) :
    Deletes table mid ∧ row ∈ mid.usedSet := by
  induction h with
  | here _ => exact ⟨.refl, hused _ List.mem_cons_self⟩
  | @later table _ head _ rest _ _ ih =>
    obtain ⟨hfresh, hnodup⟩ := List.nodup_cons.mp hnodup
    have hhead := hused head List.mem_cons_self
    have hrest : ∀ other ∈ rest, other ∈ (table.delete head).usedSet := by
      intro other hother
      rw [usedSet_delete, Finset.mem_erase]
      exact ⟨fun heq => hfresh (heq ▸ hother), hused other (List.mem_cons_of_mem head hother)⟩
    obtain ⟨hdeletes, hrow⟩ := ih hnodup hrest
    exact ⟨.head ⟨head, hhead, rfl⟩ hdeletes, hrow⟩

theorem DropsInTrim.reached {keep : ℕ} {cost : Cost} (h : DropsInTrim keep cost table mid row)
    (hconsistent : table.Consistent) : Deletes table mid ∧ row ∈ mid.usedSet := by
  obtain ⟨hnodup, hused, -⟩ := hconsistent.representatives
  have hperm := ranked_perm cost table.extent table.clusters
  exact h.2.reached (hperm.nodup_iff.mpr hnodup)
    fun other hother => hused other (hperm.mem_iff.mp hother)

theorem DropsInPrune.reached {keep : ℕ} {final : Bool} {cost : Cost}
    (h : DropsInPrune keep final cost table mid row) (hconsistent : table.Consistent) :
    Deletes table mid ∧ row ∈ mid.usedSet := by
  induction h with
  | trim _ htrim => exact htrim.reached hconsistent
  | @singleton table _ _ hsingleton =>
    obtain ⟨hpeels, hrow, -⟩ := hsingleton.peels
    have hdeletes := hpeels.deletes
    refine ⟨?_, hrow⟩
    cases final with
    | false => exact hdeletes
    | true =>
      rw [if_pos rfl] at hdeletes
      exact (hconsistent.deletes_trim keep cost).trans hdeletes
  | @again table _ _ _ _ ih =>
    have hround := hconsistent.deletes_pruneRound keep final cost
    obtain ⟨hdeletes, hrow⟩ := ih (hround.remainder hconsistent).consistent
    exact ⟨hround.trans hdeletes, hrow⟩

/-! ### What goes out of use is deleted -/

theorem eq_of_notMem_delete {head : ℕ} (hrow : row ∈ table.usedSet)
    (hlost : row ∉ (table.delete head).usedSet) : row = head := by
  by_contra hne
  rw [usedSet_delete] at hlost
  exact hlost (Finset.mem_erase.mpr ⟨hne, hrow⟩)

theorem Sweep.step_table (table : Incidence) (deleted head : ℕ) :
    (Sweep.step ⟨table, deleted⟩ head).table = (Sweep.step ⟨table, 0⟩ head).table := by
  simp only [step]
  split <;> rfl

theorem exists_dropsInSweep {rows : List ℕ} {deleted : ℕ} (hrow : row ∈ table.usedSet)
    (hlost : row ∉ (rows.foldl Sweep.step ⟨table, deleted⟩).table.usedSet) :
    ∃ mid, DropsInSweep table rows mid row := by
  induction rows generalizing table deleted with
  | nil => exact absurd hrow hlost
  | cons head rest ih =>
    by_cases hkept : row ∈ (Sweep.step ⟨table, 0⟩ head).table.usedSet
    · rw [← Sweep.step_table table deleted head] at hkept
      obtain ⟨mid, hmid⟩ := ih hkept hlost
      rw [Sweep.step_table] at hmid
      exact ⟨mid, .later hmid⟩
    · by_cases hdelete : (table.isUsed head && table.hasSingleton head) = true
      · simp only [Sweep.step, hdelete, if_true] at hkept
        have heq := eq_of_notMem_delete hrow hkept
        subst heq
        obtain ⟨hused, hsingleton⟩ := Bool.and_eq_true_iff.mp hdelete
        exact ⟨table, .here hused hsingleton⟩
      · simp only [Sweep.step, hdelete] at hkept
        exact absurd hrow hkept

theorem exists_dropsSingleton (hrow : row ∈ table.usedSet)
    (hlost : row ∉ table.removeSingletons.table.usedSet) :
    ∃ mid, DropsSingleton table mid row := by
  fun_induction removeSingletons table with
  | case1 table swept hresult =>
    have hswept : row ∉ table.sweep.table.usedSet := by rwa [hresult]
    obtain ⟨mid, hmid⟩ := exists_dropsInSweep hrow hswept
    exact ⟨mid, .sweep hmid⟩
  | case2 table swept deleted hresult notice rest ih =>
    by_cases hswept : row ∈ table.sweep.table.usedSet
    · rw [hresult] at hswept
      obtain ⟨mid, hmid⟩ := ih hswept hlost
      refine ⟨mid, .again ?_ ?_⟩
      · rw [hresult]
        exact Nat.succ_ne_zero deleted
      · rwa [hresult]
    · obtain ⟨mid, hmid⟩ := exists_dropsInSweep hrow hswept
      exact ⟨mid, .sweep hmid⟩

theorem exists_dropsUntil {target : ℤ} {rows : List ℕ} {deleted : ℕ} (hrow : row ∈ table.usedSet)
    (hlost : row ∉ (deleteUntil target table deleted rows).table.usedSet) :
    ∃ mid, DropsUntil target table rows mid row := by
  induction rows generalizing table deleted with
  | nil => exact absurd hrow hlost
  | cons head rest ih =>
    rw [deleteUntil] at hlost
    split at hlost
    next => exact absurd hrow hlost
    next habove =>
      by_cases hkept : row ∈ (table.delete head).usedSet
      · obtain ⟨mid, hmid⟩ := ih hkept hlost
        exact ⟨mid, .later (Int.not_le.mp habove) hmid⟩
      · have heq := eq_of_notMem_delete hrow hkept
        exact ⟨table, heq ▸ .here (Int.not_le.mp habove)⟩

theorem exists_dropsInTrim {keep : ℕ} {cost : Cost} (hrow : row ∈ table.usedSet)
    (hlost : row ∉ (table.trim keep cost).table.usedSet) :
    ∃ mid, DropsInTrim keep cost table mid row := by
  simp only [trim] at hlost
  split at hlost
  next => exact absurd hrow hlost
  next habove =>
    obtain ⟨mid, hmid⟩ := exists_dropsUntil hrow hlost
    exact ⟨mid, Int.not_le.mp habove, hmid⟩

theorem exists_dropsInRound {keep : ℕ} {final : Bool} {cost : Cost} (hrow : row ∈ table.usedSet)
    (hlost : row ∉ (table.pruneRound keep final cost).table.usedSet) :
    ∃ mid, DropsInPrune keep final cost table mid row := by
  rw [pruneRound_table] at hlost
  by_cases htrimmed :
      row ∈ (if final then table.trim keep cost else ⟨table, 0, []⟩).table.usedSet
  · obtain ⟨mid, hmid⟩ := exists_dropsSingleton htrimmed hlost
    exact ⟨mid, .singleton hmid⟩
  · cases final with
    | false => exact absurd hrow htrimmed
    | true =>
      rw [if_pos rfl] at htrimmed
      obtain ⟨mid, hmid⟩ := exists_dropsInTrim hrow htrimmed
      exact ⟨mid, .trim rfl hmid⟩

theorem exists_dropsInPrune {keep : ℕ} {final : Bool} {cost : Cost} (hrow : row ∈ table.usedSet)
    (hlost : row ∉ (table.prune keep final cost).table.usedSet) :
    ∃ mid, DropsInPrune keep final cost table mid row := by
  induction hrows : table.liveRows using Nat.strongRecOn generalizing table with
  | ind rows ih =>
    have hle := liveRows_pruneRound_le table keep final cost
    rw [prune_table] at hlost
    split at hlost
    next => exact exists_dropsInRound hrow hlost
    next hfewer =>
      by_cases hround : row ∈ (table.pruneRound keep final cost).table.usedSet
      · obtain ⟨mid, hmid⟩ := ih _ (by omega) hround hlost rfl
        exact ⟨mid, .again hfewer hmid⟩
      · exact exists_dropsInRound hrow hround

end SieveFilter.Incidence
